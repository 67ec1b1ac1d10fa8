import DistriStore.Network.Delivery

/-!
# Handshake agreement

What the two ends of a connection know of each other once `connect_to_peer` has returned, for
every interleaving of their steps and frames.  The acknowledgement is only written by a handler
that has accepted the AUTH message, so a dialler that has it shares the key of the other node and
is known there; and `add_peer` brings an older record up to date (`handshake_agreement`).
-/

namespace DistriStore.Duplex

open Lib Connection

/-- The registry has the node under its id, with its present ports. -/
def Holds (registry : Registry) (p : Peer) : Prop :=
  ∃ r, registry.peers.get? (.str p.nodeId) = some r ∧ r.nodeId = .str p.nodeId ∧
    r.tcpPort = .int p.tcpPort ∧ (p.apiPort ≠ 0 → r.apiPort = .int p.apiPort)

/-- The node at the other end. -/
def Config.other (c : Config) : Side → Peer
  | .dialer => c.acceptor
  | .acceptor => c.dialer

/-- The record of the node at the other end. -/
def Config.otherRecord (c : Config) : Side → PeerRecord
  | .dialer => c.acceptorRecord
  | .acceptor => c.dialerRecord

/-- Once a node has added the other one, nothing else touches its record of it. -/
def Undisturbed (c : Config) (s : State) : Label → Prop
  | .others side peers => (s.get side).added = true →
      peers.peers.get? (.str (c.other side).nodeId) =
        (s.get side).peers.peers.get? (.str (c.other side).nodeId)
  | _ => True

/-! ## Keys -/

lemma signature_of_isAuth {swarmKey swarmKey' nodeId : String}
    (h : IsAuth swarmKey (authHandshakeMsg nodeId swarmKey')) :
    authSignature swarmKey' nodeId = authSignature swarmKey nodeId := by
  obtain ⟨-, -, n, hid, hsig⟩ := h
  simp only [authHandshakeMsg, Value.getD, Value.isStr] at hid hsig
  simp at hid hsig
  rw [hsig, hid]

variable {c : Config} {s t : State}

/-- With different keys no AUTH message is accepted. -/
lemma Inv.strangers (h : Inv c s)
    (hmac : authSignature c.dialer.swarmKey c.dialer.nodeId ≠
      authSignature c.acceptor.swarmKey c.dialer.nodeId) :
    s.acceptor.record = none ∧ s.dialer.record = none := by
  have hacceptor : s.acceptor.record = none := by
    by_contra hsome
    have hauth := h.authentic (Or.inr (Option.isSome_iff_ne_none.2 hsome))
    exact hmac (signature_of_isAuth hauth)
  refine ⟨hacceptor, ?_⟩
  by_contra hsome
  obtain ⟨r, hr⟩ := Option.ne_none_iff_exists'.1 hsome
  have := (h.dialerRecord r hr).2
  simp [hacceptor] at this

/-! ## Registries -/

lemma Inv.record_eq (h : Inv c s) {side : Side} {r : PeerRecord}
    (hr : (s.get side).record = some r) :
    r = c.otherRecord side := by
  cases side with
  | dialer => exact (h.dialerRecord r hr).1
  | acceptor => exact h.acceptorRecord r hr

/-- The two records are those of `add_peer` for the node at the other end. -/
lemma holds_addPeer (c : Config) (registry : Registry) (side : Side) (now : ℚ) :
    Holds (registry.addPeer (c.otherRecord side) now) (c.other side) := by
  have hid : (c.otherRecord side).nodeId = .str (c.other side).nodeId := by cases side <;> rfl
  obtain ⟨-, htcp, hapi⟩ := registry.merged_current (c.otherRecord side) now
  refine ⟨registry.merged (c.otherRecord side) now, ?_, ?_, ?_, fun hport => ?_⟩
  · rw [Registry.get?_addPeer, hid, if_pos rfl]
  · rw [Registry.nodeId_merged, hid]
  · rw [htcp]
    cases side <;> rfl
  · rw [hapi]
    · cases side <;> rfl
    · cases side <;> simpa [Config.otherRecord, Config.acceptorRecord, Config.dialerRecord,
        Value.truthy, Config.other] using hport

/-- The handlers themselves leave the registries alone. -/
lemma registry_apply (side side' : Side) (msg : Value) (e : Effect) :
    ((s.apply c side msg e).get side').peers = (s.get side').peers ∧
      ((s.apply c side msg e).get side').added = (s.get side').added := by
  cases e with
  | register p ph =>
    simp only [State.apply]
    split <;> cases side <;> cases side' <;> exact ⟨rfl, rfl⟩
  | _ => cases side <;> cases side' <;> exact ⟨rfl, rfl⟩

/-- A registry changes only when `add_peer` runs, or when something else changes it. -/
lemma registry_exec {l : Label} (ht : exec c s l = some t) (side : Side) :
    ((t.get side).peers = (s.get side).peers ∧ (t.get side).added = (s.get side).added) ∨
    (∃ now r, l = .addPeer side now ∧ (s.get side).record = some r ∧
      (t.get side).peers = (s.get side).peers.addPeer r now) ∨
    ∃ peers, l = .others side peers ∧ (t.get side).peers = peers ∧
      (t.get side).added = (s.get side).added := by
  cases l with
  | greet =>
    obtain ⟨message, rest, -, rfl⟩ := exec_greet ht
    exact Or.inl (by cases side <;> exact ⟨rfl, rfl⟩)
  | receive side' =>
    obtain ⟨f, rest, e, -, -, -, rfl⟩ := exec_receive ht
    obtain ⟨hpeers, hadded⟩ := registry_apply (c := c)
      (s := s.set side' { s.get side' with inbox := rest }) side' side f.unpacked e
    rw [hpeers, hadded]
    exact Or.inl (by cases side <;> cases side' <;> exact ⟨rfl, rfl⟩)
  | noMessage side' =>
    obtain ⟨e, -, rfl⟩ := exec_noMessage ht
    exact Or.inl (registry_apply side' side _ e)
  | done side' ok =>
    obtain ⟨e, -, rfl⟩ := exec_done ht
    exact Or.inl (registry_apply side' side _ e)
  | send side' f =>
    obtain ⟨-, rfl⟩ := exec_send ht
    exact Or.inl (by cases side <;> cases side' <;> exact ⟨rfl, rfl⟩)
  | addPeer side' now =>
    obtain ⟨r, hr, -, rfl⟩ := exec_addPeer ht
    by_cases hside : side = side'
    · subst hside
      exact Or.inr (Or.inl ⟨now, r, rfl, hr, by cases side <;> rfl⟩)
    · exact Or.inl (by
        cases side <;> cases side' <;> first | exact absurd rfl hside | exact ⟨rfl, rfl⟩)
  | others side' peers =>
    rw [← Option.some.inj ht]
    by_cases hside : side = side'
    · subst hside
      exact Or.inr (Or.inr ⟨peers, rfl, by cases side <;> exact ⟨rfl, rfl⟩⟩)
    · exact Or.inl (by
        cases side <;> cases side' <;> first | exact absurd rfl hside | exact ⟨rfl, rfl⟩)
  | lost =>
    rw [← Option.some.inj ht]
    exact Or.inl (by cases side <;> exact ⟨rfl, rfl⟩)

/-- What the nodes know of each other once they have added each other. -/
lemma holds_step {l : Label} (h : Inv c s) (hl : Undisturbed c s l) (ht : exec c s l = some t)
    {side : Side} (hs : (s.get side).added = true → Holds (s.get side).peers (c.other side))
    (hadded : (t.get side).added = true) : Holds (t.get side).peers (c.other side) := by
  rcases registry_exec ht side with ⟨hpeers, hsame⟩ | ⟨now, r, -, hr, hpeers⟩ |
    ⟨peers, rfl, rfl, hsame⟩
  · rw [hpeers]
    exact hs (hsame ▸ hadded)
  · rw [hpeers, h.record_eq hr]
    exact holds_addPeer ..
  · obtain ⟨r, hr, hrest⟩ := hs (hsame ▸ hadded)
    exact ⟨r, (hl (hsame ▸ hadded)).trans hr, hrest⟩

/-- **Handshake agreement.** A dialler that has returned its connection has the key of the node it
has dialled, which has made a record of it before, as it has of that node; nodes with different
keys make no record of each other.  When a record has been added, and unless it is touched later,
the registry has the other node under its id with its ports, whatever it had before. -/
theorem handshake_agreement (c : Config)
    (hmac : c.dialer.swarmKey ≠ c.acceptor.swarmKey →
      authSignature c.dialer.swarmKey c.dialer.nodeId ≠
        authSignature c.acceptor.swarmKey c.dialer.nodeId) :
    (∀ s, (machine c).Reachable s →
      (s.dialer.phase = .connected →
        c.dialer.swarmKey = c.acceptor.swarmKey ∧ s.acceptor.record = some c.dialerRecord ∧
          s.dialer.record = some c.acceptorRecord) ∧
      (c.dialer.swarmKey ≠ c.acceptor.swarmKey →
        s.dialer.phase.registered = false ∧ s.acceptor.phase.registered = false ∧
          s.dialer.record = none ∧ s.acceptor.record = none)) ∧
    ∀ s, (machine c).ReachableBy (Undisturbed c) s → ∀ side,
      (s.get side).added = true → Holds (s.get side).peers (c.other side) := by
  refine ⟨fun s hs => ⟨fun hconnected => ?_, fun hkeys => ?_⟩, fun s hs => ?_⟩
  · have h := inv_of_reachable hs
    obtain ⟨-, hsome⟩ : s.greetings = [] ∧ s.dialer.record.isSome = true := by
      rcases h.dialing with hd | ⟨-, hd⟩ | hd
      · simp [hconnected] at hd
      · exact hd
      · simp [hconnected] at hd
    obtain ⟨r, hr⟩ := Option.isSome_iff_exists.1 hsome
    obtain ⟨rfl, hother⟩ := h.dialerRecord r hr
    obtain ⟨r', hr'⟩ := Option.isSome_iff_exists.1 hother
    refine ⟨?_, h.acceptorRecord r' hr' ▸ hr', hr⟩
    by_contra hkeys
    simp [(h.strangers (hmac hkeys)).1] at hother
  · have h := inv_of_reachable hs
    obtain ⟨hacceptor, hdialer⟩ := h.strangers (hmac hkeys)
    refine ⟨?_, ?_, hdialer, hacceptor⟩
    · rcases h.dialing with hd | ⟨-, -, hd⟩ | hd
      · rw [hd]
        rfl
      · simp [hdialer] at hd
      · rw [hd]
        rfl
    · by_contra hreg
      have := h.registered (by simpa using hreg)
      simp [hacceptor] at this
  · have hinv : Inv c s ∧ ∀ side, (s.get side).added = true →
        Holds (s.get side).peers (c.other side) := by
      refine hs.invariant (I := fun s => Inv c s ∧ ∀ side, (s.get side).added = true →
        Holds (s.get side).peers (c.other side)) ⟨inv_init c, fun side h => ?_⟩
        fun s l t hs ht hl => ⟨inv_exec hs.1 ht, fun side => holds_step hs.1 hl ht (hs.2 side)⟩
      cases side <;> simp [machine, init, State.get] at h
    exact hinv.2

/-- The node that is dialled has another key. -/
def strangers : Config := { twoNodes with acceptor := { twoNodes.acceptor with swarmKey := "k" } }

/-- Two nodes with one key agree; two with different keys do not. -/
theorem handshake_agreement_nodes :
    (∃ s, (machine twoNodes).Reachable s ∧ s.dialer.phase = .connected ∧
      s.acceptor.record = some twoNodes.dialerRecord) ∧
    ∀ s, (machine strangers).Reachable s → s.acceptor.record = none := by
  constructor
  · obtain ⟨s, hrun, hs⟩ := Option.map_eq_some_iff.1 (glance_answered twoNodes rfl)
    simp only [glance, Prod.mk.injEq] at hs
    obtain ⟨-, -, -, hconnected, -⟩ := hs
    obtain ⟨hagree, -⟩ := handshake_agreement twoNodes fun h => absurd rfl h
    exact ⟨s, ⟨answered, hrun⟩, hconnected, ((hagree s ⟨answered, hrun⟩).1 hconnected).2.1⟩
  · intro s hs
    have hmac : authSignature strangers.dialer.swarmKey strangers.dialer.nodeId ≠
        authSignature strangers.acceptor.swarmKey strangers.dialer.nodeId := by decide +kernel
    obtain ⟨hagree, -⟩ := handshake_agreement strangers fun _ => hmac
    have hkeys : strangers.dialer.swarmKey ≠ strangers.acceptor.swarmKey := by decide
    exact ((hagree s hs).2 hkeys).2.2.2

end DistriStore.Duplex
