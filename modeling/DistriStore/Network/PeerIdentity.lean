import DistriStore.Network.Connection
import Mathlib.Logic.Function.Basic

/-!
# The identity of an inbound connection

`_handle_client` reads a node id twice: the one in the AUTH message is signed and checked, and the
one in the HANDSHAKE message is the one under which the connection is entered and its peer is
registered.  Nothing compares the two.

A ledger beside the connection manager notes both.  An entry is made under the authenticated id if
and only if the HANDSHAKE names this id, and as long as all of them do, no handler touches the entry
of another node (`authentic_iff`).
-/

namespace DistriStore.Connection

open Lib

/-! ## The ledger -/

/-- `msg.get("node_id", "")` as a key; `none` when it has no hash. -/
def nodeKey (msg : Value) : Option Key :=
  match msg.getD "node_id" (.str "") with
  | .ok nodeId => nodeId.key?
  | .error _ => none

/-- What the handlers of inbound connections have done, by the places of the connections. -/
structure Ledger where
  /-- The id in the AUTH message that was accepted. -/
  auth : ℕ → Option Key := fun _ => none
  /-- `self.connections[conn.peer_id] = conn`. -/
  entered : List (ℕ × Key) := []
  /-- `PeerInfo(node_id=conn.peer_id, ...)`. -/
  records : List (ℕ × Key) := []

/-- The handler of connection `i` has received `msg`, with this effect. -/
def Ledger.note (g : Ledger) (i : ℕ) (msg : Value) : Phase → Effect → Ledger
  | .awaitAuth, .move .awaitHandshake => { g with auth := Function.update g.auth i (nodeKey msg) }
  | .awaitHandshake, .register p _ =>
    { g with entered := g.entered ++ [(i, p)], records := g.records ++ [(i, p)] }
  -- the exception is raised between the entry and the record
  | .awaitHandshake, .abort p => { g with entered := g.entered ++ [(i, p)] }
  | _, _ => g

def Ledger.observe (swarmKey : String) (g : Ledger) (s : State) (l : Label) (_ : State) : Ledger :=
  match l with
  | .resume i (.received (some msg)) =>
    match s.conns[i]? with
    | some c => (c.phase.resume swarmKey (.received (some msg))).elim g (g.note i msg c.phase)
    | none => g
  | _ => g

/-- The connection manager with its ledger. -/
def logged (swarmKey : String) : Machine (State × Ledger) Label :=
  (machine swarmKey).observed {} (Ledger.observe swarmKey)

/-- Every entry and every record is under the id that was authenticated on the connection. -/
def Authentic (g : Ledger) : Prop :=
  ∀ e ∈ g.entered ++ g.records, g.auth e.1 = some e.2

/-- The HANDSHAKE message that a handler accepts names the id that was authenticated. -/
def SameId (x : State × Ledger) : Label → Prop
  | .resume i (.received (some msg)) => ∀ c, x.1.conns[i]? = some c → c.phase = .awaitHandshake →
      rejects "HANDSHAKE" msg = .ok false → ∀ p, nodeKey msg = some p → x.2.auth i = some p
  | _ => True

/-! ## What a handler does next -/

/-- What the handler of a connection in phase `ph` does after an event. -/
inductive Turn (swarmKey : String) (ph : Phase) (event : Event) (e : Effect) : Prop where
  | authenticated (msg : Value) (phase : ph = .awaitAuth) (event : event = .received (some msg))
      (auth : IsAuth swarmKey msg) (effect : e = .move .awaitHandshake)
  | greeted (msg : Value) (p : Key) (phase : ph = .awaitHandshake)
      (event : event = .received (some msg)) (accepted : rejects "HANDSHAKE" msg = .ok false)
      (id : nodeKey msg = some p) (effect : e = .register p .acking ∨ e = .abort p)
  | turnedAway (phase : ph = .awaitAuth ∨ ph = .awaitHandshake ∨ ph = .dropping)
      (nameless : ∀ msg, ph = .awaitHandshake → event = .received (some msg) →
        rejects "HANDSHAKE" msg = .ok false → nodeKey msg = none)
      (effect : e = .close .dropping ∨ e = .finish ∨ e = .move .ended)
  | serving (phase : ph = .acking ∨ ph = .looping ∨ ph = .handling)
      (effect : e = .move .looping ∨ e = .move .handling ∨ e = .finish)
  | dialling (phase : ph = .awaitAck)
      (effect : e = .close .ended ∨ e = .move .ended ∨ ∃ p, e = .register p .connected)

variable {swarmKey : String}

lemma turn_onAuth (msg : Option Value) :
    Turn swarmKey .awaitAuth (.received msg) (onAuth swarmKey msg) := by
  unfold onAuth
  split
  · exact .turnedAway (Or.inl rfl) (by simp) (Or.inl rfl)
  · next v =>
    split
    · exact .turnedAway (Or.inl rfl) (by simp) (Or.inr (Or.inl rfl))
    · exact .turnedAway (Or.inl rfl) (by simp) (Or.inl rfl)
    · next h => exact .authenticated v rfl rfl (isAuth_of_checkAuth h) rfl

lemma turn_onHandshake (msg : Option Value) :
    Turn swarmKey .awaitHandshake (.received msg) (onHandshake msg) := by
  unfold onHandshake
  split
  · exact .turnedAway (Or.inr (Or.inl rfl)) (by simp) (Or.inl rfl)
  · next v =>
    split
    · next h =>
      exact .turnedAway (Or.inr (Or.inl rfl)) (by simp_all) (Or.inr (Or.inl rfl))
    · next h =>
      exact .turnedAway (Or.inr (Or.inl rfl)) (by simp_all) (Or.inl rfl)
    · next h =>
      split
      · next hid =>
        exact .turnedAway (Or.inr (Or.inl rfl)) (by simp_all [nodeKey]) (Or.inr (Or.inl rfl))
      · next nodeId hid =>
        split
        · next hkey =>
          exact .turnedAway (Or.inr (Or.inl rfl)) (by simp_all [nodeKey]) (Or.inr (Or.inr rfl))
        · next p hkey =>
          refine .greeted v p rfl rfl h (by simp [nodeKey, hid, hkey]) ?_
          split
          · exact Or.inl rfl
          · exact Or.inr rfl

lemma turn_onAck (event : Event) (msg : Option Value) :
    Turn swarmKey .awaitAck event (onAck msg) := by
  unfold onAck
  split
  · exact .dialling rfl (Or.inl rfl)
  · split
    · exact .dialling rfl (Or.inr (Or.inl rfl))
    · exact .dialling rfl (Or.inl rfl)
    · split
      · exact .dialling rfl (Or.inr (Or.inl rfl))
      · split
        · exact .dialling rfl (Or.inr (Or.inl rfl))
        · exact .dialling rfl (Or.inr (Or.inr ⟨_, rfl⟩))

lemma turn_onMessage (event : Event) (msg : Option Value) :
    Turn swarmKey .looping event (onMessage msg) := by
  unfold onMessage
  split
  · exact .serving (Or.inr (Or.inl rfl)) (Or.inr (Or.inr rfl))
  · exact .serving (Or.inr (Or.inl rfl)) (Or.inr (Or.inr rfl))
  · exact .serving (Or.inr (Or.inl rfl)) (Or.inr (Or.inl rfl))

lemma turn_resume {ph : Phase} {event : Event} {e : Effect}
    (h : ph.resume swarmKey event = some e) : Turn swarmKey ph event e := by
  have hloop (ok : Bool) : (if ok then Effect.move .looping else .finish) = .move .looping ∨
      (if ok then Effect.move .looping else .finish) = .move .handling ∨
      (if ok then Effect.move .looping else .finish) = .finish := by
    cases ok
    · exact Or.inr (Or.inr rfl)
    · exact Or.inl rfl
  unfold Phase.resume at h
  split at h
  · exact Option.some.inj h ▸ turn_onAuth _
  · exact Option.some.inj h ▸ turn_onHandshake _
  · exact Option.some.inj h ▸
      .turnedAway (Or.inr (Or.inr rfl)) (by simp) (Or.inr (Or.inl rfl))
  · exact Option.some.inj h ▸ .serving (Or.inl rfl) (hloop _)
  · exact Option.some.inj h ▸ turn_onMessage _ _
  · exact Option.some.inj h ▸ .serving (Or.inr (Or.inr rfl)) (hloop _)
  · exact Option.some.inj h ▸ turn_onAck _ _
  · split at h
    · cases h
    · exact Option.some.inj h ▸ .dialling rfl (Or.inr (Or.inl rfl))
  · cases h

/-! ## The invariant -/

/-- The handler is past the two messages that open a connection. -/
def Phase.greeted (ph : Phase) : Prop := ph ≠ .awaitAuth ∧ ph ≠ .awaitHandshake

/-- Entries are made by handlers that have had their HANDSHAKE; one that serves its connection has
entered it under its peer id, and before that the peer id is the empty string. -/
structure LedgerInv (x : State × Ledger) : Prop where
  past : ∀ e ∈ x.2.entered ++ x.2.records, ∃ c, x.1.conns[e.1]? = some c ∧ c.phase.greeted
  served : ∀ (i : ℕ) (c : Conn), x.1.conns[i]? = some c → c.phase.registered = true →
    c.phase ≠ .connected → (i, c.peerId) ∈ x.2.entered
  unnamed : ∀ (i : ℕ) (c : Conn), x.1.conns[i]? = some c → c.phase.handled = true →
    c.phase.registered = false → c.peerId = .str ""

/-- What an effect does to the connection of the handler. -/
def Effect.conn (e : Effect) (c : Conn) : Conn :=
  match e with
  | .move ph => { c with phase := ph }
  | .close ph => { c with phase := ph, isOpen := false }
  | .register p ph => { c with phase := ph, peerId := p }
  | .finish => { c with phase := .ended, isOpen := false }
  | .abort p => { c with phase := .ended, peerId := p, isOpen := false }

/-- The ledger after an effect. -/
def Ledger.after (g : Ledger) (i : ℕ) (event : Event) (ph : Phase) (e : Effect) : Ledger :=
  match event with
  | .received (some msg) => g.note i msg ph e
  | _ => g

lemma conns_apply (s : State) (i : ℕ) (c : Conn) (e : Effect) :
    (s.apply i c e).conns = s.conns.modify i e.conn := by
  cases e <;> rfl

/-- The entries that an effect can change. -/
lemma get?_apply_ne {s : State} {i : ℕ} {c : Conn} {e : Effect} {k : Key}
    (h : (s.apply i c e).connections.get? k ≠ s.connections.get? k) :
    (∃ ph, e = .register k ph) ∨ e = .abort k ∨ e = .finish ∧ k = c.peerId := by
  cases e with
  | move ph => exact absurd rfl h
  | close ph => exact absurd rfl h
  | register p ph =>
    by_cases hk : k = p
    · exact Or.inl ⟨ph, by rw [hk]⟩
    · exact absurd (Dict.get?_set_ne _ _ hk) h
  | finish =>
    by_cases hk : k = c.peerId
    · exact Or.inr (Or.inr ⟨rfl, hk⟩)
    · exact absurd (Dict.get?_erase_ne _ hk) h
  | abort p =>
    by_cases hk : k = p
    · exact Or.inr (Or.inl (by rw [hk]))
    · exact absurd ((Dict.get?_erase_ne _ hk).trans (Dict.get?_set_ne _ _ hk)) h

lemma logged_resume {x y : State × Ledger} {i : ℕ} {event : Event}
    (h : (logged swarmKey).exec x (.resume i event) = some y) :
    ∃ c e, x.1.conns[i]? = some c ∧ c.phase.resume swarmKey event = some e ∧
      y = (x.1.apply i c e, x.2.after i event c.phase e) := by
  obtain ⟨hexec, hledger⟩ := Machine.exec_observed h
  simp only [machine, exec, Option.bind_eq_bind, Option.bind_eq_some_iff, Option.pure_def,
    Option.some.injEq] at hexec
  obtain ⟨c, hc, e, he, hstate⟩ := hexec
  refine ⟨c, e, hc, he, Prod.ext hstate.symm (hledger.trans ?_)⟩
  unfold Ledger.observe Ledger.after
  split
  · next i' msg heq =>
    obtain ⟨rfl, rfl⟩ := Label.resume.inj heq
    simp only [hc, he, Option.elim_some]
  · next hother =>
    split
    · next msg => exact absurd rfl (hother i msg)
    · rfl

variable {s t : State} {g g' : Ledger} {i : ℕ} {c : Conn}

/-- The handler of one connection has gone on. -/
lemma LedgerInv.modify (h : LedgerInv (s, g)) {f : Conn → Conn} (hc : s.conns[i]? = some c)
    (ht : t.conns = s.conns.modify i f)
    (hnew : ∀ e ∈ g'.entered ++ g'.records, e ∈ g.entered ++ g.records ∨
      e.1 = i ∧ (f c).phase.greeted)
    (hold : ∀ e ∈ g.entered, e ∈ g'.entered) (hgreeted : c.phase.greeted → (f c).phase.greeted)
    (hserved : (f c).phase.registered = true → (f c).phase ≠ .connected →
      (i, (f c).peerId) ∈ g'.entered)
    (hunnamed : (f c).phase.handled = true → (f c).phase.registered = false →
      (f c).peerId = .str "") : LedgerInv (t, g') where
  past e he := by
    have hi := getElem?_modify_of_some (i := i) f hc
    rw [if_pos rfl] at hi
    rcases hnew e he with he | ⟨rfl, hg⟩
    · obtain ⟨c', hc', hg⟩ := h.past e he
      refine ⟨_, by rw [ht]; exact getElem?_modify_of_some f hc', ?_⟩
      split
      · next hie =>
        obtain rfl : c = c' := Option.some.inj (hc.symm.trans (hie ▸ hc'))
        exact hgreeted hg
      · exact hg
    · exact ⟨f c, by rw [ht]; exact hi, hg⟩
  served j d hd hreg hconn := by
    replace hd : t.conns[j]? = some d := hd
    rw [ht] at hd
    obtain ⟨c', hc', rfl⟩ := getElem?_modify_cases hd
    split at hreg
    · next hij =>
      subst hij
      obtain rfl : c = c' := Option.some.inj (hc.symm.trans hc')
      rw [if_pos rfl] at hconn ⊢
      exact hserved hreg hconn
    · next hij =>
      rw [if_neg hij] at hconn ⊢
      exact hold _ (h.served j c' hc' hreg hconn)
  unnamed j d hd hhandled hreg := by
    replace hd : t.conns[j]? = some d := hd
    rw [ht] at hd
    obtain ⟨c', hc', rfl⟩ := getElem?_modify_cases hd
    split at hhandled
    · next hij =>
      subst hij
      obtain rfl : c = c' := Option.some.inj (hc.symm.trans hc')
      rw [if_pos rfl] at hreg ⊢
      exact hunnamed hhandled hreg
    · next hij =>
      rw [if_neg hij] at hreg ⊢
      exact h.unnamed j c' hc' hhandled hreg

/-- A new connection has not begun, or is not inbound. -/
lemma LedgerInv.append (h : LedgerInv (s, g)) (hreg : c.phase.registered = false)
    (hid : c.peerId = .str "") : LedgerInv ({ s with conns := s.conns ++ [c] }, g) where
  past e he := by
    obtain ⟨d, hd, hg⟩ := h.past e he
    exact ⟨d, getElem?_append_of_some hd _, hg⟩
  served i d hd hserving hconn := by
    rcases getElem?_concat_cases hd with hd | ⟨-, rfl⟩
    · exact h.served i d hd hserving hconn
    · rw [hreg] at hserving
      exact absurd hserving Bool.false_ne_true
  unnamed i d hd hhandled hreg' := by
    rcases getElem?_concat_cases hd with hd | ⟨-, rfl⟩
    · exact h.unnamed i d hd hhandled hreg'
    · exact hid

/-- An effect that leaves the ledger alone, and does not take a handler into service. -/
lemma LedgerInv.plain (h : LedgerInv (s, g)) (hc : s.conns[i]? = some c) {e : Effect}
    (hgreeted : c.phase.greeted → (e.conn c).phase.greeted)
    (hserved : (e.conn c).phase.registered = true → (e.conn c).phase ≠ .connected →
      c.phase.registered = true ∧ c.phase ≠ .connected ∧ (e.conn c).peerId = c.peerId)
    (hunnamed : (e.conn c).phase.handled = true → (e.conn c).phase.registered = false →
      c.phase.handled = true ∧ c.phase.registered = false ∧ (e.conn c).peerId = c.peerId) :
    LedgerInv (s.apply i c e, g) := by
  refine h.modify hc (conns_apply ..) (fun e he => Or.inl he) (fun e he => he) hgreeted
    (fun hreg hconn => ?_) (fun hhandled hreg => ?_)
  · obtain ⟨hreg', hconn', hid⟩ := hserved hreg hconn
    rw [hid]
    exact h.served i c hc hreg' hconn'
  · obtain ⟨hhandled', hreg', hid⟩ := hunnamed hhandled hreg
    rw [hid]
    exact h.unnamed i c hc hhandled' hreg'

/-- Only the AUTH and the HANDSHAKE message are noted. -/
lemma Ledger.after_eq (g : Ledger) (i : ℕ) (event : Event) {ph : Phase} {e : Effect}
    (hauth : ph = .awaitAuth → e ≠ .move .awaitHandshake)
    (hhandshake : ph = .awaitHandshake → (∀ p ph', e ≠ .register p ph') ∧ ∀ p, e ≠ .abort p) :
    g.after i event ph e = g := by
  unfold after
  split
  · unfold note
    split
    · exact absurd rfl (hauth rfl)
    · exact absurd rfl ((hhandshake rfl).1 _ _)
    · exact absurd rfl ((hhandshake rfl).2 _)
    · rfl
  · rfl

/-- Outside of the wait for the HANDSHAKE nothing is asked of an event. -/
lemma sameId_of_ne (hc : s.conns[i]? = some c) (hph : c.phase ≠ .awaitHandshake) (event : Event) :
    SameId (s, g) (.resume i event) := by
  unfold SameId
  split
  · next i' msg heq =>
    obtain ⟨rfl, -⟩ := Label.resume.inj heq
    intro c' hc' hph'
    obtain rfl : c = c' := Option.some.inj (hc.symm.trans hc')
    exact absurd hph' hph
  · trivial

/-- The AUTH message is noted before anything is entered. -/
lemma ledger_authenticated (h : LedgerInv (s, g)) (hc : s.conns[i]? = some c)
    (hph : c.phase = .awaitAuth) (id : Option Key) :
    LedgerInv (s.apply i c (.move .awaitHandshake),
        { g with auth := Function.update g.auth i id }) ∧
      (Authentic { g with auth := Function.update g.auth i id } ↔ Authentic g) := by
  constructor
  · refine h.modify hc (conns_apply ..) (fun e he => Or.inl he) (fun e he => he) (fun hg => ?_)
      (by simp [Effect.conn, Phase.registered]) fun _ _ => ?_
    · exact absurd hph hg.1
    · exact h.unnamed i c hc (by rw [hph]; rfl) (by rw [hph]; rfl)
  · refine forall₂_congr fun e he => ?_
    have hne : e.1 ≠ i := by
      rintro rfl
      obtain ⟨c', hc', hg, -⟩ := h.past e he
      obtain rfl : c = c' := Option.some.inj (hc.symm.trans hc')
      exact hg hph
    show Function.update g.auth i id e.1 = _ ↔ _
    rw [Function.update_of_ne hne]

/-- The HANDSHAKE message decides under which id the connection is entered. -/
lemma ledger_greeted (h : LedgerInv (s, g)) (hc : s.conns[i]? = some c)
    (hph : c.phase = .awaitHandshake) {msg : Value} {p : Key} {e : Effect}
    (he : e = .register p .acking ∨ e = .abort p) :
    LedgerInv (s.apply i c e, g.note i msg c.phase e) ∧
      (Authentic (g.note i msg c.phase e) ↔ Authentic g ∧ g.auth i = some p) := by
  have hgreeted : (e.conn c).phase.greeted := by
    rcases he with rfl | rfl <;> exact ⟨by simp [Effect.conn], by simp [Effect.conn]⟩
  obtain ⟨hauth, hentered, hmem⟩ : (g.note i msg c.phase e).auth = g.auth ∧
      (g.note i msg c.phase e).entered = g.entered ++ [(i, p)] ∧
      ∀ e', e' ∈ (g.note i msg c.phase e).entered ++ (g.note i msg c.phase e).records ↔
        e' ∈ g.entered ++ g.records ∨ e' = (i, p) := by
    rw [hph]
    rcases he with rfl | rfl
    · refine ⟨rfl, rfl, fun e' => ?_⟩
      simp only [Ledger.note, List.mem_append, List.mem_singleton]
      tauto
    · refine ⟨rfl, rfl, fun e' => ?_⟩
      simp only [Ledger.note, List.mem_append, List.mem_singleton]
      tauto
  constructor
  · refine h.modify hc (conns_apply ..) (fun e' he' => ?_) (fun e' he' => ?_) (fun _ => hgreeted)
      (fun _ _ => ?_) fun hhandled hreg => ?_
    · exact ((hmem e').1 he').imp_right fun heq => ⟨by rw [heq], hgreeted⟩
    · rw [hentered]
      exact List.mem_append_left _ he'
    · rw [hentered]
      rcases he with rfl | rfl
      · exact List.mem_append_right _ (List.mem_singleton_self _)
      · exact List.mem_append_right _ (List.mem_singleton_self _)
    · rcases he with rfl | rfl
      · exact absurd hreg (by simp [Effect.conn, Phase.registered])
      · exact absurd hhandled (by simp [Effect.conn, Phase.handled])
  · unfold Authentic
    rw [hauth]
    constructor
    · exact fun hall => ⟨fun e' he' => hall e' ((hmem e').2 (Or.inl he')),
        hall (i, p) ((hmem _).2 (Or.inr rfl))⟩
    · rintro ⟨hall, hp⟩ e' he'
      rcases (hmem e').1 he' with he' | rfl
      · exact hall e' he'
      · exact hp

/-- A handler that refuses what it has received only closes its connection. -/
lemma ledger_turnedAway {e : Effect} (h : LedgerInv (s, g)) (hc : s.conns[i]? = some c)
    (hph : c.phase = .awaitAuth ∨ c.phase = .awaitHandshake ∨ c.phase = .dropping)
    (he : e = .close .dropping ∨ e = .finish ∨ e = .move .ended) (event : Event) :
    LedgerInv (s.apply i c e, g) ∧ g.after i event c.phase e = g := by
  constructor
  · refine h.plain hc (fun _ => ?_) (fun hreg => ?_) fun hhandled hreg => ?_
    · rcases he with rfl | rfl | rfl <;> exact ⟨by simp [Effect.conn], by simp [Effect.conn]⟩
    · rcases he with rfl | rfl | rfl <;> simp [Effect.conn, Phase.registered] at hreg
    · rcases he with rfl | rfl | rfl
      · refine ⟨?_, ?_, rfl⟩ <;> rcases hph with hph | hph | hph <;> rw [hph] <;> rfl
      · simp [Effect.conn, Phase.handled] at hhandled
      · simp [Effect.conn, Phase.handled] at hhandled
  · refine g.after_eq i event (fun _ => ?_) fun _ => ⟨fun p ph => ?_, fun p => ?_⟩ <;>
      rcases he with rfl | rfl | rfl <;> simp

/-- A handler in service stays so, or ends. -/
lemma ledger_serving {e : Effect} (h : LedgerInv (s, g)) (hc : s.conns[i]? = some c)
    (hph : c.phase = .acking ∨ c.phase = .looping ∨ c.phase = .handling)
    (he : e = .move .looping ∨ e = .move .handling ∨ e = .finish) (event : Event) :
    LedgerInv (s.apply i c e, g) ∧ g.after i event c.phase e = g := by
  have hreg : c.phase.registered = true ∧ c.phase ≠ .connected := by
    rcases hph with hph | hph | hph <;> rw [hph] <;> exact ⟨rfl, by simp⟩
  constructor
  · refine h.plain hc (fun _ => ?_) (fun _ _ => ?_) fun hhandled hreg' => ?_
    · rcases he with rfl | rfl | rfl <;> exact ⟨by simp [Effect.conn], by simp [Effect.conn]⟩
    · rcases he with rfl | rfl | rfl <;> exact ⟨hreg.1, hreg.2, rfl⟩
    · rcases he with rfl | rfl | rfl
      · simp [Effect.conn, Phase.registered] at hreg'
      · simp [Effect.conn, Phase.registered] at hreg'
      · simp [Effect.conn, Phase.handled] at hhandled
  · refine g.after_eq i event (fun h => ?_) fun h => ?_
    · simp [h] at hph
    · simp [h] at hph

/-- The other end of a connection: it is not inbound. -/
lemma ledger_dialling {e : Effect} (h : LedgerInv (s, g)) (hc : s.conns[i]? = some c)
    (hph : c.phase = .awaitAck)
    (he : e = .close .ended ∨ e = .move .ended ∨ ∃ p, e = .register p .connected)
    (event : Event) : LedgerInv (s.apply i c e, g) ∧ g.after i event c.phase e = g := by
  constructor
  · refine h.plain hc (fun _ => ?_) (fun hreg hconn => ?_) fun hhandled => ?_
    · rcases he with rfl | rfl | ⟨p, rfl⟩ <;> exact ⟨by simp [Effect.conn], by simp [Effect.conn]⟩
    · rcases he with rfl | rfl | ⟨p, rfl⟩
      · simp [Effect.conn, Phase.registered] at hreg
      · simp [Effect.conn, Phase.registered] at hreg
      · exact absurd rfl hconn
    · rcases he with rfl | rfl | ⟨p, rfl⟩ <;> simp [Effect.conn, Phase.handled] at hhandled
  · refine g.after_eq i event (fun h => ?_) fun h => ?_
    · simp [h] at hph
    · simp [h] at hph

/-- **Step lemma.** The ledger stays authentic exactly when the HANDSHAKE that is accepted names the
authenticated id. -/
lemma ledger_resume {event : Event} {e : Effect} (h : LedgerInv (s, g))
    (hc : s.conns[i]? = some c) (he : c.phase.resume swarmKey event = some e) :
    LedgerInv (s.apply i c e, g.after i event c.phase e) ∧
      (Authentic (g.after i event c.phase e) ↔
        Authentic g ∧ SameId (s, g) (.resume i event)) := by
  -- a step that notes nothing keeps the ledger, if nothing is asked of its event
  have hquiet (hsame : SameId (s, g) (.resume i event))
      (hplain : LedgerInv (s.apply i c e, g) ∧ g.after i event c.phase e = g) :
      LedgerInv (s.apply i c e, g.after i event c.phase e) ∧
        (Authentic (g.after i event c.phase e) ↔
          Authentic g ∧ SameId (s, g) (.resume i event)) := by
    rw [hplain.2, and_iff_left hsame]
    exact ⟨hplain.1, Iff.rfl⟩
  cases turn_resume he with
  | authenticated msg hph hevent hauth heffect =>
    subst hevent heffect
    obtain ⟨hinv, hauthentic⟩ := ledger_authenticated h hc hph (nodeKey msg)
    have hafter : g.after i (.received (some msg)) c.phase (.move .awaitHandshake) =
        { g with auth := Function.update g.auth i (nodeKey msg) } := by
      rw [hph]
      rfl
    rw [hafter]
    exact ⟨hinv, by rw [hauthentic, and_iff_left (sameId_of_ne hc (by simp [hph]) _)]⟩
  | greeted msg p hph hevent haccepted hid heffect =>
    subst hevent
    obtain ⟨hinv, hauthentic⟩ := ledger_greeted h hc hph heffect
    refine ⟨hinv, hauthentic.trans (and_congr_right fun _ => ?_)⟩
    constructor
    · intro hp c' hc' _ _ p' hp'
      rwa [← Option.some.inj (hid.symm.trans hp')]
    · intro hsame
      exact hsame c hc hph haccepted p hid
  | turnedAway hph hnameless heffect =>
    refine hquiet ?_ (ledger_turnedAway h hc hph heffect event)
    unfold SameId
    split
    · next i' msg heq =>
      obtain ⟨rfl, rfl⟩ := Label.resume.inj heq
      intro c' hc' hph' haccepted p hp
      obtain rfl : c = c' := Option.some.inj (hc.symm.trans hc')
      cases (hnameless msg hph' rfl haccepted).symm.trans hp
    · trivial
  | serving hph heffect =>
    have hne : c.phase ≠ .awaitHandshake := by
      rcases hph with hph | hph | hph <;> simp [hph]
    exact hquiet (sameId_of_ne hc hne event) (ledger_serving h hc hph heffect event)
  | dialling hph heffect =>
    exact hquiet (sameId_of_ne hc (by simp [hph]) event) (ledger_dialling h hc hph heffect event)

lemma ledger_exec {x y : State × Ledger} {l : Label} (h : LedgerInv x)
    (ht : (logged swarmKey).exec x l = some y) :
    LedgerInv y ∧ (Authentic y.2 ↔ Authentic x.2 ∧ SameId x l) := by
  obtain ⟨s, g⟩ := x
  cases l with
  | accept =>
    obtain rfl := Option.some.inj ht
    exact ⟨h.append rfl rfl, (and_iff_left trivial).symm⟩
  | connect =>
    obtain rfl := Option.some.inj ht
    exact ⟨h.append rfl rfl, (and_iff_left trivial).symm⟩
  | resume i event =>
    obtain ⟨c, e, hc, he, rfl⟩ := logged_resume ht
    exact ledger_resume h hc he
  | lost i =>
    obtain ⟨hexec, hledger⟩ := Machine.exec_observed ht
    simp only [machine, exec, Option.bind_eq_bind, Option.bind_eq_some_iff, Option.pure_def,
      Option.some.injEq] at hexec
    obtain ⟨c, hc, hstate⟩ := hexec
    obtain ⟨t, g'⟩ := y
    obtain rfl : g' = g := hledger
    refine ⟨h.modify (f := fun c => { c with isOpen := false }) hc
      (congrArg State.conns hstate.symm) (fun e he => Or.inl he) (fun e he => he) id ?_ ?_,
      (and_iff_left trivial).symm⟩
    · exact h.served i c hc
    · exact h.unnamed i c hc

lemma ledgerInv_init : LedgerInv (logged swarmKey).init where
  past e he := by cases he
  served i c hc := by simp [logged, Machine.observed, machine] at hc
  unnamed i c hc := by simp [logged, Machine.observed, machine] at hc

/-! ## Entries of other nodes -/

/-- A handler touches the entry of the id that was authenticated, or, before it has a peer id, the
entry of the empty string. -/
lemma entry_of_changed {x y : State × Ledger} {event : Event} (h : LedgerInv x)
    (hauthentic : Authentic y.2) (ht : (logged swarmKey).exec x (.resume i event) = some y)
    (hc : x.1.conns[i]? = some c) (hhandled : c.phase.handled = true) {p : Key}
    (hp : y.1.connections.get? p ≠ x.1.connections.get? p) :
    y.2.auth i = some p ∨ c.phase.registered = false ∧ p = .str "" := by
  obtain ⟨s, g⟩ := x
  obtain ⟨c', e, hc', he, rfl⟩ := logged_resume ht
  obtain rfl : c = c' := Option.some.inj (hc.symm.trans hc')
  have hentered : ∀ e', e' ∈ (g.after i event c.phase e).entered →
      (g.after i event c.phase e).auth e'.1 = some e'.2 := fun e' he' =>
    hauthentic e' (List.mem_append_left _ he')
  have hgreeted : (∃ ph, e = .register p ph) ∨ e = .abort p →
      (i, p) ∈ (g.after i event c.phase e).entered := by
    intro heffect
    cases turn_resume he with
    | authenticated msg hph hevent hauth h => simp [h] at heffect
    | greeted msg p' hph hevent haccepted hid h =>
      rw [hevent, hph]
      rcases h with rfl | rfl <;> simp at heffect <;> subst heffect <;>
        exact List.mem_append_right _ (List.mem_singleton_self _)
    | turnedAway hph hnameless h => rcases h with rfl | rfl | rfl <;> simp at heffect
    | serving hph h => rcases h with rfl | rfl | rfl <;> simp at heffect
    | dialling hph h =>
      rw [hph] at hhandled
      cases hhandled
  rcases get?_apply_ne hp with hregister | habort | ⟨rfl, rfl⟩
  · exact Or.inl (hentered _ (hgreeted (Or.inl hregister)))
  · exact Or.inl (hentered _ (hgreeted (Or.inr habort)))
  · cases hreg : c.phase.registered with
    | false => exact Or.inr ⟨rfl, h.unnamed i c hc hhandled hreg⟩
    | true =>
      have hafter : g.after i event c.phase .finish = g :=
        g.after_eq i event (by simp) (by simp)
      rw [hafter] at hentered
      have hconn : c.phase ≠ .connected := by
        intro hph
        rw [hph] at hhandled
        cases hhandled
      left
      show (g.after i event c.phase .finish).auth i = _
      rw [hafter]
      exact hentered _ (h.served i c hc hreg hconn)

/-! ## Every run -/

/-- **An entry is authentic exactly when both messages name the same node.** Throughout every run of
the connection manager, all entries and records of inbound connections are under the ids that were
authenticated on them if and only if every HANDSHAKE that was accepted names the id of the AUTH
message before it.  In such a run the handler of a connection changes no entry but that of the id
that was authenticated; a connection without a peer id takes the entry of the empty string. -/
theorem authentic_iff (swarmKey : String) (run : List Label) (x : State × Ledger)
    (hrun : (logged swarmKey).run (logged swarmKey).init run = some x) :
    (Authentic x.2 ↔ (logged swarmKey).Meets SameId (logged swarmKey).init run) ∧
    ((logged swarmKey).Meets SameId (logged swarmKey).init run →
      ∀ i event y c, SameId x (.resume i event) →
        (logged swarmKey).exec x (.resume i event) = some y → x.1.conns[i]? = some c →
          c.phase.handled = true → ∀ p, y.1.connections.get? p ≠ x.1.connections.get? p →
            y.2.auth i = some p ∨ c.phase.registered = false ∧ p = .str "") := by
  obtain ⟨hinv, hiff⟩ := Machine.run_iff_meets (Q := fun _ _ => True)
    (fun s l t h ht _ => ledger_exec h ht) ledgerInv_init
    (Machine.meets_of_forall (fun _ _ => trivial) _ _) hrun
  have hinit : Authentic (logged swarmKey).init.2 := fun e he => by cases he
  rw [and_iff_right hinit] at hiff
  refine ⟨hiff, fun hmeets i event y c hsame ht hc hhandled p hp => ?_⟩
  have hauthentic := (ledger_exec hinv ht).2.2 ⟨hiff.2 hmeets, hsame⟩
  exact entry_of_changed hinv hauthentic ht hc hhandled hp

section Takeover

variable (swarmKey n m : String)

lemma nodeKey_authHandshakeMsg : nodeKey (authHandshakeMsg n swarmKey) = some (.str n) := by
  simp [nodeKey, authHandshakeMsg, Value.getD, Value.isStr, Value.key?]

/-- The node `n` connects, and then `m` connects with its own AUTH message and the id of `n` in its
HANDSHAKE. -/
def takeover : List Label :=
  [.accept,
    .resume 0 (.received (some (authHandshakeMsg n swarmKey))),
    .resume 0 (.received (some (handshakeMsg "HANDSHAKE" n "node" 9000 8888))),
    .accept,
    .resume 1 (.received (some (authHandshakeMsg m swarmKey))),
    .resume 1 (.received (some (handshakeMsg "HANDSHAKE" n "node" 9000 8888)))]

/-- The state that `takeover` leads to. -/
def takenOver : State × Ledger where
  fst := {
    conns := [{ phase := .acking, peerId := .str n }, { phase := .acking, peerId := .str n }]
    connections := ((∅ : Dict Key ℕ).set (.str n) 0).set (.str n) 1 }
  snd := {
    auth := Function.update (Function.update (fun _ => none) 0 (some (.str n))) 1 (some (.str m))
    entered := [(0, .str n), (1, .str n)]
    records := [(0, .str n), (1, .str n)] }

lemma run_takeover : (logged swarmKey).run (logged swarmKey).init (takeover swarmKey n m) =
    some (takenOver n m) := by
  simp [takeover, Machine.run_cons, logged, Machine.observed, machine, exec, State.apply,
    State.update, Phase.resume, onAuth_authHandshakeMsg, onHandshake_handshakeMsg, takenOver,
    Ledger.observe, Ledger.note, nodeKey_authHandshakeMsg]

/-- A node that connects twice. -/
theorem authentic_iff_reconnected :
    (logged "").Meets SameId (logged "").init (takeover "" "a" "a") := by
  refine (authentic_iff "" _ _ (run_takeover "" "a" "a")).1.1 ?_
  simp [Authentic, takenOver]

/-- **A member takes over the entry of another one**: it authenticates under its own id and names
that of the other one in its HANDSHAKE. -/
theorem handshake_names_other : ¬ ∀ (swarmKey : String) (run : List Label) (x : State × Ledger),
    (logged swarmKey).run (logged swarmKey).init run = some x → Authentic x.2 := by
  intro hall
  have h := hall "" _ _ (run_takeover "" "a" "b") (1, .str "a") (by simp [takenOver])
  simp [takenOver] at h

end Takeover

end DistriStore.Connection
