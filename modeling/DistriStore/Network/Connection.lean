import DistriStore.Lib.Dict
import DistriStore.Lib.Machine
import DistriStore.Lib.Table
import DistriStore.Network.Protocol

/-!
# The connection manager

`network/connection.py`: one `ConnectionManager` as a machine.  Its state is the list of all
`PeerConnection` objects ever made, each with the point its handler has reached, and the
dictionary `connections` from peer ids to objects.  A handler runs without interruption from one
await to the next, so a step is what one handler does when the operation it awaits is over, a
new connection in either direction, or the loss of a connection.

`_handle_client` watches its connection and removes the entry of its peer id when it ends;
`connect_to_peer` returns once the acknowledgement is in, and nobody reads from, or cleans up
after, the connection it has registered.  Both write and remove by peer id.

The main result is `table_live_of_harmless`: the table is accurate throughout every run in which
no handler ends while another open connection is known under its peer id, and no registered
outbound connection is lost while the table points at it.
-/

namespace DistriStore.Connection

open Lib

/-! ## Connections -/

/-- What the handler of a connection awaits. -/
inductive Phase where
  /-- `_handle_client`: the AUTH message. -/
  | awaitAuth
  /-- `_handle_client`: the HANDSHAKE message. -/
  | awaitHandshake
  /-- `_handle_client`: the close of a connection it has turned away. -/
  | dropping
  /-- `_handle_client`: the sending of HANDSHAKE_ACK. -/
  | acking
  /-- `_handle_client`: the next message of the loop. -/
  | looping
  /-- `_handle_client`: the message handler. -/
  | handling
  /-- `connect_to_peer`: its own two messages and then HANDSHAKE_ACK. -/
  | awaitAck
  /-- `connect_to_peer` has returned the connection. -/
  | connected
  /-- The handler is over. -/
  | ended
  deriving DecidableEq, Repr

/-- The connection was put under its peer id and its handler has not taken it back. -/
def Phase.registered : Phase → Bool
  | .acking => true
  | .looping => true
  | .handling => true
  | .connected => true
  | _ => false

/-- A `_handle_client` is running. -/
def Phase.handled : Phase → Bool
  | .awaitAck => false
  | .connected => false
  | .ended => false
  | _ => true

/-- A `PeerConnection`. -/
structure Conn where
  phase : Phase
  peerId : Key := .str ""
  /-- Neither side has closed the connection, and it has not broken. -/
  isOpen : Bool := true
  deriving DecidableEq, Repr

/-- How an awaited operation ends. -/
inductive Event where
  /-- `receive` returned this message, or `None`, or timed out. -/
  | received (msg : Option Value)
  /-- Another operation returned, or raised. -/
  | done (ok : Bool)

/-- What a handler does before it awaits again or ends. -/
inductive Effect where
  | move (phase : Phase)
  /-- `conn.close()`. -/
  | close (phase : Phase)
  /-- `conn.peer_id = p; self.connections[p] = conn`. -/
  | register (p : Key) (phase : Phase)
  /-- The `finally` block of `_handle_client`. -/
  | finish
  /-- Registration under `p`, an exception, and the `finally` block. -/
  | abort (p : Key)

/-! ## The handlers -/

/-- `_handle_client` with its AUTH message. -/
def onAuth (swarmKey : String) : Option Value → Effect
  | none => .close .dropping
  | some msg =>
    match checkAuth swarmKey msg with
    | .error _ => .finish
    | .ok false => .close .dropping
    | .ok true => .move .awaitHandshake

/-- `_handle_client` with its HANDSHAKE message. -/
def onHandshake : Option Value → Effect
  | none => .close .dropping
  | some msg =>
    match rejects "HANDSHAKE" msg with
    | .error _ => .finish
    | .ok true => .close .dropping
    | .ok false =>
      match msg.getD "node_id" (.str "") with
      | .error _ => .finish
      | .ok nodeId =>
        match nodeId.key? with
        -- neither the write nor the `pop` in `finally` can hash the id
        | none => .move .ended
        -- the log line slices the id after the registration
        | some p => if nodeId.hasSlices then .register p .acking else .abort p

/-- `connect_to_peer` with its HANDSHAKE_ACK; what it raises closes nothing. -/
def onAck : Option Value → Effect
  | none => .close .ended
  | some msg =>
    match rejects "HANDSHAKE_ACK" msg with
    | .error _ => .move .ended
    | .ok true => .close .ended
    | .ok false =>
      match msg.getD "node_id" (.str "") with
      | .error _ => .move .ended
      | .ok nodeId =>
        match nodeId.key? with
        | none => .move .ended
        | some p => .register p .connected

/-- The message loop with the result of `receive`. -/
def onMessage : Option Value → Effect
  | none => .finish
  | some .nil => .finish
  | some _ => .move .handling

/-- What the handler of a connection in this phase does after an event. -/
def Phase.resume (swarmKey : String) : Phase → Event → Option Effect
  | .awaitAuth, .received msg => some (onAuth swarmKey msg)
  | .awaitHandshake, .received msg => some (onHandshake msg)
  | .dropping, .done _ => some .finish
  | .acking, .done ok => some (if ok then .move .looping else .finish)
  | .looping, .received msg => some (onMessage msg)
  | .handling, .done ok => some (if ok then .move .looping else .finish)
  | .awaitAck, .received msg => some (onAck msg)
  | .awaitAck, .done ok => if ok then none else some (.move .ended)
  | _, _ => none

/-! ## The machine -/

/-- A `ConnectionManager`. -/
structure State where
  conns : List Conn := []
  /-- Objects are named by their places in `conns`. -/
  connections : Dict Key ℕ := ∅

inductive Label where
  /-- A connection comes in, or `connect_to_peer` opens one. -/
  | accept
  | connect
  /-- The handler of this connection goes on. -/
  | resume (i : ℕ) (event : Event)
  /-- The other side closes this connection, or it breaks. -/
  | lost (i : ℕ)

/-- Change one connection. -/
def State.update (s : State) (i : ℕ) (f : Conn → Conn) : State :=
  { s with conns := s.conns.modify i f }

/-- The effect of the handler of connection `i`, which is `c`. -/
def State.apply (s : State) (i : ℕ) (c : Conn) : Effect → State
  | .move ph => s.update i fun c => { c with phase := ph }
  | .close ph => s.update i fun c => { c with phase := ph, isOpen := false }
  | .register p ph =>
    { s.update i fun c => { c with phase := ph, peerId := p } with
      connections := s.connections.set p i }
  | .finish =>
    { s.update i fun c => { c with phase := .ended, isOpen := false } with
      connections := s.connections.erase c.peerId }
  | .abort p =>
    { s.update i fun c => { c with phase := .ended, peerId := p, isOpen := false } with
      connections := (s.connections.set p i).erase p }

def exec (swarmKey : String) (s : State) : Label → Option State
  | .accept => some { s with conns := s.conns ++ [{ phase := .awaitAuth }] }
  | .connect => some { s with conns := s.conns ++ [{ phase := .awaitAck }] }
  | .resume i event => do
    let c ← s.conns[i]?
    let e ← c.phase.resume swarmKey event
    return s.apply i c e
  | .lost i => do
    let _ ← s.conns[i]?
    return s.update i fun c => { c with isOpen := false }

/-- A connection manager from its construction on. -/
def machine (swarmKey : String) : Machine State Label where
  init := {}
  exec := exec swarmKey

/-! ## What the table promises -/

/-- Connection `i` is open and has completed its handshake under `p`. -/
def Live (s : State) (p : Key) (i : ℕ) : Prop :=
  ∃ c, s.conns[i]? = some c ∧ c.isOpen = true ∧ c.phase.registered = true ∧ c.peerId = p

/-- No `_handle_client` has still to notice that its connection is gone. -/
def Quiet (s : State) : Prop :=
  ∀ (i : ℕ) (c : Conn), s.conns[i]? = some c → c.phase.handled = true → c.isOpen = true

/-- The table has an entry for exactly the ids of live connections, and it is one of them. -/
def TableLive (s : State) : Prop :=
  (∀ p, (∃ i, s.connections.get? p = some i) ↔ ∃ i, Live s p i) ∧
    ∀ p i, s.connections.get? p = some i → Live s p i

/-- No other open connection is known under the id that the handler of `i` takes back. -/
def Alone (s : State) (i : ℕ) (p : Key) : Prop := ∀ j, Live s p j → j = i

/-- What an effect of the handler of `i` must not do to the table. -/
def HarmlessEffect (s : State) (i : ℕ) (c : Conn) : Effect → Prop
  | .finish => Alone s i c.peerId
  | .abort p => Alone s i p
  | .register _ ph => ph = .connected → c.isOpen = true
  | _ => True

/-- No handler ends while another open connection is known under its peer id, an outbound
connection is still open when it is registered, and the table does not point at an outbound
connection that is lost. -/
def Harmless (swarmKey : String) (s : State) : Label → Prop
  | .resume i event => ∀ (c : Conn) (e : Effect), s.conns[i]? = some c →
      c.phase.resume swarmKey event = some e → HarmlessEffect s i c e
  | .lost i => ∀ c : Conn, s.conns[i]? = some c → c.phase = .connected →
      s.connections.get? c.peerId ≠ some i
  | _ => True

/-! ## One step -/

/-- What the effects of a handler can be, by the phase it is in. -/
inductive Allowed (ph : Phase) : Effect → Prop where
  | move (ph') (h : ph'.registered = ph.registered) (hc : ph'.registered → ph'.handled) :
      Allowed ph (.move ph')
  | close (ph') (h : ph'.registered = false) (hold : ph.registered = false) :
      Allowed ph (.close ph')
  | register (p ph') (h : ph'.registered = true) (hold : ph.registered = false) :
      Allowed ph (.register p ph')
  | finish : Allowed ph .finish
  | abort (p) (hold : ph.registered = false) : Allowed ph (.abort p)

lemma allowed_onAuth (swarmKey : String) (msg : Option Value) :
    Allowed .awaitAuth (onAuth swarmKey msg) := by
  unfold onAuth
  split
  · exact .close _ rfl rfl
  · split
    · exact .finish
    · exact .close _ rfl rfl
    · exact .move _ rfl (by decide)

lemma allowed_onHandshake (msg : Option Value) : Allowed .awaitHandshake (onHandshake msg) := by
  unfold onHandshake
  split
  · exact .close _ rfl rfl
  · split
    · exact .finish
    · exact .close _ rfl rfl
    · split
      · exact .finish
      · split
        · exact .move _ rfl (by decide)
        · split
          · exact .register _ _ rfl rfl
          · exact .abort _ rfl

lemma allowed_onAck (msg : Option Value) : Allowed .awaitAck (onAck msg) := by
  unfold onAck
  split
  · exact .close _ rfl rfl
  · split
    · exact .move _ rfl (by decide)
    · exact .close _ rfl rfl
    · split
      · exact .move _ rfl (by decide)
      · split
        · exact .move _ rfl (by decide)
        · exact .register _ _ rfl rfl

lemma allowed_onMessage (msg : Option Value) : Allowed .looping (onMessage msg) := by
  unfold onMessage
  split
  · exact .finish
  · exact .finish
  · exact .move _ rfl (by decide)

lemma allowed_resume {swarmKey : String} {ph : Phase} {event : Event} {e : Effect}
    (h : ph.resume swarmKey event = some e) : Allowed ph e := by
  have hloop (ok : Bool) (ph : Phase) (hph : ph.registered = true) :
      Allowed ph (if ok then .move .looping else .finish) := by
    cases ok
    · exact .finish
    · exact .move _ hph.symm (by decide)
  unfold Phase.resume at h
  split at h
  · exact Option.some.inj h ▸ allowed_onAuth swarmKey _
  · exact Option.some.inj h ▸ allowed_onHandshake _
  · exact Option.some.inj h ▸ .finish
  · exact Option.some.inj h ▸ hloop _ _ rfl
  · exact Option.some.inj h ▸ allowed_onMessage _
  · exact Option.some.inj h ▸ hloop _ _ rfl
  · exact Option.some.inj h ▸ allowed_onAck _
  · split at h
    · cases h
    · exact Option.some.inj h ▸ .move _ rfl (by decide)
  · cases h

/-! ## The invariant -/

/-- Between the steps the table may still point at a closed connection, but only while a
`_handle_client` is there to take the entry back. -/
structure Inv (s : State) : Prop where
  attached : ∀ p i, s.connections.get? p = some i →
    ∃ c, s.conns[i]? = some c ∧ c.peerId = p ∧ c.phase.registered = true ∧
      (c.phase = .connected → c.isOpen = true)
  present : ∀ p i, Live s p i → ∃ j, s.connections.get? p = some j

lemma inv_init : Inv {} where
  attached p i h := by simp at h
  present p i h := by simp [Live] at h

lemma handled_of_registered {ph : Phase} (h : ph.registered = true) (hc : ph ≠ .connected) :
    ph.handled = true := by
  cases ph <;> simp_all [Phase.registered, Phase.handled]

/-- **What the invariant is for**: once every handler has noticed what happened to its
connection, the table is accurate. -/
lemma tableLive_of_inv {s : State} (hs : Inv s) (hq : Quiet s) : TableLive s := by
  have hlive (p : Key) (i : ℕ) (h : s.connections.get? p = some i) : Live s p i := by
    obtain ⟨c, hc, hp, hreg, hopen⟩ := hs.attached p i h
    refine ⟨c, hc, ?_, hreg, hp⟩
    by_cases hph : c.phase = .connected
    · exact hopen hph
    · exact hq i c hc (handled_of_registered hreg hph)
  refine ⟨fun p => ⟨?_, ?_⟩, hlive⟩
  · rintro ⟨i, hi⟩
    exact ⟨i, hlive p i hi⟩
  · rintro ⟨i, hi⟩
    exact hs.present p i hi

/-! ### Frames -/

lemma conn_update_self {s : State} {i : ℕ} {c : Conn} (f : Conn → Conn)
    (hc : s.conns[i]? = some c) : (s.update i f).conns[i]? = some (f c) := by
  simp [State.update, hc]

lemma conn_update_ne {s : State} {i j : ℕ} (f : Conn → Conn) (h : j ≠ i) :
    (s.update i f).conns[j]? = s.conns[j]? := by
  simp [State.update, Ne.symm h]

/-- A live connection of the updated state is an old one, or the one that was updated. -/
lemma Live.of_update {s : State} {i j : ℕ} {c : Conn} {p : Key} {f : Conn → Conn}
    (hc : s.conns[i]? = some c) (h : Live (s.update i f) p j) :
    (j ≠ i ∧ Live s p j) ∨
      (j = i ∧ (f c).isOpen = true ∧ (f c).phase.registered = true ∧ (f c).peerId = p) := by
  obtain ⟨d, hd, hlive⟩ := h
  by_cases hj : j = i
  · subst hj
    rw [conn_update_self f hc, Option.some.injEq] at hd
    exact Or.inr ⟨rfl, hd ▸ hlive⟩
  · rw [conn_update_ne f hj] at hd
    exact Or.inl ⟨hj, d, hd, hlive⟩

/-! ### One lemma for each thing a step does to the table -/

lemma not_attached {s : State} {i : ℕ} {c : Conn} (hs : Inv s) (hc : s.conns[i]? = some c)
    (hreg : c.phase.registered = false) (p : Key) : s.connections.get? p ≠ some i := by
  intro hp
  obtain ⟨d, hd, -, hd', -⟩ := hs.attached p i hp
  rw [hc, Option.some.injEq] at hd
  rw [← hd, hreg] at hd'
  exact Bool.false_ne_true hd'

lemma attached_peerId {s : State} {i : ℕ} {c : Conn} {p : Key} (hs : Inv s)
    (hc : s.conns[i]? = some c) (h : s.connections.get? p = some i) : c.peerId = p := by
  obtain ⟨d, hd, hp, -⟩ := hs.attached p i h
  rw [hc, Option.some.injEq] at hd
  rw [hd, hp]

/-- The table stays as it is. -/
lemma inv_keep {s : State} {i : ℕ} {c : Conn} {f : Conn → Conn} (hs : Inv s)
    (hc : s.conns[i]? = some c) (hid : (f c).peerId = c.peerId)
    (hreg : (f c).phase.registered = c.phase.registered)
    (hopen : (f c).isOpen = true → c.isOpen = true)
    (hout : s.connections.get? c.peerId = some i → (f c).phase = .connected →
      (f c).isOpen = true) : Inv (s.update i f) where
  attached p j h := by
    obtain ⟨d, hd, hp, hdreg, hdopen⟩ := hs.attached p j h
    by_cases hj : j = i
    · subst hj
      rw [hc, Option.some.injEq] at hd
      subst hd
      refine ⟨f c, conn_update_self f hc, hid.trans hp, hreg.trans hdreg, hout ?_⟩
      rw [hp]
      exact h
    · exact ⟨d, by rw [conn_update_ne f hj, hd], hp, hdreg, hdopen⟩
  present p j h := by
    show ∃ k, s.connections.get? p = some k
    rcases h.of_update hc with ⟨-, hlive⟩ | ⟨rfl, ho, hr, hp⟩
    · exact hs.present p j hlive
    · exact hs.present p j ⟨c, hc, hopen ho, hreg ▸ hr, hid ▸ hp⟩

/-- The entry of `p` goes, and the handler with it. -/
lemma inv_remove {s : State} {i : ℕ} {c : Conn} {f : Conn → Conn} {p : Key} {d : Dict Key ℕ}
    (hs : Inv s) (hc : s.conns[i]? = some c) (hf : (f c).phase.registered = false)
    (hd : ∀ k, d.get? k = if k = p then none else s.connections.get? k)
    (hne : ∀ k, k ≠ p → s.connections.get? k ≠ some i) (hlone : Alone s i p) :
    Inv { s.update i f with connections := d } where
  attached k j h := by
    replace h : d.get? k = some j := h
    rw [hd] at h
    split at h
    · cases h
    · next hk =>
      have hj : j ≠ i := by
        rintro rfl
        exact hne k hk h
      obtain ⟨c', hc', hrest⟩ := hs.attached k j h
      exact ⟨c', (conn_update_ne f hj).trans hc', hrest⟩
  present k j h := by
    show ∃ j', d.get? k = some j'
    replace h : Live (s.update i f) k j := h
    rcases h.of_update hc with ⟨hj, hlive⟩ | ⟨-, -, hr, -⟩
    · rw [hd, if_neg]
      · exact hs.present k j hlive
      · rintro rfl
        exact hj (hlone j hlive)
    · rw [hf] at hr
      exact absurd hr Bool.false_ne_true

/-- The entry of `p` is written by a connection that had none. -/
lemma inv_register {s : State} {i : ℕ} {c : Conn} {f : Conn → Conn} {p : Key} (hs : Inv s)
    (hc : s.conns[i]? = some c) (hold : c.phase.registered = false) (hid : (f c).peerId = p)
    (hreg : (f c).phase.registered = true)
    (hout : (f c).phase = .connected → (f c).isOpen = true) :
    Inv { s.update i f with connections := s.connections.set p i } where
  attached k j h := by
    replace h : (s.connections.set p i).get? k = some j := h
    rw [Dict.get?_set] at h
    split at h
    · next hk =>
      obtain rfl := Option.some.inj h
      exact ⟨f c, conn_update_self f hc, hid.trans hk.symm, hreg, hout⟩
    · have hj : j ≠ i := by
        rintro rfl
        exact not_attached hs hc hold k h
      obtain ⟨c', hc', hrest⟩ := hs.attached k j h
      exact ⟨c', (conn_update_ne f hj).trans hc', hrest⟩
  present k j h := by
    show ∃ j', (s.connections.set p i).get? k = some j'
    rw [Dict.get?_set]
    split
    · exact ⟨i, rfl⟩
    · next hk =>
      replace h : Live (s.update i f) k j := h
      rcases h.of_update hc with ⟨-, hlive⟩ | ⟨-, -, -, hp⟩
      · exact hs.present k j hlive
      · exact absurd (hp.symm.trans hid) hk

lemma inv_append {s : State} {c : Conn} (hs : Inv s) (hc : c.phase.registered = false) :
    Inv { s with conns := s.conns ++ [c] } where
  attached p i h := by
    obtain ⟨d, hd, hrest⟩ := hs.attached p i h
    exact ⟨d, getElem?_append_of_some hd _, hrest⟩
  present p i h := by
    obtain ⟨d, hd, hopen, hreg, hp⟩ := h
    replace hd : (s.conns ++ [c])[i]? = some d := hd
    rcases getElem?_concat_cases hd with hd | ⟨-, rfl⟩
    · exact hs.present p i ⟨d, hd, hopen, hreg, hp⟩
    · rw [hc] at hreg
      exact absurd hreg Bool.false_ne_true

/-- The effects of a handler keep the invariant as long as they are harmless. -/
lemma inv_apply {s : State} {i : ℕ} {c : Conn} {e : Effect} (hs : Inv s)
    (hc : s.conns[i]? = some c) (he : Allowed c.phase e) (hl : HarmlessEffect s i c e) :
    Inv (s.apply i c e) := by
  cases he with
  | move ph' h hph =>
    refine inv_keep hs hc rfl h id fun _ hcon => ?_
    replace hcon : ph' = .connected := hcon
    have hno := hph (by rw [hcon]; rfl)
    rw [hcon] at hno
    exact absurd hno (by decide)
  | close ph' h hold =>
    refine inv_keep hs hc rfl (h.trans hold.symm) nofun fun hi _ => ?_
    exact absurd hi (not_attached hs hc hold _)
  | register p ph' h hold => exact inv_register hs hc hold rfl h hl
  | finish =>
    refine inv_remove hs hc rfl (fun k => Dict.get?_erase ..) (fun k hk hi => ?_) hl
    exact hk (attached_peerId hs hc hi).symm
  | abort p hold =>
    refine inv_remove hs hc rfl (fun k => ?_) (fun k _ => not_attached hs hc hold k) hl
    rw [Dict.get?_erase, Dict.get?_set]
    split <;> rfl

/-- **Step lemma.** -/
lemma inv_exec {swarmKey : String} {s t : State} {l : Label} (hs : Inv s)
    (h : exec swarmKey s l = some t) (hl : Harmless swarmKey s l) : Inv t := by
  cases l with
  | accept => exact Option.some.inj h ▸ inv_append hs rfl
  | connect => exact Option.some.inj h ▸ inv_append hs rfl
  | resume i event =>
    simp only [exec, Option.bind_eq_bind, Option.bind_eq_some_iff, Option.pure_def] at h
    obtain ⟨c, hc, e, he, h⟩ := h
    exact Option.some.inj h ▸ inv_apply hs hc (allowed_resume he) (hl c e hc he)
  | lost i =>
    simp only [exec, Option.bind_eq_bind, Option.bind_eq_some_iff, Option.pure_def] at h
    obtain ⟨c, hc, h⟩ := h
    rw [← Option.some.inj h]
    refine inv_keep hs hc rfl rfl nofun fun hi hcon => ?_
    exact absurd hi (hl c hc hcon)

/-! ## Nodes that dial each other -/

section Crossing

variable (swarmKey n m : String)

lemma onAuth_authHandshakeMsg :
    onAuth swarmKey (some (authHandshakeMsg n swarmKey)) = .move .awaitHandshake := by
  rw [onAuth, checkAuth_authHandshakeMsg]

lemma onHandshake_handshakeMsg (name : String) (tcpPort apiPort : ℕ) :
    onHandshake (some (handshakeMsg "HANDSHAKE" n name tcpPort apiPort)) =
      .register (.str n) .acking := by
  simp only [onHandshake, rejects_handshakeMsg, nodeId_handshakeMsg, Value.key?, Value.hasSlices,
    if_true]

lemma onAck_handshakeMsg (name : String) (tcpPort apiPort : ℕ) :
    onAck (some (handshakeMsg "HANDSHAKE_ACK" n name tcpPort apiPort)) =
      .register (.str n) .connected := by
  simp only [onAck, rejects_handshakeMsg, nodeId_handshakeMsg, Value.key?]

/-- The node dials `n` and then takes a connection that `m` has dialled. -/
def crossing : List Label :=
  [.connect,
    .resume 0 (.received (some (handshakeMsg "HANDSHAKE_ACK" n "node" 9000 8888))),
    .accept,
    .resume 1 (.received (some (authHandshakeMsg m swarmKey))),
    .resume 1 (.received (some (handshakeMsg "HANDSHAKE" m "node" 9000 8888))),
    .resume 1 (.done true)]

/-- The state that `crossing` leads to. -/
def crossed : State where
  conns := [{ phase := .connected, peerId := .str n }, { phase := .looping, peerId := .str m }]
  connections := ((∅ : Dict Key ℕ).set (.str n) 0).set (.str m) 1

/-- The state after the second connection has ended. -/
def hungUp : State where
  conns := [{ phase := .connected, peerId := .str n },
    { phase := .ended, peerId := .str m, isOpen := false }]
  connections := (crossed n m).connections.erase (.str m)

lemma run_crossing : (machine swarmKey).run {} (crossing swarmKey n m) = some (crossed n m) := by
  simp [crossing, Machine.run_cons, machine, exec, State.apply, State.update, Phase.resume,
    onAck_handshakeMsg, onAuth_authHandshakeMsg, onHandshake_handshakeMsg, crossed]

lemma run_hangUp : (machine swarmKey).run {}
    (crossing swarmKey n m ++ [.resume 1 (.received none)]) = some (hungUp n m) := by
  rw [Machine.run_append, run_crossing]
  rfl

lemma quiet_hungUp : Quiet (hungUp n m) := by
  intro i c hc hph
  match i, hc with
  | 0, hc => exact Option.some.inj hc ▸ rfl
  | 1, hc =>
    rw [← Option.some.inj hc] at hph
    exact absurd hph Bool.false_ne_true

lemma live_hungUp : Live (hungUp n m) (.str n) 0 := ⟨_, rfl, rfl, rfl, rfl⟩

variable {swarmKey n m}

lemma meets_resume {s : State} {i : ℕ} {event : Event} {c : Conn} {e : Effect} {ls : List Label}
    (hc : s.conns[i]? = some c) (he : c.phase.resume swarmKey event = some e)
    (hl : HarmlessEffect s i c e)
    (h : (machine swarmKey).Meets (Harmless swarmKey) (s.apply i c e) ls) :
    (machine swarmKey).Meets (Harmless swarmKey) s (.resume i event :: ls) := by
  have hstep : (machine swarmKey).exec s (.resume i event) = some (s.apply i c e) := by
    simp [machine, exec, hc, he]
  refine (Machine.meets_cons hstep).2 ⟨fun c' e' hc' he' => ?_, h⟩
  rw [hc, Option.some.injEq] at hc'
  subst hc'
  rw [he, Option.some.injEq] at he'
  exact he' ▸ hl

/-- The end of a connection is harmless when no other one has its id. -/
lemma meets_crossing (h : n ≠ m) : (machine swarmKey).Meets (Harmless swarmKey) {}
    (crossing swarmKey n m ++ [.resume 1 (.received none)]) := by
  refine (Machine.meets_cons rfl).2 ⟨trivial, ?_⟩
  refine meets_resume rfl (congrArg some (onAck_handshakeMsg ..)) (fun _ => rfl) ?_
  refine (Machine.meets_cons rfl).2 ⟨trivial, ?_⟩
  refine meets_resume rfl (congrArg some (onAuth_authHandshakeMsg ..)) trivial ?_
  refine meets_resume rfl (congrArg some (onHandshake_handshakeMsg ..)) nofun ?_
  refine meets_resume rfl rfl trivial ?_
  refine meets_resume rfl rfl ?_ trivial
  rintro j ⟨c, hc, -, -, hp⟩
  match j, hc with
  | 0, hc =>
    rw [← Option.some.inj hc] at hp
    exact absurd (Key.str.inj hp) h
  | 1, _ => rfl

end Crossing

/-! ## Every interleaving -/

/-- **The table is accurate whenever every handler has caught up**, throughout every run whose
steps are all harmless, for any interleaving of connections in both directions. -/
theorem table_live_of_harmless (swarmKey : String) (run : List Label)
    (h : (machine swarmKey).Meets (Harmless swarmKey) {} run) :
    (machine swarmKey).Always (fun s => Quiet s → TableLive s) {} run := by
  refine Machine.Always.imp (fun s hs hq => tableLive_of_inv hs hq) ?_
  exact Machine.always_of_meets (fun s l t hs ht hl => inv_exec hs ht hl) inv_init h

theorem table_live_of_harmless_crossing : TableLive (hungUp "a" "b") :=
  have hrun : (machine "").Meets (Harmless "") {}
      (crossing "" "a" "b" ++ [.resume 1 (.received none)]) := meets_crossing (by decide)
  (table_live_of_harmless "" _ hrun).last (run_hangUp "" "a" "b") (quiet_hungUp "a" "b")

/-- **A second connection takes the entry of the first with it**: the node has dialled `a` and
`a` has dialled the node; when the latter connection ends, the former stays open without an
entry. -/
theorem shared_id_entry_lost : (machine "").Reachable (hungUp "a" "a") ∧
    Quiet (hungUp "a" "a") ∧ ¬ TableLive (hungUp "a" "a") := by
  refine ⟨⟨_, run_hangUp "" "a" "a"⟩, quiet_hungUp "a" "a", fun hlive => ?_⟩
  obtain ⟨i, hi⟩ := (hlive.1 (.str "a")).2 ⟨0, live_hungUp "a" "a"⟩
  simp [hungUp] at hi

end DistriStore.Connection
