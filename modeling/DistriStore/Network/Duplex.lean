import DistriStore.Lib.Machine
import DistriStore.Network.Inbound
import DistriStore.Node.Peers

/-!
# Both ends of one connection

A node has dialled another one: `connect_to_peer` runs at one end, `_handle_client` at the other,
each with the handlers of `Connection`.  Between them the frames travel in order, in both
directions; what a frame becomes at the other end is the message itself, or `None` when it is too
long or cannot be unpacked (`receives_of_prefix` is why nothing else can happen).  The
labels choose who moves next, when an operation fails and what else the two nodes do meanwhile.

After its handshake each end may be used by `send_to_peer`.  `SlidingWindowSender`, which also
reads from a connection, is started by nothing in the repository.
-/

namespace DistriStore.Duplex

open Lib Connection

/-! ## Nodes and frames -/

/-- What a node says of itself, and the key it was configured with. -/
structure Peer where
  nodeId : String
  name : String
  ip : String
  tcpPort : ℕ
  apiPort : ℕ
  swarmKey : String

/-- The two nodes, with the peers each of them knows before. -/
structure Config where
  dialer : Peer
  acceptor : Peer
  /-- The port that was dialled. -/
  port : ℕ
  dialerPeers : Registry
  acceptorPeers : Registry

/-- A message on its way, with what `receive` will make of it. -/
structure Frame where
  message : Value
  unpacked : Value
  lossless : unpacked = message ∨ unpacked = .nil

def Frame.ofValue (message : Value) : Frame := ⟨message, message, Or.inl rfl⟩

namespace Config

variable (c : Config)

def auth : Value := authHandshakeMsg c.dialer.nodeId c.dialer.swarmKey

def hello : Value :=
  handshakeMsg "HANDSHAKE" c.dialer.nodeId c.dialer.name c.dialer.tcpPort c.dialer.apiPort

def ack : Value :=
  handshakeMsg "HANDSHAKE_ACK" c.acceptor.nodeId c.acceptor.name c.acceptor.tcpPort
    c.acceptor.apiPort

end Config

/-- The end that runs `connect_to_peer`, and the end that runs `_handle_client`. -/
inductive Side where
  | dialer
  | acceptor
  deriving DecidableEq

/-- The key that the handler of an end works with. -/
def Config.swarmKey (c : Config) : Side → String
  | .dialer => c.dialer.swarmKey
  | .acceptor => c.acceptor.swarmKey

/-! ## The machine -/

/-- One end of the connection, with the registry of its node. -/
structure End where
  phase : Phase
  /-- The frames that the other end has written and this one has not read. -/
  inbox : List Frame := []
  /-- The messages for which `send_to_peer` has returned True. -/
  sent : List Value := []
  /-- The messages passed to `message_handler`. -/
  handled : List Value := []
  /-- The record of the other node, once the handler has built it. -/
  record : Option PeerRecord := none
  /-- The `add_peer` of that record has run. -/
  added : Bool := false
  peers : Registry

structure State where
  dialer : End
  acceptor : End
  /-- What `connect_to_peer` has to send before it waits for the acknowledgement. -/
  greetings : List Value
  /-- Neither end has closed the connection, and it has not broken. -/
  isOpen : Bool := true

def State.get (s : State) : Side → End
  | .dialer => s.dialer
  | .acceptor => s.acceptor

def State.set (s : State) : Side → End → State
  | .dialer, e => { s with dialer := e }
  | .acceptor, e => { s with acceptor := e }

/-- Write a frame at this end. -/
def State.write (s : State) : Side → Frame → State
  | .dialer, f => { s with acceptor := { s.acceptor with inbox := s.acceptor.inbox ++ [f] } }
  | .acceptor, f => { s with dialer := { s.dialer with inbox := s.dialer.inbox ++ [f] } }

inductive Label where
  /-- `connect_to_peer` sends the next of its two messages. -/
  | greet
  /-- The handler at this end goes on with the next frame, or with the end of the stream. -/
  | receive (side : Side)
  | noMessage (side : Side)
  /-- Another operation of the handler is over. -/
  | done (side : Side) (ok : Bool)
  /-- `send_to_peer` finds this end in `connections`, and returns True. -/
  | send (side : Side) (frame : Frame)
  /-- The `add_peer` that the handler has scheduled runs. -/
  | addPeer (side : Side) (now : ℚ)
  /-- Whatever else changes the registry of the node. -/
  | others (side : Side) (peers : Registry)
  | lost

/-- The record that the handler at this end builds from a handshake. -/
def Config.recordOf (c : Config) (p : Key) (msg : Value) : Side → Option PeerRecord
  | .dialer => (peerOfHandshake c.acceptor.ip c.port p msg).toOption
  | .acceptor => (peerOfHandshake c.dialer.ip 0 p msg).toOption

/-- The effect of the handler at one end, after an event with the message `msg`. -/
def State.apply (c : Config) (s : State) (side : Side) (msg : Value) : Effect → State
  | .move ph =>
    let e := s.get side
    s.set side { e with
      phase := ph
      handled := if ph = .handling then e.handled ++ [msg] else e.handled }
  | .close ph => { s.set side { s.get side with phase := ph } with isOpen := false }
  | .register p ph =>
    let s := s.set side { s.get side with phase := ph, record := c.recordOf p msg side }
    -- `_handle_client` writes its acknowledgement before anyone else can send
    if ph = .acking then s.write side (.ofValue c.ack) else s
  | .finish => { s.set side { s.get side with phase := .ended } with isOpen := false }
  | .abort _ => { s.set side { s.get side with phase := .ended } with isOpen := false }

/-- `connect_to_peer` reads only after it has sent its two messages. -/
def State.mayRead (s : State) : Side → Bool
  | .dialer => s.greetings.isEmpty
  | .acceptor => true

def exec (c : Config) (s : State) : Label → Option State
  | .greet =>
    match s.greetings with
    | [] => none
    | message :: rest =>
      if s.dialer.phase = .awaitAck then
        some { s.write .dialer (.ofValue message) with greetings := rest }
      else none
  | .receive side =>
    match (s.get side).inbox with
    | [] => none
    | frame :: rest =>
      if s.mayRead side then do
        let e ← (s.get side).phase.resume (c.swarmKey side) (.received (some frame.unpacked))
        return (s.set side { s.get side with inbox := rest }).apply c side frame.unpacked e
      else none
  | .noMessage side =>
    if s.mayRead side then do
      let e ← (s.get side).phase.resume (c.swarmKey side) (.received none)
      return s.apply c side .nil e
    else none
  | .done side ok => do
    let e ← (s.get side).phase.resume (c.swarmKey side) (.done ok)
    return s.apply c side .nil e
  | .send side frame =>
    if (s.get side).phase.registered then
      let e := s.get side
      some ((s.set side { e with sent := e.sent ++ [frame.message] }).write side frame)
    else none
  | .addPeer side now =>
    let e := s.get side
    match e.record with
    | none => none
    | some r =>
      if e.added then none
      else some (s.set side { e with peers := e.peers.addPeer r now, added := true })
  | .others side peers => some (s.set side { s.get side with peers := peers })
  | .lost => some { s with isOpen := false }

def init (c : Config) : State where
  dialer := { phase := .awaitAck, peers := c.dialerPeers }
  acceptor := { phase := .awaitAuth, peers := c.acceptorPeers }
  greetings := [c.auth, c.hello]

/-- A connection that has just been made. -/
def machine (c : Config) : Machine State Label where
  init := init c
  exec := exec c

/-! ## The invariant -/

/-- What the accepting end has read, while its handler goes on. -/
def readBy (c : Config) (e : End) : Option (List Value) :=
  match e.phase with
  | .awaitAuth => some []
  | .awaitHandshake => some [c.auth]
  | .acking => some (c.auth :: c.hello :: e.handled)
  | .looping => some (c.auth :: c.hello :: e.handled)
  | .handling => some (c.auth :: c.hello :: e.handled)
  | _ => none

/-- The record of the dialling node at the other one. -/
def Config.dialerRecord (c : Config) : PeerRecord where
  nodeId := .str c.dialer.nodeId
  ip := c.dialer.ip
  tcpPort := .int c.dialer.tcpPort
  name := .str c.dialer.name
  apiPort := .int c.dialer.apiPort

/-- The record of the accepting node at the other one. -/
def Config.acceptorRecord (c : Config) : PeerRecord where
  nodeId := .str c.acceptor.nodeId
  ip := c.acceptor.ip
  tcpPort := .int c.acceptor.tcpPort
  name := .str c.acceptor.name
  apiPort := .int c.acceptor.apiPort

/-- What the handlers have done so far. -/
structure Inv (c : Config) (s : State) : Prop where
  /-- What the dialling end has written is what the other has read and what is on its way. -/
  toAcceptor : ∀ read, readBy c s.acceptor = some read →
    read ++ s.acceptor.inbox.map Frame.message ++ s.greetings =
      c.auth :: c.hello :: s.dialer.sent
  greeted : s.greetings = [] ∨ s.dialer.sent = []
  dialing : s.dialer.phase = .awaitAck ∨
    s.dialer.phase = .connected ∧ s.greetings = [] ∧ s.dialer.record.isSome = true ∨
    s.dialer.phase = .ended
  accepting : s.acceptor.phase ≠ .awaitAck ∧ s.acceptor.phase ≠ .connected
  /-- The AUTH message has been accepted before the handler goes on. -/
  authentic : s.acceptor.phase = .awaitHandshake ∨ s.acceptor.record.isSome = true →
    IsAuth c.acceptor.swarmKey c.auth
  fresh : s.acceptor.phase = .awaitAuth ∨ s.acceptor.phase = .awaitHandshake →
    s.acceptor.record = none
  registered : s.acceptor.phase.registered = true → s.acceptor.record.isSome = true
  silent : s.acceptor.record = none → s.acceptor.sent = [] ∧ s.acceptor.handled = []
  acceptorRecord : ∀ r, s.acceptor.record = some r → r = c.dialerRecord
  /-- The acknowledgement is the first frame that the dialling end gets. -/
  toDialer : s.dialer.phase = .awaitAck → s.dialer.inbox.map Frame.message =
    (if s.acceptor.record.isSome then [c.ack] else []) ++ s.acceptor.sent
  dialerRecord : ∀ r, s.dialer.record = some r →
    r = c.acceptorRecord ∧ s.acceptor.record.isSome = true
  deaf : s.dialer.handled = []
  opened : s.isOpen = true → readBy c s.acceptor ≠ none

lemma inv_init (c : Config) : Inv c (init c) where
  toAcceptor read h := by
    obtain rfl := Option.some.inj h
    rfl
  greeted := Or.inr rfl
  dialing := Or.inl rfl
  accepting := ⟨by simp [init], by simp [init]⟩
  authentic h := by simp [init] at h
  fresh _ := rfl
  registered h := by simp [init, Phase.registered] at h
  silent _ := ⟨rfl, rfl⟩
  acceptorRecord r h := by simp [init] at h
  toDialer _ := rfl
  dialerRecord r h := by simp [init] at h
  deaf := rfl
  opened _ := by simp [readBy, init]

/-! ## One lemma for each thing that happens -/

section Steps

variable {c : Config} {s : State}

/-- The handler of the accepting end is over, or turns the connection away. -/
lemma Inv.acceptor_gone (h : Inv c s) (inbox : List Frame) {ph : Phase}
    (hph : ph = .dropping ∨ ph = .ended) :
    Inv c { s with acceptor := { s.acceptor with inbox := inbox, phase := ph }, isOpen := false } :=
  have hread (e : End) (he : e.phase = ph) : readBy c e = none := by
    rcases hph with rfl | rfl <;> rw [readBy, he]
  { h with
    toAcceptor := fun read hr => by
      rw [hread _ rfl] at hr
      simp at hr
    accepting := by rcases hph with rfl | rfl <;> simp
    authentic := fun hw => by
      rcases hw with hw | hw
      · rcases hph with rfl | rfl <;> simp at hw
      · exact h.authentic (Or.inr hw)
    fresh := fun hw => by rcases hph with rfl | rfl <;> simp at hw
    registered := fun hw => by rcases hph with rfl | rfl <;> simp [Phase.registered] at hw
    opened := fun ho => absurd ho Bool.false_ne_true }

/-- `connect_to_peer` is over without a connection. -/
lemma Inv.dialer_gone (h : Inv c s) (inbox : List Frame) {b : Bool}
    (hb : b = true → s.isOpen = true) :
    Inv c { s with dialer := { s.dialer with inbox := inbox, phase := .ended }, isOpen := b } :=
  { h with
    dialing := Or.inr (Or.inr rfl)
    toDialer := fun hw => by simp at hw
    opened := fun ho => h.opened (hb ho) }

lemma Inv.greet (h : Inv c s) {message : Value} {rest : List Value}
    (hgreet : s.greetings = message :: rest) :
    Inv c { s.write .dialer (.ofValue message) with greetings := rest } :=
  have hsent : s.dialer.sent = [] := by
    rcases h.greeted with hnil | hnil
    · simp [hgreet] at hnil
    · exact hnil
  { h with
    toAcceptor := fun read hr => by
      have heq := h.toAcceptor read hr
      rw [hgreet] at heq
      simpa [State.write, Frame.ofValue] using heq
    greeted := Or.inr hsent
    dialing := by
      rcases h.dialing with hd | ⟨-, hnil, -⟩ | hd
      · exact Or.inl hd
      · simp [hgreet] at hnil
      · exact Or.inr (Or.inr hd) }

lemma Inv.send_dialer (h : Inv c s) (hreg : s.dialer.phase.registered = true) (f : Frame) :
    Inv c (({ s with dialer := { s.dialer with sent := s.dialer.sent ++ [f.message] } }).write
      .dialer f) := by
  obtain ⟨hphase, hgreet, hrecord⟩ : s.dialer.phase = .connected ∧ s.greetings = [] ∧
      s.dialer.record.isSome = true := by
    rcases h.dialing with hd | hd | hd
    · simp [hd, Phase.registered] at hreg
    · exact hd
    · simp [hd, Phase.registered] at hreg
  exact { h with
    toAcceptor := fun read hr => by
      have heq := h.toAcceptor read hr
      rw [hgreet] at heq
      simp only [List.append_nil] at heq
      simp only [State.write, hgreet, List.map_append, List.map_cons, List.map_nil, List.append_nil]
      rw [← List.append_assoc, heq]
      simp
    greeted := Or.inl hgreet
    dialing := Or.inr (Or.inl ⟨hphase, hgreet, hrecord⟩)
    toDialer := fun hw => by
      rw [show s.dialer.phase = .awaitAck from hw] at hphase
      simp at hphase }

lemma Inv.send_acceptor (h : Inv c s) (hreg : s.acceptor.phase.registered = true) (f : Frame) :
    Inv c (({ s with acceptor := { s.acceptor with sent := s.acceptor.sent ++ [f.message] } }).write
      .acceptor f) :=
  { h with
    silent := fun hr => by
      replace hr : s.acceptor.record = none := hr
      have hsome := h.registered hreg
      simp [hr] at hsome
    toDialer := fun hw => by
      have heq := h.toDialer hw
      simp only [State.write, List.map_append, heq, List.append_assoc, List.map_cons, List.map_nil]
      rfl }

/-- The AUTH message has passed the check. -/
lemma Inv.authenticated (h : Inv c s) (hphase : s.acceptor.phase = .awaitAuth) {f : Frame}
    {rest : List Frame} (hinbox : s.acceptor.inbox = f :: rest)
    (hauth : IsAuth c.acceptor.swarmKey f.unpacked) :
    Inv c { s with acceptor := { s.acceptor with inbox := rest, phase := .awaitHandshake } } := by
  have heq : f.message = c.auth ∧
      rest.map Frame.message ++ s.greetings = c.hello :: s.dialer.sent := by
    have hread := h.toAcceptor [] (by rw [readBy, hphase])
    rw [hinbox] at hread
    simpa using hread
  have hf : f.unpacked = c.auth := by
    rcases f.lossless with hl | hl
    · exact hl.trans heq.1
    · obtain ⟨⟨fields, hdict⟩, -⟩ := hauth
      simp [hl] at hdict
  exact { h with
    toAcceptor := fun read hr => by
      obtain rfl := Option.some.inj hr
      simpa using heq.2
    accepting := by simp
    authentic := fun _ => hf ▸ hauth
    fresh := fun _ => h.fresh (Or.inl hphase)
    registered := fun hw => by simp [Phase.registered] at hw
    opened := fun _ => by simp [readBy] }

/-- The next frame for a handler that has read the AUTH message is the HANDSHAKE. -/
lemma Inv.next_hello (h : Inv c s) (hphase : s.acceptor.phase = .awaitHandshake) {f : Frame}
    {rest : List Frame} (hinbox : s.acceptor.inbox = f :: rest) :
    f.message = c.hello ∧ rest.map Frame.message ++ s.greetings = s.dialer.sent := by
  have hread := h.toAcceptor [c.auth] (by rw [readBy, hphase])
  rw [hinbox] at hread
  simpa using hread

/-- The HANDSHAKE message has been read and is acknowledged. -/
lemma Inv.admitted (h : Inv c s) (hphase : s.acceptor.phase = .awaitHandshake) {f : Frame}
    {rest : List Frame} (hinbox : s.acceptor.inbox = f :: rest) :
    Inv c (({ s with acceptor := { s.acceptor with
      inbox := rest
      phase := .acking
      record := some c.dialerRecord } }).write .acceptor (.ofValue c.ack)) := by
  have hnone := h.fresh (Or.inr hphase)
  obtain ⟨hsent, hhandled⟩ := h.silent hnone
  exact { h with
    toAcceptor := fun read hr => by
      obtain rfl := Option.some.inj hr
      simpa [State.write, hhandled] using (h.next_hello hphase hinbox).2
    accepting := by simp [State.write]
    authentic := fun _ => h.authentic (Or.inl hphase)
    fresh := fun hw => by simp [State.write] at hw
    registered := fun _ => rfl
    silent := fun hr => by simp [State.write] at hr
    acceptorRecord := fun r hr => (Option.some.inj hr).symm
    toDialer := fun hw => by
      have heq := h.toDialer hw
      rw [hnone, hsent] at heq
      simpa [State.write, Frame.ofValue, hsent] using heq
    dialerRecord := fun r hr => ⟨(h.dialerRecord r hr).1, rfl⟩
    opened := fun _ => by simp [readBy, State.write] }

/-- The accepting end has read a message and hands it on. -/
lemma Inv.handling (h : Inv c s) (hphase : s.acceptor.phase = .looping) {f : Frame}
    {rest : List Frame} (hinbox : s.acceptor.inbox = f :: rest) (hf : f.unpacked.isNone = false) :
    Inv c { s with acceptor := { s.acceptor with
      inbox := rest
      phase := .handling
      handled := s.acceptor.handled ++ [f.unpacked] } } := by
  have hmessage : f.unpacked = f.message := by
    rcases f.lossless with hl | hl
    · exact hl
    · simp [hl, Value.isNone] at hf
  have hrecord := h.registered (by rw [hphase]; rfl)
  exact { h with
    toAcceptor := fun read hr => by
      obtain rfl := Option.some.inj hr
      have hread := h.toAcceptor _ (by rw [readBy, hphase])
      rw [hinbox] at hread
      simpa [hmessage] using hread
    accepting := by simp
    authentic := fun _ => h.authentic (Or.inr hrecord)
    fresh := fun hw => by simp at hw
    registered := fun _ => hrecord
    silent := fun hr => by
      replace hr : s.acceptor.record = none := hr
      simp [hr] at hrecord
    opened := fun _ => by simp [readBy] }

/-- The accepting end goes on to its message loop. -/
lemma Inv.looping (h : Inv c s)
    (hphase : s.acceptor.phase = .acking ∨ s.acceptor.phase = .handling) :
    Inv c { s with acceptor := { s.acceptor with phase := .looping } } := by
  have hrecord : s.acceptor.record.isSome = true :=
    h.registered (by rcases hphase with hp | hp <;> rw [hp] <;> rfl)
  have hreadBy : readBy c s.acceptor = some (c.auth :: c.hello :: s.acceptor.handled) := by
    rcases hphase with hp | hp <;> rw [readBy, hp]
  exact { h with
    toAcceptor := fun read hr => h.toAcceptor read (hreadBy.trans hr)
    accepting := by simp
    authentic := fun _ => h.authentic (Or.inr hrecord)
    fresh := fun hw => by simp at hw
    registered := fun _ => hrecord
    opened := fun _ => by simp [readBy] }

/-- The acknowledgement has been read. -/
lemma Inv.acknowledged (h : Inv c s) (hphase : s.dialer.phase = .awaitAck) {f : Frame}
    {rest : List Frame} (hinbox : s.dialer.inbox = f :: rest) (hgreet : s.greetings = []) :
    f.message = c.ack ∧ Inv c { s with dialer := { s.dialer with
      inbox := rest
      phase := .connected
      record := some c.acceptorRecord } } := by
  have hread := h.toDialer hphase
  rw [hinbox] at hread
  have hsome : s.acceptor.record.isSome = true := by
    by_contra hnone
    have hsent := (h.silent (by simpa using hnone)).1
    simp [hnone, hsent] at hread
  refine ⟨?_, { h with
    dialing := Or.inr (Or.inl ⟨rfl, hgreet, rfl⟩)
    toDialer := fun hw => by simp at hw
    dialerRecord := fun r hr => ⟨(Option.some.inj hr).symm, hsome⟩ }⟩
  rw [hsome, if_pos rfl, List.map_cons, List.singleton_append] at hread
  exact (List.cons.inj hread).1

/-! ## The step lemma -/

lemma recordOf_hello (c : Config) :
    c.recordOf (.str c.dialer.nodeId) c.hello .acceptor = some c.dialerRecord := by
  rw [Config.recordOf, Config.hello, peerOfHandshake_handshakeMsg]
  rfl

lemma recordOf_ack (c : Config) :
    c.recordOf (.str c.acceptor.nodeId) c.ack .dialer = some c.acceptorRecord := by
  rw [Config.recordOf, Config.ack, peerOfHandshake_handshakeMsg]
  rfl

/-- The handler of the accepting end with the next frame. -/
lemma Inv.receive_acceptor (h : Inv c s) {f : Frame} {rest : List Frame}
    (hinbox : s.acceptor.inbox = f :: rest) {e : Effect}
    (he : s.acceptor.phase.resume c.acceptor.swarmKey (.received (some f.unpacked)) = some e) :
    Inv c ((s.set .acceptor { s.acceptor with inbox := rest }).apply c .acceptor f.unpacked e) := by
  rcases hphase : s.acceptor.phase <;> rw [hphase] at he <;>
    simp only [Phase.resume, Option.some.injEq, reduceCtorEq] at he
  case awaitAuth =>
    subst he
    rcases Inbound.onAuth_cases c.acceptor.swarmKey (some f.unpacked) with hcase | hcase |
      ⟨hcase, v, hv, hauth⟩
    · rw [hcase]
      exact h.acceptor_gone _ (by simp)
    · rw [hcase]
      exact h.acceptor_gone _ (by simp)
    · rw [hcase]
      obtain rfl := Option.some.inj hv
      exact h.authenticated hphase hinbox hauth
  case awaitHandshake =>
    subst he
    rcases f.lossless with hf | hf
    · rw [hf, (h.next_hello hphase hinbox).1, Config.hello, onHandshake_handshakeMsg,
        ← Config.hello, State.apply, recordOf_hello]
      exact h.admitted hphase hinbox
    · rw [hf]
      exact h.acceptor_gone _ (by simp)
  case looping =>
    subst he
    rcases Inbound.onMessage_cases (some f.unpacked) with ⟨hcase, -⟩ | ⟨v, hv, hnone, hcase⟩
    · rw [hcase]
      exact h.acceptor_gone _ (by simp)
    · rw [hcase]
      obtain rfl := Option.some.inj hv
      exact h.handling hphase hinbox hnone
  case awaitAck => exact absurd hphase h.accepting.1

/-- `connect_to_peer` with the next frame. -/
lemma Inv.receive_dialer (h : Inv c s) {f : Frame} {rest : List Frame}
    (hinbox : s.dialer.inbox = f :: rest) (hgreet : s.greetings = []) {e : Effect}
    (he : s.dialer.phase.resume c.dialer.swarmKey (.received (some f.unpacked)) = some e) :
    Inv c ((s.set .dialer { s.dialer with inbox := rest }).apply c .dialer f.unpacked e) := by
  rcases h.dialing with hphase | ⟨hphase, -⟩ | hphase <;> rw [hphase] at he <;>
    simp only [Phase.resume, Option.some.injEq, reduceCtorEq] at he
  subst he
  obtain ⟨hmessage, hinv⟩ := h.acknowledged hphase hinbox hgreet
  rcases f.lossless with hf | hf
  · rw [hf, hmessage, Config.ack, onAck_handshakeMsg, ← Config.ack, State.apply, recordOf_ack]
    exact hinv
  · rw [hf]
    exact h.dialer_gone _ (by simp)

/-- A handler that gets no message. -/
lemma Inv.noMessage (h : Inv c s) {side : Side} {e : Effect}
    (he : (s.get side).phase.resume (c.swarmKey side) (.received none) = some e) :
    Inv c (s.apply c side .nil e) := by
  cases side with
  | dialer =>
    rcases h.dialing with hphase | ⟨hphase, -⟩ | hphase <;> rw [State.get, hphase] at he <;>
      simp only [Phase.resume, Option.some.injEq, reduceCtorEq] at he
    subst he
    exact h.dialer_gone _ (by simp)
  | acceptor =>
    rw [State.get] at he
    rcases hphase : s.acceptor.phase <;> rw [hphase] at he <;>
      simp only [Phase.resume, Option.some.injEq, reduceCtorEq] at he
    case awaitAck => exact absurd hphase h.accepting.1
    all_goals
      subst he
      exact h.acceptor_gone _ (by simp)

/-- Another operation of a handler is over. -/
lemma Inv.done (h : Inv c s) {side : Side} {ok : Bool} {e : Effect}
    (he : (s.get side).phase.resume (c.swarmKey side) (.done ok) = some e) :
    Inv c (s.apply c side .nil e) := by
  cases side with
  | dialer =>
    rcases h.dialing with hphase | ⟨hphase, -⟩ | hphase <;> rw [State.get, hphase] at he <;>
      simp only [Phase.resume, Option.ite_none_left_eq_some, Option.some.injEq, reduceCtorEq] at he
    obtain ⟨-, rfl⟩ := he
    exact h.dialer_gone _ (fun ho => ho)
  | acceptor =>
    rw [State.get] at he
    have hloop (hp : s.acceptor.phase = .acking ∨ s.acceptor.phase = .handling)
        (heq : (if ok = true then Effect.move .looping else .finish) = e) :
        Inv c (s.apply c .acceptor .nil e) := by
      subst heq
      cases ok with
      | true => exact h.looping hp
      | false => exact h.acceptor_gone _ (by simp)
    rcases hphase : s.acceptor.phase <;> rw [hphase] at he <;>
      simp only [Phase.resume, Option.some.injEq, reduceCtorEq] at he
    case dropping =>
      subst he
      exact h.acceptor_gone _ (by simp)
    case acking => exact hloop (Or.inl hphase) he
    case handling => exact hloop (Or.inr hphase) he
    case awaitAck => exact absurd hphase h.accepting.1

/-- The registries are no part of the connection. -/
lemma Inv.set_peers (h : Inv c s) (side : Side) (peers : Registry) (added : Bool) :
    Inv c (s.set side { s.get side with peers := peers, added := added }) := by
  cases side with
  | dialer => exact { h with }
  | acceptor => exact { h with }

lemma exec_addPeer {t : State} {side : Side} {now : ℚ}
    (ht : exec c s (.addPeer side now) = some t) :
    ∃ r, (s.get side).record = some r ∧ (s.get side).added = false ∧
      t = s.set side { s.get side with
        peers := (s.get side).peers.addPeer r now
        added := true } := by
  simp only [exec] at ht
  split at ht
  · simp at ht
  · next r hr =>
    split at ht
    · simp at ht
    · next hadded => exact ⟨r, hr, by simpa using hadded, (Option.some.inj ht).symm⟩

lemma exec_receive {t : State} {side : Side} (ht : exec c s (.receive side) = some t) :
    ∃ f rest e, (s.get side).inbox = f :: rest ∧ s.mayRead side = true ∧
      (s.get side).phase.resume (c.swarmKey side) (.received (some f.unpacked)) = some e ∧
      t = (s.set side { s.get side with inbox := rest }).apply c side f.unpacked e := by
  simp only [exec] at ht
  split at ht
  · simp at ht
  · next f rest hinbox =>
    simp only [Option.ite_none_right_eq_some, Option.bind_eq_bind, Option.bind_eq_some_iff,
      Option.pure_def, Option.some.injEq] at ht
    obtain ⟨hread, e, he, rfl⟩ := ht
    exact ⟨f, rest, e, hinbox, hread, he, rfl⟩

lemma exec_greet {t : State} (ht : exec c s .greet = some t) :
    ∃ message rest, s.greetings = message :: rest ∧
      t = { s.write .dialer (.ofValue message) with greetings := rest } := by
  simp only [exec] at ht
  split at ht
  · simp at ht
  · next message rest hgreet =>
    rw [Option.ite_none_right_eq_some, Option.some.injEq] at ht
    exact ⟨message, rest, hgreet, ht.2.symm⟩

lemma exec_noMessage {t : State} {side : Side} (ht : exec c s (.noMessage side) = some t) :
    ∃ e, (s.get side).phase.resume (c.swarmKey side) (.received none) = some e ∧
      t = s.apply c side .nil e := by
  simp only [exec, Option.ite_none_right_eq_some, Option.bind_eq_bind, Option.bind_eq_some_iff,
    Option.pure_def, Option.some.injEq] at ht
  obtain ⟨-, e, he, rfl⟩ := ht
  exact ⟨e, he, rfl⟩

lemma exec_done {t : State} {side : Side} {ok : Bool} (ht : exec c s (.done side ok) = some t) :
    ∃ e, (s.get side).phase.resume (c.swarmKey side) (.done ok) = some e ∧
      t = s.apply c side .nil e := by
  simp only [exec, Option.bind_eq_bind, Option.bind_eq_some_iff, Option.pure_def,
    Option.some.injEq] at ht
  obtain ⟨e, he, rfl⟩ := ht
  exact ⟨e, he, rfl⟩

lemma exec_send {t : State} {side : Side} {f : Frame} (ht : exec c s (.send side f) = some t) :
    (s.get side).phase.registered = true ∧
      t = (s.set side { s.get side with
        sent := (s.get side).sent ++ [f.message] }).write side f := by
  simp only [exec, Option.ite_none_right_eq_some, Option.some.injEq] at ht
  obtain ⟨hreg, rfl⟩ := ht
  exact ⟨hreg, rfl⟩

/-- **Step lemma.** -/
theorem inv_exec {t : State} {l : Label} (h : Inv c s) (ht : exec c s l = some t) : Inv c t := by
  cases l with
  | greet =>
    obtain ⟨message, rest, hgreet, rfl⟩ := exec_greet ht
    exact h.greet hgreet
  | receive side =>
    obtain ⟨f, rest, e, hinbox, hread, he, rfl⟩ := exec_receive ht
    cases side with
    | dialer => exact h.receive_dialer hinbox (List.isEmpty_iff.1 hread) he
    | acceptor => exact h.receive_acceptor hinbox he
  | noMessage side =>
    obtain ⟨e, he, rfl⟩ := exec_noMessage ht
    exact h.noMessage he
  | done side ok =>
    obtain ⟨e, he, rfl⟩ := exec_done ht
    exact h.done he
  | send side f =>
    obtain ⟨hreg, rfl⟩ := exec_send ht
    cases side with
    | dialer => exact h.send_dialer hreg f
    | acceptor => exact h.send_acceptor hreg f
  | addPeer side now =>
    obtain ⟨r, -, -, rfl⟩ := exec_addPeer ht
    exact h.set_peers side _ _
  | others side peers =>
    rw [← Option.some.inj ht]
    exact h.set_peers side _ _
  | lost =>
    rw [← Option.some.inj ht]
    exact { h with opened := fun ho => absurd ho Bool.false_ne_true }

theorem inv_of_reachable (hs : (machine c).Reachable s) : Inv c s :=
  hs.invariant (inv_init c) fun _ _ _ => inv_exec

end Steps

end DistriStore.Duplex
