import DistriStore.Lib.BoundedSet
import DistriStore.Lib.Dict
import DistriStore.Lib.Machine
import DistriStore.Lib.Table
import DistriStore.Network.Framing
import DistriStore.Node.Node
import Mathlib.Algebra.Group.Action.Defs
import Mathlib.Algebra.Order.BigOperators.Group.List
import Mathlib.Algebra.Order.Ring.Nat
import Mathlib.Data.Fintype.Card

/-!
# Swarm chat

The chat of `api/routes.py` in a network of nodes.  `websocket_chat` makes a message of what a user
types, and `handle_tcp_chat` takes the messages of other nodes; both show the message to the local
web sockets and then send it to all peers.  A node remembers the ids of the messages that it has
taken in `_seen_chat_ids`, and drops a message whose id it finds there.

The set has at most `maxSeen` ids and pops an arbitrary one when it grows beyond, so a node can
forget a message of which a copy is still on its way, and take it again
(`popped_message_shown_again`).  In every run the messages are shown and flooded once at each node
exactly as long as no such copy arrives (`at_most_once_iff`), and none does as long as no more than
`maxSeen` messages have been written (`at_most_once_of_few`).

A copy that is lost is one that never arrives, and copies arrive in any order.  A connection carries
messages one way only: `_handle_client` reads what comes from a node that has dialled, and
`connect_to_peer` starts no reader, so a copy that is sent to the node that has dialled the
connection stays in its socket for ever.
-/

namespace DistriStore.Chat

open Lib

/-- `_MAX_SEEN`. -/
def maxSeen : ℕ := 500

/-! ## Messages -/

/-- What `websocket_chat` puts into a message. -/
structure ChatMsg where
  msgId : String
  senderId : String
  senderName : String
  text : String
  timestamp : ℚ
  deriving DecidableEq

/-- The dictionary that is sent to peers. -/
def ChatMsg.message (m : ChatMsg) : Value :=
  (chatMsg m.timestamp m.senderId m.senderName m.text).setField "msg_id" (.str m.msgId)

/-- Where a message comes from. -/
inductive Source where
  | user
  | peer
  deriving DecidableEq

/-- The `source` entry of a `ws_payload`. -/
def Source.text : Source → String
  | user => "local"
  | peer => "peer"

/-- `ws_payload`: what the web sockets are given. -/
structure Payload where
  msgId : Value
  senderId : Value
  senderName : Value
  text : Value
  timestamp : Value
  source : String

/-- The payload of `websocket_chat`. -/
def ChatMsg.payload (m : ChatMsg) (source : Source) : Payload where
  msgId := .str m.msgId
  senderId := .str m.senderId
  senderName := .str m.senderName
  text := .str m.text
  timestamp := .float m.timestamp
  source := source.text

/-- The payload of `handle_tcp_chat` for a received dictionary. -/
def peerPayload (now : ℚ) (msg : Value) : Except PyError Payload := do
  return {
    msgId := ← msg.getD "msg_id" (.str "")
    senderId := ← msg.getD "sender_id" (.str "")
    senderName := ← msg.getD "sender_name" (.str "unknown")
    text := ← msg.getD "text" (.str "")
    timestamp := ← msg.getD "timestamp" (.float now)
    source := "peer" }

/-- A message that a node sends is a chat message to its receiver. -/
lemma handleMessage_message (m : ChatMsg) : handleMessage m.message = .ok .chat := by
  simp [handleMessage, ChatMsg.message, chatMsg, buildMessage, Value.setField, Value.getD,
    Value.isStr]
  rfl

/-- No entry of it is missing. -/
lemma peerPayload_message (m : ChatMsg) (now : ℚ) :
    peerPayload now m.message = .ok (m.payload .peer) := by
  simp [peerPayload, ChatMsg.message, ChatMsg.payload, chatMsg, buildMessage, Value.setField,
    Value.getD, Value.isStr]
  rfl

/-! ## The network -/

/-- `_node.state`, as far as the chat reads it. -/
structure Profile where
  nodeId : String
  name : String

/-- How a node has come by a connection. -/
inductive Side where
  /-- From `connect_to_peer`. -/
  | dialled
  /-- From `_handle_client`. -/
  | accepted
  deriving DecidableEq

structure ChatNode (N : Type) where
  /-- `_seen_chat_ids`. -/
  seen : Finset String := ∅
  /-- What the set has popped so far. -/
  popped : List String := []
  /-- `conn_mgr.connections`. -/
  connections : Dict N Side := ∅

/-- How far a node is with a message. -/
inductive Stage (N : Type) where
  /-- In `chat_manager.broadcast`. -/
  | showing
  /-- In `broadcast_to_peers`: the peers that it has sent to, and the rest of its list. -/
  | flooding (sent rest : List N)
  deriving DecidableEq

/-- The copies that have been sent. -/
def Stage.sent {N : Type} : Stage N → List N
  | showing => []
  | flooding sent _ => sent

/-- A node takes a message. -/
structure Taken (N : Type) where
  node : N
  msg : ChatMsg
  source : Source

/-- What it does with the message: it calls `chat_manager.broadcast` for it, and then
`broadcast_to_peers`. -/
structure Task (N : Type) extends Taken N where
  stage : Stage N := .showing

/-- A copy of a message on a connection. -/
structure Copy (N : Type) where
  receiver : N
  msg : ChatMsg

/-- What is read of a copy at the other end of a connection: the node that has accepted it is in
its message loop, and the node that has dialled it reads nothing. -/
def Side.read {N : Type} (copy : Copy N) : Side → List (Copy N)
  | dialled => [copy]
  | accepted => []

structure State (N : Type) where
  nodes : N → ChatNode N := fun _ => {}
  /-- All messages that nodes have taken so far. -/
  tasks : List (Task N) := []
  /-- The copies on their way to a node that reads them. -/
  flight : List (Copy N) := []

inductive Label (N : Type) where
  /-- `connections` of node `a` gets or loses its entry for `b`. -/
  | connect (a b : N) (side : Side)
  | disconnect (a b : N)
  /-- The user of node `a` has typed `text`, which is stripped. -/
  | write (a : N) (text msgId : String) (timestamp : ℚ) (popped : Option String)
  /-- Copy `j` arrives. -/
  | receive (j : ℕ) (popped : Option String)
  /-- Task `i` has shown its message, and begins to flood it. -/
  | flood (i : ℕ)
  /-- It goes on to the next peer; `ok` if the send does not raise. -/
  | send (i : ℕ) (ok : Bool)

variable {N : Type}

/-- Task `i` goes on. -/
def State.setStage (s : State N) (i : ℕ) (task : Task N) (stage : Stage N) : State N :=
  { s with tasks := s.tasks.set i { task with stage } }

section Network

variable [DecidableEq N]

def State.updateNode (s : State N) (a : N) (f : ChatNode N → ChatNode N) : State N :=
  { s with nodes := Function.update s.nodes a (f (s.nodes a)) }

lemma State.nodes_updateNode (s : State N) (a b : N) (f : ChatNode N → ChatNode N) :
    (s.updateNode a f).nodes b = if b = a then f (s.nodes a) else s.nodes b :=
  Function.update_apply ..

/-- Node `a` remembers the id of a message, and calls `chat_manager.broadcast` for it; there is no
await in between. -/
def State.take (s : State N) (a : N) (msg : ChatMsg) (source : Source)
    (popped : Option String) : Option (State N) :=
  (addBounded maxSeen (s.nodes a).seen msg.msgId popped).map fun seen =>
    { s.updateNode a (fun node => { node with seen, popped := node.popped ++ popped.toList }) with
      tasks := s.tasks ++ [{ node := a, msg, source }] }

/-- One iteration of the loop of `websocket_chat`; ids are never used twice. -/
def State.websocketChat (s : State N) (profile : N → Profile) (a : N) (text msgId : String)
    (timestamp : ℚ) (popped : Option String) : Option (State N) :=
  if text = "" then some s
  else if ∃ task ∈ s.tasks, task.msg.msgId = msgId then none
  else s.take a ⟨msgId, (profile a).nodeId, (profile a).name, text, timestamp⟩ .user popped

/-- `handle_tcp_chat`. -/
def State.handleTcpChat (s : State N) (a : N) (msg : ChatMsg) (popped : Option String) :
    Option (State N) :=
  if msg.msgId ∈ (s.nodes a).seen then some s else s.take a msg .peer popped

/-- `send_to_peer` for the next peer of a task. -/
def State.sendToPeer (s : State N) (i : ℕ) (task : Task N) (sent : List N) (b : N)
    (rest : List N) (ok : Bool) : State N :=
  match (s.nodes task.node).connections.get? b with
  | none => s.setStage i task (.flooding sent rest)
  | some side =>
    if ok then
      { s.setStage i task (.flooding (sent ++ [b]) rest) with
        flight := s.flight ++ side.read ⟨b, task.msg⟩ }
    else s.setStage i task (.flooding sent rest)

def exec (profile : N → Profile) (s : State N) : Label N → Option (State N)
  | .connect a b side => some (s.updateNode a fun node =>
      { node with connections := node.connections.set b side })
  | .disconnect a b => some (s.updateNode a fun node =>
      { node with connections := node.connections.erase b })
  | .write a text msgId timestamp popped => s.websocketChat profile a text msgId timestamp popped
  | .receive j popped => do
    let copy ← s.flight[j]?
    { s with flight := s.flight.eraseIdx j }.handleTcpChat copy.receiver copy.msg popped
  | .flood i => do
    let task ← s.tasks[i]?
    match task.stage with
    | .showing => some (s.setStage i task (.flooding [] (s.nodes task.node).connections.keys))
    | .flooding .. => none
  | .send i ok => do
    let task ← s.tasks[i]?
    match task.stage with
    | .flooding sent (b :: rest) => some (s.sendToPeer i task sent b rest ok)
    | _ => none

/-- A network without connections in which nobody has written anything. -/
def machine (profile : N → Profile) : Machine (State N) (Label N) where
  init := {}
  exec := exec profile

/-! ## At most once -/

/-- All messages that nodes have taken. -/
def State.taken (s : State N) : List (Taken N) := s.tasks.map Task.toTaken

/-- What `chat_manager.broadcast` of node `a` was called with. -/
def State.shown (s : State N) (a : N) : List Payload :=
  (s.taken.filter fun x => x.node = a).map fun x => x.msg.payload x.source

/-- What `broadcast_to_peers` of node `a` was called with. -/
def State.flooded (s : State N) (a : N) : List ChatMsg :=
  (s.tasks.filter fun task => task.node = a ∧ task.stage ≠ .showing).map
    fun task => task.msg

/-- How many copies of a message have been sent. -/
def State.copies (s : State N) (msgId : String) : ℕ :=
  ((s.tasks.filter fun task => task.msg.msgId = msgId).map fun task =>
    task.stage.sent.length).sum

/-- Every node has shown and flooded each message at most once, and no more copies of it have been
sent than there are pairs of nodes, however long the run: the flood of a message dies out. -/
structure AtMostOnce [Fintype N] (s : State N) : Prop where
  shown : ∀ a, ((s.shown a).map Payload.msgId).Nodup
  flooded : ∀ a, ((s.flooded a).map ChatMsg.msgId).Nodup
  copies : ∀ msgId, s.copies msgId ≤ Fintype.card N ^ 2

/-- A copy that arrives is not one whose id the node has popped, and not taken again. -/
def Remembered (s : State N) : Label N → Prop
  | .receive j _ => ∀ copy ∈ s.flight[j]?,
      copy.msg.msgId ∈ (s.nodes copy.receiver).popped →
        copy.msg.msgId ∈ (s.nodes copy.receiver).seen
  | _ => True

end Network

/-! ## What a step does -/

/-- The rest of its list. -/
def Stage.rest {N : Type} : Stage N → List N
  | showing => []
  | flooding _ rest => rest

/-- Who has taken which message. -/
def Taken.key {N : Type} (x : Taken N) : N × String := (x.node, x.msg.msgId)

def State.keys (s : State N) : List (N × String) := s.taken.map Taken.key

/-- The node has sent the message to no peer twice, and is not about to. -/
def Task.Fair {N : Type} (task : Task N) : Prop := (task.stage.sent ++ task.stage.rest).Nodup

/-- A step in which no node takes a message. -/
structure Quiet (s t : State N) : Prop where
  taken : t.taken = s.taken
  seen : ∀ a, (t.nodes a).seen = (s.nodes a).seen
  popped : ∀ a, (t.nodes a).popped = (s.nodes a).popped
  flight : ∀ copy ∈ t.flight, copy ∈ s.flight ∨ ∃ x ∈ s.taken, x.msg = copy.msg
  fair : (∀ task ∈ s.tasks, task.Fair) → ∀ task ∈ t.tasks, task.Fair

/-- What a node does when it takes a message. -/
structure Takes (a : N) (msg : ChatMsg) (source : Source) (popped : Option String)
    (s t : State N) : Prop where
  add : addBounded maxSeen (s.nodes a).seen msg.msgId popped = some (t.nodes a).seen
  popped : (t.nodes a).popped = (s.nodes a).popped ++ popped.toList
  others : ∀ b ≠ a, t.nodes b = s.nodes b
  connections : ∀ b, (t.nodes b).connections = (s.nodes b).connections
  tasks : t.tasks = s.tasks ++ [{ node := a, msg, source }]
  flight : t.flight = s.flight

/-- What is in flight has been taken by a node, and what a node has taken it remembers, or its set,
which stays within its bound, has popped it. -/
structure Inv (s : State N) : Prop where
  flight : ∀ copy ∈ s.flight, ∃ x ∈ s.taken, x.msg.msgId = copy.msg.msgId
  known : ∀ a msgId, (a, msgId) ∈ s.keys ↔
    msgId ∈ (s.nodes a).seen ∨ msgId ∈ (s.nodes a).popped
  bounded : ∀ a, (s.nodes a).seen.card ≤ maxSeen
  fair : ∀ task ∈ s.tasks, task.Fair

section Steps

variable {s t : State N} {a : N} {msg : ChatMsg} {source : Source} {popped : Option String} {i : ℕ}
  {task : Task N}

lemma eq_of_mem_read {side : Side} {copy copy' : Copy N} (h : copy' ∈ side.read copy) :
    copy' = copy ∧ side = .dialled := by
  cases side with
  | dialled => exact ⟨List.mem_singleton.1 h, rfl⟩
  | accepted => cases h

lemma length_read_le (side : Side) (copy : Copy N) : (side.read copy).length ≤ 1 := by
  cases side with
  | dialled => exact le_rfl
  | accepted => exact Nat.zero_le 1

lemma Quiet.refl (s : State N) : Quiet s s where
  taken := rfl
  seen _ := rfl
  popped _ := rfl
  flight _ hcopy := Or.inl hcopy
  fair h := h

/-- A copy arrives. -/
lemma quiet_eraseIdx (s : State N) (j : ℕ) :
    Quiet s { s with flight := s.flight.eraseIdx j } where
  taken := rfl
  seen _ := rfl
  popped _ := rfl
  flight _ hcopy := Or.inl (List.mem_of_mem_eraseIdx hcopy)
  fair h := h

/-- A task goes on, and may send a copy of its message. -/
lemma quiet_setStage (hi : s.tasks[i]? = some task) (stage : Stage N)
    (hfair : task.Fair → (stage.sent ++ stage.rest).Nodup) {flight : List (Copy N)}
    (hflight : ∀ copy ∈ flight, copy ∈ s.flight ∨ copy.msg = task.msg) :
    Quiet s { s.setStage i task stage with flight } where
  taken := map_set_of_eq hi rfl
  seen _ := rfl
  popped _ := rfl
  flight copy hcopy := (hflight copy hcopy).imp_right fun hmsg =>
    ⟨task.toTaken, List.mem_map_of_mem (List.mem_of_getElem? hi), hmsg.symm⟩
  fair h task' htask' := by
    rcases List.mem_or_eq_of_mem_set htask' with hmem | rfl
    · exact h task' hmem
    · exact hfair (h task (List.mem_of_getElem? hi))

lemma Quiet.keys (hst : Quiet s t) : t.keys = s.keys := by rw [State.keys, hst.taken, State.keys]

lemma Takes.taken (h : Takes a msg source popped s t) :
    t.taken = s.taken ++ [⟨a, msg, source⟩] := by
  rw [State.taken, h.tasks, List.map_append, State.taken]
  rfl

lemma Takes.keys (h : Takes a msg source popped s t) : t.keys = s.keys ++ [(a, msg.msgId)] := by
  rw [State.keys, h.taken, List.map_append, State.keys]
  rfl

lemma inv_quiet (hs : Inv s) (hst : Quiet s t) : Inv t where
  flight copy hcopy := by
    rw [hst.taken]
    rcases hst.flight copy hcopy with hcopy | ⟨x, hx, hmsg⟩
    · exact hs.flight copy hcopy
    · exact ⟨x, hx, by rw [hmsg]⟩
  known a msgId := by rw [hst.keys, hst.seen, hst.popped, hs.known]
  bounded a := by
    rw [hst.seen]
    exact hs.bounded a
  fair := hst.fair hs.fair

/-- What is known after a message has been taken. -/
lemma Takes.known (hs : Inv s) (h : Takes a msg source popped s t) (b : N) (msgId : String) :
    (b, msgId) ∈ t.keys ↔ msgId ∈ (t.nodes b).seen ∨ msgId ∈ (t.nodes b).popped := by
  rw [h.keys, List.mem_append, hs.known, List.mem_singleton, Prod.mk.injEq]
  by_cases hb : b = a
  · subst hb
    obtain ⟨hseen, hpopped⟩ := mem_addBounded h.add
    rw [hseen, h.popped, List.mem_append, Option.mem_toList]
    have hpop := hpopped msgId
    tauto
  · rw [h.others b hb]
    tauto

lemma inv_takes (hs : Inv s) (h : Takes a msg source popped s t) : Inv t where
  flight copy hcopy := by
    rw [h.flight] at hcopy
    obtain ⟨x, hx, hid⟩ := hs.flight copy hcopy
    exact ⟨x, by simp [h.taken, hx], hid⟩
  known := h.known hs
  bounded b := by
    by_cases hb : b = a
    · rw [hb]
      exact card_addBounded_le (hs.bounded a) h.add
    · rw [h.others b hb]
      exact hs.bounded b
  fair task htask := by
    rw [h.tasks, List.mem_append, List.mem_singleton] at htask
    rcases htask with htask | rfl
    · exact hs.fair task htask
    · exact List.nodup_nil

/-- A message is taken once as long as it has not been taken before. -/
lemma Takes.nodup_keys_iff (h : Takes a msg source popped s t) (honce : s.keys.Nodup) :
    t.keys.Nodup ↔ (a, msg.msgId) ∉ s.keys := by
  rw [h.keys, ← List.concat_eq_append, List.nodup_concat, and_iff_left honce]

end Steps

/-! ## The steps of the network -/

section Network

variable [DecidableEq N] {profile : N → Profile} {s t : State N} {a : N} {msg : ChatMsg}
  {source : Source} {popped : Option String} {i : ℕ} {task : Task N}

lemma inv_init (profile : N → Profile) : Inv (machine profile).init where
  flight copy hcopy := by cases hcopy
  known a msgId := by simp [machine, State.keys, State.taken]
  bounded a := Nat.zero_le maxSeen
  fair task htask := by cases htask

lemma quiet_updateNode {f : ChatNode N → ChatNode N} (hseen : ∀ node, (f node).seen = node.seen)
    (hpopped : ∀ node, (f node).popped = node.popped) : Quiet s (s.updateNode a f) where
  taken := rfl
  seen b := by
    rw [State.nodes_updateNode]
    split
    · next hb => rw [hseen, hb]
    · rfl
  popped b := by
    rw [State.nodes_updateNode]
    split
    · next hb => rw [hpopped, hb]
    · rfl
  flight _ hcopy := Or.inl hcopy
  fair h := h

lemma quiet_sendToPeer {sent rest : List N} {b : N} (hi : s.tasks[i]? = some task)
    (hstage : task.stage = .flooding sent (b :: rest)) (ok : Bool) :
    Quiet s (s.sendToPeer i task sent b rest ok) := by
  have hfair (h : task.Fair) : (sent ++ b :: rest).Nodup := by
    unfold Task.Fair at h
    rwa [hstage] at h
  have hskip : Quiet s (s.setStage i task (.flooding sent rest)) := by
    refine quiet_setStage hi _ (fun h => ?_) fun _ => Or.inl
    exact (hfair h).sublist ((List.sublist_cons_self b rest).append_left sent)
  unfold State.sendToPeer
  split
  · exact hskip
  · split
    · refine quiet_setStage hi _ (fun h => ?_) fun copy hcopy => ?_
      · simpa [Stage.sent, Stage.rest] using hfair h
      · refine (List.mem_append.1 hcopy).imp_right fun hcopy => ?_
        rw [(eq_of_mem_read hcopy).1]
    · exact hskip

lemma takes_take (h : s.take a msg source popped = some t) : Takes a msg source popped s t := by
  obtain ⟨seen, hadd, rfl⟩ := Option.map_eq_some_iff.1 h
  refine { add := ?_, popped := ?_, others := fun b hb => ?_, connections := fun b => ?_,
           tasks := rfl, flight := rfl }
  · simpa [State.updateNode] using hadd
  · simp [State.updateNode]
  · simp [State.updateNode, hb]
  · simp only [State.nodes_updateNode]
    split
    · next hb => rw [hb]
    · rfl

lemma exec_write {text msgId : String} {timestamp : ℚ}
    (h : exec profile s (.write a text msgId timestamp popped) = some t) :
    t = s ∨ (∀ x ∈ s.taken, x.msg.msgId ≠ msgId) ∧
      ∃ msg : ChatMsg, msg.msgId = msgId ∧ Takes a msg .user popped s t := by
  simp only [exec, State.websocketChat] at h
  split at h
  · exact Or.inl (Option.some.inj h).symm
  · split at h
    · cases h
    · next hfresh =>
      refine Or.inr ⟨fun x hx hid => ?_, _, rfl, takes_take h⟩
      obtain ⟨task, htask, rfl⟩ := List.mem_map.1 hx
      exact hfresh ⟨task, htask, hid⟩

lemma exec_receive {j : ℕ} (h : exec profile s (.receive j popped) = some t) :
    ∃ copy : Copy N, s.flight[j]? = some copy ∧
      (copy.msg.msgId ∈ (s.nodes copy.receiver).seen ∧ Quiet s t ∨
        copy.msg.msgId ∉ (s.nodes copy.receiver).seen ∧
          Takes copy.receiver copy.msg .peer popped
            { s with flight := s.flight.eraseIdx j } t) := by
  obtain ⟨copy, hj, h⟩ := Option.bind_eq_some_iff.1 h
  refine ⟨copy, hj, ?_⟩
  unfold State.handleTcpChat at h
  split at h
  · next hseen =>
    exact Or.inl ⟨hseen, Option.some.inj h ▸ quiet_eraseIdx s j⟩
  · next hseen => exact Or.inr ⟨hseen, takes_take h⟩

lemma quiet_exec_connect {b : N} {side : Side}
    (h : exec profile s (.connect a b side) = some t) : Quiet s t :=
  Option.some.inj h ▸ quiet_updateNode (fun _ => rfl) fun _ => rfl

lemma quiet_exec_disconnect {b : N} (h : exec profile s (.disconnect a b) = some t) :
    Quiet s t :=
  Option.some.inj h ▸ quiet_updateNode (fun _ => rfl) fun _ => rfl

lemma quiet_exec_flood (h : exec profile s (.flood i) = some t) : Quiet s t := by
  obtain ⟨task, hi, h⟩ := Option.bind_eq_some_iff.1 h
  split at h
  · rw [← Option.some.inj h]
    refine quiet_setStage hi _ (fun _ => ?_) fun _ => Or.inl
    exact (s.nodes task.node).connections.nodupKeys
  · cases h

lemma quiet_exec_send {ok : Bool} (h : exec profile s (.send i ok) = some t) : Quiet s t := by
  obtain ⟨task, hi, h⟩ := Option.bind_eq_some_iff.1 h
  split at h
  · next hstage => exact Option.some.inj h ▸ quiet_sendToPeer hi hstage ok
  · cases h

/-- Every step is quiet, or a node takes a message in it, which a user has written or another node
has taken before. -/
lemma exec_cases {l : Label N} (hs : Inv s) (h : exec profile s l = some t) :
    Quiet s t ∨ ∃ s' a msg source popped, Quiet s s' ∧ Takes a msg source popped s' t ∧
      (source = .user ∨ ∃ x ∈ s'.taken, x.msg.msgId = msg.msgId) := by
  cases l with
  | connect a b side => exact Or.inl (quiet_exec_connect h)
  | disconnect a b => exact Or.inl (quiet_exec_disconnect h)
  | write a text msgId timestamp popped =>
    rcases exec_write h with rfl | ⟨-, msg, -, htakes⟩
    · exact Or.inl (Quiet.refl t)
    · exact Or.inr ⟨s, a, msg, .user, popped, Quiet.refl s, htakes, Or.inl rfl⟩
  | receive j popped =>
    obtain ⟨copy, hj, ⟨-, hquiet⟩ | ⟨-, htakes⟩⟩ := exec_receive h
    · exact Or.inl hquiet
    · refine Or.inr ⟨_, copy.receiver, copy.msg, .peer, popped, quiet_eraseIdx s j, htakes, ?_⟩
      exact Or.inr (hs.flight copy (List.mem_of_getElem? hj))
  | flood i => exact Or.inl (quiet_exec_flood h)
  | send i ok => exact Or.inl (quiet_exec_send h)

lemma inv_exec {l : Label N} (hs : Inv s) (h : exec profile s l = some t) : Inv t := by
  rcases exec_cases hs h with hquiet | ⟨s', a, msg, source, popped, hquiet, htakes, -⟩
  · exact inv_quiet hs hquiet
  · exact inv_takes (inv_quiet hs hquiet) htakes

/-! ## Taken once -/

/-- No node takes a message twice exactly when the step remembers. -/
lemma nodup_keys_iff {l : Label N} (hs : Inv s) (honce : s.keys.Nodup)
    (h : exec profile s l = some t) : t.keys.Nodup ↔ Remembered s l := by
  have hkeep (hquiet : Quiet s t) : t.keys.Nodup := hquiet.keys ▸ honce
  cases l with
  | connect a b side => exact iff_of_true (hkeep (quiet_exec_connect h)) trivial
  | disconnect a b => exact iff_of_true (hkeep (quiet_exec_disconnect h)) trivial
  | write a text msgId timestamp popped =>
    refine iff_of_true ?_ trivial
    rcases exec_write h with rfl | ⟨hfresh, msg, rfl, htakes⟩
    · exact honce
    · rw [htakes.nodup_keys_iff honce]
      intro hkey
      obtain ⟨x, hx, hkey⟩ := List.mem_map.1 hkey
      exact hfresh x hx (congrArg Prod.snd hkey)
  | receive j popped =>
    obtain ⟨copy, hj, hcases⟩ := exec_receive h
    have hremembered : Remembered s (.receive j popped) ↔
        (copy.msg.msgId ∈ (s.nodes copy.receiver).popped →
          copy.msg.msgId ∈ (s.nodes copy.receiver).seen) := by
      simp [Remembered, hj]
    rw [hremembered]
    rcases hcases with ⟨hseen, hquiet⟩ | ⟨hseen, htakes⟩
    · exact iff_of_true (hkeep hquiet) fun _ => hseen
    · have hknown := hs.known copy.receiver copy.msg.msgId
      have honce' : ({ s with flight := s.flight.eraseIdx j } : State N).keys.Nodup := honce
      rw [htakes.nodup_keys_iff honce']
      change (copy.receiver, copy.msg.msgId) ∉ s.keys ↔ _
      rw [hknown]
      tauto
  | flood i => exact iff_of_true (hkeep (quiet_exec_flood h)) trivial
  | send i ok => exact iff_of_true (hkeep (quiet_exec_send h)) trivial

end Network

/-! ## Every run -/

/-- Every node sends a message to every node once at most. -/
lemma copies_le [Fintype N] {s : State N} (hs : Inv s) (h : s.keys.Nodup) (msgId : String) :
    s.copies msgId ≤ Fintype.card N ^ 2 := by
  let tasks := s.tasks.filter fun task => task.msg.msgId = msgId
  have hnodes : (tasks.map fun task => task.node).Nodup := by
    rw [State.keys, State.taken, List.map_map] at h
    refine nodup_map_filter h fun x y hx hy hnode => ?_
    rw [decide_eq_true_eq] at hx hy
    exact Prod.ext hnode (hx.trans hy.symm)
  have hlength : tasks.length ≤ Fintype.card N := by
    simpa using hnodes.length_le_card
  have hsent : ∀ n ∈ tasks.map (fun task => task.stage.sent.length), n ≤ Fintype.card N := by
    intro n hn
    obtain ⟨task, htask, rfl⟩ := List.mem_map.1 hn
    have hfair : task.Fair := hs.fair task (List.mem_filter.1 htask).1
    exact hfair.of_append_left.length_le_card
  calc s.copies msgId
      ≤ (tasks.map fun task => task.stage.sent.length).length • Fintype.card N :=
        List.sum_le_card_nsmul _ _ hsent
    _ = tasks.length * Fintype.card N := by rw [List.length_map, smul_eq_mul]
    _ ≤ Fintype.card N * Fintype.card N := Nat.mul_le_mul_right _ hlength
    _ = Fintype.card N ^ 2 := (sq _).symm

section Runs

variable [DecidableEq N] {profile : N → Profile} {s : State N}

/-- A message is taken once by a node when what the node does for it has one id once. -/
lemma nodup_keys_of_shown (h : ∀ a, ((s.shown a).map Payload.msgId).Nodup) : s.keys.Nodup := by
  rw [State.keys, List.Nodup, List.pairwise_map, List.pairwise_iff_getElem]
  intro i j hi hj hij hkey
  have hshown := h s.taken[j].node
  rw [State.shown, List.map_map, List.Nodup, List.pairwise_map, List.pairwise_filter,
    List.pairwise_iff_getElem] at hshown
  have hnode : s.taken[i].node = s.taken[j].node := congrArg Prod.fst hkey
  refine hshown i j hi hj hij (by simpa using hnode) (by simp) ?_
  exact congrArg Value.str (congrArg Prod.snd hkey)

lemma shown_of_nodup_keys (h : s.keys.Nodup) (a : N) :
    ((s.shown a).map Payload.msgId).Nodup := by
  rw [State.shown, List.map_map]
  refine nodup_map_filter h fun x y hx hy hid => ?_
  rw [decide_eq_true_eq] at hx hy
  exact Prod.ext (hx.trans hy.symm) (Value.str.inj hid)

lemma flooded_of_nodup_keys (h : s.keys.Nodup) (a : N) :
    ((s.flooded a).map ChatMsg.msgId).Nodup := by
  rw [State.keys, State.taken, List.map_map] at h
  rw [State.flooded, List.map_map]
  refine nodup_map_filter h fun x y hx hy hid => ?_
  rw [decide_eq_true_eq] at hx hy
  exact Prod.ext (hx.1.trans hy.1.symm) hid

lemma atMostOnce_iff [Fintype N] (hs : Inv s) : AtMostOnce s ↔ s.keys.Nodup :=
  ⟨fun h => nodup_keys_of_shown h.shown,
    fun h => ⟨shown_of_nodup_keys h, flooded_of_nodup_keys h, copies_le hs h⟩⟩

/-- **Every message is shown and flooded once at each node exactly while no copy arrives of a
message whose id the receiver has popped.** -/
theorem at_most_once_iff [Fintype N] (profile : N → Profile) (ls : List (Label N)) :
    (machine profile).Always AtMostOnce (machine profile).init ls ↔
      (machine profile).Meets Remembered (machine profile).init ls := by
  refine Machine.always_iff_meets (I := Inv) (fun s l t hs h => inv_exec hs h) ?_
    (inv_init profile) ?_
  · intro s l t hs honce h
    rw [atMostOnce_iff (inv_exec hs h)]
    exact nodup_keys_iff hs ((atMostOnce_iff hs).1 honce) h
  · exact (atMostOnce_iff (inv_init profile)).2 List.nodup_nil

end Runs

/-! ## A short conversation -/

/-- The ids of the messages that users have written. -/
def State.written (s : State N) : List String :=
  (s.taken.filter fun x => x.source = .user).map fun x => x.msg.msgId

/-- All messages are messages of users, and a set pops nothing before there are more of them than
it holds. -/
structure Short (s : State N) : Prop where
  written : ∀ x ∈ s.taken, x.msg.msgId ∈ s.written
  unpopped : s.written.length ≤ maxSeen → ∀ a, (s.nodes a).popped = []

section Short

variable {s t : State N} {a : N} {msg : ChatMsg} {source : Source} {popped : Option String}

lemma Quiet.written (hst : Quiet s t) : t.written = s.written := by
  rw [State.written, hst.taken, State.written]

lemma Takes.written (h : Takes a msg source popped s t) : s.written <+: t.written := by
  rw [State.written, State.written, h.taken, List.filter_append, List.map_append]
  exact List.prefix_append ..

lemma short_quiet (hs : Short s) (hst : Quiet s t) : Short t where
  written x hx := by
    rw [hst.written]
    exact hs.written x (hst.taken ▸ hx)
  unpopped hle a := by
    rw [hst.popped]
    exact hs.unpopped (hst.written ▸ hle) a

lemma short_takes (hinv : Inv s) (hs : Short s) (h : Takes a msg source popped s t)
    (hmsg : source = .user ∨ ∃ x ∈ s.taken, x.msg.msgId = msg.msgId) : Short t := by
  have hnew : msg.msgId ∈ t.written := by
    rcases hmsg with rfl | ⟨x, hx, hid⟩
    · simp [State.written, h.taken]
    · exact h.written.subset (hid ▸ hs.written x hx)
  refine ⟨fun x hx => ?_, fun hle b => ?_⟩
  · rw [h.taken, List.mem_append, List.mem_singleton] at hx
    rcases hx with hx | rfl
    · exact h.written.subset (hs.written x hx)
    · exact hnew
  · have hold := hs.unpopped (h.written.length_le.trans hle)
    by_cases hb : b = a
    · subst hb
      -- what the set holds, the new id included, are ids of messages of users
      have hsubset : insert msg.msgId (s.nodes b).seen ⊆ t.written.toFinset := by
        intro msgId hid
        rw [List.mem_toFinset]
        rcases Finset.mem_insert.1 hid with rfl | hseen
        · exact hnew
        · obtain ⟨x, hx, hkey⟩ := List.mem_map.1 ((hinv.known b msgId).2 (Or.inl hseen))
          obtain rfl : x.msg.msgId = msgId := congrArg Prod.snd hkey
          exact h.written.subset (hs.written x hx)
      have hcard := (Finset.card_le_card hsubset).trans (List.toFinset_card_le _)
      rw [h.popped, hold, popped_eq_none (hcard.trans hle) h.add]
      rfl
    · rw [h.others b hb, hold]

/-- Before a set has popped anything, every step remembers. -/
lemma remembered_of_unpopped (h : ∀ a, (s.nodes a).popped = []) (l : Label N) :
    Remembered s l := by
  cases l with
  | receive j popped =>
    intro copy _ hpopped
    rw [h] at hpopped
    cases hpopped
  | _ => trivial

variable [DecidableEq N] {profile : N → Profile} {l : Label N}

lemma written_exec (hinv : Inv s) (h : exec profile s l = some t) : s.written <+: t.written := by
  rcases exec_cases hinv h with hquiet | ⟨s', a, msg, source, popped, hquiet, htakes, -⟩
  · rw [hquiet.written]
  · rw [← hquiet.written]
    exact htakes.written

lemma short_exec (hinv : Inv s) (hs : Short s) (h : exec profile s l = some t) : Short t := by
  rcases exec_cases hinv h with hquiet | ⟨s', a, msg, source, popped, hquiet, htakes, hmsg⟩
  · exact short_quiet hs hquiet
  · exact short_takes (inv_quiet hinv hquiet) (short_quiet hs hquiet) htakes hmsg

/-- **While no more messages have been written than the set holds, every message is shown and
flooded once at each node.** -/
theorem at_most_once_of_few [Fintype N] (hs : (machine profile).Reachable s)
    (hfew : s.written.length ≤ maxSeen) : AtMostOnce s := by
  have hinv : Inv s ∧ Short s ∧ (s.written.length ≤ maxSeen → s.keys.Nodup) := by
    refine Machine.Reachable.invariant
      (I := fun s => Inv s ∧ Short s ∧ (s.written.length ≤ maxSeen → s.keys.Nodup)) hs ?_ ?_
    · refine ⟨inv_init profile, ⟨fun x hx => ?_, fun _ a => rfl⟩, fun _ => List.nodup_nil⟩
      cases hx
    · rintro s l t ⟨hinv, hshort, honce⟩ h
      refine ⟨inv_exec hinv h, short_exec hinv hshort h, fun hle => ?_⟩
      have hle' : s.written.length ≤ maxSeen := (written_exec hinv h).length_le.trans hle
      exact (nodup_keys_iff hinv (honce hle') h).2
        (remembered_of_unpopped (hshort.unpopped hle') l)
  exact (atMostOnce_iff hinv.1).2 (hinv.2.2 hfew)

end Short

/-! ## A long conversation -/

/-- Twelve hexadecimal digits, as `uuid.uuid4().hex[:12]` has them. -/
def chatId (k : ℕ) : String := hexDigest (Sha256.beBytes 6 k)

lemma chatId_inj {j k : ℕ} (hj : j < 256 ^ 6) (hk : k < 256 ^ 6) (h : chatId j = chatId k) :
    j = k := by
  have hdigits := foldl_beBytes 6 j 0
  rw [hexDigest_injective h, foldl_beBytes, Nat.mod_eq_of_lt hj, Nat.mod_eq_of_lt hk] at hdigits
  omega

/-- The first `n` ids. -/
def chatIds (n : ℕ) : List String := (List.range n).map chatId

lemma chatId_notMem {n : ℕ} (hn : n ≤ maxSeen) : chatId n ∉ chatIds n := by
  intro hmem
  obtain ⟨k, hk, hid⟩ := List.mem_map.1 hmem
  rw [List.mem_range] at hk
  unfold maxSeen at hn
  have heq : k = n := chatId_inj (by omega) (by omega) hid
  omega

lemma card_chatIds {n : ℕ} (hn : n ≤ maxSeen) : (chatIds n).toFinset.card = n := by
  have hnodup : (chatIds n).Nodup := by
    refine List.nodup_range.map_on fun j hj k hk h => ?_
    rw [List.mem_range] at hj hk
    unfold maxSeen at hn
    exact chatId_inj (by omega) (by omega) h
  rw [List.toFinset_card_of_nodup hnodup, chatIds, List.length_map, List.length_range]

section Conversation

variable [DecidableEq N] {profile : N → Profile} {s t : State N} {a b : N} {msg : ChatMsg}
  {source : Source} {popped : Option String} {seen : Finset String}

/-- The user of a node writes a message. -/
lemma exists_write (hs : (machine profile).Reachable s) {text msgId : String} (htext : text ≠ "")
    (hfresh : ∀ x ∈ s.taken, x.msg.msgId ≠ msgId)
    (hadd : addBounded maxSeen (s.nodes a).seen msgId popped = some seen) :
    ∃ t msg, (machine profile).Reachable t ∧ msg.msgId = msgId ∧
      Takes a msg .user popped s t := by
  have hnone : ¬ ∃ task ∈ s.tasks, task.msg.msgId = msgId := by
    rintro ⟨task, htask, hid⟩
    exact hfresh task.toTaken (List.mem_map_of_mem htask) hid
  obtain ⟨t, ht⟩ : ∃ t, s.websocketChat profile a text msgId 0 popped = some t := by
    simp [State.websocketChat, State.take, htext, hnone, hadd]
  have hwrite : (machine profile).exec s (.write a text msgId 0 popped) = some t := ht
  rw [State.websocketChat, if_neg htext, if_neg hnone] at ht
  exact ⟨t, _, hs.step hwrite, rfl, takes_take ht⟩

/-- The only copy in flight arrives, and the node takes the message. -/
lemma exists_receive (hs : (machine profile).Reachable s) (popped : Option String)
    (hflight : s.flight = [⟨a, msg⟩]) (hnew : msg.msgId ∉ (s.nodes a).seen)
    (hadd : addBounded maxSeen (s.nodes a).seen msg.msgId popped = some seen) :
    ∃ t, (machine profile).Reachable t ∧ Takes a msg .peer popped { s with flight := [] } t := by
  obtain ⟨t, ht⟩ : ∃ t, ({ s with flight := [] } : State N).take a msg .peer popped = some t := by
    simp [State.take, hadd]
  have hreceive : (machine profile).exec s (.receive 0 popped) = some t := by
    simp [machine, exec, hflight, State.handleTcpChat, hnew, ht]
  exact ⟨t, hs.step hreceive, takes_take ht⟩

/-- A node that has shown a message floods it. -/
lemma exists_flood (hs : (machine profile).Reachable s) {tasks : List (Task N)}
    (htasks : s.tasks = tasks ++ [{ node := a, msg, source }]) :
    ∃ t, (machine profile).Reachable t ∧ t.nodes = s.nodes ∧ t.taken = s.taken ∧
      t.flight = s.flight ∧ t.tasks = tasks ++
        [⟨⟨a, msg, source⟩, .flooding [] (s.nodes a).connections.keys⟩] := by
  have hflood : (machine profile).exec s (.flood tasks.length) = some (s.setStage tasks.length
      { node := a, msg, source } (.flooding [] (s.nodes a).connections.keys)) := by
    simp [machine, exec, htasks]
  refine ⟨_, hs.step hflood, rfl, ?_, rfl, ?_⟩
  · simp [State.taken, State.setStage, htasks]
  · simp [State.setStage, htasks]

/-- A node with one peer, which it has dialled, sends it a message that it has shown. -/
lemma exists_sent (hs : (machine profile).Reachable s) {tasks : List (Task N)}
    (htasks : s.tasks = tasks ++ [{ node := a, msg, source }])
    (hpeers : (s.nodes a).connections.entries = [(b, .dialled)]) (hflight : s.flight = []) :
    ∃ t, (machine profile).Reachable t ∧ t.nodes = s.nodes ∧ t.taken = s.taken ∧
      t.flight = [⟨b, msg⟩] := by
  obtain ⟨t, ht, hnodes, htaken, hflight', htasks'⟩ := exists_flood hs htasks
  have hsend : (machine profile).exec t (.send tasks.length true) = some
      { t.setStage tasks.length ⟨⟨a, msg, source⟩, .flooding [] [b]⟩ (.flooding [b] []) with
        flight := [⟨b, msg⟩] } := by
    simp [machine, exec, htasks', Dict.keys, Dict.get?, hpeers, hnodes, hflight', hflight,
      State.sendToPeer, Side.read]
  refine ⟨_, ht.step hsend, hnodes, ?_, rfl⟩
  rw [← htaken]
  simp [State.taken, State.setStage, htasks']

end Conversation

/-- Two nodes. -/
def twoNodes : Bool → Profile
  | true => ⟨"aa", "A"⟩
  | false => ⟨"bb", "B"⟩

/-- The user of `aa` has written `n` messages while there were no connections. -/
structure Alone (n : ℕ) (s : State Bool) : Prop where
  seen : (s.nodes true).seen = (chatIds n).toFinset
  unseen : (s.nodes false).seen = ∅
  connections : ∀ a, (s.nodes a).connections = ∅
  ids : s.taken.map (fun x => x.msg.msgId) = chatIds n
  flight : s.flight = []

lemma Alone.fresh {n : ℕ} {s : State Bool} (h : Alone n s) (hn : n ≤ maxSeen) :
    ∀ x ∈ s.taken, x.msg.msgId ≠ chatId n := by
  intro x hx hid
  refine chatId_notMem hn ?_
  rw [← h.ids, ← hid]
  exact List.mem_map_of_mem hx

lemma hello_ne_empty : "hello" ≠ "" := by decide

lemma exists_alone {n : ℕ} (hn : n ≤ maxSeen) :
    ∃ s, (machine twoNodes).Reachable s ∧ Alone n s := by
  induction n with
  | zero => exact ⟨_, Machine.Reachable.init, ⟨rfl, rfl, fun _ => rfl, rfl, rfl⟩⟩
  | succ n ih =>
    have hlt : n < maxSeen := hn
    obtain ⟨s, hs, halone⟩ := ih hlt.le
    have hcard : (s.nodes true).seen.card < maxSeen := by
      rwa [halone.seen, card_chatIds hlt.le]
    obtain ⟨t, msg, ht, hid, htakes⟩ := exists_write hs hello_ne_empty
      (halone.fresh hlt.le) (addBounded_of_card_lt hcard)
    obtain ⟨u, hu, hnodes, htaken, hflight, -⟩ := exists_flood ht htakes.tasks
    have hadd := htakes.add
    rw [hid, addBounded_of_card_lt hcard, Option.some.injEq] at hadd
    refine ⟨u, hu, ?_, ?_, fun a => ?_, ?_, ?_⟩
    · rw [hnodes, ← hadd, halone.seen, chatIds, chatIds, List.range_succ, List.map_append,
        List.toFinset_append, Finset.insert_eq, Finset.union_comm]
      rfl
    · rw [hnodes, htakes.others false Bool.false_ne_true, halone.unseen]
    · rw [hnodes, htakes.connections, halone.connections]
    · rw [htaken, htakes.taken, List.map_append, halone.ids, chatIds, chatIds, List.range_succ,
        List.map_append]
      exact congrArg (List.map chatId (List.range n) ++ [·]) hid
    · rw [hflight, htakes.flight, halone.flight]

/-- The nodes have dialled each other, and the set of `aa` is full. -/
structure Full (s : State Bool) : Prop where
  card : (s.nodes true).seen.card = maxSeen
  unseen : (s.nodes false).seen = ∅
  new : chatId maxSeen ∉ (s.nodes true).seen
  fresh : ∀ x ∈ s.taken, x.msg.msgId ≠ chatId maxSeen
  peers : ∀ a, (s.nodes a).connections.entries = [(!a, .dialled)]
  flight : s.flight = []

lemma exists_full : ∃ s, (machine twoNodes).Reachable s ∧ Full s := by
  obtain ⟨s, hs, halone⟩ := exists_alone le_rfl
  have hs' := (hs.step (l := .connect true false .dialled) rfl).step
    (l := .connect false true .dialled) rfl
  refine ⟨_, hs', ?_, ?_, ?_, halone.fresh le_rfl, fun a => ?_, halone.flight⟩
  · simp [State.nodes_updateNode, halone.seen, card_chatIds]
  · simp [State.nodes_updateNode, halone.unseen]
  · simp [State.nodes_updateNode, halone.seen, chatId_notMem]
  · cases a <;> simp [State.nodes_updateNode, halone.connections] <;> rfl

/-- **A node shows a message again whose id it has popped.** -/
theorem popped_message_shown_again : ¬ ∀ (N : Type) [DecidableEq N] [Fintype N]
    (profile : N → Profile) (ls : List (Label N)),
    (machine profile).Always AtMostOnce (machine profile).init ls := by
  intro hall
  obtain ⟨s, hs, hfull⟩ := exists_full
  -- `aa` writes a message, pops its id, and sends the message to `bb`
  obtain ⟨s₁, msg, hs₁, hid, htakes₁⟩ := exists_write hs hello_ne_empty hfull.fresh
    (addBounded_self hfull.card hfull.new)
  obtain ⟨s₂, hs₂, hnodes₂, htaken₂, hflight₂⟩ := exists_sent hs₁ htakes₁.tasks
    (by rw [htakes₁.connections, hfull.peers]) (htakes₁.flight.trans hfull.flight)
  have hseen₂ : (s₂.nodes true).seen = (s.nodes true).seen := by
    have hadd := htakes₁.add
    rw [hid, addBounded_self hfull.card hfull.new, Option.some.injEq] at hadd
    rw [hnodes₂, hadd]
  have hunseen₂ : (s₂.nodes false).seen = ∅ := by
    rw [hnodes₂, htakes₁.others false Bool.false_ne_true, hfull.unseen]
  -- `bb` takes it, and sends it back
  obtain ⟨s₃, hs₃, htakes₃⟩ := exists_receive hs₂ none hflight₂
    (by simp [hunseen₂]) (addBounded_of_card_lt (by simp [hunseen₂, maxSeen]))
  obtain ⟨s₄, hs₄, hnodes₄, htaken₄, hflight₄⟩ := exists_sent hs₃ htakes₃.tasks
    (by rw [htakes₃.connections, hnodes₂, htakes₁.connections, hfull.peers]) htakes₃.flight
  have hseen₄ : (s₄.nodes true).seen = (s.nodes true).seen := by
    rw [hnodes₄, htakes₃.others true Bool.false_ne_true.symm, hseen₂]
  -- `aa` takes it again
  obtain ⟨s₅, hs₅, htakes₅⟩ := exists_receive hs₄ (some msg.msgId) hflight₄
    (by simpa [hseen₄, hid] using hfull.new)
    (hseen₄ ▸ hid ▸ addBounded_self hfull.card hfull.new)
  have hmem : (true, msg.msgId) ∈ s₄.keys := by
    rw [State.keys, htaken₄, htakes₃.taken, State.taken]
    change _ ∈ (s₂.taken ++ _).map Taken.key
    simp [htaken₂, htakes₁.taken, Taken.key]
  obtain ⟨ls, hls⟩ := hs₅
  have hnodup := nodup_keys_of_shown ((hall Bool twoNodes ls).last hls).shown
  rw [htakes₅.keys, ← List.concat_eq_append, List.nodup_concat] at hnodup
  exact hnodup.1 hmem

end DistriStore.Chat
