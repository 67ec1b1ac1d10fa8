import DistriStore.Network.Connection
import DistriStore.Node.HealthReports

/-!
# The mesh

Honest nodes on one network that find and connect to each other: `broadcast_loop` and
`datagram_received` of `network/discovery.py`, `add_peer` and `remove_peer` of `node/state.py`, and
`_peer_connector_loop` of `node/node.py` with `connect_to_peer` and `_handle_client` of
`network/connection.py`.  Datagrams are lost, delayed, repeated and delivered in any order, to their
senders as well; peers time out, connections break and cannot be opened.

Nothing of this makes a node believe anything false: every record and every connection of a node is
another node's, under its id, at its address, and with its ports (`never_deceived`).  When nothing is
taken back meanwhile, a node knows everybody that it has heard, and is connected to everybody that
it thought alive when it last began to go through its peers (`mesh_formed`); and when nothing ever
was, both ends have every connection (`connected_comm`).

A handshake is two steps here, one at each end; what can come between its messages is in
`Network/Handshake`.  A node that processes a HANDSHAKE after its sender has given up is not among
the steps: its entry for the sender, which the end of the connection takes away again, is not here.
-/

namespace DistriStore.Mesh

open Lib Connection

variable {N : Type}

/-! ## The nodes -/

/-- A network with its nodes. -/
structure Lan (N : Type) where
  json : Orjson
  /-- `orjson.dumps` without options. -/
  dumps : Value → Bytes
  swarmKey : String
  peerTimeout : ℚ
  self : N → Identity
  ip : N → String

/-- What `_build_hello` reads of its node and its machine. -/
structure Beat where
  uptime : ℚ
  timestamp : ℚ
  health : Health

/-- A HELLO that has been broadcast. -/
structure Hello (N : Type) where
  sender : N
  beat : Beat

/-- The free space is a number of bytes. -/
def Hello.fits (hello : Hello N) : Bool :=
  match gibToBytes (.float hello.beat.health.freeDiskGb) with
  | .ok _ => true
  | .error _ => false

/-- An entry of `peers.items()`.  It is the object of the registry, or one that the registry had
before. -/
structure Visit where
  nodeId : Key
  removed : Option PeerRecord := none

structure Node (N : Type) where
  registry : Registry := ∅
  /-- The `add_peer` tasks that have not run yet. -/
  tasks : List PeerRecord := []
  /-- The other ends of the connections. -/
  connections : Dict Key N := ∅
  /-- What `_peer_connector_loop` has before it. -/
  visits : List Visit := []
  /-- The peer that its `connect_to_peer` dials, and the node whose HANDSHAKE_ACK is on its way. -/
  dialing : Option PeerRecord := none
  answer : Option N := none

structure State (N : Type) where
  nodes : N → Node N := fun _ => {}
  /-- All HELLOs so far; any of them may arrive anywhere, now, later, again or never. -/
  air : List (Hello N) := []

namespace Lan

variable (lan : Lan N)

def payload (hello : Hello N) : Value :=
  helloPayload (lan.self hello.sender) hello.beat.uptime hello.beat.timestamp hello.beat.health

/-- What `_build_hello` encodes. -/
def wrapper (hello : Hello N) : Value :=
  .dict [(.str "payload", lan.payload hello),
    (.str "signature", .str (hmacTag lan.swarmKey (lan.json.dumps (lan.payload hello))))]

/-- `_build_hello`. -/
def buildHello (hello : Hello N) : Bytes := lan.dumps (lan.wrapper hello)

/-- The id that the registries have for a node. -/
def key (a : N) : Key := .str (lan.self a).nodeId

/-- The HANDSHAKE or the HANDSHAKE_ACK of a node. -/
def greeting (type : String) (a : N) : Value :=
  handshakeMsg type (lan.self a).nodeId (lan.self a).name (lan.self a).tcpPort (lan.self a).apiPort

/-- What `_handle_client` registers for the AUTH and the HANDSHAKE of `a`. -/
def accepted (a : N) : Option (Key × PeerRecord) :=
  match onAuth lan.swarmKey (some (authHandshakeMsg (lan.self a).nodeId lan.swarmKey)),
      onHandshake (some (lan.greeting "HANDSHAKE" a)) with
  | .move .awaitHandshake, .register p _ =>
    (peerOfHandshake (lan.ip a) 0 p (lan.greeting "HANDSHAKE" a)).toOption.map fun r => (p, r)
  | _, _ => none

/-- What `connect_to_peer` registers for the HANDSHAKE_ACK of `b`. -/
def acknowledged (peer : PeerRecord) (b : N) : Option (Key × PeerRecord) :=
  match onAck (some (lan.greeting "HANDSHAKE_ACK" b)) with
  | .register p _ =>
    (peerOfHandshake peer.ip (lan.self b).tcpPort p
      (lan.greeting "HANDSHAKE_ACK" b)).toOption.map fun r => (p, r)
  | _ => none

/-- The server of `b` listens at the address and the port of the record. -/
def listensAt (b : N) (peer : PeerRecord) : Bool :=
  lan.ip b = peer.ip && match peer.tcpPort with
    | .int port => port = (lan.self b).tcpPort
    | _ => false

end Lan

/-- `PeerInfo.is_alive`. -/
def isAlive (timeout now : ℚ) (peer : PeerRecord) : Bool := decide (now - peer.lastSeen < timeout)

/-- The record of an entry. -/
def Visit.record (registry : Registry) (visit : Visit) : Option PeerRecord :=
  visit.removed.or (registry.peers.get? visit.nodeId)

/-- The registry drops its record of `p`. -/
def Visit.dropped (registry : Registry) (p : Key) (visit : Visit) : Visit :=
  if visit.nodeId = p then { visit with removed := visit.record registry } else visit

inductive Label (N : Type) where
  /-- One iteration of `broadcast_loop`. -/
  | hello (hello : Hello N)
  /-- HELLO `j` arrives at node `a`. -/
  | deliver (a : N) (j : ℕ)
  /-- This `add_peer` task runs. -/
  | addPeer (a : N) (k : ℕ) (now : ℚ)
  | removePeer (a : N) (p : Key)
  /-- `_peer_connector_loop` wakes up. -/
  | wake (a : N) (now : ℚ)
  /-- It comes to the next peer. -/
  | next (a : N)
  /-- The HANDSHAKE of `a` has come to `b`, which registers the connection and answers. -/
  | answered (b a : N)
  /-- The `connect_to_peer` of `a` has the HANDSHAKE_ACK. -/
  | acked (a : N)
  /-- It returns without a connection. -/
  | failed (a : N)
  /-- A connection is lost, and its handler takes the entry back. -/
  | lost (a : N) (p : Key)

/-- `datagram_received`. -/
def Node.receive (lan : Lan N) (a : N) (hello : Hello N) (node : Node N) : Node N :=
  match datagramReceived lan.json lan.swarmKey (lan.self a).nodeId (lan.buildHello hello)
      (lan.ip hello.sender) with
  | .ok (some peer) => { node with tasks := node.tasks ++ [peer] }
  | _ => node

def Node.addPeer (k : ℕ) (peer : PeerRecord) (now : ℚ) (node : Node N) : Node N :=
  { node with tasks := node.tasks.eraseIdx k, registry := node.registry.addPeer peer now }

def Node.removePeer (p : Key) (node : Node N) : Node N :=
  { node with
    registry := node.registry.removePeer p
    visits := node.visits.map (Visit.dropped node.registry p) }

/-- `get_alive_peers`. -/
def Node.wake (lan : Lan N) (now : ℚ) (node : Node N) : Node N :=
  { node with
    visits := (node.registry.peers.entries.filter fun e => isAlive lan.peerTimeout now e.2).map
      fun e => { nodeId := e.1 } }

/-- The loop body up to its await. -/
def Node.next (visit : Visit) (rest : List Visit) (node : Node N) : Node N :=
  if visit.nodeId ∈ node.connections.keys then { node with visits := rest }
  else { node with visits := rest, dialing := visit.record node.registry }

/-- A connection is registered. -/
def Node.register (e : Key × PeerRecord) (b : N) (node : Node N) : Node N :=
  { node with connections := node.connections.set e.1 b, tasks := node.tasks ++ [e.2] }

def Node.hangUp (node : Node N) : Node N := { node with dialing := none, answer := none }

section Steps

variable [DecidableEq N]

def State.updateNode (s : State N) (a : N) (f : Node N → Node N) : State N :=
  { s with nodes := Function.update s.nodes a (f (s.nodes a)) }

def exec (lan : Lan N) (s : State N) : Label N → Option (State N)
  | .hello hello => some { s with air := s.air ++ [hello] }
  | .deliver a j => do
    let hello ← s.air[j]?
    return s.updateNode a (Node.receive lan a hello)
  | .addPeer a k now => do
    let peer ← (s.nodes a).tasks[k]?
    return s.updateNode a (Node.addPeer k peer now)
  | .removePeer a p => some (s.updateNode a (Node.removePeer p))
  | .wake a now =>
    if (s.nodes a).visits = [] ∧ (s.nodes a).dialing = none then
      some (s.updateNode a (Node.wake lan now))
    else none
  | .next a =>
    match (s.nodes a).visits, (s.nodes a).dialing with
    | visit :: rest, none => some (s.updateNode a (Node.next visit rest))
    | _, _ => none
  | .answered b a => do
    let peer ← (s.nodes a).dialing
    let inbound ← lan.accepted a
    if lan.listensAt b peer ∧ (s.nodes a).answer = none then
      return (s.updateNode b (Node.register inbound a)).updateNode a fun node =>
        { node with answer := some b }
    else none
  | .acked a => do
    let peer ← (s.nodes a).dialing
    let b ← (s.nodes a).answer
    let outbound ← lan.acknowledged peer b
    return s.updateNode a fun node => (node.register outbound b).hangUp
  | .failed a => do
    let _ ← (s.nodes a).dialing
    return s.updateNode a Node.hangUp
  | .lost a p => some (s.updateNode a fun node =>
      { node with connections := node.connections.erase p })

/-- Nodes that have just been started, without peers in their databases. -/
def machine (lan : Lan N) : Machine (State N) (Label N) where
  init := {}
  exec := exec lan

end Steps

/-! ## Truthful records -/

/-- The record is that of node `b`. -/
structure Describes (lan : Lan N) (b : N) (r : PeerRecord) : Prop where
  nodeId : r.nodeId = lan.key b
  ip : r.ip = lan.ip b
  tcpPort : r.tcpPort = .int (lan.self b).tcpPort
  name : r.name = .str (lan.self b).name
  apiPort : r.apiPort = .int (lan.self b).apiPort

/-- The record is that of another node than `a`. -/
def OfOther (lan : Lan N) (a : N) (r : PeerRecord) : Prop := ∃ b, b ≠ a ∧ Describes lan b r

/-- No two nodes have the same id or listen at the same socket. -/
structure Lan.Distinct (lan : Lan N) : Prop where
  ids : Function.Injective fun a => (lan.self a).nodeId
  sockets : Function.Injective fun a => (lan.ip a, (lan.self a).tcpPort)

/-- What `orjson` encodes for these HELLOs, it also decodes. -/
def Lan.Decodes (lan : Lan N) (air : List (Hello N)) : Prop :=
  ∀ hello ∈ air, lan.json.loads (lan.buildHello hello) = some (lan.wrapper hello)

/-- What a node believes is true. -/
structure Truthful (lan : Lan N) (a : N) (node : Node N) : Prop where
  registry : ∀ k r, node.registry.peers.get? k = some r → OfOther lan a r
  connections : ∀ k b, node.connections.get? k = some b → b ≠ a ∧ k = lan.key b

/-- And so is what it is about to believe. -/
structure NodeInv (lan : Lan N) (a : N) (node : Node N) : Prop extends Truthful lan a node where
  tasks : ∀ r ∈ node.tasks, OfOther lan a r
  visits : ∀ visit ∈ node.visits, ∃ r, visit.record node.registry = some r ∧
    r.nodeId = visit.nodeId ∧ OfOther lan a r
  dialing : ∀ r, node.dialing = some r → OfOther lan a r
  answer : ∀ b, node.answer = some b → ∃ r, node.dialing = some r ∧ Describes lan b r

section Records

variable {lan : Lan N} {a b : N} {r peer : PeerRecord} {node : Node N} {hello : Hello N}

/-- What a handshake tells about a node. -/
def Lan.recordOf (lan : Lan N) (a : N) : PeerRecord where
  nodeId := lan.key a
  ip := lan.ip a
  tcpPort := .int (lan.self a).tcpPort
  name := .str (lan.self a).name
  apiPort := .int (lan.self a).apiPort

lemma describes_recordOf (lan : Lan N) (a : N) : Describes lan a (lan.recordOf a) :=
  ⟨rfl, rfl, rfl, rfl, rfl⟩

lemma accepted_eq (lan : Lan N) (a : N) : lan.accepted a = some (lan.key a, lan.recordOf a) := by
  rw [Lan.accepted, onAuth_authHandshakeMsg, Lan.greeting, onHandshake_handshakeMsg]
  simp only [peerOfHandshake_handshakeMsg, Except.toOption, Option.map_some]
  rfl

lemma acknowledged_eq (lan : Lan N) (b : N) (hip : peer.ip = lan.ip b) :
    lan.acknowledged peer b = some (lan.key b, lan.recordOf b) := by
  rw [Lan.acknowledged, Lan.greeting, onAck_handshakeMsg]
  simp only [peerOfHandshake_handshakeMsg, Except.toOption, Option.map_some, hip]
  rfl

lemma key_inj (hlan : lan.Distinct) : lan.key a = lan.key b ↔ a = b :=
  ⟨fun h => hlan.ids (Key.str.inj h), fun h => by rw [h]⟩

/-- Who listens at the address in a record is the node that it describes. -/
lemma Describes.listener (hlan : lan.Distinct) (hr : Describes lan b r) {c : N}
    (hc : lan.listensAt c r = true) : c = b := by
  rw [Lan.listensAt, hr.tcpPort, Bool.and_eq_true, decide_eq_true_eq, decide_eq_true_eq,
    Nat.cast_inj] at hc
  exact hlan.sockets (Prod.ext (hc.1.trans hr.ip) hc.2.symm)

lemma Describes.eq_of_key (hlan : lan.Distinct) {c : N} (hr : Describes lan b r)
    (hpeer : Describes lan c peer) (heq : r.nodeId = peer.nodeId) : b = c := by
  rw [hr.nodeId, hpeer.nodeId] at heq
  exact (key_inj hlan).1 heq

/-- An update by another record of the same node. -/
lemma Describes.update (hr : Describes lan b r) (hpeer : Describes lan b peer) (now : ℚ) :
    Describes lan b (r.update peer now) where
  nodeId := hr.nodeId
  ip := hpeer.ip
  tcpPort := hpeer.tcpPort
  name := by
    simp only [PeerRecord.update, hr.name, hpeer.name, ite_self]
  apiPort := by
    simp only [PeerRecord.update, hr.apiPort, hpeer.apiPort, ite_self]

/-- The record that `add_peer` leaves. -/
lemma OfOther.merged (hlan : lan.Distinct) {registry : Registry}
    (hregistry : ∀ k r, registry.peers.get? k = some r → OfOther lan a r)
    (hpeer : OfOther lan a peer) (now : ℚ) : OfOther lan a (registry.merged peer now) := by
  obtain ⟨b, hb, hpeer⟩ := hpeer
  unfold Registry.merged
  split
  · next existing hexisting =>
    obtain ⟨c, -, hc⟩ := hregistry _ existing hexisting
    obtain rfl := hc.eq_of_key hlan hpeer (registry.keyed _ existing hexisting)
    exact ⟨c, hb, hc.update hpeer now⟩
  · exact ⟨b, hb, ⟨hpeer.nodeId, hpeer.ip, hpeer.tcpPort, hpeer.name, hpeer.apiPort⟩⟩

lemma truthy_payload (lan : Lan N) (hello : Hello N) : (lan.payload hello).truthy = true := rfl

lemma Hello.fits_iff : hello.fits = true ↔
    ∃ bytes, gibToBytes (.float hello.beat.health.freeDiskGb) = .ok bytes := by
  unfold Hello.fits
  split
  · next bytes hbytes => exact iff_of_true rfl ⟨bytes, hbytes⟩
  · next e he => exact iff_of_false Bool.false_ne_true (by rw [he]; rintro ⟨bytes, h⟩; cases h)

lemma datagramReceived_buildHello
    (hloads : lan.json.loads (lan.buildHello hello) = some (lan.wrapper hello))
    (nodeId ip : String) :
    datagramReceived lan.json lan.swarmKey nodeId (lan.buildHello hello) ip =
      onHello nodeId ip (lan.payload hello) := by
  have hauthorized : authorizedPayload lan.json lan.swarmKey (lan.buildHello hello) =
      .ok (some (lan.payload hello)) :=
    HealthReports.authorizedPayload_of_signed (truthy_payload lan hello) hloads
  rw [datagramReceived, hauthorized]
  rfl

/-- A node takes the record from the HELLO of another one. -/
lemma receive_of_fits (node : Node N) (hlan : lan.Distinct) (hfits : hello.fits = true)
    (hloads : lan.json.loads (lan.buildHello hello) = some (lan.wrapper hello))
    (hne : hello.sender ≠ a) :
    ∃ peer, Describes lan hello.sender peer ∧
      node.receive lan a hello = { node with tasks := node.tasks ++ [peer] } := by
  obtain ⟨bytes, hbytes⟩ := Hello.fits_iff.1 hfits
  have hids : (lan.self hello.sender).nodeId ≠ (lan.self a).nodeId := fun h => hne (hlan.ids h)
  refine ⟨{ nodeId := lan.key hello.sender, ip := lan.ip hello.sender,
            tcpPort := .int (lan.self hello.sender).tcpPort,
            name := .str (lan.self hello.sender).name, freeSpace := .int bytes,
            uptime := .float hello.beat.uptime,
            healthScore := .float hello.beat.health.healthScore,
            apiPort := .int (lan.self hello.sender).apiPort }, ⟨rfl, rfl, rfl, rfl, rfl⟩, ?_⟩
  rw [Node.receive, datagramReceived_buildHello hloads, Lan.payload,
    HealthReports.onHello_helloPayload hids hbytes]
  rfl

/-- What comes of a HELLO: nothing at its sender, and at most its record at the others. -/
lemma receive_cases (node : Node N) (hlan : lan.Distinct)
    (hloads : lan.json.loads (lan.buildHello hello) = some (lan.wrapper hello)) :
    node.receive lan a hello = node ∨ hello.sender ≠ a ∧ ∃ peer, Describes lan hello.sender peer ∧
      node.receive lan a hello = { node with tasks := node.tasks ++ [peer] } := by
  cases hmsg : onHello (lan.self a).nodeId (lan.ip hello.sender) (lan.payload hello) with
  | error e =>
    left
    rw [Node.receive, datagramReceived_buildHello hloads, hmsg]
  | ok received =>
    cases received with
    | none =>
      left
      rw [Node.receive, datagramReceived_buildHello hloads, hmsg]
    | some peer =>
      have hne : hello.sender ≠ a := by
        rintro rfl
        simpa [announces, Lan.payload, helloPayload, Value.getD, Value.isStr] using
          (onHello_cases hmsg).1
      refine Or.inr ⟨hne, receive_of_fits node hlan ?_ hloads hne⟩
      cases hbytes : gibToBytes (.float hello.beat.health.freeDiskGb) with
      | ok bytes => exact Hello.fits_iff.2 ⟨bytes, hbytes⟩
      | error e =>
        have hids : (lan.self hello.sender).nodeId ≠ (lan.self a).nodeId :=
          fun h => hne (hlan.ids h)
        simp [Lan.payload, onHello, peerOfHello, helloPayload, Value.getD, Value.isStr, hids,
          hbytes, bind, Except.bind] at hmsg

end Records

/-! ## What a node does -/

section Nodes

variable {lan : Lan N} {a b : N} {r peer : PeerRecord} {node : Node N} {hello : Hello N}

lemma NodeInv.empty (lan : Lan N) (a : N) : NodeInv lan a {} where
  registry k r h := by cases h
  connections k b h := by cases h
  tasks r hr := by cases hr
  visits visit hvisit := by cases hvisit
  dialing r hr := by cases hr
  answer b hb := by cases hb

lemma NodeInv.append_task (hnode : NodeInv lan a node) (hpeer : OfOther lan a peer) :
    NodeInv lan a { node with tasks := node.tasks ++ [peer] } where
  registry := hnode.registry
  connections := hnode.connections
  tasks r hr := by
    rcases List.mem_append.1 hr with hr | hr
    · exact hnode.tasks r hr
    · rwa [List.mem_singleton.1 hr]
  visits := hnode.visits
  dialing := hnode.dialing
  answer := hnode.answer

lemma NodeInv.receive (hlan : lan.Distinct) (hnode : NodeInv lan a node)
    (hloads : lan.json.loads (lan.buildHello hello) = some (lan.wrapper hello)) :
    NodeInv lan a (node.receive lan a hello) := by
  rcases receive_cases (a := a) node hlan hloads with h | ⟨hne, peer, hpeer, h⟩
  · rwa [h]
  · rw [h]
    exact hnode.append_task ⟨hello.sender, hne, hpeer⟩

/-- `add_peer` changes the record that an entry of the loop has, but not whose it is. -/
lemma NodeInv.addPeer (hlan : lan.Distinct) (hnode : NodeInv lan a node) {k : ℕ}
    (hpeer : OfOther lan a peer) (now : ℚ) : NodeInv lan a (node.addPeer k peer now) := by
  have hmerged : OfOther lan a (node.registry.merged peer now) :=
    hpeer.merged hlan hnode.registry now
  refine { registry := ?_, connections := hnode.connections, tasks := ?_, visits := ?_,
           dialing := hnode.dialing, answer := hnode.answer }
  · intro k r hr
    rw [Node.addPeer, Registry.get?_addPeer] at hr
    split at hr
    · rwa [← Option.some.inj hr]
    · exact hnode.registry k r hr
  · exact fun r hr => hnode.tasks r (List.mem_of_mem_eraseIdx hr)
  · intro visit hvisit
    obtain ⟨r, hr, hid, hother⟩ := hnode.visits visit hvisit
    rw [Visit.record] at hr ⊢
    cases hremoved : visit.removed with
    | some r' =>
      rw [hremoved] at hr
      exact ⟨r', rfl, Option.some.inj hr ▸ hid, Option.some.inj hr ▸ hother⟩
    | none =>
      rw [hremoved, Option.none_or] at hr
      rw [Option.none_or, Node.addPeer, Registry.get?_addPeer]
      split
      · next heq =>
        exact ⟨_, rfl, (Registry.nodeId_merged ..).trans heq.symm, hmerged⟩
      · exact ⟨r, hr, hid, hother⟩

/-- The loop keeps the objects that leave the registry. -/
lemma NodeInv.removePeer (hnode : NodeInv lan a node) (p : Key) :
    NodeInv lan a (node.removePeer p) := by
  refine { registry := ?_, connections := hnode.connections, tasks := hnode.tasks, visits := ?_,
           dialing := hnode.dialing, answer := hnode.answer }
  · intro k r hr
    rw [Node.removePeer, Registry.removePeer, Dict.get?_erase] at hr
    split at hr
    · cases hr
    · exact hnode.registry k r hr
  · intro visit hvisit
    obtain ⟨visit, hmem, rfl⟩ := List.mem_map.1 hvisit
    obtain ⟨r, hr, hid, hother⟩ := hnode.visits visit hmem
    refine ⟨r, ?_, ?_, hother⟩
    · rw [Visit.dropped]
      split
      · rw [Visit.record, hr, Option.some_or]
      · next hne =>
        rw [Visit.record] at hr ⊢
        rwa [Node.removePeer, Registry.removePeer, Dict.get?_erase, if_neg hne]
    · rw [Visit.dropped]
      split <;> exact hid

lemma NodeInv.wake (hnode : NodeInv lan a node) (now : ℚ) : NodeInv lan a (node.wake lan now) where
  registry := hnode.registry
  connections := hnode.connections
  tasks := hnode.tasks
  visits visit hvisit := by
    obtain ⟨e, he, rfl⟩ := List.mem_map.1 hvisit
    have hget : node.registry.peers.get? e.1 = some e.2 :=
      Dict.get?_of_mem_entries (List.mem_filter.1 he).1
    exact ⟨e.2, hget, node.registry.keyed _ _ hget, hnode.registry _ _ hget⟩
  dialing := hnode.dialing
  answer := hnode.answer

lemma NodeInv.next (hnode : NodeInv lan a node) {visit : Visit} {rest : List Visit}
    (hvisits : node.visits = visit :: rest) (hdialing : node.dialing = none) :
    NodeInv lan a (node.next visit rest) := by
  have hrest : ∀ v ∈ rest, ∃ r, v.record node.registry = some r ∧ r.nodeId = v.nodeId ∧
      OfOther lan a r :=
    fun v hv => hnode.visits v (hvisits ▸ List.mem_cons_of_mem _ hv)
  obtain ⟨r, hr, -, hother⟩ := hnode.visits visit (hvisits ▸ List.mem_cons_self ..)
  rw [Node.next]
  split
  · exact { hnode with visits := hrest }
  · refine { hnode with visits := hrest, dialing := ?_, answer := ?_ }
    · intro r' hr'
      obtain rfl : r = r' := Option.some.inj (hr.symm.trans hr')
      exact hother
    · intro b hb
      obtain ⟨r', hr', -⟩ := hnode.answer b hb
      rw [hdialing] at hr'
      cases hr'

lemma NodeInv.register (hnode : NodeInv lan a node) (hne : b ≠ a) (hr : Describes lan b r) :
    NodeInv lan a (node.register (lan.key b, r) b) := by
  refine { hnode.append_task ⟨b, hne, hr⟩ with connections := ?_ }
  intro k c hc
  rw [Node.register, Dict.get?_set] at hc
  split at hc
  · next hk =>
    obtain rfl := Option.some.inj hc
    exact ⟨hne, hk⟩
  · exact hnode.connections k c hc

lemma NodeInv.await (hnode : NodeInv lan a node) (hdialing : node.dialing = some r)
    (hr : Describes lan b r) : NodeInv lan a { node with answer := some b } := by
  refine { hnode with answer := ?_ }
  intro c hc
  obtain rfl := Option.some.inj hc
  exact ⟨r, hdialing, hr⟩

/-- The node that has answered is another one, and it is the one that was dialled. -/
lemma NodeInv.of_answer (hlan : lan.Distinct) (hnode : NodeInv lan a node)
    (hanswer : node.answer = some b) (hdialing : node.dialing = some r) :
    b ≠ a ∧ Describes lan b r := by
  obtain ⟨r', hr', hb⟩ := hnode.answer b hanswer
  obtain rfl := Option.some.inj (hr'.symm.trans hdialing)
  obtain ⟨c, hca, hc⟩ := hnode.dialing r' hdialing
  exact ⟨hb.eq_of_key hlan hc rfl ▸ hca, hb⟩

lemma NodeInv.hangUp (hnode : NodeInv lan a node) : NodeInv lan a node.hangUp where
  registry := hnode.registry
  connections := hnode.connections
  tasks := hnode.tasks
  visits := hnode.visits
  dialing r hr := by cases hr
  answer b hb := by cases hb

lemma NodeInv.lost (hnode : NodeInv lan a node) (p : Key) :
    NodeInv lan a { node with connections := node.connections.erase p } := by
  refine { hnode with connections := ?_ }
  intro k b hb
  rw [Dict.get?_erase] at hb
  split at hb
  · cases hb
  · exact hnode.connections k b hb

end Nodes

/-! ## Runs -/

section Runs

variable [DecidableEq N] {lan : Lan N} {s t : State N} {a : N}

@[simp] lemma nodes_updateNode_self (s : State N) (a : N) (f : Node N → Node N) :
    (s.updateNode a f).nodes a = f (s.nodes a) := Function.update_self ..

lemma nodes_updateNode_ne (s : State N) (a : N) (f : Node N → Node N) {c : N} (hc : c ≠ a) :
    (s.updateNode a f).nodes c = s.nodes c := Function.update_of_ne hc ..

lemma nodes_updateNode (s : State N) (a : N) (f : Node N → Node N) (c : N) :
    (s.updateNode a f).nodes c = if c = a then f (s.nodes c) else s.nodes c := by
  by_cases hc : c = a
  · subst hc
    rw [nodes_updateNode_self, if_pos rfl]
  · rw [nodes_updateNode_ne s a f hc, if_neg hc]

lemma forall_updateNode {P : N → Node N → Prop} {f : Node N → Node N}
    (hs : ∀ c, P c (s.nodes c)) (hf : P a (f (s.nodes a))) :
    ∀ c, P c ((s.updateNode a f).nodes c) := by
  intro c
  by_cases hc : c = a
  · subst hc
    rwa [nodes_updateNode_self]
  · rw [nodes_updateNode_ne s a f hc]
    exact hs c

/-- What the steps do, and when. -/
inductive Step (lan : Lan N) (s : State N) : Label N → State N → Prop where
  | hello (hello) : Step lan s (.hello hello) { s with air := s.air ++ [hello] }
  | deliver (a j hello) (hj : s.air[j]? = some hello) :
      Step lan s (.deliver a j) (s.updateNode a (Node.receive lan a hello))
  | addPeer (a k now peer) (hk : (s.nodes a).tasks[k]? = some peer) :
      Step lan s (.addPeer a k now) (s.updateNode a (Node.addPeer k peer now))
  | removePeer (a p) : Step lan s (.removePeer a p) (s.updateNode a (Node.removePeer p))
  | wake (a now) (hvisits : (s.nodes a).visits = []) (hdialing : (s.nodes a).dialing = none) :
      Step lan s (.wake a now) (s.updateNode a (Node.wake lan now))
  | next (a visit rest) (hvisits : (s.nodes a).visits = visit :: rest)
      (hdialing : (s.nodes a).dialing = none) :
      Step lan s (.next a) (s.updateNode a (Node.next visit rest))
  | answered (b a peer) (hdialing : (s.nodes a).dialing = some peer)
      (hanswer : (s.nodes a).answer = none) (hlistens : lan.listensAt b peer = true) :
      Step lan s (.answered b a)
        ((s.updateNode b (Node.register (lan.key a, lan.recordOf a) a)).updateNode a
          fun node => { node with answer := some b })
  | acked (a b peer r) (hdialing : (s.nodes a).dialing = some peer)
      (hanswer : (s.nodes a).answer = some b)
      (hr : lan.acknowledged peer b = some r) :
      Step lan s (.acked a) (s.updateNode a fun node => (node.register r b).hangUp)
  | failed (a peer) (hdialing : (s.nodes a).dialing = some peer) :
      Step lan s (.failed a) (s.updateNode a Node.hangUp)
  | lost (a p) : Step lan s (.lost a p)
      (s.updateNode a fun node => { node with connections := node.connections.erase p })

lemma step_of_exec {l : Label N} (h : exec lan s l = some t) : Step lan s l t := by
  cases l with
  | hello hello =>
    obtain rfl := Option.some.inj h
    exact .hello hello
  | deliver a j =>
    obtain ⟨hello, hj, h⟩ := Option.bind_eq_some_iff.1 h
    obtain rfl := Option.some.inj h
    exact .deliver a j hello hj
  | addPeer a k now =>
    obtain ⟨peer, hk, h⟩ := Option.bind_eq_some_iff.1 h
    obtain rfl := Option.some.inj h
    exact .addPeer a k now peer hk
  | removePeer a p =>
    obtain rfl := Option.some.inj h
    exact .removePeer a p
  | wake a now =>
    obtain ⟨⟨hvisits, hdialing⟩, h⟩ := Option.ite_none_right_eq_some.1 h
    obtain rfl := Option.some.inj h
    exact .wake a now hvisits hdialing
  | next a =>
    rw [exec] at h
    split at h
    · next visit rest hvisits hdialing =>
      obtain rfl := Option.some.inj h
      exact .next a visit rest hvisits hdialing
    · cases h
  | answered b a =>
    obtain ⟨peer, hpeer, h⟩ := Option.bind_eq_some_iff.1 h
    obtain ⟨inbound, hinbound, h⟩ := Option.bind_eq_some_iff.1 h
    obtain ⟨⟨hlistens, hanswer⟩, h⟩ := Option.ite_none_right_eq_some.1 h
    obtain rfl := Option.some.inj h
    obtain rfl := Option.some.inj (hinbound.symm.trans (accepted_eq lan a))
    exact .answered b a peer hpeer hanswer hlistens
  | acked a =>
    obtain ⟨peer, hpeer, h⟩ := Option.bind_eq_some_iff.1 h
    obtain ⟨b, hb, h⟩ := Option.bind_eq_some_iff.1 h
    obtain ⟨outbound, houtbound, h⟩ := Option.bind_eq_some_iff.1 h
    obtain rfl := Option.some.inj h
    exact .acked a b peer outbound hpeer hb houtbound
  | failed a =>
    obtain ⟨peer, hpeer, h⟩ := Option.bind_eq_some_iff.1 h
    obtain rfl := Option.some.inj h
    exact .failed a peer hpeer
  | lost a p =>
    obtain rfl := Option.some.inj h
    exact .lost a p

/-- What has been broadcast stays in the air. -/
lemma Step.subset_air {l : Label N} (h : Step lan s l t) : s.air ⊆ t.air := by
  cases h with
  | hello hello => exact List.subset_append_left ..
  | _ => exact List.Subset.refl _

/-- Every node believes what is true. -/
def Inv (lan : Lan N) (s : State N) : Prop := ∀ a, NodeInv lan a (s.nodes a)

lemma Inv.step (hlan : lan.Distinct) {l : Label N} (hs : Inv lan s) (hdecodes : lan.Decodes s.air)
    (h : Step lan s l t) : Inv lan t := by
  cases h with
  | hello hello => exact hs
  | deliver a j hello hj =>
    exact forall_updateNode hs
      ((hs a).receive hlan (hdecodes hello (List.mem_of_getElem? hj)))
  | addPeer a k now peer hk =>
    exact forall_updateNode hs
      ((hs a).addPeer hlan ((hs a).tasks peer (List.mem_of_getElem? hk)) now)
  | removePeer a p => exact forall_updateNode hs ((hs a).removePeer p)
  | wake a now hvisits hdialing => exact forall_updateNode hs ((hs a).wake now)
  | next a visit rest hvisits hdialing =>
    exact forall_updateNode hs ((hs a).next hvisits hdialing)
  | answered b a peer hdialing hanswer hlistens =>
    obtain ⟨c, hca, hc⟩ := (hs a).dialing peer hdialing
    obtain rfl := hc.listener hlan hlistens
    refine forall_updateNode
      (forall_updateNode hs ((hs b).register hca.symm (describes_recordOf lan a))) ?_
    rw [nodes_updateNode_ne s b _ hca.symm]
    exact (hs a).await hdialing hc
  | acked a b peer r hdialing hanswer hr =>
    obtain ⟨hba, hpeer⟩ := (hs a).of_answer hlan hanswer hdialing
    obtain rfl := Option.some.inj (hr.symm.trans (acknowledged_eq lan b hpeer.ip))
    exact forall_updateNode hs ((hs a).register hba (describes_recordOf lan b)).hangUp
  | failed a peer hdialing => exact forall_updateNode hs (hs a).hangUp
  | lost a p => exact forall_updateNode hs ((hs a).lost p)

lemma inv_of_reachable (hlan : lan.Distinct) (hs : (machine lan).Reachable s)
    (hdecodes : lan.Decodes s.air) : Inv lan s := by
  refine hs.invariant (I := fun s => lan.Decodes s.air → Inv lan s)
    (fun _ => NodeInv.empty lan) ?_ hdecodes
  intro s l t ih h hdecodes
  have hstep := step_of_exec h
  have hbefore : lan.Decodes s.air := fun hello hmem => hdecodes hello (hstep.subset_air hmem)
  exact (ih hbefore).step hlan hbefore hstep

end Runs

/-! ## Calm runs -/

/-- Nothing is taken back. -/
def Calm : Label N → Bool
  | .removePeer _ _ => false
  | .failed _ => false
  | .lost _ _ => false
  | _ => true

/-- Who has been heard by whom, and which ids were of living peers when a node began to go through
its peers. -/
structure Log (N : Type) where
  heard : List (N × N) := []
  alive : List (N × Key) := []

def observe [DecidableEq N] (lan : Lan N) (log : Log N) (s : State N) : Label N → State N → Log N
  | .deliver a j, _ =>
    match s.air[j]? with
    | some hello =>
      if hello.sender ≠ a ∧ hello.fits then { log with heard := (a, hello.sender) :: log.heard }
      else log
    | none => log
  | .wake a now, _ =>
    { log with
      alive := ((s.nodes a).wake lan now).visits.map (fun visit => (a, visit.nodeId)) ++ log.alive }
  | _, _ => log

lemma observe_deliver [DecidableEq N] {lan : Lan N} {log : Log N} {s t : State N} {a : N} {j : ℕ}
    {hello : Hello N} (hj : s.air[j]? = some hello) (hsender : hello.sender ≠ a)
    (hfits : hello.fits = true) : observe lan log s (.deliver a j) t =
      { log with heard := (a, hello.sender) :: log.heard } := by
  rw [observe, hj]
  exact if_pos ⟨hsender, hfits⟩

/-- The node has a record of `p`, or is about to have one. -/
def Known (node : Node N) (p : Key) : Prop :=
  (∃ r ∈ node.tasks, r.nodeId = p) ∨ p ∈ node.registry.peers.keys

/-- The node has a connection with `p`, or its loop still has to see to it. -/
def Reached (node : Node N) (p : Key) : Prop :=
  (∃ visit ∈ node.visits, visit.nodeId = p) ∨ (∃ r, node.dialing = some r ∧ r.nodeId = p) ∨
    p ∈ node.connections.keys

/-- What `node` has is not lost in `node'`. -/
structure Keeps (node node' : Node N) : Prop where
  known : ∀ p, Known node p → Known node' p
  reached : ∀ p, Reached node p → Reached node' p
  connected : ∀ p, p ∈ node.connections.keys → p ∈ node'.connections.keys

section Calm

variable {lan : Lan N} {a b : N} {r peer : PeerRecord} {node node' : Node N} {hello : Hello N}

lemma Keeps.refl (node : Node N) : Keeps node node := ⟨fun _ h => h, fun _ h => h, fun _ h => h⟩

lemma known_append_task (tasks : List PeerRecord) {p : Key} (h : Known node p)
    (hnode' : node'.tasks = node.tasks ++ tasks) (hregistry : node'.registry = node.registry) :
    Known node' p := by
  rcases h with ⟨r, hr, hp⟩ | h
  · exact Or.inl ⟨r, hnode' ▸ List.mem_append_left _ hr, hp⟩
  · exact Or.inr (hregistry ▸ h)

lemma keeps_receive (hlan : lan.Distinct)
    (hloads : lan.json.loads (lan.buildHello hello) = some (lan.wrapper hello)) :
    Keeps node (node.receive lan a hello) := by
  rcases receive_cases (a := a) node hlan hloads with h | ⟨-, peer, -, h⟩
  · rw [h]
    exact .refl node
  · rw [h]
    exact ⟨fun p hp => known_append_task [peer] hp rfl rfl, fun _ h => h, fun _ h => h⟩

lemma keeps_addPeer {k : ℕ} (hk : node.tasks[k]? = some peer) (now : ℚ) :
    Keeps node (node.addPeer k peer now) := by
  refine ⟨?_, fun _ h => h, fun _ h => h⟩
  rintro p (⟨r, hr, rfl⟩ | h)
  · obtain ⟨i, hi⟩ := List.mem_iff_getElem?.1 hr
    by_cases hik : i = k
    · subst hik
      obtain rfl := Option.some.inj (hi.symm.trans hk)
      exact Or.inr ((Dict.mem_keys_set ..).2 (Or.inl rfl))
    · exact Or.inl ⟨r, List.mem_eraseIdx_iff_getElem?.2 ⟨i, hik, hi⟩, rfl⟩
  · exact Or.inr ((Dict.mem_keys_set ..).2 (Or.inr h))

lemma keeps_wake (hvisits : node.visits = []) (now : ℚ) : Keeps node (node.wake lan now) := by
  refine ⟨fun _ h => h, ?_, fun _ h => h⟩
  rintro p (⟨visit, hvisit, -⟩ | h)
  · rw [hvisits] at hvisit
    cases hvisit
  · exact Or.inr h

lemma keeps_next (hnode : NodeInv lan a node) {visit : Visit} {rest : List Visit}
    (hvisits : node.visits = visit :: rest) (hdialing : node.dialing = none) :
    Keeps node (node.next visit rest) := by
  obtain ⟨r, hr, hid, -⟩ := hnode.visits visit (hvisits ▸ List.mem_cons_self ..)
  rw [Node.next]
  split
  · next hmem =>
    refine ⟨fun _ h => h, ?_, fun _ h => h⟩
    rintro p (⟨v, hv, rfl⟩ | h)
    · rw [hvisits] at hv
      rcases List.mem_cons.1 hv with rfl | hv
      · exact Or.inr (Or.inr hmem)
      · exact Or.inl ⟨v, hv, rfl⟩
    · exact Or.inr h
  · refine ⟨fun _ h => h, ?_, fun _ h => h⟩
    rintro p (⟨v, hv, rfl⟩ | ⟨r', hr', -⟩ | h)
    · rw [hvisits] at hv
      rcases List.mem_cons.1 hv with rfl | hv
      · exact Or.inr (Or.inl ⟨r, hr, hid⟩)
      · exact Or.inl ⟨v, hv, rfl⟩
    · rw [hdialing] at hr'
      cases hr'
    · exact Or.inr (Or.inr h)

lemma keeps_register (e : Key × PeerRecord) (b : N) : Keeps node (node.register e b) := by
  have hconnected : ∀ p ∈ node.connections.keys, p ∈ (node.register e b).connections.keys :=
    fun p hp => (Dict.mem_keys_set ..).2 (Or.inr hp)
  refine ⟨fun p hp => known_append_task [e.2] hp rfl rfl, ?_, hconnected⟩
  rintro p (h | h | h)
  · exact Or.inl h
  · exact Or.inr (Or.inl h)
  · exact Or.inr (Or.inr (hconnected p h))

/-- The peer that is dialled is connected when the acknowledgement is in. -/
lemma keeps_acked (hdialing : node.dialing = some peer) (hpeer : Describes lan b peer) :
    Keeps node (node.register (lan.key b, r) b).hangUp := by
  have hregister : Keeps node (node.register (lan.key b, r) b) := keeps_register ..
  refine ⟨hregister.known, ?_, hregister.connected⟩
  rintro p (h | ⟨r', hr', rfl⟩ | h)
  · exact Or.inl h
  · obtain rfl := Option.some.inj (hdialing.symm.trans hr')
    exact Or.inr (Or.inr ((Dict.mem_keys_set ..).2 (Or.inl hpeer.nodeId)))
  · exact Or.inr (Or.inr (hregister.connected p h))

variable [DecidableEq N] {s t : State N}

/-- In a calm step no node loses anything. -/
lemma keeps_of_calm (hlan : lan.Distinct) {l : Label N} (hs : Inv lan s)
    (hdecodes : lan.Decodes s.air) (h : Step lan s l t) (hcalm : Calm l = true) (c : N) :
    Keeps (s.nodes c) (t.nodes c) := by
  have hrefl : ∀ c, Keeps (s.nodes c) (s.nodes c) := fun c => .refl _
  revert c
  cases h with
  | hello hello => exact hrefl
  | deliver a j hello hj =>
    exact forall_updateNode hrefl (keeps_receive hlan (hdecodes hello (List.mem_of_getElem? hj)))
  | addPeer a k now peer hk => exact forall_updateNode hrefl (keeps_addPeer hk now)
  | removePeer a p => cases hcalm
  | wake a now hvisits hdialing => exact forall_updateNode hrefl (keeps_wake hvisits now)
  | next a visit rest hvisits hdialing =>
    exact forall_updateNode hrefl (keeps_next (hs a) hvisits hdialing)
  | answered b a peer hdialing hanswer hlistens =>
    have hregister : ∀ c, Keeps (s.nodes c)
        ((s.updateNode b (Node.register (lan.key a, lan.recordOf a) a)).nodes c) :=
      forall_updateNode hrefl (keeps_register ..)
    exact forall_updateNode hregister
      ⟨(hregister a).known, (hregister a).reached, (hregister a).connected⟩
  | acked a b peer r hdialing hanswer hr =>
    obtain ⟨-, hpeer⟩ := (hs a).of_answer hlan hanswer hdialing
    obtain rfl := Option.some.inj (hr.symm.trans (acknowledged_eq lan b hpeer.ip))
    exact forall_updateNode hrefl (keeps_acked hdialing hpeer)
  | failed a peer hdialing => cases hcalm
  | lost a p => cases hcalm

/-- The log is right about the nodes. -/
structure Formed (lan : Lan N) (x : State N × Log N) : Prop where
  heard : ∀ a b, (a, b) ∈ x.2.heard → Known (x.1.nodes a) (lan.key b)
  alive : ∀ a p, (a, p) ∈ x.2.alive → Reached (x.1.nodes a) p

omit [DecidableEq N] in
lemma Formed.empty (lan : Lan N) (s : State N) : Formed lan (s, {}) where
  heard a b h := by cases h
  alive a p h := by cases h

omit [DecidableEq N] in
lemma Formed.keeps {x : State N × Log N} (hx : Formed lan x)
    (hkeeps : ∀ c, Keeps (x.1.nodes c) (t.nodes c)) : Formed lan (t, x.2) where
  heard a b h := (hkeeps a).known _ (hx.heard a b h)
  alive a p h := (hkeeps a).reached _ (hx.alive a p h)

lemma formed_step (hlan : lan.Distinct) {x : State N × Log N} {l : Label N} (hs : Inv lan x.1)
    (hdecodes : lan.Decodes x.1.air) (hx : Formed lan x) (h : Step lan x.1 l t)
    (hcalm : Calm l = true) : Formed lan (t, observe lan x.2 x.1 l t) := by
  have hkept : Formed lan (t, x.2) := hx.keeps (keeps_of_calm hlan hs hdecodes h hcalm)
  cases h with
  | deliver a j hello hj =>
    rw [observe, hj]
    dsimp only
    split
    · next hheard =>
      refine ⟨?_, hkept.alive⟩
      intro c b hmem
      rcases List.mem_cons.1 hmem with heq | hmem
      · cases heq
        obtain ⟨peer, hpeer, hreceive⟩ := receive_of_fits (x.1.nodes a) hlan hheard.2
          (hdecodes hello (List.mem_of_getElem? hj)) hheard.1
        dsimp only
        rw [nodes_updateNode_self, hreceive]
        exact Or.inl ⟨peer, List.mem_append_right _ (List.mem_singleton.2 rfl), hpeer.nodeId⟩
      · exact hkept.heard c b hmem
    · exact hkept
  | wake a now hvisits hdialing =>
    refine ⟨hkept.heard, ?_⟩
    intro c p hmem
    rcases List.mem_append.1 hmem with hmem | hmem
    · obtain ⟨visit, hvisit, heq⟩ := List.mem_map.1 hmem
      cases heq
      dsimp only
      rw [nodes_updateNode_self]
      exact Or.inl ⟨visit, hvisit, rfl⟩
    · exact hkept.alive c p hmem
  | _ => exact hkept

/-! ## Both ends of a connection -/

/-- A connection has been registered first by the node that has answered. -/
structure Mutual (lan : Lan N) (s : State N) : Prop where
  answer : ∀ a b, (s.nodes a).answer = some b → lan.key a ∈ (s.nodes b).connections.keys
  connected : ∀ a b, lan.key a ∈ (s.nodes b).connections.keys →
    lan.key b ∈ (s.nodes a).connections.keys ∨ (s.nodes a).answer = some b

omit [DecidableEq N] in
lemma Mutual.empty (lan : Lan N) : Mutual lan {} where
  answer a b h := by cases h
  connected a b h := by cases h

/-- A node changes, but not its connections. -/
lemma Mutual.updateNode (hs : Mutual lan s) {f : Node N → Node N}
    (hanswer : (f (s.nodes a)).answer = (s.nodes a).answer)
    (hconnections : (f (s.nodes a)).connections = (s.nodes a).connections) :
    Mutual lan (s.updateNode a f) := by
  have hanswers : ∀ c, ((s.updateNode a f).nodes c).answer = (s.nodes c).answer :=
    forall_updateNode (P := fun c node => node.answer = (s.nodes c).answer) (fun _ => rfl) hanswer
  have hall : ∀ c, ((s.updateNode a f).nodes c).connections = (s.nodes c).connections :=
    forall_updateNode (P := fun c node => node.connections = (s.nodes c).connections)
      (fun _ => rfl) hconnections
  constructor
  · intro x y h
    rw [hall]
    exact hs.answer x y (hanswers x ▸ h)
  · intro x y h
    rw [hall] at h ⊢
    rw [hanswers]
    exact hs.connected x y h

/-- `b` registers the connection and answers. -/
lemma Mutual.answered (hlan : lan.Distinct) (hs : Mutual lan s) (hba : b ≠ a)
    (hanswer : (s.nodes a).answer = none) : Mutual lan
      ((s.updateNode b (Node.register (lan.key a, r) a)).updateNode a
        fun node => { node with answer := some b }) := by
  set t := (s.updateNode b (Node.register (lan.key a, r) a)).updateNode a
    fun node => { node with answer := some b } with ht
  have hanswers (c : N) : (t.nodes c).answer = if c = a then some b else (s.nodes c).answer := by
    rw [ht, nodes_updateNode, nodes_updateNode]
    split_ifs <;> rfl
  have hconnections (c : N) (p : Key) : p ∈ (t.nodes c).connections.keys ↔
      c = b ∧ p = lan.key a ∨ p ∈ (s.nodes c).connections.keys := by
    rw [ht, nodes_updateNode, nodes_updateNode]
    split_ifs <;> simp_all [Node.register, Dict.mem_keys_set]
  constructor
  · intro x y hxy
    rw [hanswers] at hxy
    rw [hconnections]
    split at hxy
    · next hx => exact Or.inl ⟨(Option.some.inj hxy).symm, by rw [hx]⟩
    · exact Or.inr (hs.answer x y hxy)
  · intro x y hxy
    rw [hconnections] at hxy ⊢
    rw [hanswers]
    rcases hxy with ⟨rfl, hx⟩ | hxy
    · rw [(key_inj hlan).1 hx, if_pos rfl]
      exact Or.inr rfl
    · rcases hs.connected x y hxy with hyx | hyx
      · exact Or.inl (Or.inr hyx)
      · have hxa : x ≠ a := by
          rintro rfl
          rw [hanswer] at hyx
          cases hyx
        exact Or.inr (by rw [if_neg hxa, hyx])

/-- `a` has the answer. -/
lemma Mutual.acked (hlan : lan.Distinct) (hs : Mutual lan s)
    (hanswer : (s.nodes a).answer = some b) : Mutual lan
      (s.updateNode a fun node => (node.register (lan.key b, r) b).hangUp) := by
  set t := s.updateNode a fun node => (node.register (lan.key b, r) b).hangUp with ht
  have hanswers (c : N) : (t.nodes c).answer = if c = a then none else (s.nodes c).answer := by
    rw [ht, nodes_updateNode]
    split_ifs <;> rfl
  have hconnections (c : N) (p : Key) : p ∈ (t.nodes c).connections.keys ↔
      c = a ∧ p = lan.key b ∨ p ∈ (s.nodes c).connections.keys := by
    rw [ht, nodes_updateNode]
    split_ifs <;> simp_all [Node.register, Node.hangUp, Dict.mem_keys_set]
  constructor
  · intro x y hxy
    rw [hanswers] at hxy
    rw [hconnections]
    split at hxy
    · cases hxy
    · exact Or.inr (hs.answer x y hxy)
  · intro x y hxy
    rw [hconnections] at hxy ⊢
    rw [hanswers]
    rcases hxy with ⟨rfl, hx⟩ | hxy
    · -- the other end has had the connection since it answered
      rw [(key_inj hlan).1 hx]
      exact Or.inl (Or.inr (hs.answer y b hanswer))
    · rcases hs.connected x y hxy with hyx | hyx
      · exact Or.inl (Or.inr hyx)
      · by_cases hxa : x = a
        · subst hxa
          obtain rfl := Option.some.inj (hyx.symm.trans hanswer)
          exact Or.inl (Or.inl ⟨rfl, rfl⟩)
        · exact Or.inr (by rw [if_neg hxa, hyx])

lemma mutual_step (hlan : lan.Distinct) {l : Label N} (hinv : Inv lan s) (hs : Mutual lan s)
    (h : Step lan s l t) (hcalm : Calm l = true) : Mutual lan t := by
  cases h with
  | hello hello => exact ⟨hs.answer, hs.connected⟩
  | deliver a j hello hj =>
    have hreceive : (Node.receive lan a hello (s.nodes a)).answer = (s.nodes a).answer ∧
        (Node.receive lan a hello (s.nodes a)).connections = (s.nodes a).connections := by
      unfold Node.receive
      split <;> exact ⟨rfl, rfl⟩
    exact hs.updateNode hreceive.1 hreceive.2
  | addPeer a k now peer hk => exact hs.updateNode rfl rfl
  | removePeer a p => cases hcalm
  | wake a now hvisits hdialing => exact hs.updateNode rfl rfl
  | next a visit rest hvisits hdialing =>
    have hnext : (Node.next visit rest (s.nodes a)).answer = (s.nodes a).answer ∧
        (Node.next visit rest (s.nodes a)).connections = (s.nodes a).connections := by
      unfold Node.next
      split <;> exact ⟨rfl, rfl⟩
    exact hs.updateNode hnext.1 hnext.2
  | answered b a peer hdialing hanswer hlistens =>
    obtain ⟨c, hca, hc⟩ := (hinv a).dialing peer hdialing
    obtain rfl := hc.listener hlan hlistens
    exact hs.answered hlan hca hanswer
  | acked a b peer r hdialing hanswer hr =>
    obtain ⟨-, hpeer⟩ := (hinv a).of_answer hlan hanswer hdialing
    obtain rfl := Option.some.inj (hr.symm.trans (acknowledged_eq lan b hpeer.ip))
    exact hs.acked hlan hanswer
  | failed a peer hdialing => cases hcalm
  | lost a p => cases hcalm

end Calm

/-! ## Two nodes -/

/-- `orjson.dumps` on the report of 10 GiB. -/
def reportDumps : Value → Bytes
  | .dict [_, (_, .str signature)] =>
    encodeUtf8 (HealthReports.datagramText (HealthReports.reportText 10) signature)
  | _ => []

/-- Node `false` and node `true`. -/
def pair : Lan Bool where
  json := HealthReports.reportJson
  dumps := reportDumps
  swarmKey := "k"
  peerTimeout := 15
  self a := if a then { nodeId := "b", tcpPort := 50001 } else { nodeId := "a", tcpPort := 50001 }
  ip a := if a then "10.0.0.2" else "10.0.0.1"

def pairHello : Hello Bool where
  sender := true
  beat :=
    { uptime := 60
      timestamp := 0
      health := { freeRamMb := 512, cpuFreqGhz := 2, cpuPercent := 10, freeDiskGb := (10 : ℕ),
                  healthScore := ((702 + 10 * 10 : ℕ) : ℚ) } }

lemma distinct_pair : pair.Distinct := by
  constructor
  · intro a b h
    revert a b
    decide
  · intro a b h
    revert a b
    decide

lemma loads_pairHello :
    pair.json.loads (pair.buildHello pairHello) = some (pair.wrapper pairHello) := by
  have hsignature : hmacTag pair.swarmKey (pair.json.dumps (pair.payload pairHello)) =
      HealthReports.reportSignature 10 :=
    congrArg (hmacTag "k") (HealthReports.dumps_report 10)
  have hwrapper : pair.wrapper pairHello = .dict [(.str "payload", HealthReports.report 10),
      (.str "signature", .str (HealthReports.reportSignature 10))] := by
    rw [Lan.wrapper, hsignature]
    rfl
  rw [Lan.buildHello, hwrapper]
  exact HealthReports.loads_datagram 10 (Or.inr rfl)

lemma decodes_pair : pair.Decodes [pairHello] := by
  intro hello hmem
  rw [List.mem_singleton.1 hmem]
  exact loads_pairHello

lemma receive_pair (node : Node Bool) : node.receive pair false pairHello =
    { node with tasks := node.tasks ++ [HealthReports.reportRecord 10] } := by
  have hbytes : gibToBytes (.float pairHello.beat.health.freeDiskGb) =
      .ok ((10 : ℕ) * 1024 ^ 3) := HealthReports.gibToBytes_natCast le_rfl
  have hids : (pair.self pairHello.sender).nodeId ≠ (pair.self false).nodeId := by decide
  rw [Node.receive, datagramReceived_buildHello loads_pairHello, Lan.payload,
    HealthReports.onHello_helloPayload hids hbytes]
  rfl

def pairState (f g : Node Bool) : State Bool where
  nodes a := if a then g else f
  air := [pairHello]

lemma updateNode_false (f g : Node Bool) (F : Node Bool → Node Bool) :
    (pairState f g).updateNode false F = pairState (F f) g := by
  rw [State.updateNode, pairState, pairState, State.mk.injEq]
  refine ⟨funext fun a => ?_, rfl⟩
  cases a <;> rfl

lemma updateNode_true (f g : Node Bool) (F : Node Bool → Node Bool) :
    (pairState f g).updateNode true F = pairState f (F g) := by
  rw [State.updateNode, pairState, pairState, State.mk.injEq]
  refine ⟨funext fun a => ?_, rfl⟩
  cases a <;> rfl

/-- What the first node has on record for the second one. -/
def pairRegistry : Registry := (∅ : Registry).addPeer (HealthReports.reportRecord 10) 5

def pairDialled : PeerRecord := { HealthReports.reportRecord 10 with lastSeen := 5 }

lemma exec_deliver (f g : Node Bool) : exec pair (pairState f g) (.deliver false 0) =
    some (pairState { f with tasks := f.tasks ++ [HealthReports.reportRecord 10] } g) := by
  have h : exec pair (pairState f g) (.deliver false 0) =
      some ((pairState f g).updateNode false (Node.receive pair false pairHello)) := rfl
  rw [h, updateNode_false, receive_pair]

lemma exec_answered (f g : Node Bool) (hdialing : f.dialing = some pairDialled)
    (hanswer : f.answer = none) : exec pair (pairState f g) (.answered true false) =
      some (pairState { f with answer := some true }
        (g.register (pair.key false, pair.recordOf false) false)) := by
  have hlistens : pair.listensAt true pairDialled = true := by decide
  have hguard : pair.listensAt true pairDialled = true ∧
      ((pairState f g).nodes false).answer = none := ⟨hlistens, hanswer⟩
  have h : exec pair (pairState f g) (.answered true false) =
      some (((pairState f g).updateNode true
        (Node.register (pair.key false, pair.recordOf false) false)).updateNode false
          fun node => { node with answer := some true }) := by
    have hdialing' : ((pairState f g).nodes false).dialing = some pairDialled := hdialing
    rw [exec, hdialing', accepted_eq]
    exact if_pos hguard
  rw [h, updateNode_true, updateNode_false]

lemma exec_acked (f g : Node Bool) (hdialing : f.dialing = some pairDialled)
    (hanswer : f.answer = some true) : exec pair (pairState f g) (.acked false) =
      some (pairState (f.register (pair.key true, pair.recordOf true) true).hangUp g) := by
  have hdialing' : ((pairState f g).nodes false).dialing = some pairDialled := hdialing
  have hanswer' : ((pairState f g).nodes false).answer = some true := hanswer
  have hip : pairDialled.ip = pair.ip true := rfl
  have h : exec pair (pairState f g) (.acked false) =
      some ((pairState f g).updateNode false fun node =>
        (node.register (pair.key true, pair.recordOf true) true).hangUp) := by
    rw [exec, hdialing', hanswer']
    exact congrArg (fun o => o >>= fun e => some ((pairState f g).updateNode false fun node =>
      (node.register e true).hangUp)) (acknowledged_eq pair true hip)
  rw [h, updateNode_false]

lemma exec_hello : exec pair {} (.hello pairHello) = some (pairState {} {}) := by
  rw [exec, pairState, Option.some.injEq, State.mk.injEq]
  refine ⟨funext fun a => ?_, rfl⟩
  cases a <;> rfl

lemma exec_addPeer (f g : Node Bool) {peer : PeerRecord} (now : ℚ) (hk : f.tasks[0]? = some peer) :
    exec pair (pairState f g) (.addPeer false 0 now) =
      some (pairState (f.addPeer 0 peer now) g) := by
  have hk' : ((pairState f g).nodes false).tasks[0]? = some peer := hk
  rw [exec, hk', ← updateNode_false]
  rfl

lemma exec_wake (f g : Node Bool) (now : ℚ) (hvisits : f.visits = [])
    (hdialing : f.dialing = none) :
    exec pair (pairState f g) (.wake false now) = some (pairState (f.wake pair now) g) := by
  rw [← updateNode_false]
  exact if_pos ⟨hvisits, hdialing⟩

lemma exec_next (f g : Node Bool) {visit : Visit} {rest : List Visit}
    (hvisits : f.visits = visit :: rest) (hdialing : f.dialing = none) :
    exec pair (pairState f g) (.next false) = some (pairState (f.next visit rest) g) := by
  have hvisits' : ((pairState f g).nodes false).visits = visit :: rest := hvisits
  have hdialing' : ((pairState f g).nodes false).dialing = none := hdialing
  rw [exec, hvisits', hdialing', ← updateNode_false]

lemma wake_pair : Node.wake pair 6 { registry := pairRegistry } =
    { registry := pairRegistry, visits := [{ nodeId := .str "b" }] } := by
  rw [Node.wake, Node.mk.injEq]
  refine ⟨rfl, rfl, rfl, ?_, rfl, rfl⟩
  have halive : isAlive pair.peerTimeout 6 pairDialled = true := by
    simp only [isAlive, pair, pairDialled]
    norm_num
  exact congrArg (List.map fun e : Key × PeerRecord => ({ nodeId := e.1 } : Visit))
    (List.filter_cons_of_pos (l := []) (a := (Key.str "b", pairDialled)) halive)

/-- The first node has heard the second one and has connected to it. -/
def pairDone : State Bool :=
  pairState
    { registry := pairRegistry.addPeer (pair.recordOf true) 7
      connections := (∅ : Dict Key Bool).set (pair.key true) true }
    { tasks := [pair.recordOf false]
      connections := (∅ : Dict Key Bool).set (pair.key false) false }

def pairLog : Log Bool where
  heard := [(false, true)]
  alive := [(false, pair.key true)]

/-- The runs of the two nodes in which nothing is taken back. -/
def pairMachine : Machine (State Bool × Log Bool) (Label Bool) :=
  ((machine pair).restrict (fun l => Calm l = true) {}).observed {} (observe pair)

lemma pairMachine_step {s t : State Bool} {log log' : Log Bool} {l : Label Bool}
    (hs : pairMachine.Reachable (s, log)) (hexec : exec pair s l = some t) (hcalm : Calm l = true)
    (hlog : observe pair log s l t = log') : pairMachine.Reachable (t, log') := by
  have hrestrict : ((machine pair).restrict (fun l => Calm l = true) {}).exec s l = some t :=
    Machine.exec_restrict_eq_some.2 ⟨hcalm, hexec⟩
  subst hlog
  exact hs.step (congrArg (Option.map _) hrestrict)

lemma fits_pairHello : pairHello.fits = true :=
  Hello.fits_iff.2 ⟨_, HealthReports.gibToBytes_natCast le_rfl⟩

lemma observe_wake (t : State Bool) : observe pair { heard := [(false, true)] }
    (pairState { registry := pairRegistry } {}) (.wake false 6) t = pairLog := by
  have halive : (Node.wake pair 6 { registry := pairRegistry }).visits =
      [{ nodeId := .str "b" }] := by
    rw [wake_pair]
  rw [observe, pairState, pairLog, Log.mk.injEq]
  exact ⟨rfl, congrArg
    (fun visits => visits.map (fun visit : Visit => (false, visit.nodeId)) ++ []) halive⟩

lemma reachable_pairDone : pairMachine.Reachable (pairDone, pairLog) := by
  have hhello : pairMachine.Reachable (pairState {} {}, {}) :=
    pairMachine_step .init exec_hello rfl rfl
  have hheard : pairMachine.Reachable
      (pairState { tasks := [HealthReports.reportRecord 10] } {}, { heard := [(false, true)] }) :=
    pairMachine_step hhello (exec_deliver {} {}) rfl
      (observe_deliver rfl (by decide) fits_pairHello)
  have hknown : pairMachine.Reachable
      (pairState { registry := pairRegistry } {}, { heard := [(false, true)] }) :=
    pairMachine_step hheard (exec_addPeer _ _ 5 rfl) rfl rfl
  have hawake : pairMachine.Reachable
      (pairState { registry := pairRegistry, visits := [{ nodeId := .str "b" }] } {}, pairLog) :=
    pairMachine_step hknown ((exec_wake _ _ 6 rfl rfl).trans (by rw [wake_pair])) rfl
      (observe_wake _)
  have hdialling : pairMachine.Reachable
      (pairState { registry := pairRegistry, dialing := some pairDialled } {}, pairLog) :=
    pairMachine_step hawake (exec_next
      { registry := pairRegistry, visits := [{ nodeId := .str "b" }] } _ rfl rfl) rfl rfl
  have hanswered := pairMachine_step hdialling (exec_answered _ _ rfl rfl) rfl rfl
  have hacked := pairMachine_step hanswered (exec_acked _ _ rfl rfl) rfl rfl
  exact pairMachine_step hacked (exec_addPeer _ _ 7 rfl) rfl rfl

lemma reachableBy_pairDone :
    (machine pair).ReachableBy (fun _ l => Calm l = true) pairDone := by
  refine reachable_pairDone.invariant
    (I := fun x => (machine pair).ReachableBy (fun _ l => Calm l = true) x.1) .init ?_
  intro x l y hx h
  obtain ⟨hcalm, hexec⟩ := Machine.exec_restrict_eq_some.1 (Machine.exec_observed h).1
  exact hx.step hexec hcalm

/-! ## What becomes of a network -/

section Network

variable [DecidableEq N] {lan : Lan N} {s : State N}

/-- **No node is deceived.**  Whatever is lost, delayed or repeated, and whoever goes away, what a
node has on record for an id is the node with this id, with its address, ports and name, and not
itself; and the other end of a connection is the node whose id it is kept under. -/
theorem never_deceived (hlan : lan.Distinct) (hs : (machine lan).Reachable s)
    (hdecodes : lan.Decodes s.air) (a : N) : Truthful lan a (s.nodes a) :=
  (inv_of_reachable hlan hs hdecodes a).toTruthful

theorem never_deceived_pair : Truthful pair false (pairDone.nodes false) :=
  never_deceived distinct_pair reachableBy_pairDone.reachable decodes_pair false

/-- **The mesh forms.**  From any state on, as long as nothing is taken back, a node has a true
record of every node that it has heard since, once its `add_peer` tasks have run; and it is
connected to every node that was alive to it when it began to go through its peers, once it is
through. -/
theorem mesh_formed (hlan : lan.Distinct) (hs : (machine lan).Reachable s)
    {x : State N × Log N}
    (hx : (((machine lan).restrict (fun l => Calm l = true) s).observed {}
      (observe lan)).Reachable x)
    (hdecodes : lan.Decodes x.1.air) (a b : N) :
    ((a, b) ∈ x.2.heard → (x.1.nodes a).tasks = [] →
      ∃ r, (x.1.nodes a).registry.peers.get? (lan.key b) = some r ∧ Describes lan b r) ∧
    ((a, lan.key b) ∈ x.2.alive → (x.1.nodes a).visits = [] → (x.1.nodes a).dialing = none →
      (x.1.nodes a).connections.get? (lan.key b) = some b) := by
  obtain ⟨hreachable, hformed⟩ : (machine lan).Reachable x.1 ∧ Formed lan x := by
    refine hx.invariant (I := fun x => lan.Decodes x.1.air →
      (machine lan).Reachable x.1 ∧ Formed lan x) ?_ ?_ hdecodes
    · exact fun _ => ⟨hs, Formed.empty lan s⟩
    · rintro x l ⟨t, log⟩ ih h hdecodes
      obtain ⟨hexec, hlog⟩ := Machine.exec_observed h
      dsimp only at hexec hlog hdecodes ⊢
      subst hlog
      obtain ⟨hcalm, hexec⟩ := Machine.exec_restrict_eq_some.1 hexec
      have hstep := step_of_exec hexec
      have hbefore : lan.Decodes x.1.air := fun hello hmem => hdecodes hello (hstep.subset_air hmem)
      obtain ⟨hreachable, hformed⟩ := ih hbefore
      exact ⟨hreachable.step hexec, formed_step hlan (inv_of_reachable hlan hreachable hbefore)
        hbefore hformed hstep hcalm⟩
  have hinv := inv_of_reachable hlan hreachable hdecodes
  constructor
  · intro hheard htasks
    rcases hformed.heard a b hheard with ⟨r, hr, -⟩ | hknown
    · rw [htasks] at hr
      cases hr
    · obtain ⟨r, hr⟩ := Dict.mem_keys_iff.1 hknown
      obtain ⟨c, -, hc⟩ := (hinv a).registry _ _ hr
      have hkey : lan.key c = lan.key b :=
        hc.nodeId.symm.trans ((x.1.nodes a).registry.keyed _ _ hr)
      obtain rfl := (key_inj hlan).1 hkey
      exact ⟨r, hr, hc⟩
  · intro halive hvisits hdialing
    rcases hformed.alive a _ halive with ⟨visit, hvisit, -⟩ | ⟨r, hr, -⟩ | hconnected
    · rw [hvisits] at hvisit
      cases hvisit
    · rw [hdialing] at hr
      cases hr
    · obtain ⟨c, hc⟩ := Dict.mem_keys_iff.1 hconnected
      obtain rfl := (key_inj hlan).1 ((hinv a).connections _ _ hc).2
      exact hc

theorem mesh_formed_pair :
    (∃ r, (pairDone.nodes false).registry.peers.get? (pair.key true) = some r ∧
      Describes pair true r) ∧
    (pairDone.nodes false).connections.get? (pair.key true) = some true := by
  have h := mesh_formed distinct_pair Machine.Reachable.init reachable_pairDone decodes_pair
    false true
  exact ⟨h.1 (by decide) rfl, h.2 (by decide) rfl rfl⟩

/-- **Connections have two ends.**  When nothing has ever been taken back and neither of two nodes
is dialling, both of them have a connection with the other one, or neither has. -/
theorem connected_comm (hlan : lan.Distinct)
    (hs : (machine lan).ReachableBy (fun _ l => Calm l = true) s) (hdecodes : lan.Decodes s.air)
    (a b : N) (ha : (s.nodes a).dialing = none) (hb : (s.nodes b).dialing = none) :
    (s.nodes a).connections.get? (lan.key b) = some b ↔
      (s.nodes b).connections.get? (lan.key a) = some a := by
  have hmutual : Mutual lan s := by
    refine (hs.invariant (I := fun s => (machine lan).Reachable s ∧
      (lan.Decodes s.air → Mutual lan s)) ⟨.init, fun _ => Mutual.empty lan⟩ ?_).2 hdecodes
    rintro s l t ⟨hreachable, ih⟩ hexec hcalm
    have hstep := step_of_exec hexec
    refine ⟨hreachable.step hexec, fun hdecodes => ?_⟩
    have hbefore : lan.Decodes s.air := fun hello hmem => hdecodes hello (hstep.subset_air hmem)
    exact mutual_step hlan (inv_of_reachable hlan hreachable hbefore) (ih hbefore) hstep hcalm
  have hinv := inv_of_reachable hlan hs.reachable hdecodes
  have honesided : ∀ x y, (s.nodes y).dialing = none →
      (s.nodes x).connections.get? (lan.key y) = some y →
      (s.nodes y).connections.get? (lan.key x) = some x := by
    intro x y hdialing hget
    rcases hmutual.connected y x (Dict.mem_keys_iff.2 ⟨y, hget⟩) with h | h
    · obtain ⟨c, hc⟩ := Dict.mem_keys_iff.1 h
      obtain rfl := (key_inj hlan).1 ((hinv y).connections _ _ hc).2
      exact hc
    · obtain ⟨r, hr, -⟩ := (hinv y).answer x h
      rw [hdialing] at hr
      cases hr
  exact ⟨honesided a b hb, honesided b a ha⟩

theorem connected_comm_pair : (pairDone.nodes false).connections.get? (pair.key true) = some true ↔
    (pairDone.nodes true).connections.get? (pair.key false) = some false :=
  connected_comm distinct_pair reachableBy_pairDone decodes_pair false true rfl rfl

end Network

end DistriStore.Mesh
