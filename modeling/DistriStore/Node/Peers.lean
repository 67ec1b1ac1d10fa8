import DistriStore.Lib.Dict
import DistriStore.Network.Protocol

/-!
# The peer registry (`backend/node/state.py`)

Records are built from the messages of other nodes, with whatever values these have in their
fields; `PeerInfo` is the form in which the strategies compute with them.  `add_peer` makes a new
record, or updates the one it has: the address and the TCP port are always overwritten, the other
fields only by values that say something.
-/

namespace DistriStore

open Lib

/-- A `PeerInfo` as the handlers of messages build it. -/
structure PeerRecord where
  nodeId : Key
  ip : String
  tcpPort : Value
  name : Value := .str ""
  lastSeen : ℚ := 0
  freeSpace : Value := .int 0
  uptime : Value := .float 0
  latency : ℚ := 0
  healthScore : Value := .float 0
  apiPort : Value := .int 8888

/-- `existing` after an update from `peer`. -/
def PeerRecord.update (existing peer : PeerRecord) (now : ℚ) : PeerRecord :=
  { existing with
    lastSeen := now
    ip := peer.ip
    tcpPort := peer.tcpPort
    freeSpace := if peer.freeSpace.truthy then peer.freeSpace else existing.freeSpace
    uptime := if peer.uptime.truthy then peer.uptime else existing.uptime
    healthScore := if peer.healthScore.truthy then peer.healthScore else existing.healthScore
    name := if peer.name.truthy && !peer.name.isStr "unknown" then peer.name else existing.name
    apiPort := if peer.apiPort.truthy then peer.apiPort else existing.apiPort }

/-- The peers that a node knows; each is kept under its own id. -/
structure Registry where
  peers : Dict Key PeerRecord
  keyed : ∀ k r, peers.get? k = some r → r.nodeId = k

instance : EmptyCollection Registry := ⟨⟨∅, fun k r h => by simp at h⟩⟩

namespace Registry

/-- The record that `add_peer` leaves under the id of `peer`. -/
def merged (registry : Registry) (peer : PeerRecord) (now : ℚ) : PeerRecord :=
  match registry.peers.get? peer.nodeId with
  | some existing => existing.update peer now
  | none => { peer with lastSeen := now }

lemma nodeId_merged (registry : Registry) (peer : PeerRecord) (now : ℚ) :
    (registry.merged peer now).nodeId = peer.nodeId := by
  unfold merged
  split
  · next existing h => exact registry.keyed _ existing h
  · rfl

/-- Register or update a peer. -/
def addPeer (registry : Registry) (peer : PeerRecord) (now : ℚ) : Registry where
  peers := registry.peers.set peer.nodeId (registry.merged peer now)
  keyed k r h := by
    rw [Dict.get?_set] at h
    split at h
    · next hk => rw [← Option.some.inj h, nodeId_merged, hk]
    · exact registry.keyed k r h

lemma get?_addPeer (registry : Registry) (peer : PeerRecord) (now : ℚ) (k : Key) :
    (registry.addPeer peer now).peers.get? k =
      if k = peer.nodeId then some (registry.merged peer now) else registry.peers.get? k :=
  Dict.get?_set ..

/-- Remove a peer by its id. -/
def removePeer (registry : Registry) (p : Key) : Registry where
  peers := registry.peers.erase p
  keyed k r h := by
    rw [Dict.get?_erase] at h
    split at h
    · cases h
    · exact registry.keyed k r h

/-- Whatever was known about a peer before, its address and ports are those of the last record,
the port of the API when that is a port. -/
lemma merged_current (registry : Registry) (peer : PeerRecord) (now : ℚ) :
    (registry.merged peer now).ip = peer.ip ∧ (registry.merged peer now).tcpPort = peer.tcpPort ∧
      (peer.apiPort.truthy = true → (registry.merged peer now).apiPort = peer.apiPort) := by
  unfold merged
  split
  · exact ⟨rfl, rfl, fun h => if_pos h⟩
  · exact ⟨rfl, rfl, fun _ => rfl⟩

end Registry

/-- The record of the sender of a HANDSHAKE or HANDSHAKE_ACK with id `p`; `port` is what the two
handlers put for a missing `tcp_port`. -/
def peerOfHandshake (ip : String) (port : ℕ) (p : Key) (msg : Value) :
    Except PyError PeerRecord := do
  let tcpPort ← msg.getD "tcp_port" (.int port)
  let name ← msg.getD "name" (.str "unknown")
  let apiPort ← msg.getD "api_port" (.int 8888)
  return { nodeId := p, ip := ip, tcpPort := tcpPort, name := name, apiPort := apiPort }

lemma peerOfHandshake_handshakeMsg (ip : String) (port : ℕ) (p : Key)
    (type nodeId name : String) (tcpPort apiPort : ℕ) :
    peerOfHandshake ip port p (handshakeMsg type nodeId name tcpPort apiPort) =
      .ok { nodeId := p, ip := ip, tcpPort := .int tcpPort, name := .str name,
            apiPort := .int apiPort } := by
  simp [peerOfHandshake, handshakeMsg, Value.getD, Value.isStr, bind, Except.bind, pure,
    Except.pure]

end DistriStore
