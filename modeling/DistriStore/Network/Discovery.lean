import DistriStore.Node.Peers

/-!
# UDP discovery (`network/discovery.py`)

A HELLO datagram is a JSON object with a payload and the signature of its text under the swarm
key.  A node that receives one registers the peer that the payload names, at the address the
datagram came from.  The signature covers neither that address nor anything the receiver could
recognise a second time; the timestamp in the payload is not looked at.

`orjson` is a parameter.  `datagram_received` raises where the method calls on the decoded values
would; asyncio logs such an exception and goes on.
-/

namespace DistriStore

open Lib

/-- `orjson.loads`, without a value when the text is not JSON, and `orjson.dumps` with sorted
keys. -/
structure Orjson where
  loads : Bytes → Option Value
  dumps : Value → Bytes

/-- The signature of `bs` under the swarm key. -/
def hmacTag (swarmKey : String) (bs : Bytes) : String :=
  hexDigest (hmacSha256 (encodeUtf8 swarmKey) bs)

/-- The identity that a node announces. -/
structure Identity where
  nodeId : String
  name : String := "node"
  tcpPort : ℕ := 0
  apiPort : ℕ := 8888

/-- `compute_health_score`. -/
structure Health where
  freeRamMb : ℚ
  cpuFreqGhz : ℚ
  cpuPercent : ℚ
  freeDiskGb : ℚ
  healthScore : ℚ

/-- The payload of `_build_hello`. -/
def helloPayload (self : Identity) (uptime timestamp : ℚ) (health : Health) : Value :=
  .dict [(.str "type", .str "HELLO"), (.str "node_id", .str self.nodeId),
    (.str "name", .str self.name), (.str "tcp_port", .int self.tcpPort),
    (.str "api_port", .int self.apiPort), (.str "uptime", .float uptime),
    (.str "timestamp", .float timestamp),
    (.str "health", .dict [(.str "free_ram_mb", .float health.freeRamMb),
      (.str "cpu_freq_ghz", .float health.cpuFreqGhz),
      (.str "cpu_percent", .float health.cpuPercent),
      (.str "free_disk_gb", .float health.freeDiskGb),
      (.str "health_score", .float health.healthScore)])]

/-! ## `datagram_received` -/

/-- The payload, unless it is missing or its signature is wrong. -/
def authorizedPayload (json : Orjson) (swarmKey : String) (data : Bytes) :
    Except PyError (Option Value) :=
  match json.loads data with
  | none => .ok none
  | some wrapper => do
    let payload ← wrapper.getD "payload" .nil
    let signature ← wrapper.getD "signature" .nil
    if !payload.truthy || !signature.truthy then
      return none
    if ← compareDigest signature (hmacTag swarmKey (json.dumps payload)) then
      return some payload
    return none

/-- `int(value * 1024 ** 3)`. -/
def gibToBytes : Value → Except PyError ℤ
  | .bool b => .ok (if b then 1024 ^ 3 else 0)
  | .int n => .ok (n * 1024 ^ 3)
  | .float x =>
    let bytes := x * 1024 ^ 3
    -- a product that overflows is infinite and has no integer
    if -2 ^ 1024 < bytes ∧ bytes < 2 ^ 1024 then .ok (bytes.num.tdiv bytes.den)
    else .error .overflowError
  | .str _ => .error (.valueError "invalid literal for int()")
  | _ => .error .typeError

/-- The peer that a HELLO message announces; the id has to have slices for the log line, and a
hash for `add_peer`. -/
def peerOfHello (ip : String) (msg peerId : Value) : Except PyError (Option PeerRecord) := do
  let health ← msg.getD "health" (.dict [])
  let freeDisk ← health.getD "free_disk_gb" (.int 0)
  let freeSpaceBytes ← gibToBytes freeDisk
  let tcpPort ← msg.getD "tcp_port" (.int 50001)
  let name ← msg.getD "name" (.str "unknown")
  let uptime ← msg.getD "uptime" (.int 0)
  let healthScore ← health.getD "health_score" (.int 0)
  let apiPort ← msg.getD "api_port" (.int 8888)
  if !peerId.hasSlices then
    throw .typeError
  return peerId.key?.map fun p =>
    { nodeId := p, ip := ip, tcpPort := tcpPort, name := name, freeSpace := .int freeSpaceBytes,
      uptime := uptime, healthScore := healthScore, apiPort := apiPort }

/-- A message of another node. -/
def onHello (nodeId ip : String) (msg : Value) : Except PyError (Option PeerRecord) := do
  let type ← msg.getD "type" .nil
  if !type.isStr "HELLO" then
    return none
  let peerId ← msg.getD "node_id" (.str "")
  if peerId.isStr nodeId then
    return none
  peerOfHello ip msg peerId

/-- The peer for which `datagram_received` schedules an `add_peer`. -/
def datagramReceived (json : Orjson) (swarmKey nodeId : String) (data : Bytes) (ip : String) :
    Except PyError (Option PeerRecord) := do
  match ← authorizedPayload json swarmKey data with
  | none => return none
  | some msg => onHello nodeId ip msg

/-! ## What is signed -/

/-- The bytes that a datagram carries the right signature of. -/
def signedPayload (json : Orjson) (swarmKey : String) (data : Bytes) : Option Bytes :=
  match json.loads data with
  | none => none
  | some wrapper =>
    match wrapper.getD "payload" .nil, wrapper.getD "signature" .nil with
    | .ok payload, .ok (.str sig) =>
      if sig = hmacTag swarmKey (json.dumps payload) then some (json.dumps payload) else none
    | _, _ => none

/-- The bytes that an AUTH message carries the right signature of. -/
def signedName (swarmKey : String) (msg : Value) : Option Bytes :=
  match msg.getD "node_id" (.str ""), msg.getD "signature" (.str "") with
  | .ok (.str nodeId), .ok (.str sig) =>
    if sig = authSignature swarmKey nodeId then some (encodeUtf8 nodeId) else none
  | _, _ => none

lemma authSignature_ne_empty (swarmKey nodeId : String) : authSignature swarmKey nodeId ≠ "" := by
  intro h
  have hlength : (authSignature swarmKey nodeId).length = 64 := by
    rw [authSignature, length_hexDigest, length_hmacSha256]
  simp [h] at hlength

lemma signedName_authHandshakeMsg (swarmKey nodeId : String) :
    signedName swarmKey (authHandshakeMsg nodeId swarmKey) = some (encodeUtf8 nodeId) := by
  simp [signedName, authHandshakeMsg, Value.getD, Value.isStr]

/-- A HANDSHAKE is not signed. -/
lemma signedName_handshakeMsg (swarmKey type nodeId name : String) (tcpPort apiPort : ℕ) :
    signedName swarmKey (handshakeMsg type nodeId name tcpPort apiPort) = none := by
  simp [signedName, handshakeMsg, Value.getD, Value.isStr, (authSignature_ne_empty _ _).symm]

/-- What passes the AUTH check is signed. -/
lemma signedName_of_isAuth {swarmKey : String} {msg : Value} (h : IsAuth swarmKey msg) :
    ∃ bs, signedName swarmKey msg = some bs := by
  obtain ⟨-, -, nodeId, hid, hsig⟩ := h
  exact ⟨encodeUtf8 nodeId, by simp [signedName, hid, hsig]⟩

lemma signedPayload_of_authorized {json : Orjson} {swarmKey : String} {data : Bytes}
    {payload : Value} (h : authorizedPayload json swarmKey data = .ok (some payload)) :
    signedPayload json swarmKey data = some (json.dumps payload) := by
  unfold authorizedPayload at h
  unfold signedPayload
  split at h
  · cases Except.ok.inj h
  · next wrapper hloads =>
    obtain ⟨payload', hpayload, h⟩ := bind_eq_ok.1 h
    obtain ⟨signature, hsignature, h⟩ := bind_eq_ok.1 h
    split at h
    · cases Except.ok.inj h
    · obtain ⟨authorized, hcompare, h⟩ := bind_eq_ok.1 h
      cases authorized with
      | false => cases Except.ok.inj h
      | true =>
        obtain rfl := Option.some.inj (Except.ok.inj h)
        rw [compareDigest_eq_true hcompare] at hsignature
        simp [hpayload, hsignature]

/-- A peer is announced at the address that the message came from. -/
lemma ip_of_peerOfHello {ip : String} {msg peerId : Value} {peer : PeerRecord}
    (h : peerOfHello ip msg peerId = .ok (some peer)) : peer.ip = ip := by
  obtain ⟨health, -, h⟩ := bind_eq_ok.1 h
  obtain ⟨freeDisk, -, h⟩ := bind_eq_ok.1 h
  obtain ⟨freeSpaceBytes, -, h⟩ := bind_eq_ok.1 h
  obtain ⟨tcpPort, -, h⟩ := bind_eq_ok.1 h
  obtain ⟨name, -, h⟩ := bind_eq_ok.1 h
  obtain ⟨uptime, -, h⟩ := bind_eq_ok.1 h
  obtain ⟨healthScore, -, h⟩ := bind_eq_ok.1 h
  obtain ⟨apiPort, -, h⟩ := bind_eq_ok.1 h
  split at h
  · cases h
  · obtain ⟨p, -, rfl⟩ := Option.map_eq_some_iff.1 (Except.ok.inj h)
    rfl

/-- A message of type HELLO that names another node. -/
def announces (nodeId : String) (msg : Value) : Bool :=
  match msg.getD "type" .nil, msg.getD "node_id" (.str "") with
  | .ok type, .ok peerId => type.isStr "HELLO" && !peerId.isStr nodeId
  | _, _ => false

lemma onHello_cases {nodeId ip : String} {msg : Value} {peer : PeerRecord}
    (h : onHello nodeId ip msg = .ok (some peer)) : announces nodeId msg = true ∧ peer.ip = ip := by
  obtain ⟨type, htype, h⟩ := bind_eq_ok.1 h
  split at h
  · cases Except.ok.inj h
  · next hhello =>
    obtain ⟨peerId, hid, h⟩ := bind_eq_ok.1 h
    split at h
    · cases Except.ok.inj h
    · next hother =>
      refine ⟨?_, ip_of_peerOfHello h⟩
      simp_all [announces]

/-- A datagram that registers a peer carries a signed HELLO of another node, and the peer is
registered at the address that the datagram came from. -/
theorem datagramReceived_cases {json : Orjson} {swarmKey nodeId ip : String} {data : Bytes}
    {peer : PeerRecord} (h : datagramReceived json swarmKey nodeId data ip = .ok (some peer)) :
    ∃ msg, authorizedPayload json swarmKey data = .ok (some msg) ∧
      signedPayload json swarmKey data = some (json.dumps msg) ∧ announces nodeId msg = true ∧
      peer.ip = ip := by
  obtain ⟨payload, hpayload, h⟩ := bind_eq_ok.1 h
  cases payload with
  | none => cases Except.ok.inj h
  | some msg =>
    obtain ⟨hannounces, hip⟩ := onHello_cases h
    exact ⟨msg, hpayload, signedPayload_of_authorized hpayload, hannounces, hip⟩

end DistriStore
