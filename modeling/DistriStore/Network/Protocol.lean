import DistriStore.FileEngine.Crypto
import Mathlib.Data.Rat.Defs

/-!
# The wire protocol between peers

`network/protocol.py`: messages are msgpack values, sent as they are.  A receiver gets back
whatever value the sender packed, so the handlers are modelled on arbitrary values: `getD` and
`rejects` raise where the method call on the received object would.

Finite floats are given by their exact values.  Dictionary keys and node ids compare as Python
compares them: a Boolean, an integer and a finite float are equal when their values are, and a NaN
is equal to itself as an object only.
-/

namespace DistriStore

open Lib

/-! ## Received values -/

/-- A value that `msgpack.unpackb` returns. -/
inductive Value where
  | nil
  | bool (b : Bool)
  | int (n : ℤ)
  | float (x : ℚ)
  | inf (negative : Bool)
  | nan (object : ℕ)
  | str (s : String)
  | bytes (b : Bytes)
  | array (items : List Value)
  | dict (fields : List (Value × Value))
  /-- `ExtType`, a named tuple. -/
  | ext (code : ℤ) (data : Bytes)
  | timestamp (seconds nanoseconds : ℤ)
  deriving Inhabited, Repr

/-- What a value is as a dictionary key, up to Python's equality of keys. -/
inductive Key where
  | none
  | number (x : ℚ)
  | inf (negative : Bool)
  | nan (object : ℕ)
  | str (s : String)
  | bytes (b : Bytes)
  | ext (code : ℤ) (data : Bytes)
  | timestamp (seconds nanoseconds : ℤ)
  deriving DecidableEq, Repr

namespace Value

/-- `if value:`. -/
def truthy : Value → Bool
  | nil => false
  | bool b => b
  | int n => n ≠ 0
  | float x => x ≠ 0
  | str s => s ≠ ""
  | bytes b => b ≠ []
  | array items => !items.isEmpty
  | dict fields => !fields.isEmpty
  | _ => true

/-- `value is None`. -/
def isNone : Value → Bool
  | nil => true
  | _ => false

/-- `value == s` for a string `s`. -/
def isStr (s : String) : Value → Bool
  | str t => t = s
  | _ => false

/-- The key a value is hashed to; `none` for the types without a hash. -/
def key? : Value → Option Key
  | nil => some .none
  | bool b => some (.number (if b then 1 else 0))
  | int n => some (.number n)
  | float x => some (.number x)
  | inf negative => some (.inf negative)
  | nan object => some (.nan object)
  | str s => some (.str s)
  | bytes b => some (.bytes b)
  | ext code data => some (.ext code data)
  | timestamp seconds nanoseconds => some (.timestamp seconds nanoseconds)
  | array _ => none
  | dict _ => none

/-- `value[:n]` does not raise. -/
def hasSlices : Value → Bool
  | str _ => true
  | bytes _ => true
  | array _ => true
  | ext _ _ => true
  | _ => false

/-- `value.encode()`. -/
def encode : Value → Except PyError Bytes
  | str s => .ok (encodeUtf8 s)
  | _ => .error (.attributeError "encode")

/-- `message.get(name, default)`; of two entries under one name the later one is kept. -/
def getD (msg : Value) (name : String) (default : Value) : Except PyError Value :=
  match msg with
  | dict fields => .ok ((fields.reverse.find? fun e => e.1.isStr name).elim default Prod.snd)
  | _ => .error (.attributeError "get")

end Value

/-- `not msg or msg.get("type") != expected`. -/
def rejects (expected : String) (msg : Value) : Except PyError Bool :=
  if !msg.truthy then .ok true
  else do
    let type ← msg.getD "type" .nil
    return !type.isStr expected

/-! ## Message builders -/

/-- `build_message`. -/
def buildMessage (timestamp : ℚ) (msgType senderId : String) (fields : List (Value × Value)) :
    Value :=
  .dict ([(.str "type", .str msgType), (.str "sender_id", .str senderId),
    (.str "timestamp", .float timestamp)] ++ fields)

/-- `message[name] = value`. -/
def Value.setField (msg : Value) (name : String) (value : Value) : Value :=
  match msg with
  | .dict fields => .dict (fields ++ [(.str name, value)])
  | msg => msg

/-- `store_chunk_msg`. -/
def storeChunkMsg (timestamp : ℚ) (senderId chunkHash : String) (chunkData : Bytes)
    (fileHash : String) : Value :=
  buildMessage timestamp "STORE_CHUNK" senderId
    [(.str "chunk_hash", .str chunkHash), (.str "chunk_data", .bytes chunkData),
      (.str "file_hash", .str fileHash)]

/-- `chunk_ack_msg`. -/
def chunkAckMsg (timestamp : ℚ) (senderId chunkHash : String) (index : ℤ) : Value :=
  buildMessage timestamp "CHUNK_ACK" senderId
    [(.str "chunk_hash", .str chunkHash), (.str "index", .int index)]

/-- `chat_msg`. -/
def chatMsg (timestamp : ℚ) (senderId senderName text : String) : Value :=
  buildMessage timestamp "CHAT" senderId
    [(.str "sender_name", .str senderName), (.str "text", .str text)]

/-- The signature that proves knowledge of the swarm key. -/
def authSignature (swarmKey nodeId : String) : String :=
  hexDigest (hmacSha256 (encodeUtf8 swarmKey) (encodeUtf8 nodeId))

/-- `auth_handshake_msg`. -/
def authHandshakeMsg (nodeId swarmKey : String) : Value :=
  .dict [(.str "type", .str "AUTH"), (.str "node_id", .str nodeId),
    (.str "signature", .str (authSignature swarmKey nodeId))]

/-- The greeting of a node: type `HANDSHAKE` from the one that dials, `HANDSHAKE_ACK` from the
one that accepts. -/
def handshakeMsg (type nodeId name : String) (tcpPort apiPort : ℕ) : Value :=
  .dict [(.str "type", .str type), (.str "node_id", .str nodeId), (.str "name", .str name),
    (.str "tcp_port", .int tcpPort), (.str "api_port", .int apiPort)]

/-! ## Authentication -/

/-- `hmac.compare_digest(sig, expected)`; it compares strings only when they are ASCII. -/
def compareDigest (sig : Value) (expected : String) : Except PyError Bool :=
  match sig with
  | .str s => if s.toList.all (fun c => c.val < 128) then .ok (s = expected) else .error .typeError
  | _ => .error .typeError

/-- The AUTH check of a connection that came in: whether it may go on to the handshake. -/
def checkAuth (swarmKey : String) (authMsg : Value) : Except PyError Bool := do
  if ← rejects "AUTH" authMsg then
    return false
  let nodeId ← authMsg.getD "node_id" (.str "")
  let sig ← authMsg.getD "signature" (.str "")
  let name ← nodeId.encode
  compareDigest sig (hexDigest (hmacSha256 (encodeUtf8 swarmKey) name))

/-- A dictionary whose `type` is `expected` is what gets past the check. -/
lemma rejects_eq_false {expected : String} {msg : Value} (h : rejects expected msg = .ok false) :
    (∃ fields, msg = .dict fields) ∧ msg.getD "type" .nil = .ok (.str expected) := by
  unfold rejects at h
  split at h
  · simp at h
  · obtain ⟨type, htype, h⟩ := bind_eq_ok.1 h
    have hstr : type = .str expected := by
      cases type <;> simp_all [Value.isStr, pure, Except.pure]
    refine ⟨?_, htype.trans (congrArg _ hstr)⟩
    cases msg <;> simp_all [Value.getD]

/-- `msg` is a dictionary of type `AUTH` whose signature is that of its node id under the swarm
key. -/
def IsAuth (swarmKey : String) (msg : Value) : Prop :=
  (∃ fields, msg = .dict fields) ∧ msg.getD "type" .nil = .ok (.str "AUTH") ∧
    ∃ nodeId, msg.getD "node_id" (.str "") = .ok (.str nodeId) ∧
      msg.getD "signature" (.str "") = .ok (.str (authSignature swarmKey nodeId))

lemma compareDigest_eq_true {sig : Value} {expected : String}
    (h : compareDigest sig expected = .ok true) : sig = .str expected := by
  unfold compareDigest at h
  split at h
  · split at h
    · rw [of_decide_eq_true (Except.ok.inj h)]
    · simp at h
  · simp at h

/-- Only a signed AUTH message passes the check. -/
theorem isAuth_of_checkAuth {swarmKey : String} {msg : Value}
    (h : checkAuth swarmKey msg = .ok true) : IsAuth swarmKey msg := by
  obtain ⟨rejected, hrejects, h⟩ := bind_eq_ok.1 h
  cases rejected with
  | true => simp [pure, Except.pure] at h
  | false =>
    obtain ⟨hdict, htype⟩ := rejects_eq_false hrejects
    obtain ⟨nodeId, hid, h⟩ := bind_eq_ok.1 h
    obtain ⟨sig, hsig, h⟩ := bind_eq_ok.1 h
    obtain ⟨name, hname, h⟩ := bind_eq_ok.1 h
    obtain ⟨n, rfl⟩ : ∃ n, nodeId = .str n := by
      cases nodeId <;> simp_all [Value.encode]
    obtain rfl : encodeUtf8 n = name := Except.ok.inj hname
    exact ⟨hdict, htype, n, hid, hsig.trans (congrArg _ (compareDigest_eq_true h))⟩

lemma ascii_of_mem_hexDigits {c : Char} (h : c ∈ hexDigits) : c.val < 128 := by
  have hall : hexDigits.all (fun c => c.val < 128) = true := by decide
  exact of_decide_eq_true (List.all_eq_true.1 hall c h)

lemma ascii_hexDigest (bs : Bytes) : (hexDigest bs).toList.all (fun c => c.val < 128) = true := by
  rw [hexDigest, String.toList_ofList, List.all_eq_true]
  intro c hc
  obtain ⟨b, -, hb⟩ := List.mem_flatMap.1 hc
  simp only [hexByte, List.mem_cons, List.not_mem_nil, or_false] at hb
  rcases hb with rfl | rfl <;> exact decide_eq_true (ascii_of_mem_hexDigits (List.get_mem ..))

/-- A node accepts the AUTH message of a node with the same swarm key, whatever its id. -/
lemma checkAuth_authHandshakeMsg (swarmKey nodeId : String) :
    checkAuth swarmKey (authHandshakeMsg nodeId swarmKey) = .ok true := by
  have hsig : compareDigest (.str (authSignature swarmKey nodeId))
      (authSignature swarmKey nodeId) = .ok true := by
    simp only [compareDigest, authSignature, ascii_hexDigest, if_true, decide_true]
  exact hsig

/-- A dictionary of the expected type gets past the check. -/
lemma rejects_of_type {expected : String} {msg : Value} (hdict : ∃ fields, msg = .dict fields)
    (htype : msg.getD "type" .nil = .ok (.str expected)) : rejects expected msg = .ok false := by
  obtain ⟨fields, rfl⟩ := hdict
  have htruthy : (Value.dict fields).truthy = true := by
    cases fields with
    | nil => simp [Value.getD] at htype
    | cons => rfl
  rw [rejects, htruthy, htype]
  simp [Value.isStr, bind, Except.bind, pure, Except.pure]

/-- Every signed AUTH message passes the check. -/
lemma checkAuth_of_isAuth {swarmKey : String} {msg : Value} (h : IsAuth swarmKey msg) :
    checkAuth swarmKey msg = .ok true := by
  obtain ⟨hdict, htype, nodeId, hid, hsig⟩ := h
  have hdigest : compareDigest (.str (authSignature swarmKey nodeId))
      (authSignature swarmKey nodeId) = .ok true := by
    simp only [compareDigest, authSignature, ascii_hexDigest, if_true, decide_true]
  rw [checkAuth, rejects_of_type hdict htype, hid, hsig]
  exact hdigest

lemma rejects_handshakeMsg (type nodeId name : String) (tcpPort apiPort : ℕ) :
    rejects type (handshakeMsg type nodeId name tcpPort apiPort) = .ok false := by
  simp [rejects, handshakeMsg, Value.truthy, Value.getD, Value.isStr]

lemma nodeId_handshakeMsg (type nodeId name : String) (tcpPort apiPort : ℕ) :
    (handshakeMsg type nodeId name tcpPort apiPort).getD "node_id" (.str "") =
      .ok (.str nodeId) := by
  simp [handshakeMsg, Value.getD, Value.isStr]

end DistriStore
