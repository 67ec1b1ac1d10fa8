import DistriStore.Network.Protocol

/-!
# The node's message handler (`backend/node/node.py`)

Every message that a node receives over TCP after the handshake goes to `_handle_message`, which
passes chat messages on to the web sockets and writes a line to the log for all others.  It has
no access to the chunk store or the routing table.
-/

namespace DistriStore

open Lib

/-- What `_handle_message` does with a message. -/
inductive Handling where
  /-- `handle_tcp_chat`. -/
  | chat
  /-- A debug line about a message of a known type, and one about any other message. -/
  | logReceived
  | logUnknown
  deriving DecidableEq, Repr

/-- The types that are only written to the log. -/
def loggedTypes : List String :=
  ["STORE_CHUNK", "GET_CHUNK", "CHUNK_ACK", "STORE_ACK", "CHUNK_DATA", "FIND_NODE", "FIND_RESULT",
    "PING", "PONG"]

/-- Route incoming TCP messages to the appropriate handler. -/
def handleMessage (msg : Value) : Except PyError Handling := do
  let msgType ← msg.getD "type" (.str "")
  if msgType.isStr "CHAT" then
    return .chat
  else if loggedTypes.any fun t => msgType.isStr t then
    return .logReceived
  else
    return .logUnknown

/-- A chunk that a peer sends is written to the log and nowhere else. -/
lemma handleMessage_storeChunkMsg (timestamp : ℚ) (senderId chunkHash : String) (data : Bytes)
    (fileHash : String) :
    handleMessage (storeChunkMsg timestamp senderId chunkHash data fileHash) =
      .ok .logReceived := by
  simp [handleMessage, storeChunkMsg, buildMessage, Value.getD, Value.isStr, loggedTypes]
  rfl

end DistriStore
