import DistriStore.Lib.Dict
import Mathlib.Algebra.Order.Ring.Rat

/-!
# Node state (`backend/node/state.py`)

What a node knows about its peers and about the chunks it stores.  Whether a peer is alive
depends on the clock, so the alive peers at a moment are an argument wherever the code asks for
them.
-/

namespace DistriStore

open Lib

/-- Information about a connected peer. -/
structure PeerInfo where
  nodeId : String
  ip : String
  tcpPort : ℤ
  name : String := ""
  /-- Bytes available, as reported by the peer. -/
  freeSpace : ℤ := 0
  /-- Seconds since the peer booted. -/
  uptime : ℚ := 0
  /-- Round trip to this peer in milliseconds. -/
  latency : ℚ := 0
  healthScore : ℚ := 0
  apiPort : ℤ := 8888
  deriving DecidableEq

structure NodeState where
  nodeId : String
  /-- Chunk registry: chunk hash to local file path. -/
  chunks : Dict String String := ∅

namespace NodeState

/-- Record that a chunk is stored locally. -/
def registerChunk (state : NodeState) (chunkHash filePath : String) : NodeState :=
  { state with chunks := state.chunks.set chunkHash filePath }

/-- Return a copy of all locally stored chunks. -/
def listChunks (state : NodeState) : List (String × String) := state.chunks.entries

@[simp] lemma nodeId_registerChunk (state : NodeState) (c path : String) :
    (state.registerChunk c path).nodeId = state.nodeId := rfl

end NodeState

end DistriStore
