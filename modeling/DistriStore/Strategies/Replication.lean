import DistriStore.Dht.Routing
import DistriStore.FileEngine.Chunker
import DistriStore.Storage.LocalStore
import DistriStore.Strategies.Selector

/-!
# Replication (`backend/strategies/replication.py`)

Every chunk of a file is saved on the node itself, sent to at most `k` peers, and assigned in the
routing table to the node and to the peers that the send succeeded for.

A run of `replicate_chunks` is described here with the answers of its environment as arguments:
the peers alive when the targets of a chunk are selected, and whether a send succeeds, fails or
raises.  Writing to a connection is inside of a `try`, but dialling is not: what it raises leaves
`replicate_chunks`, as the log line of `find_closest_peers` and a chunk name that no file can have
do.
-/

namespace DistriStore

open Lib

/-- The parts of a running node that uploads and replication work on. -/
structure Node where
  state : NodeState
  store : LocalStore := ∅
  routing : RoutingTable := ∅

/-- One entry of the dictionary that `replicate_chunks` returns. -/
structure ReplicationResult where
  storedLocally : Bool
  replicatedTo : List String
  totalCopies : Option ℕ := none
  deriving DecidableEq

/-- What the environment answers while one chunk is replicated. -/
structure ReplicationEnv where
  /-- `get_alive_peers()`. -/
  alive : Dict String PeerInfo
  /-- The outcome of `_send_chunk_to_peer`, which may raise. -/
  sent : String → Except PyError Bool

/-- `k`, the replication factor of an engine that is not given one. -/
def defaultReplicationFactor : ℕ := 3

/-- `for pid in pids: if pid not in combined: combined.append(pid)`. -/
def appendNew (combined pids : List String) : List String :=
  pids.foldl (fun combined pid => if pid ∈ combined then combined else combined ++ [pid]) combined

/-- Combine heuristic scoring with XOR distance for peer selection. -/
def selectTargets (k : ℕ) (peers : Dict String PeerInfo) (chunkHash : String) :
    Except PyError (List String) :=
  if peers.keys = [] then .ok []
  else do
    let heuristicTop := ((scorePeers peers).take (k * 2)).map Prod.fst
    let xorClosest ← findClosestPeers chunkHash peers.keys k
    let xorTop := xorClosest.map Prod.fst
    return (appendNew (appendNew [] xorTop) heuristicTop).take k

/-- Save the chunk locally first. -/
def saveLocally (node : Node) (info : ChunkInfo) (data : Bytes) : Node :=
  { node with
    store := node.store.saveChunk info.chunkHash data
    state := node.state.registerChunk info.chunkHash info.chunkHash }

/-- Send to each target peer: `replicated_to`. -/
def sendToPeers (sent : String → Except PyError Bool) : List String → Except PyError (List String)
  | [] => .ok []
  | peerId :: rest => do
    let success ← sent peerId
    let replicatedTo ← sendToPeers sent rest
    return if success then peerId :: replicatedTo else replicatedTo

/-- The body of the loop of `replicate_chunks`. -/
def replicateChunk (k : ℕ) (env : ReplicationEnv) (info : ChunkInfo) (data : Bytes)
    (node : Node) : Except PyError ReplicationResult × Node :=
  if ¬ Storable info.chunkHash then (.error (saveError info.chunkHash), node)
  else
    let node := saveLocally node info data
    match selectTargets k env.alive info.chunkHash with
    | .error e => (.error e, node)
    | .ok targetPeers =>
      if targetPeers = [] then
        (.ok { storedLocally := true, replicatedTo := [] }, node)
      else
        match sendToPeers env.sent (targetPeers.take k) with
        | .error e => (.error e, node)
        | .ok replicatedTo =>
          (.ok { storedLocally := true
                 replicatedTo
                 totalCopies := some (1 + replicatedTo.length) },
            { node with
              routing :=
                node.routing.assignChunk info.chunkHash (node.state.nodeId :: replicatedTo) })

/-- Distribute chunks to peers; `envs i` is the environment of chunk `i`. -/
def replicateLoop (k : ℕ) (envs : ℕ → ReplicationEnv) :
    List (ChunkInfo × Bytes) → ℕ → Dict String ReplicationResult → Node →
      Except PyError (Dict String ReplicationResult) × Node
  | [], _, results, node => (.ok results, node)
  | (info, data) :: rest, i, results, node =>
    match replicateChunk k (envs i) info data node with
    | (.error e, node) => (.error e, node)
    | (.ok result, node) =>
      replicateLoop k envs rest (i + 1) (results.set info.chunkHash result) node

/-- Distribute all chunks of a file to the best k peers. -/
def replicateChunks (k : ℕ) (envs : ℕ → ReplicationEnv) (manifest : FileManifest)
    (chunkDataList : List Bytes) (node : Node) :
    Except PyError (Dict String ReplicationResult) × Node :=
  replicateLoop k envs (manifest.chunks.zip chunkDataList) 0 ∅ node

/-! ## The targets are alive peers -/

lemma mem_appendNew {combined pids : List String} {pid : String}
    (h : pid ∈ appendNew combined pids) : pid ∈ combined ∨ pid ∈ pids := by
  induction pids generalizing combined with
  | nil => exact Or.inl h
  | cons p pids ih =>
    rw [appendNew, List.foldl_cons] at h
    by_cases hp : p ∈ combined
    · rw [if_pos hp] at h
      rcases ih h with h | h
      · exact Or.inl h
      · exact Or.inr (List.mem_cons_of_mem _ h)
    · rw [if_neg hp] at h
      rcases ih h with h | h
      · rcases List.mem_append.1 h with h | h
        · exact Or.inl h
        · exact Or.inr (List.mem_singleton.1 h ▸ List.mem_cons_self ..)
      · exact Or.inr (List.mem_cons_of_mem _ h)

/-- The targets, where they can be selected: the nearest peers, and then the best scored ones. -/
def mergedTargets (k : ℕ) (peers : Dict String PeerInfo) (chunkHash : String) : List String :=
  (appendNew (appendNew [] ((closestEntries chunkHash peers.keys k).map Prod.fst))
    (((scorePeers peers).take (k * 2)).map Prod.fst)).take k

lemma selectTargets_eq_ok {k : ℕ} {peers : Dict String PeerInfo} {chunkHash : String}
    {targets : List String} : selectTargets k peers chunkHash = .ok targets ↔
      targets = mergedTargets k peers chunkHash ∧
        ∃ es, findClosestPeers chunkHash peers.keys k = .ok es := by
  unfold selectTargets
  split
  · next hnil =>
    have hscored : scorePeers peers = [] :=
      List.length_eq_zero_iff.1 (by rw [length_scorePeers, hnil, List.length_nil])
    have hmerged : mergedTargets k peers chunkHash = [] := by
      simp [mergedTargets, hnil, hscored, closestEntries, appendNew]
    rw [hmerged, Except.ok.injEq, eq_comm, hnil]
    exact (and_iff_left ⟨[], rfl⟩).symm
  · rw [bind_eq_ok]
    constructor
    · rintro ⟨es, hes, htargets⟩
      rw [(findClosestPeers_eq_ok.1 hes).1] at htargets
      exact ⟨(Except.ok.inj htargets).symm, es, hes⟩
    · rintro ⟨rfl, es, hes⟩
      refine ⟨es, hes, ?_⟩
      rw [(findClosestPeers_eq_ok.1 hes).1]
      rfl

lemma mem_mergedTargets {k : ℕ} {peers : Dict String PeerInfo} {chunkHash pid : String}
    (h : pid ∈ mergedTargets k peers chunkHash) : pid ∈ peers.keys := by
  rcases mem_appendNew (List.mem_of_mem_take h) with h | h
  · rcases mem_appendNew h with h | h
    · simp at h
    · obtain ⟨p, hp, rfl⟩ := List.mem_map.1 h
      exact mem_closestEntries hp
  · obtain ⟨r, hr, rfl⟩ := List.mem_map.1 h
    exact mem_scorePeers (List.mem_of_mem_take hr)

lemma subset_appendNew (combined pids : List String) : combined ⊆ appendNew combined pids := by
  intro pid hpid
  induction pids generalizing combined with
  | nil => exact hpid
  | cons p pids ih =>
    rw [appendNew, List.foldl_cons]
    split
    · exact ih combined hpid
    · exact ih _ (List.mem_append_left _ hpid)

lemma mem_appendNew_of_mem {combined pids : List String} {pid : String} (h : pid ∈ pids) :
    pid ∈ appendNew combined pids := by
  induction pids generalizing combined with
  | nil => cases h
  | cons p pids ih =>
    rw [appendNew, List.foldl_cons]
    rcases List.mem_cons.1 h with rfl | h
    · split
      · next hmem => exact subset_appendNew combined pids hmem
      · exact subset_appendNew _ pids (List.mem_append_right _ (List.mem_singleton_self _))
    · exact ih h

/-- There are targets as soon as a peer is alive. -/
lemma mergedTargets_eq_nil {k : ℕ} {peers : Dict String PeerInfo} {chunkHash : String} :
    mergedTargets k peers chunkHash = [] ↔ k = 0 ∨ peers.keys = [] := by
  constructor
  · intro h
    rcases List.take_eq_nil_iff.1 h with hk | hcombined
    · exact Or.inl hk
    · have htop : ((scorePeers peers).take (k * 2)).map Prod.fst = [] :=
        List.eq_nil_iff_forall_not_mem.2 fun pid hpid =>
          List.eq_nil_iff_forall_not_mem.1 hcombined pid (mem_appendNew_of_mem hpid)
      rw [List.map_eq_nil_iff, List.take_eq_nil_iff] at htop
      rcases htop with hk | hscores
      · exact Or.inl (by omega)
      · refine Or.inr (List.length_eq_zero_iff.1 ?_)
        rw [← length_scorePeers, hscores, List.length_nil]
  · rintro (hk | hnil)
    · rw [mergedTargets, hk, List.take_zero]
    · refine List.eq_nil_iff_forall_not_mem.2 fun pid hpid => ?_
      have hmem := mem_mergedTargets hpid
      rw [hnil] at hmem
      cases hmem

/-! ## What replication leaves on the node -/

/-- A chunk is saved, or nothing is done to the node. -/
lemma replicateChunk_cases (k : ℕ) (env : ReplicationEnv) (info : ChunkInfo) (data : Bytes)
    (node : Node) :
    ¬ Storable info.chunkHash ∧
        replicateChunk k env info data node = (.error (saveError info.chunkHash), node) ∨
      Storable info.chunkHash ∧ (replicateChunk k env info data node).2.store =
        node.store.saveChunk info.chunkHash data := by
  unfold replicateChunk
  by_cases hname : Storable info.chunkHash
  · refine Or.inr ⟨hname, ?_⟩
    rw [if_neg (not_not.2 hname)]
    dsimp only
    split
    · rfl
    · split
      · rfl
      · split <;> rfl
  · exact Or.inl ⟨hname, if_pos hname⟩

lemma store_replicateLoop (k : ℕ) (envs : ℕ → ReplicationEnv) (pairs : List (ChunkInfo × Bytes))
    (i : ℕ) (results : Dict String ReplicationResult) (node : Node) :
    ∃ saved, saved <+: pairs ∧ (replicateLoop k envs pairs i results node).2.store =
      node.store.saveChunks (saved.map fun p => (p.1.chunkHash, p.2)) := by
  induction pairs generalizing i results node with
  | nil => exact ⟨[], List.prefix_refl _, rfl⟩
  | cons p pairs ih =>
    rw [replicateLoop]
    rcases replicateChunk_cases k (envs i) p.1 p.2 node with ⟨-, hraised⟩ | ⟨-, hstore⟩
    · rw [hraised]
      exact ⟨[], List.nil_prefix, rfl⟩
    · split
      · next heq =>
        rw [heq] at hstore
        exact ⟨[p], List.prefix_append [p] pairs, hstore⟩
      · next result node' heq =>
        rw [heq] at hstore
        obtain ⟨saved, hprefix, hsaved⟩ := ih (i + 1) (results.set p.1.chunkHash result) node'
        exact ⟨p :: saved, List.cons_prefix_cons.2 ⟨rfl, hprefix⟩, by rw [hsaved, hstore]; rfl⟩

/-- On the node's own store replication only saves chunks: all of them, unless it raises. -/
lemma store_replicateChunks (k : ℕ) (envs : ℕ → ReplicationEnv) (manifest : FileManifest)
    (chunkDataList : List Bytes) (node : Node) :
    ∃ saved, saved <+: manifest.chunks.zip chunkDataList ∧
      (replicateChunks k envs manifest chunkDataList node).2.store =
        node.store.saveChunks (saved.map fun p => (p.1.chunkHash, p.2)) :=
  store_replicateLoop k envs _ 0 ∅ node

end DistriStore
