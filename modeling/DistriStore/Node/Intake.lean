import DistriStore.Api.Routes
import DistriStore.Node.Replicas
import DistriStore.Strategies.Targets

/-!
# Chunks that a node takes in

Uploads and `replicate_chunks` calls on one node, one after another.  Both save their chunks on the
node first and register them (`takes_apply`).  The routing table gets an entry, with the node itself
in it, only for a chunk that is sent to all its targets, of which there are some while a peer is
alive, before anything raises (`listed_apply`).
-/

namespace DistriStore.Intake

open Lib Replicas

variable (P : Packages)

/-! ## Calls -/

inductive Call where
  /-- `POST /upload`; `peers` are alive when the local part is done, `envs` are what replication
  meets. -/
  | upload (file : SourceFile) (password : String) (salt : Salt) (nonces : ℕ → Nonce)
      (peers : Dict String PeerInfo) (envs : ℕ → ReplicationEnv)
  /-- `replicate_chunks` of an engine with replication factor `k`. -/
  | replicate (k : ℕ) (envs : ℕ → ReplicationEnv) (manifest : FileManifest)
      (chunkDataList : List Bytes)

namespace Call

/-- The node when the call has returned. -/
def apply : Call → Node → Node
  | .upload file password salt nonces peers envs, node =>
    (uploadFile P file password salt nonces peers envs node).2
  | .replicate k envs manifest chunkDataList, node =>
    (replicateChunks k envs manifest chunkDataList node).2

/-- The chunks that the call is to save, with their data. -/
def pairs : Call → List (ChunkInfo × Bytes)
  | .upload file password salt nonces _ _ =>
    match chunkFile P file.name (some file) (getOptimalChunkSize file.content.length)
        (passwordOrNone password) salt nonces with
    | .error _ => []
    | .ok (manifest, chunks) => manifest.chunks.zip chunks
  | .replicate _ _ manifest chunkDataList => manifest.chunks.zip chunkDataList

/-- The distances of the nearest peers can be written into the log, and no send raises. -/
def Undisturbed (k : ℕ) (env : ReplicationEnv) (chunkHash : String) : Prop :=
  WritableDistances chunkHash env.alive.keys k ∧
    ∀ p ∈ mergedTargets k env.alive chunkHash, (env.sent p).isOk = true

instance (k : ℕ) (env : ReplicationEnv) : DecidablePred (Undisturbed k env) := fun _ =>
  inferInstanceAs (Decidable (_ ∧ _))

/-- The chunks that the loop of `replicate_chunks` saves: up to the one at which it raises. -/
def savedHashes (k : ℕ) (envs : ℕ → ReplicationEnv) : List (ChunkInfo × Bytes) → ℕ → List String
  | [], _ => []
  | p :: rest, i =>
    if ¬ Storable p.1.chunkHash then []
    else if Undisturbed k (envs i) p.1.chunkHash then
      p.1.chunkHash :: savedHashes k envs rest (i + 1)
    else [p.1.chunkHash]

/-- The hashes of the chunks that the call saves. -/
def hashes (call : Call) : List String :=
  match call with
  | .upload .. => (call.pairs P).map fun p => p.1.chunkHash
  | .replicate k envs _ _ => savedHashes k envs (call.pairs P) 0

/-- A chunk with this hash is replicated while a peer is alive, and nothing has raised before. -/
def TargetsIn (k : ℕ) (envs : ℕ → ReplicationEnv) (pairs : List (ChunkInfo × Bytes))
    (chunkHash : String) : Prop :=
  ∃ i p, pairs[i]? = some p ∧ p.1.chunkHash = chunkHash ∧ k ≠ 0 ∧ (envs i).alive.keys ≠ [] ∧
    ∀ j ≤ i, ∀ q ∈ pairs[j]?, Storable q.1.chunkHash ∧ Undisturbed k (envs j) q.1.chunkHash

/-- The call replicates the chunk while a peer is alive; an upload does not begin to replicate
unless a peer is alive before that. -/
def Targets (chunkHash : String) (call : Call) : Prop :=
  match call with
  | .upload _ _ _ _ peers envs => peers.keys ≠ [] ∧
      TargetsIn defaultReplicationFactor envs (call.pairs P) chunkHash
  | .replicate k envs _ _ => TargetsIn k envs (call.pairs P) chunkHash

end Call

/-! ## What a call does to the node -/

/-- The node has taken in the chunks `cs`, on disk and in the registry. -/
structure Takes (cs : List String) (node node' : Node) : Prop where
  nodeId : node'.state.nodeId = node.state.nodeId
  disk : ∀ c, c ∈ node'.store.chunkNames ↔ c ∈ cs ∨ c ∈ node.store.chunkNames
  registry : ∀ c, c ∈ node'.state.chunks.keys ↔ c ∈ cs ∨ c ∈ node.state.chunks.keys

section Effects

variable {k : ℕ} {envs : ℕ → ReplicationEnv} {pairs : List (ChunkInfo × Bytes)} {c : String}

lemma Takes.refl (node : Node) : Takes [] node node where
  nodeId := rfl
  disk c := by simp
  registry c := by simp

lemma Takes.trans {cs cs' : List String} {node node' node'' : Node} (h : Takes cs node node')
    (h' : Takes cs' node' node'') : Takes (cs ++ cs') node node'' where
  nodeId := h'.nodeId.trans h.nodeId
  disk c := by rw [h'.disk, h.disk, List.mem_append, or_left_comm, or_assoc]
  registry c := by rw [h'.registry, h.registry, List.mem_append, or_left_comm, or_assoc]

lemma Takes.again {cs cs' : List String} {node node' node'' : Node} (h : Takes cs node node')
    (h' : Takes cs' node' node'') (hsub : cs' ⊆ cs) : Takes cs node node'' where
  nodeId := (h.trans h').nodeId
  disk c := ((h.trans h').disk c).trans (by
    rw [List.mem_append, or_iff_left_of_imp fun hc => hsub hc])
  registry c := ((h.trans h').registry c).trans (by
    rw [List.mem_append, or_iff_left_of_imp fun hc => hsub hc])

lemma takes_saveLocally (node : Node) (info : ChunkInfo) (data : Bytes) :
    Takes [info.chunkHash] node (saveLocally node info data) where
  nodeId := rfl
  disk c := by
    rw [List.mem_singleton]
    exact Dict.mem_keys_set node.store.chunks info.chunkHash data c
  registry c := by
    rw [List.mem_singleton]
    exact Dict.mem_keys_set ..

lemma takes_storeAll (pairs : List (ChunkInfo × Bytes)) (node : Node) :
    Takes (pairs.map fun p => p.1.chunkHash) node (storeAll pairs node) := by
  induction pairs generalizing node with
  | nil => exact Takes.refl node
  | cons p pairs ih => exact (takes_saveLocally node p.1 p.2).trans (ih _)

lemma routing_storeAll (pairs : List (ChunkInfo × Bytes)) (node : Node) :
    (storeAll pairs node).routing = node.routing := by
  induction pairs generalizing node with
  | nil => rfl
  | cons p pairs ih => exact ih (saveLocally node p.1 p.2)

/-- The sends return when none of them raises. -/
lemma isOk_sendToPeers (sent : String → Except PyError Bool) (targets : List String) :
    (sendToPeers sent targets).isOk = true ↔ ∀ p ∈ targets, (sent p).isOk = true := by
  induction targets with
  | nil => simp [sendToPeers, Except.isOk, Except.toBool]
  | cons p targets ih =>
    rw [List.forall_mem_cons, ← ih, sendToPeers]
    cases sent p with
    | error e => simp [bind, Except.bind, Except.isOk, Except.toBool]
    | ok success =>
      cases sendToPeers sent targets <;>
        simp [bind, Except.bind, pure, Except.pure, Except.isOk, Except.toBool]

lemma take_mergedTargets (k : ℕ) (peers : Dict String PeerInfo) (chunkHash : String) :
    (mergedTargets k peers chunkHash).take k = mergedTargets k peers chunkHash :=
  List.take_of_length_le (by rw [length_mergedTargets]; exact Nat.min_le_left ..)

/-- **What the body of the loop comes to** for a chunk that can be stored: when something raises the
chunk is saved and no more; otherwise it is assigned as well if it has targets. -/
lemma replicateChunk_of_storable (k : ℕ) (env : ReplicationEnv) {info : ChunkInfo} (data : Bytes)
    (node : Node) (hname : Storable info.chunkHash) :
    ¬ Call.Undisturbed k env info.chunkHash ∧
        (∃ e, replicateChunk k env info data node = (.error e, saveLocally node info data)) ∨
      Call.Undisturbed k env info.chunkHash ∧ ∃ result node',
        replicateChunk k env info data node = (.ok result, node') ∧
          Takes [info.chunkHash] node node' ∧
          ∀ c, node.state.nodeId ∈ node'.routing.getHolders c ↔
            node.state.nodeId ∈ node.routing.getHolders c ∨
              info.chunkHash = c ∧ k ≠ 0 ∧ env.alive.keys ≠ [] := by
  have htakes := takes_saveLocally node info data
  unfold replicateChunk
  rw [if_neg (not_not.2 hname)]
  by_cases hwritable : WritableDistances info.chunkHash env.alive.keys k
  swap
  · obtain ⟨e, he⟩ : ∃ e, selectTargets k env.alive info.chunkHash = .error e := by
      cases hselect : selectTargets k env.alive info.chunkHash with
      | error e => exact ⟨e, rfl⟩
      | ok targets =>
        obtain ⟨-, es, hes⟩ := selectTargets_eq_ok.1 hselect
        exact absurd (writable_of_findClosestPeers hes).1 hwritable
    refine Or.inl ⟨fun h => hwritable h.1, e, ?_⟩
    dsimp only
    rw [he]
  dsimp only
  rw [selectTargets_of_writable hwritable]
  dsimp only
  by_cases hnil : mergedTargets k env.alive info.chunkHash = []
  · rw [if_pos hnil]
    refine Or.inr ⟨⟨hwritable, by simp [hnil]⟩, _, _, rfl, htakes, fun c => ?_⟩
    refine (or_iff_left ?_).symm
    rintro ⟨-, hk, halive⟩
    exact (mergedTargets_eq_nil.1 hnil).elim hk halive
  · rw [if_neg hnil, take_mergedTargets]
    rw [mergedTargets_eq_nil, not_or] at hnil
    have hsent := isOk_sendToPeers env.sent (mergedTargets k env.alive info.chunkHash)
    cases hsends : sendToPeers env.sent (mergedTargets k env.alive info.chunkHash) with
    | error e =>
      rw [hsends] at hsent
      refine Or.inl ⟨fun h => ?_, e, rfl⟩
      cases hsent.2 h.2
    | ok replicatedTo =>
      rw [hsends] at hsent
      refine Or.inr ⟨⟨hwritable, hsent.1 rfl⟩, _, _, rfl,
        ⟨htakes.nodeId, htakes.disk, htakes.registry⟩, fun c => ?_⟩
      dsimp only
      rw [RoutingTable.getHolders_assignChunk]
      split
      · next hc => exact iff_of_true (List.mem_cons_self ..) (Or.inr ⟨hc.symm, hnil⟩)
      · next hc => exact (or_iff_left fun h => hc h.1.symm).symm

lemma takes_replicateLoop (i : ℕ) (results : Dict String ReplicationResult) (node : Node) :
    Takes (Call.savedHashes k envs pairs i) node
      (replicateLoop k envs pairs i results node).2 := by
  induction pairs generalizing i results node with
  | nil => exact Takes.refl node
  | cons p pairs ih =>
    rw [replicateLoop, Call.savedHashes]
    by_cases hname : Storable p.1.chunkHash
    swap
    · rw [if_pos hname, replicateChunk, if_pos hname]
      exact Takes.refl node
    rw [if_neg (not_not.2 hname)]
    rcases replicateChunk_of_storable k (envs i) p.2 node hname with
      ⟨hraises, e, heq⟩ | ⟨hquiet, result, node', heq, htakes, -⟩
    · rw [if_neg hraises, heq]
      exact takes_saveLocally node p.1 p.2
    · rw [if_pos hquiet, heq]
      exact htakes.trans (ih _ _ _)

lemma listed_replicateLoop (i : ℕ) (results : Dict String ReplicationResult) (node : Node) :
    node.state.nodeId ∈ (replicateLoop k envs pairs i results node).2.routing.getHolders c ↔
      node.state.nodeId ∈ node.routing.getHolders c ∨
        Call.TargetsIn k (fun j => envs (i + j)) pairs c := by
  induction pairs generalizing i results node with
  | nil => simp [replicateLoop, Call.TargetsIn]
  | cons p pairs ih =>
    rw [replicateLoop]
    -- nothing is listed when the first chunk raises
    have hstop (h : ¬ (Storable p.1.chunkHash ∧ Call.Undisturbed k (envs i) p.1.chunkHash)) :
        ¬ Call.TargetsIn k (fun j => envs (i + j)) (p :: pairs) c := by
      rintro ⟨j, -, -, -, -, -, hquiet⟩
      exact h (hquiet 0 (Nat.zero_le j) p rfl)
    by_cases hname : Storable p.1.chunkHash
    swap
    · rw [replicateChunk, if_pos hname, or_iff_left (hstop fun h => hname h.1)]
    rcases replicateChunk_of_storable k (envs i) p.2 node hname with
      ⟨hraises, e, heq⟩ | ⟨hquiet, result, node', heq, htakes, hlisted⟩
    · rw [heq, or_iff_left (hstop fun h => hraises h.2)]
      exact Iff.rfl
    rw [heq]
    dsimp only
    rw [← htakes.nodeId, ih, htakes.nodeId, hlisted, or_assoc]
    refine or_congr_right ?_
    have hshift (j : ℕ) : envs (i + (j + 1)) = envs (i + 1 + j) := congrArg envs (by omega)
    constructor
    · rintro (⟨hc, hk, halive⟩ | ⟨j, p', hj, hc, hk, halive, hbefore⟩)
      · refine ⟨0, p, rfl, hc, hk, halive, fun j hj q hq => ?_⟩
        obtain rfl : j = 0 := by omega
        cases hq
        exact ⟨hname, hquiet⟩
      · refine ⟨j + 1, p', hj, hc, hk, by simpa only [hshift] using halive, fun j' hj' q hq => ?_⟩
        cases j' with
        | zero =>
          cases hq
          exact ⟨hname, hquiet⟩
        | succ j' =>
          simpa only [hshift] using hbefore j' (by omega) q hq
    · rintro ⟨j, p', hj, hc, hk, halive, hbefore⟩
      cases j with
      | zero =>
        cases hj
        exact Or.inl ⟨hc, hk, halive⟩
      | succ j =>
        refine Or.inr ⟨j, p', hj, hc, hk, by simpa only [hshift] using halive,
          fun j' hj' q hq => ?_⟩
        simpa only [hshift] using hbefore (j' + 1) (by omega) q hq

lemma savedHashes_subset (i : ℕ) :
    Call.savedHashes k envs pairs i ⊆ pairs.map fun p => p.1.chunkHash := by
  induction pairs generalizing i with
  | nil => exact List.Subset.refl _
  | cons p pairs ih =>
    rw [Call.savedHashes, List.map_cons]
    split
    · exact List.nil_subset _
    · split
      · exact List.cons_subset_cons _ (ih (i + 1))
      · exact List.cons_subset_cons _ (List.nil_subset _)

/-- An upload that chunks its file saves the chunks and then replicates them or not. -/
lemma apply_upload_cases (file : SourceFile) (password : String) (salt : Salt)
    (nonces : ℕ → Nonce) (peers : Dict String PeerInfo) (envs : ℕ → ReplicationEnv) (node : Node) :
    let call := Call.upload file password salt nonces peers envs
    call.pairs P = [] ∧ call.apply P node = node ∨
      ∃ saved, Takes (call.hashes P) node saved ∧ saved.routing = node.routing ∧
        call.apply P node = if peers.keys = [] then saved
          else (replicateLoop defaultReplicationFactor envs (call.pairs P) 0 ∅ saved).2 := by
  unfold Call.apply Call.hashes Call.pairs uploadFile
  dsimp only
  cases chunkFile P file.name (some file) (getOptimalChunkSize file.content.length)
    (passwordOrNone password) salt nonces with
  | error e => exact Or.inl ⟨rfl, rfl⟩
  | ok chunked =>
    obtain ⟨manifest, chunks⟩ := chunked
    have hstore := takes_storeAll (manifest.chunks.zip chunks) node
    refine Or.inr ⟨{ storeAll (manifest.chunks.zip chunks) node with
      store := (storeAll (manifest.chunks.zip chunks) node).store.saveManifest
        manifest.fileHash manifest.toDict }, ?_, ?_, ?_⟩
    · exact ⟨hstore.nodeId, hstore.disk, hstore.registry⟩
    · exact routing_storeAll _ node
    · dsimp only
      split <;> rfl

lemma takes_apply (call : Call) (node : Node) :
    Takes (call.hashes P) node (call.apply P node) := by
  cases call with
  | upload file password salt nonces peers envs =>
    rcases apply_upload_cases P file password salt nonces peers envs node with
      ⟨hpairs, happly⟩ | ⟨saved, hsaved, -, happly⟩
    · rw [happly, Call.hashes, hpairs]
      exact Takes.refl node
    · rw [happly]
      split
      · exact hsaved
      · -- replication saves the same chunks once more
        exact hsaved.again (takes_replicateLoop 0 ∅ saved) (savedHashes_subset 0)
  | replicate k envs manifest chunkDataList => exact takes_replicateLoop _ _ _

/-- **When a call lists the node.** -/
lemma listed_apply (call : Call) (node : Node) :
    node.state.nodeId ∈ (call.apply P node).routing.getHolders c ↔
      node.state.nodeId ∈ node.routing.getHolders c ∨ call.Targets P c := by
  cases call with
  | upload file password salt nonces peers envs =>
    rcases apply_upload_cases P file password salt nonces peers envs node with
      ⟨hpairs, happly⟩ | ⟨saved, hsaved, hrouting, happly⟩
    · rw [happly, Call.Targets, hpairs]
      simp [Call.TargetsIn]
    · rw [happly, Call.Targets, ← hrouting, ← hsaved.nodeId]
      split
      · next hnil => simp [hnil]
      · next hne =>
        rw [and_iff_right hne, listed_replicateLoop]
        simp only [Nat.zero_add]
  | replicate k envs manifest chunkDataList =>
    refine (listed_replicateLoop 0 ∅ node).trans ?_
    simp only [Nat.zero_add]
    exact Iff.rfl

end Effects

end DistriStore.Intake
