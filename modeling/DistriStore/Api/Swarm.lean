import DistriStore.Api.Routes
import DistriStore.FileEngine.Writers
import DistriStore.Lib.Machine

/-!
# A swarm of honest nodes

Any number of nodes run the routes and answer each other's requests from their own stores.  Files
are uploaded and downloaded at any node, and chunks are evicted anywhere; each request is one
step.  The STORE_CHUNK frames that an upload sends to peers change no store: the receiving
handler, `DistriNode._handle_message`, only logs them.

The state keeps the list of uploads made so far.  Its invariant is `FromUploads`: whatever a node
stores, chunks or manifests, is what some upload made.  From it follows that a download whose
manifest and chunks can be found delivers the uploaded file (`download_of_available`).
-/

namespace DistriStore

open Lib

/-! ## Uploads -/

/-- An upload request, with the random bytes that are drawn while it is handled. -/
structure Upload where
  file : SourceFile
  password : String
  salt : Salt
  nonces : ℕ → Nonce
  /-- The file is on disk while it is cut, so that its size is an `off_t`. -/
  fits : file.content.length < 2 ^ 63

namespace Upload

variable (P : Packages) (u : Upload)

/-- The chunks that the upload makes, with their manifest entries. -/
def pairs : List (ChunkInfo × Bytes) :=
  encodedChunks P (passwordOrNone u.password) u.salt u.nonces u.file.content
    (getOptimalChunkSize u.file.content.length)

/-- The manifest that the upload makes. -/
def manifest : FileManifest :=
  writtenManifest u.file (getOptimalChunkSize u.file.content.length) (u.pairs P)

/-- `d` is what the database holds under `fileHash` after the upload. -/
def Produced (fileHash : String) (d : ManifestDict) : Prop :=
  sha256Hash u.file.content = fileHash ∧
    d = NodeDatabase.dictOf fileHash (NodeDatabase.rowOf (u.manifest P).toDict)

/-- The chunk names and the chunk data, as they are saved. -/
def entries : List (String × Bytes) := (u.pairs P).map fun p => (p.1.chunkHash, p.2)

variable {P u}

lemma mem_entries {c : String} {x : Bytes} :
    (c, x) ∈ u.entries P ↔ ∃ p ∈ u.pairs P, p.1.chunkHash = c ∧ p.2 = x := by
  simp [entries]

lemma hash_of_mem_entries {c : String} {x : Bytes} (h : (c, x) ∈ u.entries P) :
    sha256Hash x = c := by
  obtain ⟨p, hp, rfl, rfl⟩ := mem_entries.1 h
  exact hash_of_mem_encodedChunks hp

/-- A chunk can be stored under its name. -/
lemma storable_of_mem_entries {c : String} {x : Bytes} (h : (c, x) ∈ u.entries P) : Storable c :=
  hash_of_mem_entries h ▸ storable_sha256Hash x

/-- The manifest can be saved. -/
lemma Produced.bindable {fileHash : String} {d : ManifestDict} (h : u.Produced P fileHash d) :
    NodeDatabase.Bindable d := by
  obtain ⟨-, rfl⟩ := h
  have hsize : (NodeDatabase.dictOf fileHash
      (NodeDatabase.rowOf (u.manifest P).toDict)).originalSize.getD 0 = u.file.content.length := rfl
  have hfits := u.fits
  rw [NodeDatabase.Bindable, hsize]
  omega

/-- The manifest read back from the database. -/
lemma Produced.fromDict {fileHash : String} {d : ManifestDict} (h : u.Produced P fileHash d) :
    FileManifest.fromDict d = .ok { u.manifest P with chunkSize := defaultChunkSize } := by
  obtain ⟨rfl, rfl⟩ := h
  apply fromDict_dictOf_rowOf_toDict
  rw [manifest, writtenManifest, List.map_map]
  rfl

end Upload

/-! ## What an upload leaves in the store -/

lemma store_storeAll (ps : List (ChunkInfo × Bytes)) (node : Node) :
    (storeAll ps node).store = node.store.saveChunks (ps.map fun p => (p.1.chunkHash, p.2)) := by
  unfold storeAll
  induction ps generalizing node with
  | nil => rfl
  | cons p ps ih => exact ih (saveLocally node p.1 p.2)

section Upload

variable (P : Packages) (u : Upload) (peers : Dict String PeerInfo) (envs : ℕ → ReplicationEnv)
  (node : Node)

/-- The node after an upload. -/
def uploadAt : Node :=
  (uploadFile P u.file u.password u.salt u.nonces peers envs node).2

/-- The store after the local part of an upload. -/
def uploadedStore : LocalStore :=
  (node.store.saveChunks (u.entries P)).saveManifest (u.manifest P).fileHash
    (u.manifest P).toDict

/-- Replication saves the same chunks once more, as far as it comes. -/
lemma store_uploadAt : ∃ saved, saved <+: u.entries P ∧
    (uploadAt P u peers envs node).store = (uploadedStore P u node).saveChunks saved := by
  have hzip : (u.manifest P).chunks.zip ((u.pairs P).map Prod.snd) = u.pairs P :=
    zip_map_fst_map_snd (u.pairs P)
  have hchunk : chunkFile P u.file.name (some u.file)
      (getOptimalChunkSize u.file.content.length) (passwordOrNone u.password) u.salt u.nonces =
        .ok (u.manifest P, (u.pairs P).map Prod.snd) := chunkFile_eq _ _ _
  unfold uploadAt uploadFile
  simp only [hchunk, hzip]
  by_cases hpeers : peers.keys = []
  · refine ⟨[], List.nil_prefix, ?_⟩
    simp only [hpeers, if_true, store_storeAll]
    rfl
  · obtain ⟨saved, hbegins, hstore⟩ := store_replicateChunks defaultReplicationFactor envs
      (u.manifest P) ((u.pairs P).map Prod.snd)
      { storeAll (u.pairs P) node with
        store := (storeAll (u.pairs P) node).store.saveManifest (u.manifest P).fileHash
          (u.manifest P).toDict }
    rw [hzip] at hbegins
    refine ⟨_, hbegins.map fun p => (p.1.chunkHash, p.2), ?_⟩
    simp only [hpeers, if_false]
    refine hstore.trans ?_
    rw [store_storeAll]
    rfl

lemma loadManifest_uploadAt (h : String) :
    (uploadAt P u peers envs node).store.loadManifest h =
      if h = sha256Hash u.file.content then
        some (NodeDatabase.dictOf h (NodeDatabase.rowOf (u.manifest P).toDict))
      else node.store.loadManifest h := by
  have hlocal : (uploadedStore P u node).loadManifest h =
      if h = sha256Hash u.file.content then
        some (NodeDatabase.dictOf h (NodeDatabase.rowOf (u.manifest P).toDict))
      else node.store.loadManifest h := by
    have hname : (u.manifest P).fileHash = sha256Hash u.file.content := rfl
    rw [uploadedStore, LocalStore.loadManifest_saveManifest, LocalStore.loadManifest_saveChunks,
      hname]
    by_cases hh : h = sha256Hash u.file.content
    · rw [if_pos hh, if_pos hh, hh]
    · rw [if_neg hh, if_neg hh]
  obtain ⟨saved, -, hs⟩ := store_uploadAt P u peers envs node
  rw [hs, LocalStore.loadManifest_saveChunks, hlocal]

/-- A chunk in the store after an upload was there before or is one of its own. -/
lemma loadChunk_uploadAt_cases {c : String} {x : Bytes}
    (h : (uploadAt P u peers envs node).store.loadChunk c = some x) :
    (c, x) ∈ u.entries P ∨ node.store.loadChunk c = some x := by
  obtain ⟨saved, hbegins, hs⟩ := store_uploadAt P u peers envs node
  rw [hs] at h
  rcases LocalStore.loadChunk_saveChunks_cases _ _ c x h with h | h
  · exact Or.inl (hbegins.subset h)
  · rw [uploadedStore, LocalStore.loadChunk_saveManifest] at h
    exact LocalStore.loadChunk_saveChunks_cases _ _ c x h

/-- An upload keeps every name in the store, and adds those of its chunks. -/
lemma exists_loadChunk_uploadAt {c : String}
    (h : c ∈ (u.entries P).map Prod.fst ∨ ∃ x, node.store.loadChunk c = some x) :
    ∃ x, (uploadAt P u peers envs node).store.loadChunk c = some x := by
  have hsave (store : LocalStore) (es : List (String × Bytes))
      (h : ∃ x, store.loadChunk c = some x) : ∃ x, (store.saveChunks es).loadChunk c = some x := by
    obtain ⟨x, hx⟩ := h
    by_cases hc : c ∈ es.map Prod.fst
    · obtain ⟨y, -, hy⟩ := LocalStore.exists_loadChunk_saveChunks store _ c hc
      exact ⟨y, hy⟩
    · exact ⟨x, by rw [LocalStore.loadChunk_saveChunks_of_not_mem _ _ c hc, hx]⟩
  have hlocal : ∃ x, (uploadedStore P u node).loadChunk c = some x := by
    rw [uploadedStore, LocalStore.loadChunk_saveManifest]
    rcases h with hc | hx
    · obtain ⟨y, -, hy⟩ := LocalStore.exists_loadChunk_saveChunks node.store _ c hc
      exact ⟨y, hy⟩
    · exact hsave node.store _ hx
  obtain ⟨saved, -, hs⟩ := store_uploadAt P u peers envs node
  rw [hs]
  exact hsave _ _ hlocal

end Upload

/-! ## The machine -/

section Machine

variable {ν : Type}

/-- The nodes, and the uploads made so far, the latest first. -/
structure Swarm (ν : Type) where
  nodes : ν → Node
  uploads : List Upload

/-- One request.  `alive` lists the peers that the node believes alive, in order. -/
inductive SwarmOp (ν : Type) where
  | upload (n : ν) (u : Upload) (peers : Dict String PeerInfo) (envs : ℕ → ReplicationEnv)
  | download (n : ν) (fileHash password : String) (alive : List ν)
  | evict (n : ν) (chunkHash : String)

namespace Swarm

/-- What alive peers answer when they are asked for a manifest. -/
def manifestReplies (s : Swarm ν) (alive : List ν) (fileHash : String) : ManifestReplies :=
  alive.map fun m => Reply.of ((getManifest (s.nodes m).store fileHash).map .dict)

/-- What alive peers answer when they are asked for a chunk. -/
def chunkReplies (s : Swarm ν) (alive : List ν) : ChunkReplies :=
  alive.map fun m chunkHash => Reply.of (getChunk (s.nodes m).store chunkHash)

/-- `GET /download/{file_hash}` on node `n`. -/
def download (P : Packages) (s : Swarm ν) (n : ν) (fileHash password : String) (alive : List ν) :
    DownloadOutcome × LocalStore :=
  downloadFile P fileHash password (s.manifestReplies alive fileHash) (s.chunkReplies alive)
    (s.nodes n).store

/-- Replace the state of one node. -/
def setNode [DecidableEq ν] (s : Swarm ν) (n : ν) (node : Node) : Swarm ν :=
  { s with nodes := Function.update s.nodes n node }

/-- The swarm after one request. -/
def step [DecidableEq ν] (P : Packages) (s : Swarm ν) : SwarmOp ν → Swarm ν
  | .upload n u peers envs =>
    { s.setNode n (uploadAt P u peers envs (s.nodes n)) with uploads := u :: s.uploads }
  | .download n fileHash password alive =>
    s.setNode n { s.nodes n with store := (s.download P n fileHash password alive).2 }
  | .evict n chunkHash =>
    s.setNode n { s.nodes n with store := (s.nodes n).store.deleteChunk chunkHash }

/-- The strings that the uploads of the run hash: the files and the chunks. -/
def Hashed (P : Packages) (s : Swarm ν) (x : Bytes) : Prop :=
  ∃ u ∈ s.uploads, x = u.file.content ∨ ∃ c, (c, x) ∈ u.entries P

/-- The manifest found first: in the node's own store, or else at the first peer that answers. -/
def foundManifest (s : Swarm ν) (n : ν) (fileHash : String) (alive : List ν) :
    Option ManifestDict :=
  (findManifest fileHash (s.manifestReplies alive fileHash) (s.nodes n).store).1.bind
    ManifestBody.dict?

end Swarm

/-- The swarm as a machine: nodes with the given ids start with empty stores. -/
def swarm [DecidableEq ν] (P : Packages) (ident : ν → String) : Machine (Swarm ν) (SwarmOp ν) where
  init := { nodes := fun n => { state := { nodeId := ident n } }, uploads := [] }
  exec s op := some (s.step P op)

/-! ## What nodes store comes from uploads -/

/-- Every stored chunk and every stored manifest is one that some upload made. -/
structure FromUploads (P : Packages) (uploads : List Upload) (store : LocalStore) : Prop where
  chunks : ∀ c x, store.loadChunk c = some x → ∃ u ∈ uploads, (c, x) ∈ u.entries P
  manifests : ∀ h d, store.loadManifest h = some d → ∃ u ∈ uploads, u.Produced P h d

namespace FromUploads

variable {P : Packages} {uploads : List Upload} {store : LocalStore}

lemma cons (h : FromUploads P uploads store) (u : Upload) : FromUploads P (u :: uploads) store where
  chunks c x hx := by
    obtain ⟨u', hu', hmem⟩ := h.chunks c x hx
    exact ⟨u', List.mem_cons_of_mem _ hu', hmem⟩
  manifests f d hd := by
    obtain ⟨u', hu', hprod⟩ := h.manifests f d hd
    exact ⟨u', List.mem_cons_of_mem _ hu', hprod⟩

lemma upload {node : Node} (h : FromUploads P uploads node.store) (u : Upload)
    (peers : Dict String PeerInfo) (envs : ℕ → ReplicationEnv) :
    FromUploads P (u :: uploads) (uploadAt P u peers envs node).store where
  chunks c x hx := by
    rcases loadChunk_uploadAt_cases P u peers envs node hx with hmem | hold
    · exact ⟨u, List.mem_cons_self .., hmem⟩
    · exact (h.cons u).chunks c x hold
  manifests f d hd := by
    rw [loadManifest_uploadAt] at hd
    split at hd
    · next hf =>
      exact ⟨u, List.mem_cons_self .., hf.symm, (Option.some.inj hd).symm⟩
    · exact (h.cons u).manifests f d hd

lemma evict (h : FromUploads P uploads store) (c : String) :
    FromUploads P uploads (store.deleteChunk c) where
  chunks c' x hx := by
    rw [LocalStore.loadChunk_deleteChunk] at hx
    split at hx
    · cases hx
    · exact h.chunks c' x hx
  manifests f d hd := h.manifests f d hd

end FromUploads

/-- The invariant of the swarm. -/
def Swarm.Honest (P : Packages) (s : Swarm ν) : Prop :=
  ∀ n, FromUploads P s.uploads (s.nodes n).store

section Answers

variable {P : Packages} {s : Swarm ν} {alive : List ν}

lemma accepted_of_eq_some {β : Type} {x : Except PyError β} {b : β} :
    (Reply.of x).accepted = some b ↔ x = .ok b := by
  cases x with
  | ok b' => simp [Reply.of, Reply.accepted]
  | error e => cases e <;> simp [Reply.of, Reply.accepted]

lemma firstAnswer_map_of {β : Type} {f : ν → Except PyError β} {b : β}
    (h : firstAnswer (alive.map fun m => Reply.of (f m)) = some b) : ∃ m ∈ alive, f m = .ok b := by
  obtain ⟨r, hr, hb⟩ := List.exists_of_findSome?_eq_some h
  obtain ⟨m, hm, rfl⟩ := List.mem_map.1 hr
  exact ⟨m, hm, accepted_of_eq_some.1 hb⟩

lemma getManifest_ok {store : LocalStore} {h : String} {d : ManifestDict}
    (hd : getManifest store h = .ok d) : store.loadManifest h = some d := by
  unfold getManifest at hd
  split at hd
  · next d' hd' => exact Except.ok.inj hd ▸ (Option.filter_eq_some_iff.1 hd').1
  · cases hd

lemma getChunk_ok {store : LocalStore} {c : String} {x : Bytes} (hx : getChunk store c = .ok x) :
    store.loadChunk c = some x := by
  unfold getChunk at hx
  split at hx
  · next x' hx' => rw [hx', Except.ok.inj hx]
  · cases hx

lemma chunkReplies_apply (c : String) : (s.chunkReplies alive).map (fun peer => peer c) =
    alive.map fun m => Reply.of (getChunk (s.nodes m).store c) := by
  rw [Swarm.chunkReplies, List.map_map]
  rfl

/-- A chunk that the peers answer is in the store of one of them. -/
lemma loadChunk_of_answer {c : String} {x : Bytes}
    (h : answerFor (s.chunkReplies alive) c = some x) :
    ∃ m ∈ alive, (s.nodes m).store.loadChunk c = some x := by
  unfold answerFor at h
  split at h
  · rw [chunkReplies_apply] at h
    obtain ⟨m, hm, hx⟩ := firstAnswer_map_of h
    exact ⟨m, hm, getChunk_ok hx⟩
  · cases h

/-- A chunk that an alive peer holds is answered. -/
lemma answer_of_loadChunk {c : String} {m : ν} (hc : Storable c) (hm : m ∈ alive)
    (h : (s.nodes m).store.hasChunk c = true) :
    ∃ x, answerFor (s.chunkReplies alive) c = some x := by
  obtain ⟨y, hy⟩ := Option.isSome_iff_exists.1 h
  rw [answerFor, if_pos hc, chunkReplies_apply, ← Option.isSome_iff_exists, firstAnswer,
    List.findSome?_isSome_iff]
  exact ⟨_, List.mem_map_of_mem hm, by simp [getChunk, hy, Reply.of, Reply.accepted]⟩

/-- The bodies that nodes send for a manifest are those in their stores. -/
lemma loadManifest_of_mem_bodies {h : String} {body : ManifestBody}
    (hbody : body ∈ (s.manifestReplies alive h).bodies) :
    ∃ m ∈ alive, ∃ d, body = .dict d ∧ (s.nodes m).store.loadManifest h = some d := by
  obtain ⟨reply, hreply, haccepted⟩ := List.mem_filterMap.1 hbody
  obtain ⟨m, hm, rfl⟩ := List.mem_map.1 hreply
  have hok := accepted_of_eq_some.1 haccepted
  cases hd : getManifest (s.nodes m).store h with
  | error e =>
    rw [hd] at hok
    cases hok
  | ok d =>
    rw [hd] at hok
    exact ⟨m, hm, d, (Except.ok.inj hok).symm, getManifest_ok hd⟩

/-- The dictionary found first is what is found. -/
lemma foundManifest_eq_some {n : ν} {h : String} {d : ManifestDict} :
    s.foundManifest n h alive = some d ↔
      (findManifest h (s.manifestReplies alive h) (s.nodes n).store).1 = some (.dict d) := by
  rw [Swarm.foundManifest, Option.bind_eq_some_iff]
  constructor
  · rintro ⟨body, hbody, hd⟩
    cases body with
    | dict d' => rw [hbody, Option.some.inj hd]
    | other truthy => cases hd
  · exact fun h => ⟨_, h, rfl⟩

/-- The manifest found first is in the store of the node or of an alive peer. -/
lemma loadManifest_of_found {n : ν} {h : String} {d : ManifestDict}
    (hd : s.foundManifest n h alive = some d) :
    ∃ m, (s.nodes m).store.loadManifest h = some d := by
  rcases findManifest_fst_cases (foundManifest_eq_some.1 hd) with ⟨d', hd', hload⟩ | hmem
  · cases hd'
    exact ⟨n, hload⟩
  · obtain ⟨m, -, d', hd', hload⟩ := loadManifest_of_mem_bodies hmem
    cases hd'
    exact ⟨m, hload⟩

end Answers

/-! ## The invariant -/

section Invariant

variable [DecidableEq ν] {P : Packages} {s : Swarm ν}

omit [DecidableEq ν] in
lemma Swarm.Honest.download (h : s.Honest P) (n : ν) (fileHash password : String)
    (alive : List ν) :
    FromUploads P s.uploads (s.download P n fileHash password alive).2 := by
  have hcached := cached_downloadFile P fileHash password
    (s.manifestReplies alive fileHash) (s.chunkReplies alive) (s.nodes n).store
  constructor
  · intro c x hx
    rcases hcached.gains c x hx with hx | ⟨-, -, hans⟩
    · rw [loadChunk_findManifest] at hx
      exact (h n).chunks c x hx
    · obtain ⟨m, -, hm⟩ := loadChunk_of_answer hans
      exact (h m).chunks c x hm
  · intro f d hd
    rw [Swarm.download, hcached.manifests] at hd
    rcases loadManifest_findManifest_cases hd with hd | ⟨rfl, d', hans, rfl⟩
    · exact (h n).manifests f d hd
    · obtain ⟨m, -, d'', heq, hload⟩ := loadManifest_of_mem_bodies hans
      cases heq
      rw [LocalStore.dictOf_rowOf_loadManifest hload]
      exact (h m).manifests _ _ hload

omit [DecidableEq ν] in
/-- What honest nodes send for a manifest can be saved. -/
lemma Swarm.Honest.bindable (h : s.Honest P) {alive : List ν} {fileHash : String}
    {d : ManifestDict} (hd : ManifestBody.dict d ∈ (s.manifestReplies alive fileHash).bodies) :
    NodeDatabase.Bindable d := by
  obtain ⟨m, -, d', heq, hload⟩ := loadManifest_of_mem_bodies hd
  cases heq
  obtain ⟨u, -, hprod⟩ := (h m).manifests _ _ hload
  exact hprod.bindable

lemma Swarm.Honest.step (h : s.Honest P) (op : SwarmOp ν) : (s.step P op).Honest P := by
  intro n'
  cases op with
  | upload n u peers envs =>
    by_cases hn : n' = n
    · subst hn
      simpa [Swarm.step, Swarm.setNode] using (h n').upload u peers envs
    · simpa [Swarm.step, Swarm.setNode, hn] using (h n').cons u
  | download n fileHash password alive =>
    by_cases hn : n' = n
    · subst hn
      simpa [Swarm.step, Swarm.setNode] using h.download n' fileHash password alive
    · simpa [Swarm.step, Swarm.setNode, hn] using h n'
  | evict n c =>
    by_cases hn : n' = n
    · subst hn
      simpa [Swarm.step, Swarm.setNode] using (h n').evict c
    · simpa [Swarm.step, Swarm.setNode, hn] using h n'

/-- In every reachable state, what nodes store comes from uploads. -/
theorem honest_of_reachable {ident : ν → String} (hs : (swarm P ident).Reachable s) :
    s.Honest P := by
  refine hs.invariant (I := fun s => s.Honest P) ?_ ?_
  · intro n
    constructor
    · intro c x hx
      cases hx
    · intro f d hd
      cases hd
  · intro s op t hs ht
    rw [← Option.some.inj ht]
    exact hs.step op

end Invariant

/-! ## Downloads deliver the uploaded file -/

/-- The chunk names in a manifest dictionary. -/
def ManifestDict.chunkHashes (d : ManifestDict) : List String :=
  (d.chunks.getD []).filterMap ChunkDict.chunkHash

lemma Upload.Produced.chunkHashes {P : Packages} {u : Upload} {fileHash : String}
    {d : ManifestDict} (h : u.Produced P fileHash d) :
    d.chunkHashes = (u.pairs P).map fun p => p.1.chunkHash := by
  obtain ⟨rfl, rfl⟩ := h
  have hchunks : (NodeDatabase.dictOf (sha256Hash u.file.content)
      (NodeDatabase.rowOf (u.manifest P).toDict)).chunks =
        some (((u.pairs P).map Prod.fst).map ChunkInfo.toDict) := rfl
  have hname : ChunkDict.chunkHash ∘ ChunkInfo.toDict ∘ Prod.fst =
      some ∘ fun p : ChunkInfo × Bytes => p.1.chunkHash := rfl
  rw [ManifestDict.chunkHashes, hchunks, Option.getD_some, List.map_map, List.filterMap_map, hname]
  exact congrFun List.filterMap_eq_map _

section Download

variable {P : Packages} {s : Swarm ν}

/-- The manifest found first is that of the node, or else of the first peer that has one. -/
lemma Swarm.Honest.foundManifest_eq (h : s.Honest P) (n : ν) (fileHash : String) (alive : List ν) :
    s.foundManifest n fileHash alive = ((s.nodes n).store.loadManifest fileHash).or
      (alive.findSome? fun m => (s.nodes m).store.loadManifest fileHash) := by
  have htruthy (m : ν) : ((s.nodes m).store.loadManifest fileHash).filter ManifestDict.truthy =
      (s.nodes m).store.loadManifest fileHash := by
    rw [LocalStore.loadManifest, NodeDatabase.getManifestSync]
    cases (s.nodes m).store.db.manifests.get? fileHash with
    | none => rfl
    | some row => exact Option.filter_some_pos (NodeDatabase.truthy_dictOf fileHash row)
  have hanswer : firstAnswer (s.manifestReplies alive fileHash) =
      (alive.findSome? fun m => (s.nodes m).store.loadManifest fileHash).map .dict := by
    rw [firstAnswer, Swarm.manifestReplies, List.findSome?_map, List.map_findSome?]
    refine congrArg (fun f => alive.findSome? f) (funext fun m => ?_)
    rw [Function.comp_apply, Function.comp_apply, getManifest, htruthy]
    cases (s.nodes m).store.loadManifest fileHash <;> rfl
  have hsaves : ∀ body ∈ (s.manifestReplies alive fileHash).bodies, body.saves = true := by
    intro body hbody
    obtain ⟨-, -, d, rfl, -⟩ := loadManifest_of_mem_bodies hbody
    exact decide_eq_true (h.bindable hbody)
  rw [Swarm.foundManifest, findManifest_fst, htruthy, ManifestReplies.inUse_of_saves hsaves,
    hanswer]
  cases (s.nodes n).store.loadManifest fileHash with
  | some d => rfl
  | none =>
    cases hfirst : alive.findSome? fun m => (s.nodes m).store.loadManifest fileHash with
    | none => rfl
    | some d =>
      obtain ⟨m, -, hm⟩ := List.exists_of_findSome?_eq_some hfirst
      have hd := htruthy m
      rw [hm] at hd
      have hbody : (some (ManifestBody.dict d)).filter ManifestBody.truthy = some (.dict d) :=
        Option.filter_some_pos (Option.filter_eq_some_iff.1 hd).2
      rw [Option.none_or, Option.map_some, hbody]
      rfl

/-- Merging chunks that open serves what they open to. -/
lemma serveMerged_of_opens {q : String} {m : FileManifest} {pairs : List (ChunkInfo × Bytes)}
    {raws : List Bytes} (h : Opens P (passwordOrNone q) pairs raws)
    (hchunks : m.chunks = pairs.map Prod.fst) (hzstd : m.compression = "zstd")
    (hfile : sha256Hash raws.flatten = m.fileHash)
    (hpw : ∀ p ∈ pairs, p.1.encrypted = true → truthy (passwordOrNone q) = true) :
    serveMerged P m (pairs.map Prod.snd) q =
      { result := .ok { content := raws.flatten, filename := m.originalFilename }
        tempFile := some raws.flatten } := by
  have hmerge : mergeChunksToDisk P m (pairs.map Prod.snd) (passwordOrNone q) =
      ⟨.ok (), some raws.flatten⟩ := by
    have hm := mergeChunksToDisk_of_opens (m := m) h (List.Perm.refl _) hzstd hfile
    rwa [← hchunks] at hm
  have hasked : ¬ (m.chunks.any ChunkInfo.encrypted && !truthy (passwordOrNone q)) = true := by
    rw [Bool.and_eq_true, List.any_eq_true, hchunks]
    rintro ⟨⟨info, hinfo, henc⟩, hq⟩
    obtain ⟨p, hp, rfl⟩ := List.mem_map.1 hinfo
    rw [hpw p hp henc] at hq
    cases hq
  unfold serveMerged
  simp only [if_neg hasked, hmerge]
  rfl

/-- Stored data of a name that a chunk of an upload has is that chunk, as far as SHA-256 tells
the hashed strings apart. -/
lemma Swarm.Honest.chunk_unique (h : s.Honest P) (hcf : CollisionFree sha256 (s.Hashed P)) {n : ν}
    {u : Upload} (hu : u ∈ s.uploads) {c : String} {x y : Bytes} (hx : (c, x) ∈ u.entries P)
    (hy : (s.nodes n).store.loadChunk c = some y) : y = x := by
  obtain ⟨u', hu', hmem⟩ := (h n).chunks c y hy
  apply hcf _ _ ⟨u', hu', Or.inr ⟨c, hmem⟩⟩ ⟨u, hu, Or.inr ⟨c, hx⟩⟩
  rw [← sha256Hash_inj, Upload.hash_of_mem_entries hmem, Upload.hash_of_mem_entries hx]

lemma datas_eq_of_loaded {pairs : List (ChunkInfo × Bytes)} {datas : List Bytes}
    {store : LocalStore} (hall : List.Forall₂
      (fun (info : ChunkInfo) data => store.loadChunk info.chunkHash = some data)
      (pairs.map Prod.fst) datas)
    (hval : ∀ p ∈ pairs, ∀ x, store.loadChunk p.1.chunkHash = some x → x = p.2) :
    datas = pairs.map Prod.snd := by
  induction pairs generalizing datas with
  | nil =>
    cases hall
    rfl
  | cons p pairs ih =>
    cases hall with
    | cons hp hrest =>
      rw [List.map_cons, hval p (List.mem_cons_self ..) _ hp,
        ih hrest fun p' hp' => hval p' (List.mem_cons_of_mem _ hp')]

/-- The password of an upload unlocks its chunks; without one, any password does. -/
lemma Upload.unlocks {u : Upload} {password : String}
    (hpw : u.password ≠ "" → password = u.password) :
    Unlocks (passwordOrNone u.password) u.salt (passwordOrNone password) := by
  refine Unlocks.of_eq fun htruthy => ?_
  have hne : u.password ≠ "" := by
    intro hempty
    simp [passwordOrNone, hempty] at htruthy
  rw [hpw hne]

/-- When the manifest of an upload is found first and its chunks are held, the download delivers
the uploaded file and leaves manifest and chunks with the node. -/
theorem Swarm.Honest.download_eq (hP : P.Lawful) (h : s.Honest P)
    (hcf : CollisionFree sha256 (s.Hashed P)) {n : ν} {fileHash password : String}
    {alive : List ν} {d : ManifestDict} {u : Upload}
    (hfound : s.foundManifest n fileHash alive = some d)
    (havail : ∀ c ∈ d.chunkHashes, (s.nodes n).store.hasChunk c = true ∨
      ∃ m ∈ alive, (s.nodes m).store.hasChunk c = true)
    (hu : u ∈ s.uploads) (hprod : u.Produced P fileHash d)
    (hpw : u.file.content ≠ [] →
      Unlocks (passwordOrNone u.password) u.salt (passwordOrNone password)) :
    (s.download P n fileHash password alive).1.result =
        .ok { content := u.file.content, filename := u.file.name } ∧
      (s.download P n fileHash password alive).2.loadManifest fileHash = some d ∧
      ∀ c ∈ d.chunkHashes, (s.download P n fileHash password alive).2.hasChunk c = true := by
  set m : FileManifest := { u.manifest P with chunkSize := defaultChunkSize } with hm
  set pairs := u.pairs P with hpairs
  have hchunks : m.chunks = pairs.map Prod.fst := rfl
  have hnames : d.chunkHashes = m.chunks.map ChunkInfo.chunkHash := by
    rw [hprod.chunkHashes, hchunks, List.map_map]
    rfl
  -- the first two steps of the download
  obtain ⟨store₁, hstore₁⟩ : ∃ store₁, findManifest fileHash (s.manifestReplies alive fileHash)
      (s.nodes n).store = (some (.dict d), store₁) :=
    ⟨_, Prod.ext (foundManifest_eq_some.1 hfound) rfl⟩
  have hload₁ : ∀ c, store₁.loadChunk c = (s.nodes n).store.loadChunk c := by
    intro c
    have hkeep :=
      loadChunk_findManifest (s.manifestReplies alive fileHash) (s.nodes n).store fileHash c
    rwa [hstore₁] at hkeep
  have hman₁ : store₁.loadManifest fileHash = some d := by
    have hload := loadManifest_findManifest (foundManifest_eq_some.1 hfound)
      fun _ hd' => h.bindable hd'
    rw [hstore₁] at hload
    obtain ⟨node, hnode⟩ := loadManifest_of_found hfound
    rw [hload, LocalStore.dictOf_rowOf_loadManifest hnode]
  obtain ⟨datas, store₂, hfind⟩ : ∃ datas store₂,
      findChunks (s.chunkReplies alive) m.chunks store₁ = (.ok datas, store₂) := by
    apply findChunks_of_available
    intro info hinfo
    have hmem : info.chunkHash ∈ d.chunkHashes := hnames ▸ List.mem_map_of_mem hinfo
    rcases havail _ hmem with hheld | ⟨node, hnode, hheld⟩
    · left
      rw [hload₁]
      exact Option.isSome_iff_exists.1 hheld
    · rw [hchunks] at hinfo
      obtain ⟨p, hp, rfl⟩ := List.mem_map.1 hinfo
      exact Or.inr (answer_of_loadChunk (Upload.storable_of_mem_entries
        (Upload.mem_entries.2 ⟨p, hp, rfl, rfl⟩)) hnode hheld)
  have hcached := cached_findChunks (s.chunkReplies alive) m.chunks store₁
  rw [hfind] at hcached
  have hloaded := findChunks_ok hfind
  -- the chunks found are those of the upload
  have hdatas : datas = pairs.map Prod.snd := by
    apply datas_eq_of_loaded (hchunks ▸ hloaded)
    intro p hp x hx
    have hentry : (p.1.chunkHash, p.2) ∈ u.entries P := Upload.mem_entries.2 ⟨p, hp, rfl, rfl⟩
    rcases hcached.gains _ x hx with hx | ⟨-, -, hans⟩
    · rw [hload₁] at hx
      exact h.chunk_unique hcf hu hentry hx
    · obtain ⟨node, -, hnode⟩ := loadChunk_of_answer hans
      exact h.chunk_unique hcf hu hentry hnode
  have hopens : Opens P (passwordOrNone password) pairs
      (readBlocks (getOptimalChunkSize u.file.content.length) u.file.content) :=
    opens_encodedChunks hP hpw _
  have hcontent := flatten_readBlocks (getOptimalChunkSize_pos u.file.content.length)
    u.file.content
  have hserve := serveMerged_of_opens (m := m) hopens hchunks rfl (congrArg sha256Hash hcontent)
    (by
      intro p hp henc
      rw [encrypted_of_mem_encodedChunks hp] at henc
      exact (hpw (content_ne_nil_of_mem_encodedChunks hp) henc).1)
  have hdownload : s.download P n fileHash password alive =
      (serveMerged P m (pairs.map Prod.snd) password, store₂) := by
    unfold Swarm.download downloadFile
    simp only [hstore₁, ManifestBody.manifest, hprod.fromDict, ← hm, hfind, hdatas]
  rw [hdownload, hserve, hcontent]
  refine ⟨rfl, ?_, ?_⟩
  · rw [hcached.manifests, hman₁]
  · intro c hc
    rw [hnames] at hc
    obtain ⟨info, hinfo, rfl⟩ := List.mem_map.1 hc
    obtain ⟨x, hx⟩ := exists_of_forall₂_some hloaded hinfo
    exact Option.isSome_iff_exists.2 ⟨x, hx⟩

/-- In every reachable state: whenever a manifest is found and all chunks it names are held by the
node or by an alive peer, some upload produced it, and for every upload that did, a download with
its password delivers its file and leaves manifest and chunks with the node. -/
theorem download_of_available [DecidableEq ν] {ident : ν → String} (hP : P.Lawful)
    (hs : (swarm P ident).Reachable s) (hcf : CollisionFree sha256 (s.Hashed P)) {n : ν}
    {fileHash password : String} {alive : List ν} {d : ManifestDict}
    (hfound : s.foundManifest n fileHash alive = some d)
    (havail : ∀ c ∈ d.chunkHashes, (s.nodes n).store.hasChunk c = true ∨
      ∃ m ∈ alive, (s.nodes m).store.hasChunk c = true) :
    (∃ u ∈ s.uploads, u.Produced P fileHash d) ∧
    ∀ u ∈ s.uploads, u.Produced P fileHash d →
      (u.password ≠ "" → password = u.password) →
      sha256Hash u.file.content = fileHash ∧
      (s.download P n fileHash password alive).1.result =
        .ok { content := u.file.content, filename := u.file.name } ∧
      ∃ t, (swarm P ident).exec s (.download n fileHash password alive) = some t ∧
        (t.nodes n).store.loadManifest fileHash = some d ∧
        ∀ c ∈ d.chunkHashes, (t.nodes n).store.hasChunk c = true := by
  have hhonest := honest_of_reachable hs
  obtain ⟨node, hnode⟩ := loadManifest_of_found hfound
  refine ⟨(hhonest node).manifests fileHash d hnode, fun u hu hprod hpw => ?_⟩
  have hunlocks : u.file.content ≠ [] →
      Unlocks (passwordOrNone u.password) u.salt (passwordOrNone password) := by
    intro _
    apply Unlocks.of_eq
    intro htruthy
    have hne : u.password ≠ "" := by
      intro hempty
      simp [passwordOrNone, hempty] at htruthy
    rw [hpw hne]
  obtain ⟨hresult, hman, hchunks⟩ := hhonest.download_eq hP hcf hfound havail hu hprod hunlocks
  refine ⟨hprod.1, hresult, _, rfl, ?_, ?_⟩
  · simpa [Swarm.step, Swarm.setNode] using hman
  · simpa [Swarm.step, Swarm.setNode] using hchunks

/-- An upload without a password of a file of one byte. -/
def oneByteUpload : Upload where
  file := { name := "a.txt", content := [0x61] }
  password := ""
  salt := default
  nonces := default
  fits := by simp

lemma entries_oneByteUpload : oneByteUpload.entries rawPackages =
    [(sha256Hash (rawPackages.zstdCompress [0x61]), rawPackages.zstdCompress [0x61])] := by
  have hblocks : readBlocks chunk256KB [0x61] = [[0x61]] := by simp [readBlocks, chunk256KB]
  have hsize : getOptimalChunkSize 1 = chunk256KB := by decide
  have hcontent : oneByteUpload.file.content = [0x61] := rfl
  rw [Upload.entries, Upload.pairs, hcontent, encodedChunks, streamChunks, List.length_singleton,
    hsize, hblocks]
  rfl

/-- The file of one byte and its one chunk have different hashes. -/
lemma collisionFree_oneByteUpload {s : Swarm ν} (hs : ∀ u ∈ s.uploads, u = oneByteUpload) :
    CollisionFree sha256 (s.Hashed rawPackages) := by
  have hall : ∀ x, s.Hashed rawPackages x →
      x = [0x61] ∨ x = rawPackages.zstdCompress [0x61] := by
    rintro x ⟨u, hu, hx⟩
    rw [hs u hu] at hx
    rcases hx with rfl | ⟨c, hc⟩
    · exact Or.inl rfl
    · rw [entries_oneByteUpload, List.mem_singleton] at hc
      exact Or.inr (Prod.mk.inj hc).2
  have hne : sha256 [0x61] ≠ sha256 (rawPackages.zstdCompress [0x61]) := by decide +kernel
  intro x y hx hy hxy
  rcases hall x hx with rfl | rfl <;> rcases hall y hy with rfl | rfl
  · rfl
  · exact absurd hxy hne
  · exact absurd hxy.symm hne
  · rfl

/-- One node uploads, another one downloads from it. -/
theorem download_of_available_cross : ∃ s d,
    (swarm rawPackages fun n : Bool => toString n).Reachable s ∧
    s.foundManifest true (sha256Hash [0x61]) [false] = some d ∧
    (s.download rawPackages true (sha256Hash [0x61]) "" [false]).1.result =
      .ok { content := [0x61], filename := "a.txt" } := by
  set init := (swarm rawPackages fun n : Bool => toString n).init with hinit
  set s := init.step rawPackages (.upload false oneByteUpload ∅ fun _ => ⟨∅, fun _ => .ok false⟩)
    with hsdef
  have hs : (swarm rawPackages fun n : Bool => toString n).Reachable s :=
    Machine.Reachable.init.step rfl
  have hmanifest : (s.nodes false).store.loadManifest (sha256Hash [0x61]) =
      some (NodeDatabase.dictOf (sha256Hash [0x61])
        (NodeDatabase.rowOf (oneByteUpload.manifest rawPackages).toDict)) := by
    have hload := loadManifest_uploadAt rawPackages oneByteUpload ∅
      (fun _ => ⟨∅, fun _ => .ok false⟩) (init.nodes false) (sha256Hash [0x61])
    have hname : sha256Hash [0x61] = sha256Hash oneByteUpload.file.content := rfl
    rw [if_pos hname] at hload
    simpa [hsdef, Swarm.step, Swarm.setNode] using hload
  set d := NodeDatabase.dictOf (sha256Hash [0x61])
    (NodeDatabase.rowOf (oneByteUpload.manifest rawPackages).toDict) with hd
  have hprod : oneByteUpload.Produced rawPackages (sha256Hash [0x61]) d := ⟨rfl, rfl⟩
  have huploads : s.uploads = [oneByteUpload] := rfl
  have hfound : s.foundManifest true (sha256Hash [0x61]) [false] = some d := by
    have hempty : (s.nodes true).store.loadManifest (sha256Hash [0x61]) = none := rfl
    rw [(honest_of_reachable hs).foundManifest_eq, hempty, List.findSome?_singleton, hmanifest]
    rfl
  have havail : ∀ c ∈ d.chunkHashes, (s.nodes true).store.hasChunk c = true ∨
      ∃ m ∈ [false], (s.nodes m).store.hasChunk c = true := by
    intro c hc
    rw [hprod.chunkHashes] at hc
    obtain ⟨p, hp, rfl⟩ := List.mem_map.1 hc
    obtain ⟨x, hx⟩ := exists_loadChunk_uploadAt rawPackages oneByteUpload ∅
      (fun _ => ⟨∅, fun _ => .ok false⟩) (init.nodes false) (c := p.1.chunkHash)
      (Or.inl (List.mem_map.2 ⟨_, Upload.mem_entries.2 ⟨p, hp, rfl, rfl⟩, rfl⟩))
    refine Or.inr ⟨false, List.mem_singleton_self _, ?_⟩
    simp [LocalStore.hasChunk, hsdef, Swarm.step, Swarm.setNode, hx]
  have hcf : CollisionFree sha256 (s.Hashed rawPackages) :=
    collisionFree_oneByteUpload fun u hu => by simpa [huploads] using hu
  obtain ⟨-, hdownload⟩ := download_of_available rawPackages_lawful hs hcf hfound havail
  exact ⟨s, d, hs, hfound, (hdownload oneByteUpload (by simp [huploads]) hprod
    (fun h => absurd rfl h)).2.1⟩

end Download

end Machine

end DistriStore
