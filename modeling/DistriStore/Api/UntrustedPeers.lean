import DistriStore.Api.Swarm

/-!
# Peers that answer anything

A peer chooses the manifest as well as the chunks it sends.  What is served is checked against the
`file_hash` of the manifest in use; that is the hash that was asked for when the manifest is local,
and whatever the peer wrote when it is not (`download_content_addressed_iff`).  The manifest in use
is the first one that the database takes, or the last one when it takes none.  Chunks that peers
send are cached under the name that was asked for without being hashed, so the store is
content-addressed only as long as the first answers are genuine (`contentAddressed_always`).
-/

namespace DistriStore

open Lib

/-! ## Serving another file -/

section Served

variable {P : Packages} {store : LocalStore} {manifestReplies : ManifestReplies}
  {replies : ChunkReplies} {fileHash password : String}

/-- Where a chunk comes from: the store, or else the first peer that answers. -/
def chunkFrom (store : LocalStore) (replies : ChunkReplies) (c : String) : Option Bytes :=
  (store.loadChunk c).or (answerFor replies c)

lemma chunkFrom_of_cached {names : List String} {store' : LocalStore}
    (h : Cached replies names store store') {c : String} {x : Bytes}
    (hx : store'.loadChunk c = some x) : chunkFrom store replies c = some x := by
  unfold chunkFrom
  rcases h.gains c x hx with hx | ⟨-, hnone, hans⟩
  · rw [hx, Option.some_or]
  · rw [hnone, Option.none_or, hans]

/-- The chunk loop delivers each chunk from where it comes from. -/
lemma findChunks_iff {infos : List ChunkInfo} {datas : List Bytes} :
    (∃ store', findChunks replies infos store = (.ok datas, store')) ↔
      List.Forall₂ (fun (info : ChunkInfo) data =>
        chunkFrom store replies info.chunkHash = some data) infos datas := by
  have hforward : ∀ datas store', findChunks replies infos store = (.ok datas, store') →
      List.Forall₂ (fun (info : ChunkInfo) data =>
        chunkFrom store replies info.chunkHash = some data) infos datas := by
    intro datas store' h
    have hcached := cached_findChunks replies infos store
    rw [h] at hcached
    exact (findChunks_ok h).imp fun _ _ hx => chunkFrom_of_cached hcached hx
  constructor
  · rintro ⟨store', h⟩
    exact hforward datas store' h
  · intro h
    obtain ⟨datas', store', hfind⟩ : ∃ datas' store',
        findChunks replies infos store = (.ok datas', store') := by
      apply findChunks_of_available
      intro info hinfo
      obtain ⟨x, hx⟩ := exists_of_forall₂_some h hinfo
      cases hl : store.loadChunk info.chunkHash with
      | some y => exact Or.inl ⟨y, rfl⟩
      | none =>
        rw [chunkFrom, hl, Option.none_or] at hx
        exact Or.inr ⟨x, hx⟩
    have hsame : datas' = datas := forall₂_some_unique (hforward datas' store' hfind) h
    exact ⟨store', hsame ▸ hfind⟩

/-- What is found for the chunks does not depend on the manifest that was stored before. -/
lemma findChunks_findManifest_iff (fileHash : String) (manifestReplies : ManifestReplies)
    {infos : List ChunkInfo} {datas : List Bytes} :
    (∃ store', findChunks replies infos (findManifest fileHash manifestReplies store).2 =
      (.ok datas, store')) ↔ List.Forall₂ (fun (info : ChunkInfo) data =>
        chunkFrom store replies info.chunkHash = some data) infos datas := by
  rw [findChunks_iff]
  simp only [chunkFrom, loadChunk_findManifest]

/-- A peer passes off another file: the node has no manifest for the hash, the manifest in use
states another one, and chunks can be found for it, and decoded with the password, that do have the
hash it states. -/
structure PassedOff (P : Packages) (fileHash password : String)
    (manifestReplies : ManifestReplies) (replies : ChunkReplies) (store : LocalStore)
    (d : ManifestDict) (m : FileManifest) (datas : List Bytes) (content : Bytes) : Prop where
  notLocal : store.loadManifest fileHash = none
  inUse : manifestReplies.inUse = some (.dict d)
  accepted : FileManifest.fromDict d = .ok m
  misnamed : m.fileHash ≠ fileHash
  found : List.Forall₂ (fun (info : ChunkInfo) data =>
    chunkFrom store replies info.chunkHash = some data) m.chunks datas
  unlocked : m.chunks.any ChunkInfo.encrypted = true → password ≠ ""
  decoded : writeLoop (decodeChunk P (passwordOrNone password)
    (mergeKey (passwordOrNone password) (orderChunks m.chunks datas))
    (decide (m.compression = "zstd"))) (orderChunks m.chunks datas) [] = (content, .ok ())
  hashed : sha256Hash content = m.fileHash

/-- A dictionary that `from_dict` accepts is not empty. -/
lemma truthy_of_fromDict {d : ManifestDict} {m : FileManifest}
    (h : FileManifest.fromDict d = .ok m) : d.truthy = true := by
  by_contra hfalsy
  have hempty : d = {} := by simpa [ManifestDict.truthy] using hfalsy
  rw [hempty] at h
  cases h

/-- A manifest that comes from the table states the hash it is stored under. -/
lemma fileHash_of_loadManifest {d : ManifestDict} {m : FileManifest}
    (hd : store.loadManifest fileHash = some d) (hm : FileManifest.fromDict d = .ok m) :
    m.fileHash = fileHash := by
  rw [← LocalStore.dictOf_rowOf_loadManifest hd] at hm
  simp only [FileManifest.fromDict, NodeDatabase.dictOf, getKey, bind, Except.bind, pure,
    Except.pure] at hm
  split at hm
  · cases hm
  · rw [← Except.ok.inj hm]

/-- The file that is passed off is served. -/
lemma PassedOff.served {d : ManifestDict} {m : FileManifest} {datas : List Bytes} {content : Bytes}
    (h : PassedOff P fileHash password manifestReplies replies store d m datas content) :
    (downloadFile P fileHash password manifestReplies replies store).1.result =
      .ok { content := content, filename := m.originalFilename } := by
  have hfound : (findManifest fileHash manifestReplies store).1 = some (.dict d) := by
    rw [findManifest_fst, h.notLocal, h.inUse]
    exact Option.filter_some_pos (truthy_of_fromDict h.accepted)
  obtain ⟨store₁, hfind⟩ : ∃ store₁, findManifest fileHash manifestReplies store =
      (some (.dict d), store₁) := ⟨_, Prod.ext hfound rfl⟩
  obtain ⟨store', hchunks⟩ : ∃ store', findChunks replies m.chunks store₁ =
      (.ok datas, store') := by
    have hall := (findChunks_findManifest_iff fileHash manifestReplies).2 h.found
    rwa [hfind] at hall
  have hasked : ¬ (m.chunks.any ChunkInfo.encrypted && !truthy (passwordOrNone password)) =
      true := by
    rw [Bool.and_eq_true]
    rintro ⟨henc, hpw⟩
    simp [passwordOrNone, h.unlocked henc, truthy] at hpw
  unfold downloadFile
  simp only [hfind, ManifestBody.manifest, h.accepted, hchunks]
  unfold serveMerged mergeChunksToDisk
  simp only [if_neg hasked, h.decoded]
  simp [finishOnDisk, h.hashed]

/-- A manifest that states `fileHash` and lists one chunk of the given name. -/
def singleChunkManifest (fileHash chunkHash : String) : ManifestDict where
  originalFilename := some "a.txt"
  originalSize := some 1
  fileHash := some fileHash
  chunks := some [
    { index := some 0, chunkHash := some chunkHash, size := some 1, encrypted := none }]

end Served

/-! ## The chunk store of a node among untrusted peers -/

/-- Every chunk is stored under its own hash. -/
def ContentAddressed (store : LocalStore) : Prop :=
  ∀ c x, store.loadChunk c = some x → sha256Hash x = c

/-- The part of `_download_worker` that fetches one chunk and caches it. -/
def workerFetch (replies : ChunkReplies) (chunkHash : String) (store : LocalStore) :
    Except PyError Unit × LocalStore :=
  match chunkLoader replies chunkHash store with
  | (.error e, store) => (.error e, store)
  | (.ok data, store) =>
    (.ok (), if store.hasChunk chunkHash then store else store.saveChunk chunkHash data)

/-- A node, and the manifests that its resumable downloads were started with. -/
structure Downloader where
  node : Node
  started : List FileManifest := []

/-- What a node does, with the answers that peers give to it. -/
inductive NodeOp where
  | upload (u : Upload) (peers : Dict String PeerInfo) (envs : ℕ → ReplicationEnv)
  | download (fileHash password : String) (manifestReplies : ManifestReplies)
      (replies : ChunkReplies)
  | preview (fileHash password : String) (manifestReplies : ManifestReplies)
      (replies : ℕ → ChunkReplies) (pulls : ℕ)
  /-- Start a resumable download. -/
  | start (fileHash : String) (manifestReplies : ManifestReplies)
  /-- Resume one, with the manifest in the local store. -/
  | resume (fileHash : String)
  /-- The worker of a started download fetches one of its chunks. -/
  | fetch (manifest : FileManifest) (info : ChunkInfo) (replies : ChunkReplies)
  | replicate (manifest : FileManifest) (chunkDataList : List Bytes)
      (envs : ℕ → ReplicationEnv)

namespace Downloader

/-- Replace the store. -/
def withStore (s : Downloader) (store : LocalStore) : Downloader :=
  { s with node := { s.node with store := store } }

/-- Enter the manifest of a download that has been started, if it could be read. -/
def begin (s : Downloader) : Except PyError FileManifest → Downloader
  | .ok m => { s with started := m :: s.started }
  | .error _ => s

/-- One operation of the node; a fetch needs a started download with that chunk. -/
def exec (P : Packages) (s : Downloader) : NodeOp → Option Downloader
  | .upload u peers envs => some { s with node := uploadAt P u peers envs s.node }
  | .download fileHash password manifestReplies replies =>
    some (s.withStore
      (downloadFile P fileHash password manifestReplies replies s.node.store).2)
  | .preview fileHash password manifestReplies replies pulls =>
    some (s.withStore
      (previewFile P fileHash password manifestReplies replies pulls s.node.store).2)
  | .start fileHash manifestReplies =>
    let (m, store) := startManifest fileHash manifestReplies s.node.store
    some ((s.withStore store).begin m)
  | .resume fileHash =>
    match (s.node.store.loadManifest fileHash).filter ManifestDict.truthy with
    | none => some s
    | some d => some (s.begin (FileManifest.fromDict d))
  | .fetch manifest info replies =>
    if manifest ∈ s.started ∧ info ∈ manifest.chunks then
      some (s.withStore (workerFetch replies info.chunkHash s.node.store).2)
    else none
  | .replicate manifest chunkDataList envs =>
    some { s with node :=
      (replicateChunks defaultReplicationFactor envs manifest chunkDataList s.node).2 }

end Downloader

/-- A node that starts with empty storage. -/
def downloader (P : Packages) (nodeId : String) : Machine Downloader NodeOp where
  init := { node := { state := { nodeId } } }
  exec := Downloader.exec P

/-- What peers answer for one of these chunks, when the store does not hold it and can, is the
genuine chunk. -/
def GenuineFor (store : LocalStore) (replies : ChunkReplies) (infos : List ChunkInfo) : Prop :=
  ∀ info ∈ infos, ∀ x, store.loadChunk info.chunkHash = none →
    answerFor replies info.chunkHash = some x → sha256Hash x = info.chunkHash

/-- The chunks that an operation takes in are what their names say. -/
def GenuineOp (s : Downloader) : NodeOp → Prop
  | .download fileHash _ manifestReplies replies =>
    GenuineFor s.node.store replies (requestedInfos fileHash manifestReplies s.node.store)
  | .preview fileHash _ manifestReplies replies _ =>
    ∀ i, GenuineFor s.node.store (replies i)
      (requestedInfos fileHash manifestReplies s.node.store)
  | .fetch _ info replies => GenuineFor s.node.store replies [info]
  | .replicate manifest chunkDataList _ =>
    ∀ p ∈ manifest.chunks.zip chunkDataList, sha256Hash p.2 = p.1.chunkHash
  | .upload .. => True
  | .start .. => True
  | .resume _ => True

section ContentAddressed

variable {store store' : LocalStore} {P : Packages}

lemma contentAddressed_empty : ContentAddressed ∅ := by
  intro c x hx
  cases hx

lemma ContentAddressed.of_loads (h : ContentAddressed store)
    (hloads : ∀ c x, store'.loadChunk c = some x → store.loadChunk c = some x ∨ sha256Hash x = c) :
    ContentAddressed store' := by
  intro c x hx
  rcases hloads c x hx with hx | hx
  · exact h c x hx
  · exact hx

lemma ContentAddressed.saveChunk (h : ContentAddressed store) {c : String} {x : Bytes}
    (hx : sha256Hash x = c) : ContentAddressed (store.saveChunk c x) := by
  refine h.of_loads fun c' y hy => ?_
  rw [LocalStore.loadChunk_saveChunk] at hy
  split at hy
  · next hc =>
    rw [hc, ← Option.some.inj hy]
    exact Or.inr hx
  · exact Or.inl hy

lemma ContentAddressed.cached (h : ContentAddressed store) {replies : ChunkReplies}
    {infos : List ChunkInfo} (hgen : GenuineFor store replies infos)
    (hcached : Cached replies (infos.map ChunkInfo.chunkHash) store store') :
    ContentAddressed store' := by
  refine h.of_loads fun c x hx => ?_
  rcases hcached.gains c x hx with hx | ⟨hc, hnone, hans⟩
  · exact Or.inl hx
  · obtain ⟨info, hinfo, rfl⟩ := List.mem_map.1 hc
    exact Or.inr (hgen info hinfo x hnone hans)

lemma ContentAddressed.saveChunks (h : ContentAddressed store) {es : List (String × Bytes)}
    (hes : ∀ e ∈ es, sha256Hash e.2 = e.1) : ContentAddressed (store.saveChunks es) := by
  refine h.of_loads fun c x hx => ?_
  rcases LocalStore.loadChunk_saveChunks_cases _ _ c x hx with hx | hx
  · exact Or.inr (hes _ hx)
  · exact Or.inl hx

lemma ContentAddressed.findManifest (h : ContentAddressed store) (fileHash : String)
    (manifestReplies : ManifestReplies) :
    ContentAddressed (findManifest fileHash manifestReplies store).2 := by
  refine h.of_loads fun c x hx => Or.inl ?_
  rwa [loadChunk_findManifest] at hx

lemma ContentAddressed.findChunk (h : ContentAddressed store) {replies : ChunkReplies}
    {c : String} (hgen : ∀ x, store.loadChunk c = none → answerFor replies c = some x →
      sha256Hash x = c) :
    ContentAddressed (findChunk replies c store).2 := by
  rcases findChunk_cases replies c store with ⟨x, -, hf⟩ | ⟨hnone, x, hans, hf⟩ | ⟨-, -, hf⟩
  · rw [hf]
    exact h
  · rw [hf]
    exact h.saveChunk (hgen x hnone hans)
  · rw [hf]
    exact h

lemma ContentAddressed.downloadFile (h : ContentAddressed store) {fileHash password : String}
    {manifestReplies : ManifestReplies} {replies : ChunkReplies}
    (hgen : GenuineFor store replies (requestedInfos fileHash manifestReplies store)) :
    ContentAddressed (downloadFile P fileHash password manifestReplies replies store).2 := by
  refine (h.findManifest fileHash manifestReplies).cached ?_
    (cached_downloadFile P fileHash password manifestReplies replies store)
  intro info hinfo x hnone hans
  rw [loadChunk_findManifest] at hnone
  exact hgen info hinfo x hnone hans

lemma ContentAddressed.previewFile (h : ContentAddressed store) {fileHash password : String}
    {manifestReplies : ManifestReplies} {replies : ℕ → ChunkReplies} {pulls : ℕ}
    (hgen : ∀ i, GenuineFor store (replies i) (requestedInfos fileHash manifestReplies store)) :
    ContentAddressed
      (previewFile P fileHash password manifestReplies replies pulls store).2 := by
  have hfound := h.findManifest fileHash manifestReplies
  have hkept : ∀ c, (DistriStore.findManifest fileHash manifestReplies store).2.loadChunk c =
      store.loadChunk c := loadChunk_findManifest _ _ _
  unfold requestedInfos at hgen
  unfold DistriStore.previewFile
  cases hm : DistriStore.findManifest fileHash manifestReplies store with
  | mk found store₁ =>
    rw [hm] at hfound hkept hgen
    cases found with
    | none => exact hfound
    | some body =>
      dsimp only at hgen ⊢
      cases hd : body.manifest with
      | error e => exact hfound
      | ok m =>
        simp only [hd] at hgen ⊢
        split
        · exact hfound
        · -- every load keeps the store content-addressed and what the store had
          refine (pipelineStreamLoop_state (I := fun s : LocalStore × ℕ =>
            ContentAddressed s.1 ∧ ∀ c, s.1.loadChunk c = none → store.loadChunk c = none)
            _ ?_ none (store₁, 0) ⟨hfound, fun c hc => hkept c ▸ hc⟩).1
          rintro info hinfo ⟨st, i⟩ ⟨hst, hkeeps⟩
          have hmem : info ∈ m.chunks :=
            (mem_sortBy ChunkInfo.index).1 (List.mem_of_mem_take hinfo)
          have hstep : ((previewLoader replies) info.chunkHash (st, i)).2.1 =
              (DistriStore.findChunk (replies i) info.chunkHash st).2 := by
            unfold previewLoader
            dsimp only
            cases DistriStore.findChunk (replies i) info.chunkHash st with
            | mk found st' => cases found <;> rfl
          refine ⟨?_, fun c hc => ?_⟩
          · rw [hstep]
            exact hst.findChunk fun x hnone hans =>
              hgen i info hmem x (hkeeps _ hnone) hans
          · rw [hstep] at hc
            apply hkeeps
            cases hl : st.loadChunk c with
            | none => rfl
            | some x =>
              rw [(cached_findChunk (replies i) info.chunkHash st).keeps c x hl] at hc
              cases hc

/-- The chunk that the loader delivers is already stored when the worker looks for it. -/
lemma store_workerFetch (replies : ChunkReplies) (c : String) (store : LocalStore) :
    (workerFetch replies c store).2 = (findChunk replies c store).2 := by
  unfold workerFetch chunkLoader
  rcases findChunk_cases replies c store with ⟨x, hx, hf⟩ | ⟨-, x, -, hf⟩ | ⟨-, -, hf⟩
  · simp [hf, LocalStore.hasChunk, hx]
  · simp [hf, LocalStore.hasChunk, LocalStore.loadChunk_saveChunk]
  · simp [hf]

/-- Every operation whose chunks are genuine keeps the store content-addressed. -/
lemma Downloader.contentAddressed_step {s t : Downloader} {op : NodeOp}
    (h : ContentAddressed s.node.store) (hstep : s.exec P op = some t) (hgen : GenuineOp s op) :
    ContentAddressed t.node.store := by
  cases op with
  | upload u peers envs =>
    rw [← Option.some.inj hstep]
    refine h.of_loads fun c x hx => ?_
    rcases loadChunk_uploadAt_cases P u peers envs s.node hx with hx | hx
    · exact Or.inr (Upload.hash_of_mem_entries hx)
    · exact Or.inl hx
  | download fileHash password manifestReplies replies =>
    rw [← Option.some.inj hstep]
    exact h.downloadFile hgen
  | preview fileHash password manifestReplies replies pulls =>
    rw [← Option.some.inj hstep]
    exact h.previewFile hgen
  | start fileHash manifestReplies =>
    have hfound := h.findManifest fileHash manifestReplies
    have hstore : t.node.store = (findManifest fileHash manifestReplies s.node.store).2 := by
      rw [← Option.some.inj hstep]
      cases findManifest fileHash manifestReplies s.node.store with
      | mk found store' =>
        cases found with
        | none => rfl
        | some body =>
          dsimp only
          cases body.manifest <;> rfl
    rw [hstore]
    exact hfound
  | resume fileHash =>
    have hstore : t.node.store = s.node.store := by
      unfold Downloader.exec at hstep
      dsimp only at hstep
      split at hstep
      · rw [← Option.some.inj hstep]
      · next d _ =>
        rw [← Option.some.inj hstep]
        cases FileManifest.fromDict d <;> rfl
    rw [hstore]
    exact h
  | fetch manifest info replies =>
    unfold Downloader.exec at hstep
    dsimp only at hstep
    split at hstep
    · rw [← Option.some.inj hstep]
      refine h.of_loads fun c x hx => ?_
      have hfetched : ContentAddressed (findChunk replies info.chunkHash s.node.store).2 :=
        h.findChunk fun x hnone hans => hgen info (List.mem_singleton_self _) x hnone hans
      rw [Downloader.withStore, store_workerFetch] at hx
      exact Or.inr (hfetched c x hx)
    · cases hstep
  | replicate manifest chunkDataList envs =>
    rw [← Option.some.inj hstep]
    dsimp only
    obtain ⟨saved, hbegins, hstore⟩ := store_replicateChunks defaultReplicationFactor envs manifest
      chunkDataList s.node
    rw [hstore]
    apply h.saveChunks
    intro e he
    obtain ⟨p, hp, rfl⟩ := List.mem_map.1 he
    exact hgen p (hbegins.subset hp)

/-- In every run in which the chunks taken in are genuine, the chunk store is content-addressed
throughout. -/
theorem contentAddressed_always (P : Packages) (nodeId : String) (ops : List NodeOp)
    (hops : (downloader P nodeId).Meets GenuineOp (downloader P nodeId).init ops) :
    (downloader P nodeId).Always (fun s => ContentAddressed s.node.store)
      (downloader P nodeId).init ops :=
  Machine.always_of_meets (fun _ _ _ h hstep hgen => Downloader.contentAddressed_step h hstep hgen)
    contentAddressed_empty hops

/-- A download of `b` from a peer that answers with this manifest and the chunk `b`. -/
def downloadWith (d : ManifestDict) : NodeOp :=
  .download (sha256Hash [0x62]) "" [.response 200 (some (.dict d))]
    [fun _ => .response 200 (some [0x62])]

/-- The chunk is named by its hash. -/
theorem contentAddressed_always_genuine :
    (downloader rawPackages "node").Always (fun s => ContentAddressed s.node.store)
      (downloader rawPackages "node").init
      [downloadWith (singleChunkManifest (sha256Hash [0x62]) (sha256Hash [0x62]))] := by
  apply contentAddressed_always
  intro t ht
  refine ⟨?_, trivial⟩
  intro info hinfo x hnone hans
  have hinfo' : info = { index := 0, chunkHash := sha256Hash [0x62], size := 1 } :=
    List.mem_singleton.1 hinfo
  rw [hinfo', answerFor, if_pos (storable_sha256Hash _)] at hans
  rw [hinfo', ← Option.some.inj hans]

/-- One wrong answer of a peer is cached under the name that was asked for. -/
theorem wrong_chunk_cached :
    ¬ ∀ s : Downloader, (downloader rawPackages "node").Reachable s →
      ContentAddressed s.node.store := by
  intro hclaim
  obtain ⟨t, ht⟩ : ∃ t, (downloader rawPackages "node").exec (downloader rawPackages "node").init
      (downloadWith (singleChunkManifest (sha256Hash [0x62]) "00")) = some t := ⟨_, rfl⟩
  have hreach : (downloader rawPackages "node").Reachable t := Machine.Reachable.init.step ht
  have hcached : t.node.store.loadChunk "00" = some [0x62] := by
    rw [← Option.some.inj ht]
    rfl
  have hname := hclaim t hreach "00" [0x62] hcached
  have hlen := congrArg String.length hname
  rw [length_sha256Hash] at hlen
  exact absurd hlen (by decide)

end ContentAddressed

end DistriStore
