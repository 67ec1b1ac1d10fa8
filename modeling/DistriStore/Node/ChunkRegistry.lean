import DistriStore.Advanced.GarbageCollector
import DistriStore.FileEngine.Writers
import DistriStore.Node.Intake

/-!
# The chunk registry and the disk

`/status` reports the chunks of a node twice: `chunk_count` counts the registry of `NodeState`, and
`local_chunks` lists the files of `LocalStore`.  Uploads and `replicate_chunks` write both.
Downloads, previews and resumable downloads cache the chunks that they fetch on disk only, and an
eviction deletes files only.

So the two agree in every state of a run exactly when nothing is fetched and nothing is evicted:
every operation stops before the first chunk that a peer would answer for, or asks for none
(`registry_mirrors_iff`).  This is for names without `chunk_`, as digests are: `list_chunks` takes
every occurrence of it out of a file name.
-/

namespace DistriStore.ChunkRegistry

open Lib

variable (P : Packages)

/-! ## Operations -/

inductive Operation where
  /-- An upload, or a call of `replicate_chunks`. -/
  | intake (call : Intake.Call)
  /-- `GET /download/{file_hash}`. -/
  | download (fileHash password : String) (manifestReplies : ManifestReplies)
      (replies : ChunkReplies)
  /-- `GET /preview/{file_hash}`; `replies i` is what the peers answer at the `i`-th load. -/
  | preview (fileHash password : String) (manifestReplies : ManifestReplies)
      (replies : ℕ → ChunkReplies) (pulls : ℕ)
  /-- `POST /download/{file_hash}/start`, up to the launch of the worker. -/
  | startDownload (fileHash : String) (manifestReplies : ManifestReplies)
  /-- The worker of a resumable download goes through one chunk. -/
  | workChunk (chunkHash : String) (replies : ChunkReplies)
  /-- A cycle of the storage monitor, next to `others` bytes in other files. -/
  | monitor (atime : String → ℚ) (unlinks : String → Bool) (maxStorageMb : ℤ) (others : ℕ)

/-- The worker loads a chunk and saves it if it is not on disk. -/
def workChunk (chunkHash : String) (replies : ChunkReplies) (store : LocalStore) : LocalStore :=
  match chunkLoader replies chunkHash store with
  | (.ok data, store) =>
    if store.hasChunk chunkHash then store else store.saveChunk chunkHash data
  | (.error _, store) => store

/-- The node when the operation is over. -/
def Operation.apply (node : Node) : Operation → Node
  | .intake call => call.apply P node
  | .download fileHash password manifestReplies replies => { node with
      store := (downloadFile P fileHash password manifestReplies replies node.store).2 }
  | .preview fileHash password manifestReplies replies pulls => { node with
      store := (previewFile P fileHash password manifestReplies replies pulls node.store).2 }
  | .startDownload fileHash manifestReplies =>
    { node with store := (startManifest fileHash manifestReplies node.store).2 }
  | .workChunk chunkHash replies =>
    { node with store := DistriStore.ChunkRegistry.workChunk chunkHash replies node.store }
  | .monitor atime unlinks maxStorageMb others =>
    { node with store := node.store.storageMonitorCycle atime unlinks maxStorageMb others }

/-- A node at the start of a process, over an empty storage directory. -/
def machine (nodeId : String) : Machine Node Operation where
  init := { state := { nodeId := nodeId } }
  exec node op := some (op.apply P node)

/-- The registry has the chunks that are listed from the disk. -/
def Mirrors (node : Node) : Prop :=
  ∀ c, c ∈ node.state.listChunks.map Prod.fst ↔ c ∈ node.store.listChunks

/-- The names that the operation may put on disk do not contain `chunk_`, which `list_chunks` takes
out of them. -/
def Operation.PlainNames (node : Node) : Operation → Prop
  | .intake call => ∀ c ∈ call.hashes P, Plain c
  | .download fileHash _ manifestReplies _ =>
    ∀ info ∈ requestedInfos fileHash manifestReplies node.store, Plain info.chunkHash
  | .preview fileHash _ manifestReplies _ _ =>
    ∀ info ∈ requestedInfos fileHash manifestReplies node.store, Plain info.chunkHash
  | .startDownload _ _ => True
  | .workChunk chunkHash _ => Plain chunkHash
  | .monitor _ _ _ _ => True

/-! ## Which peers an operation asks -/

/-- No peer has the chunk, or the disk cannot take it. -/
def Unanswered (replies : ChunkReplies) (chunkHash : String) : Prop :=
  answerFor replies chunkHash = none

/-- The first of these chunks that is not on disk. -/
def firstMissing (infos : List ChunkInfo) (store : LocalStore) : Option ChunkInfo :=
  infos.find? fun info => !store.hasChunk info.chunkHash

/-- The first chunk that a preview does not find on disk, and which load this is; `none` when it
ends before. -/
def firstStreamed (useZstd : Bool) (password : Option String) (store : LocalStore) :
    List ChunkInfo → Option Bytes → ℕ → Option (ChunkInfo × ℕ)
  | [], _, _ => none
  | info :: rest, decKey, i =>
    match store.loadChunk info.chunkHash with
    | none => some (info, i)
    | some data =>
      let keyed := info.encrypted && truthy password
      let decKey := if keyed && decKey.isNone then
          some (deriveKey (password.getD "") (slice data 1 (1 + saltSize))).1
        else decKey
      match workerDecode P useZstd (if keyed then decKey else none) data with
      | .error _ => none
      | .ok _ => firstStreamed useZstd password store rest decKey (i + 1)

/-- The same for a whole request. -/
def firstPreviewed (fileHash password : String) (manifestReplies : ManifestReplies) (pulls : ℕ)
    (store : LocalStore) : Option (ChunkInfo × ℕ) :=
  match (findManifest fileHash manifestReplies store).1 with
  | none => none
  | some body =>
    match body.manifest with
    | .error _ => none
    | .ok manifest =>
      let pwd := passwordOrNone password
      if manifest.chunks.any ChunkInfo.encrypted && !truthy pwd then none
      else firstStreamed P (decide (manifest.compression = "zstd")) pwd store
        ((orderInfos manifest.chunks).take pulls) none 0

/-- The operation keeps the registry and the disk together: the first chunk that it does not find
on disk, if any, is one that no peer has; and a cycle of the monitor is within the quota, or cannot
unlink any chunk. -/
def Operation.Synced (node : Node) : Operation → Prop
  | .intake _ => True
  | .download fileHash _ manifestReplies replies =>
    ∀ info ∈ firstMissing (requestedInfos fileHash manifestReplies node.store) node.store,
      Unanswered replies info.chunkHash
  | .preview fileHash password manifestReplies replies pulls =>
    ∀ q ∈ firstPreviewed P fileHash password manifestReplies pulls node.store,
      Unanswered (replies q.2) q.1.chunkHash
  | .startDownload _ _ => True
  | .workChunk chunkHash replies =>
    chunkHash ∉ node.store.chunkNames → Unanswered replies chunkHash
  | .monitor _ unlinks maxStorageMb others =>
    (node.store.getStorageSize others : ℤ) ≤ maxBytes maxStorageMb ∨
      ∀ c ∈ node.store.chunkNames, unlinks c = false

/-! ## What the operations do to the disk -/

/-- The same chunks are on disk. -/
def SameChunks (store store' : LocalStore) : Prop :=
  ∀ c, c ∈ store'.chunkNames ↔ c ∈ store.chunkNames

section Disk

variable {P} {store : LocalStore} {replies : ChunkReplies} {c : String}

lemma SameChunks.refl (store : LocalStore) : SameChunks store store := fun _ => Iff.rfl

lemma not_sameChunks {store' : LocalStore} (hbefore : c ∉ store.chunkNames)
    (hafter : c ∈ store'.chunkNames) : ¬ SameChunks store store' := fun h =>
  hbefore ((h c).1 hafter)

lemma sameChunks_findManifest (fileHash : String) (manifestReplies : ManifestReplies)
    (store : LocalStore) : SameChunks store (findManifest fileHash manifestReplies store).2 := by
  intro c
  simp only [LocalStore.mem_chunkNames, loadChunk_findManifest]

lemma hasChunk_eq_true : store.hasChunk c = true ↔ c ∈ store.chunkNames := by
  rw [LocalStore.hasChunk, Option.isSome_iff_exists, LocalStore.mem_chunkNames]

/-- What a look-up does to the disk. -/
lemma findChunk_disk (replies : ChunkReplies) (c : String) (store : LocalStore) :
    (∃ data, store.loadChunk c = some data ∧ findChunk replies c store = (some data, store)) ∨
      c ∉ store.chunkNames ∧ (Unanswered replies c ∧ findChunk replies c store = (none, store) ∨
        ¬ Unanswered replies c ∧ ∃ data store', findChunk replies c store = (some data, store') ∧
          c ∈ store'.chunkNames) := by
  rcases findChunk_cases replies c store with h | ⟨hnone, data, hans, h⟩ | ⟨hnone, hans, h⟩
  · exact Or.inl h
  · have hmissing : c ∉ store.chunkNames := by simp [LocalStore.mem_chunkNames, hnone]
    refine Or.inr ⟨hmissing, Or.inr ⟨by simp [Unanswered, hans], data, _, h, ?_⟩⟩
    exact LocalStore.mem_chunkNames.2
      ⟨data, by rw [LocalStore.loadChunk_saveChunk, if_pos rfl]⟩
  · have hmissing : c ∉ store.chunkNames := by simp [LocalStore.mem_chunkNames, hnone]
    exact Or.inr ⟨hmissing, Or.inl ⟨hans, h⟩⟩

/-- Chunks on disk stay there while others are looked for. -/
lemma mem_chunkNames_findChunk (replies : ChunkReplies) (c' : String)
    (h : c ∈ store.chunkNames) : c ∈ (findChunk replies c' store).2.chunkNames := by
  obtain ⟨data, hdata⟩ := LocalStore.mem_chunkNames.1 h
  exact LocalStore.mem_chunkNames.2 ⟨data, (cached_findChunk replies c' store).keeps c data hdata⟩

lemma mem_chunkNames_findChunks (replies : ChunkReplies) (infos : List ChunkInfo)
    (h : c ∈ store.chunkNames) : c ∈ (findChunks replies infos store).2.chunkNames := by
  obtain ⟨data, hdata⟩ := LocalStore.mem_chunkNames.1 h
  exact LocalStore.mem_chunkNames.2
    ⟨data, (cached_findChunks replies infos store).keeps c data hdata⟩

/-- A download leaves the disk as it is exactly when no peer answers for the first chunk that it
misses. -/
lemma sameChunks_findChunks_iff (replies : ChunkReplies) (infos : List ChunkInfo)
    (store : LocalStore) :
    SameChunks store (findChunks replies infos store).2 ↔
      ∀ info ∈ firstMissing infos store, Unanswered replies info.chunkHash := by
  induction infos with
  | nil => exact iff_of_true (SameChunks.refl store) fun info h => by cases h
  | cons info rest ih =>
    rw [findChunks]
    rcases findChunk_disk replies info.chunkHash store with
      ⟨data, hl, hf⟩ | ⟨hmissing, ⟨hun, hf⟩ | ⟨hans, data, store', hf, hmem⟩⟩
    · have hhas : store.hasChunk info.chunkHash = true :=
        hasChunk_eq_true.2 (LocalStore.mem_chunkNames.2 ⟨data, hl⟩)
      rw [firstMissing, List.find?_cons_of_neg (by simp [hhas]), ← firstMissing, ← ih, hf]
      dsimp only
      split <;> simp_all
    · have hnot : store.hasChunk info.chunkHash = false :=
        Bool.eq_false_iff.2 fun h => hmissing (hasChunk_eq_true.1 h)
      rw [firstMissing, List.find?_cons_of_pos (by simp [hnot]), hf]
      refine iff_of_true (SameChunks.refl store) fun info' hinfo' => ?_
      cases hinfo'
      exact hun
    · have hnot : store.hasChunk info.chunkHash = false :=
        Bool.eq_false_iff.2 fun h => hmissing (hasChunk_eq_true.1 h)
      rw [firstMissing, List.find?_cons_of_pos (by simp [hnot]), hf]
      refine iff_of_false (not_sameChunks hmissing ?_) fun h => hans (h info rfl)
      have hkept := mem_chunkNames_findChunks replies rest hmem
      dsimp only
      split <;> simp_all

lemma downloadFile_store (fileHash password : String) (manifestReplies : ManifestReplies)
    (replies : ChunkReplies) (store : LocalStore) :
    (downloadFile P fileHash password manifestReplies replies store).2 =
      (findChunks replies (requestedInfos fileHash manifestReplies store)
        (findManifest fileHash manifestReplies store).2).2 := by
  unfold downloadFile requestedInfos
  cases findManifest fileHash manifestReplies store with
  | mk found store' =>
    cases found with
    | none => rfl
    | some body =>
      dsimp only
      cases body.manifest with
      | error e => rfl
      | ok manifest =>
        dsimp only
        cases findChunks replies manifest.chunks store' with
        | mk outcome store'' => cases outcome <;> rfl

lemma hasChunk_findManifest (fileHash : String) (manifestReplies : ManifestReplies)
    (store : LocalStore) (c : String) :
    (findManifest fileHash manifestReplies store).2.hasChunk c = store.hasChunk c := by
  rw [LocalStore.hasChunk, loadChunk_findManifest, LocalStore.hasChunk]

lemma sameChunks_downloadFile_iff (fileHash password : String) (manifestReplies : ManifestReplies)
    (replies : ChunkReplies) (store : LocalStore) :
    SameChunks store (downloadFile P fileHash password manifestReplies replies store).2 ↔
      ∀ info ∈ firstMissing (requestedInfos fileHash manifestReplies store) store,
        Unanswered replies info.chunkHash := by
  have hmanifest := sameChunks_findManifest fileHash manifestReplies store
  have hiff := sameChunks_findChunks_iff replies
    (requestedInfos fileHash manifestReplies store)
    (findManifest fileHash manifestReplies store).2
  rw [firstMissing] at hiff
  simp only [hasChunk_findManifest] at hiff
  rw [downloadFile_store, firstMissing, ← hiff]
  exact forall_congr' fun c => by rw [hmanifest c]

/-- What a preview asks for depends on the chunks on disk only. -/
lemma firstStreamed_congr {store' : LocalStore} (h : ∀ c, store'.loadChunk c = store.loadChunk c)
    {useZstd : Bool} {password : Option String} {infos : List ChunkInfo} {decKey : Option Bytes}
    {i : ℕ} : firstStreamed P useZstd password store' infos decKey i =
      firstStreamed P useZstd password store infos decKey i := by
  induction infos generalizing decKey i with
  | nil => rfl
  | cons info rest ih => simp only [firstStreamed, h, ih]

/-- The same for the chunks that a preview streams. -/
lemma sameChunks_streamLoop_iff {useZstd : Bool} {password : Option String}
    (replies : ℕ → ChunkReplies) (infos : List ChunkInfo) (decKey : Option Bytes) (i : ℕ)
    (store : LocalStore) :
    SameChunks store (pipelineStreamLoop P useZstd password (previewLoader replies) infos decKey
      (store, i)).2.1 ↔ ∀ q ∈ firstStreamed P useZstd password store infos decKey i,
        Unanswered (replies q.2) q.1.chunkHash := by
  induction infos generalizing decKey i with
  | nil => exact iff_of_true (SameChunks.refl store) fun q h => by cases h
  | cons info rest ih =>
    rw [pipelineStreamLoop, firstStreamed]
    rcases findChunk_disk (replies i) info.chunkHash store with
      ⟨data, hl, hf⟩ | ⟨hmissing, ⟨hun, hf⟩ | ⟨hans, data, store', hf, hmem⟩⟩
    · simp only [previewLoader, hf, hl]
      cases workerDecode P useZstd
        (if info.encrypted && truthy password then
          if info.encrypted && truthy password && decKey.isNone then
            some (deriveKey (password.getD "") (slice data 1 (1 + saltSize))).1
          else decKey
        else none) data with
      | error e => exact iff_of_true (SameChunks.refl store) fun q h => by cases h
      | ok plaintext => exact ih _ _
    · have hnone : store.loadChunk info.chunkHash = none :=
        Option.eq_none_iff_forall_ne_some.2 fun data hdata =>
          hmissing (LocalStore.mem_chunkNames.2 ⟨data, hdata⟩)
      simp only [previewLoader, hf, hnone]
      refine iff_of_true (SameChunks.refl store) fun q hq => ?_
      cases hq
      exact hun
    · have hnone : store.loadChunk info.chunkHash = none :=
        Option.eq_none_iff_forall_ne_some.2 fun data hdata =>
          hmissing (LocalStore.mem_chunkNames.2 ⟨data, hdata⟩)
      simp only [previewLoader, hf, hnone]
      refine iff_of_false (not_sameChunks hmissing ?_) fun h => hans (h (info, i) rfl)
      split
      · exact hmem
      · refine pipelineStreamLoop_state (I := fun s => info.chunkHash ∈ s.1.chunkNames) rest ?_ _
          (store', i + 1) hmem
        intro info' _ s hs
        have hkept := mem_chunkNames_findChunk (replies s.2) info'.chunkHash hs
        unfold previewLoader
        split <;> simp_all

lemma sameChunks_previewFile_iff (fileHash password : String) (manifestReplies : ManifestReplies)
    (replies : ℕ → ChunkReplies) (pulls : ℕ) (store : LocalStore) :
    SameChunks store (previewFile P fileHash password manifestReplies replies pulls store).2 ↔
      ∀ q ∈ firstPreviewed P fileHash password manifestReplies pulls store,
        Unanswered (replies q.2) q.1.chunkHash := by
  have hmanifest := sameChunks_findManifest fileHash manifestReplies store
  have hload (c : String) := loadChunk_findManifest manifestReplies store fileHash c
  unfold previewFile firstPreviewed
  cases hfound : findManifest fileHash manifestReplies store with
  | mk found store' =>
    rw [hfound] at hmanifest hload
    have hidle : SameChunks store store' ↔
        ∀ q ∈ (none : Option (ChunkInfo × ℕ)), Unanswered (replies q.2) q.1.chunkHash :=
      iff_of_true hmanifest fun q h => by cases h
    cases found with
    | none => exact hidle
    | some body =>
      dsimp only
      cases body.manifest with
      | error e => exact hidle
      | ok manifest =>
        dsimp only
        split
        · exact hidle
        · rw [← firstStreamed_congr hload, ← sameChunks_streamLoop_iff]
          exact forall_congr' fun c => by rw [hmanifest c]

/-- What the loader delivers is already on disk when the worker looks for it. -/
lemma workChunk_eq (c : String) (replies : ChunkReplies) (store : LocalStore) :
    workChunk c replies store = (findChunk replies c store).2 := by
  unfold workChunk chunkLoader
  rcases findChunk_disk replies c store with
    ⟨data, hl, hf⟩ | ⟨-, ⟨-, hf⟩ | ⟨-, data, store', hf, hmem⟩⟩
  · simp only [hf, hasChunk_eq_true.2 (LocalStore.mem_chunkNames.2 ⟨data, hl⟩), if_true]
  · simp only [hf]
  · simp only [hf, hasChunk_eq_true.2 hmem, if_true]

lemma sameChunks_workChunk_iff (c : String) (replies : ChunkReplies) (store : LocalStore) :
    SameChunks store (workChunk c replies store) ↔
      (c ∉ store.chunkNames → Unanswered replies c) := by
  rw [workChunk_eq]
  rcases findChunk_disk replies c store with
    ⟨data, hl, hf⟩ | ⟨hmissing, ⟨hun, hf⟩ | ⟨hans, data, store', hf, hmem⟩⟩ <;> rw [hf]
  · have hmem : c ∈ store.chunkNames := LocalStore.mem_chunkNames.2 ⟨data, hl⟩
    exact iff_of_true (SameChunks.refl store) fun h => absurd hmem h
  · exact iff_of_true (SameChunks.refl store) fun _ => hun
  · exact iff_of_false (not_sameChunks hmissing hmem) fun h => hans (h hmissing)

end Disk

/-! ## Names as they are listed -/

/-- All chunks on disk are listed under their names. -/
def PlainStore (store : LocalStore) : Prop := ∀ c ∈ store.chunkNames, Plain c

section Names

variable {P} {store store' : LocalStore}

lemma PlainStore.cached (h : PlainStore store) {replies : ChunkReplies} {names : List String}
    (hcached : Cached replies names store store') (hnames : ∀ c ∈ names, Plain c) :
    PlainStore store' := by
  intro c hc
  obtain ⟨data, hdata⟩ := LocalStore.mem_chunkNames.1 hc
  rcases hcached.gains c data hdata with hbefore | ⟨hmem, -, -⟩
  · exact h c (LocalStore.mem_chunkNames.2 ⟨data, hbefore⟩)
  · exact hnames c hmem

lemma PlainStore.findManifest (h : PlainStore store) (fileHash : String)
    (manifestReplies : ManifestReplies) :
    PlainStore (DistriStore.findManifest fileHash manifestReplies store).2 := fun c hc =>
  h c ((sameChunks_findManifest fileHash manifestReplies store c).1 hc)

lemma PlainStore.findChunk (h : PlainStore store) (replies : ChunkReplies) {c : String}
    (hc : Plain c) : PlainStore (DistriStore.findChunk replies c store).2 :=
  h.cached (cached_findChunk replies c store) fun _ hmem => List.mem_singleton.1 hmem ▸ hc

lemma PlainStore.previewFile (h : PlainStore store) {fileHash password : String}
    {manifestReplies : ManifestReplies} {replies : ℕ → ChunkReplies} {pulls : ℕ}
    (hplain : ∀ info ∈ requestedInfos fileHash manifestReplies store, Plain info.chunkHash) :
    PlainStore (DistriStore.previewFile P fileHash password manifestReplies replies pulls
      store).2 := by
  have hfound := h.findManifest fileHash manifestReplies
  unfold requestedInfos at hplain
  unfold DistriStore.previewFile
  cases hm : DistriStore.findManifest fileHash manifestReplies store with
  | mk found store₁ =>
    rw [hm] at hfound hplain
    cases found with
    | none => exact hfound
    | some body =>
      dsimp only at hplain ⊢
      cases hbody : body.manifest with
      | error e => exact hfound
      | ok manifest =>
        simp only [hbody] at hplain ⊢
        split
        · exact hfound
        · refine pipelineStreamLoop_state (I := fun s : LocalStore × ℕ => PlainStore s.1) _ ?_ none
            (store₁, 0) hfound
          rintro info hinfo ⟨st, i⟩ hst
          have hmem : info ∈ manifest.chunks :=
            (mem_sortBy ChunkInfo.index).1 (List.mem_of_mem_take hinfo)
          have hfetched := hst.findChunk (replies i) (hplain info hmem)
          unfold previewLoader
          split <;> simp_all

/-- Plain names stay plain. -/
lemma PlainStore.apply {node : Node} (h : PlainStore node.store) {op : Operation}
    (hop : op.PlainNames P node) : PlainStore (op.apply P node).store := by
  cases op with
  | intake call =>
    intro c hc
    rcases ((Intake.takes_apply P call node).disk c).1 hc with hc | hc
    · exact hop c hc
    · exact h c hc
  | download fileHash password manifestReplies replies =>
    refine (h.findManifest fileHash manifestReplies).cached (cached_downloadFile ..) fun c hc => ?_
    obtain ⟨info, hinfo, rfl⟩ := List.mem_map.1 hc
    exact hop info hinfo
  | preview fileHash password manifestReplies replies pulls => exact h.previewFile hop
  | startDownload fileHash manifestReplies =>
    have hfound := h.findManifest fileHash manifestReplies
    dsimp only [Operation.apply]
    unfold startManifest
    cases hm : DistriStore.findManifest fileHash manifestReplies node.store with
    | mk found store =>
      rw [hm] at hfound
      cases found <;> exact hfound
  | workChunk chunkHash replies =>
    have hfetched := h.findChunk replies hop
    dsimp only [Operation.apply]
    rwa [workChunk_eq]
  | monitor atime unlinks maxStorageMb others =>
    intro c hc
    obtain ⟨data, hdata⟩ := LocalStore.mem_chunkNames.1 hc
    exact h c (LocalStore.mem_chunkNames.2 ⟨data, LocalStore.loadChunk_of_cycle hdata⟩)

end Names

/-! ## The registry mirrors the disk -/

section Mirror

variable {P} {node : Node}

/-- The registry has the chunks that are on disk. -/
def Agrees (node : Node) : Prop :=
  ∀ c, c ∈ node.state.listChunks.map Prod.fst ↔ c ∈ node.store.chunkNames

lemma mirrors_iff_agrees (h : PlainStore node.store) : Mirrors node ↔ Agrees node := by
  unfold Mirrors Agrees
  rw [LocalStore.listChunks_of_plain h]

/-- An operation that writes the disk only. -/
lemma agrees_store_iff (h : Agrees node) (store : LocalStore) :
    Agrees { node with store := store } ↔ SameChunks node.store store :=
  forall_congr' fun c => by
    rw [h c]
    exact Iff.comm

/-- An upload writes both. -/
lemma agrees_of_takes {cs : List String} {node' : Node} (h : Agrees node)
    (htakes : Intake.Takes cs node node') : Agrees node' := by
  intro c
  rw [htakes.disk, ← h c]
  exact htakes.registry c

lemma agrees_apply_iff (h : Agrees node) (op : Operation) :
    Agrees (op.apply P node) ↔ op.Synced P node := by
  cases op with
  | intake call => exact iff_of_true (agrees_of_takes h (Intake.takes_apply P call node)) trivial
  | download fileHash password manifestReplies replies =>
    exact (agrees_store_iff h _).trans (sameChunks_downloadFile_iff ..)
  | preview fileHash password manifestReplies replies pulls =>
    exact (agrees_store_iff h _).trans (sameChunks_previewFile_iff ..)
  | startDownload fileHash manifestReplies =>
    refine (agrees_store_iff h _).trans (iff_of_true ?_ trivial)
    have hsame := sameChunks_findManifest fileHash manifestReplies node.store
    unfold startManifest
    cases hfound : findManifest fileHash manifestReplies node.store with
    | mk found store =>
      rw [hfound] at hsame
      cases found <;> exact hsame
  | workChunk chunkHash replies =>
    exact (agrees_store_iff h _).trans (sameChunks_workChunk_iff ..)
  | monitor atime unlinks maxStorageMb others =>
    exact (agrees_store_iff h _).trans LocalStore.chunkNames_cycle_iff

end Mirror

/-- The chunks of an upload are named by their digests. -/
lemma plainNames_upload (file : SourceFile) (password : String) (salt : Salt) (nonces : ℕ → Nonce)
    (peers : Dict String PeerInfo) (envs : ℕ → ReplicationEnv) (node : Node) :
    (Operation.intake (.upload file password salt nonces peers envs)).PlainNames P node := by
  intro c hc
  obtain ⟨p, hp, rfl⟩ := List.mem_map.1 hc
  simp only [Intake.Call.pairs, chunkFile_eq, writtenManifest, zip_map_fst_map_snd] at hp
  rw [← hash_of_mem_encodedChunks hp]
  exact plain_sha256Hash p.2

/-- **The registry mirrors the disk exactly while nothing is fetched and nothing is evicted**, in a
run in which no chunk name contains `chunk_`. -/
theorem registry_mirrors_iff (P : Packages) (nodeId : String) (ops : List Operation)
    (hplain : (machine P nodeId).Meets (fun node op => op.PlainNames P node)
      (machine P nodeId).init ops) :
    (machine P nodeId).Always Mirrors (machine P nodeId).init ops ↔
      (machine P nodeId).Meets (fun node op => op.Synced P node) (machine P nodeId).init ops := by
  refine Machine.always_iff_meets_of (I := fun node => PlainStore node.store) ?_ ?_ ?_ ?_ hplain
  · intro node op node' hnode hexec hop
    cases hexec
    exact hnode.apply hop
  · intro node op node' hnode h hexec hop
    cases hexec
    rw [mirrors_iff_agrees hnode] at h
    rw [mirrors_iff_agrees (hnode.apply hop)]
    exact agrees_apply_iff h op
  · intro c hc
    cases hc
  · exact fun c => Iff.rfl

/-- An upload of a file with the one byte 0 while no peer is alive. -/
def zeroUpload : Intake.Call :=
  .upload ⟨"zero.bin", [0]⟩ "" default (fun _ => default) ∅ fun _ => ⟨∅, fun _ => .ok false⟩

/-- The chunk of an upload is in the registry and on disk, and a cycle within the quota keeps it. -/
theorem registry_mirrors_iff_uploaded :
    (machine rawPackages "aa").Always Mirrors (machine rawPackages "aa").init
      [.intake zeroUpload, .monitor (fun _ => 0) (fun _ => false) 1 0] := by
  refine (registry_mirrors_iff rawPackages "aa" _ ?_).2 ?_
  · intro t ht
    exact ⟨plainNames_upload rawPackages _ _ _ _ _ _ _, fun _ _ => ⟨trivial, trivial⟩⟩
  · intro t ht
    exact ⟨trivial, fun _ _ => ⟨Or.inr fun _ _ => rfl, trivial⟩⟩

/-- A file with one chunk, which another node has. -/
def remoteManifest : ManifestDict where
  originalFilename := some "zero.bin"
  originalSize := some 1
  fileHash := some "f0"
  chunks := some
    [{ index := some 0, chunkHash := some "c0", size := some 1, encrypted := some false }]

/-- **A cross-node download caches a chunk that the registry does not have.** -/
theorem download_unregistered : ¬ ∀ (P : Packages) (nodeId : String) (ops : List Operation),
    (machine P nodeId).Always Mirrors (machine P nodeId).init ops := by
  intro hall
  have hmirrors := (hall rawPackages "aa" [.download "f0" ""
    [.response 200 (some (.dict remoteManifest))]
    [fun _ => .response 200 (some [0])]]).last rfl
  exact List.not_mem_nil ((hmirrors "c0").2 (by decide +kernel))

end DistriStore.ChunkRegistry
