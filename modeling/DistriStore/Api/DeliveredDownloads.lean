import DistriStore.Api.FinalMergeEnds
import DistriStore.Api.StoredDownloads
import DistriStore.FileEngine.Roundtrip

/-!
# Resumable downloads deliver the file

From the requests for a download to the file that its merge leaves: the bookkeeping of the manager
says that nothing is missing when a worker comes to its final merge, so all chunks that the manifest
names are on disk, they are genuine when all chunks that were taken in were, and the merge puts them
together in whatever order its tasks take their steps (`resumable_download_delivers`).
-/

namespace DistriStore.FinalMerge

open Lib

/-! ## A merge that delivers -/

variable {c : Config} {pairs : List (ChunkInfo × Bytes)} {raws : List Bytes}

lemma servesFrom_loadFn {i : ℕ} (h : ∀ j p, pairs[j]? = some p → c.stored (i + j) = some p.2) :
    ServesFrom (loadFn c) pairs i (i + pairs.length) := by
  induction pairs generalizing i with
  | nil => rfl
  | cons p pairs ih =>
    have hfirst : c.stored i = some p.2 := h 0 p rfl
    refine ⟨i + 1, by rw [loadFn, hfirst], ?_⟩
    have hrest := @ih (i + 1) fun j q hq => by
      rw [Nat.add_right_comm, Nat.add_assoc]
      exact h (j + 1) q hq
    rwa [List.length_cons, Nat.add_comm pairs.length, ← Nat.add_assoc]

/-- With all chunks on disk the merge leaves what they decode to. -/
lemma sequentialResult_of_decodes (hinfos : orderInfos c.manifest.chunks = pairs.map Prod.fst)
    (hstored : ∀ j p, pairs[j]? = some p → c.stored j = some p.2)
    (h : List.Forall₂ (fun p raw => c.decode p.1 p.2 = .ok raw) pairs raws)
    (hfile : sha256Hash raws.flatten = c.manifest.fileHash) :
    sequentialResult c = (.ok (), some raws.flatten) := by
  have hserves : ServesFrom (loadFn c) pairs 0 (0 + pairs.length) :=
    servesFrom_loadFn fun j p hp => by rw [Nat.zero_add]; exact hstored j p hp
  have hmerge := pipelineMergeToDisk_of_decodes (P := c.P) (q := some c.password) hinfos h hfile
    hserves
  rw [sequentialResult, sequential, hmerge]

end DistriStore.FinalMerge

namespace DistriStore.StoredDownloads

open Lib DownloadManager

/-! ## Chunks that are taken in -/

/-- What the manager is asked to do in a step of the node. -/
def managerLabel (x : State) : Label → Option DownloadManager.Label
  | .start fileHash password written =>
    (x.store.loadManifest fileHash).map fun d => .start fileHash d password written
  | .answered j d password written =>
    (x.asking[j]?).bind fun fileHash =>
      if d.truthy then some (.start fileHash d password written) else none
  | .resume fileHash password =>
    some (.resume fileHash password (x.store.loadManifest fileHash))
  | .fetched w _ written => some (.fetched w none written)
  | .manager l => some l
  | _ => none

/-- A chunk that a step saves has the hash it is saved under. -/
def Genuine (x : State) : Label → Prop
  | .fetched w (some data) written => ∀ e ∈ fetchedChunk x.manager (.fetched w none written),
      sha256Hash data = e.2.chunkHash
  | .save chunkHash data => sha256Hash data = chunkHash
  | _ => True

/-- The manifests of a file agree on its chunk indices, and chunks are genuine. -/
structure Honest (count : String → ℕ) (x : State) (l : Label) : Prop where
  agreeing : ∀ l' ∈ managerLabel x l, Agreeing count l'
  genuine : Genuine x l

variable {count : String → ℕ} {x y : State} {l : Label}

/-- The manager takes the step it is asked for, or none. -/
lemma exec_managerLabel (h : exec x l = some y) : y.manager = x.manager ∨
    ∃ l' ∈ managerLabel x l, DownloadManager.exec x.manager l' = some y.manager := by
  cases l with
  | start fileHash password written =>
    simp only [exec, Option.bind_eq_bind, Option.bind_eq_some_iff] at h
    obtain ⟨d, hd, manager, hstep, h⟩ := h
    cases h
    exact Or.inr ⟨_, Option.map_eq_some_iff.2 ⟨d, hd, rfl⟩, hstep⟩
  | ask fileHash =>
    simp only [exec] at h
    split at h
    · cases h
      exact Or.inl rfl
    · cases h
  | answered j d password written =>
    simp only [exec, Option.bind_eq_bind, Option.bind_eq_some_iff] at h
    obtain ⟨fileHash, hj, manager, hstep, h⟩ := h
    cases h
    unfold startAnswered at hstep
    split at hstep
    · next hd =>
      exact Or.inr ⟨_, Option.bind_eq_some_iff.2 ⟨fileHash, hj, if_pos hd⟩, hstep⟩
    · cases hstep
      exact Or.inl rfl
  | unanswered j =>
    obtain ⟨fileHash, hj, h⟩ := Option.bind_eq_some_iff.1 h
    cases h
    exact Or.inl rfl
  | resume fileHash password =>
    simp only [exec, Option.bind_eq_bind, Option.bind_eq_some_iff] at h
    obtain ⟨manager, hstep, h⟩ := h
    cases h
    exact Or.inr ⟨_, rfl, hstep⟩
  | fetched w answer written =>
    simp only [exec, Option.bind_eq_bind, Option.bind_eq_some_iff] at h
    obtain ⟨e, he, store, hstore, manager, hstep, h⟩ := h
    cases h
    exact Or.inr ⟨_, rfl, hstep⟩
  | manager l =>
    simp only [exec, Option.bind_eq_bind, Option.bind_eq_some_iff] at h
    obtain ⟨manager, hstep, h⟩ := h
    cases h
    unfold managerStep at hstep
    split at hstep
    · cases hstep
    · exact Or.inr ⟨_, rfl, hstep⟩
  | monitor atime unlinks maxStorageMb others =>
    cases h
    exact Or.inl rfl
  | save chunkHash data =>
    obtain ⟨-, h⟩ := Option.ite_none_right_eq_some.1 h
    cases h
    exact Or.inl rfl
  | saveManifest fileHash d =>
    cases h
    exact Or.inl rfl

lemma contentAddressed_cacheChunk {store : LocalStore} {c : String} {data : Bytes}
    (hs : ContentAddressed store) (hdata : sha256Hash data = c) :
    ContentAddressed (cacheChunk store c data) := by
  unfold cacheChunk
  split
  · exact hs
  · exact hs.saveChunk hdata

lemma contentAddressed_keepManifest {store : LocalStore} (hs : ContentAddressed store)
    (fileHash : String) (d : ManifestDict) :
    ContentAddressed (keepManifest store fileHash d) := by
  unfold keepManifest
  split
  · exact hs
  · exact hs

lemma contentAddressed_exec (hx : ContentAddressed x.store) (h : exec x l = some y)
    (hl : Genuine x l) : ContentAddressed y.store := by
  cases l with
  | start fileHash password written =>
    simp only [exec, Option.bind_eq_bind, Option.bind_eq_some_iff] at h
    obtain ⟨d, hd, manager, hstep, h⟩ := h
    cases h
    exact hx
  | ask fileHash =>
    simp only [exec] at h
    split at h
    · cases h
      exact hx
    · cases h
  | answered j d password written =>
    simp only [exec, Option.bind_eq_bind, Option.bind_eq_some_iff] at h
    obtain ⟨fileHash, hj, manager, hstep, h⟩ := h
    cases h
    exact contentAddressed_keepManifest hx fileHash d
  | unanswered j =>
    obtain ⟨fileHash, hj, h⟩ := Option.bind_eq_some_iff.1 h
    cases h
    exact hx
  | resume fileHash password =>
    simp only [exec, Option.bind_eq_bind, Option.bind_eq_some_iff] at h
    obtain ⟨manager, hstep, h⟩ := h
    cases h
    exact hx
  | fetched w answer written =>
    simp only [exec, Option.bind_eq_bind, Option.bind_eq_some_iff] at h
    obtain ⟨e, he, store, hstore, manager, hstep, h⟩ := h
    cases h
    cases answer with
    | none =>
      obtain ⟨data, hdata, rfl⟩ := Option.map_eq_some_iff.1 hstore
      exact contentAddressed_cacheChunk hx (hx _ data hdata)
    | some data =>
      obtain ⟨-, hstore⟩ := Option.ite_none_right_eq_some.1 hstore
      obtain rfl := Option.some.inj hstore
      exact contentAddressed_cacheChunk (hx.saveChunk (hl e he)) (hl e he)
  | manager l =>
    simp only [exec, Option.bind_eq_bind, Option.bind_eq_some_iff] at h
    obtain ⟨manager, hstep, h⟩ := h
    cases h
    exact hx
  | monitor atime unlinks maxStorageMb others =>
    cases h
    refine hx.of_loads fun c data hdata => Or.inl ?_
    unfold LocalStore.storageMonitorCycle at hdata
    dsimp only at hdata
    split at hdata
    · exact LocalStore.loadChunk_of_evictOldestChunks hdata
    · exact hdata
  | save chunkHash data =>
    obtain ⟨-, h⟩ := Option.ite_none_right_eq_some.1 h
    cases h
    exact hx.saveChunk hl
  | saveManifest fileHash d =>
    cases h
    exact contentAddressed_keepManifest hx fileHash d

/-! ## At the final merge -/

/-- The final merge of a worker, with the chunks that are on disk. -/
def finalMerge (P : Packages) (x : State) (worker : Worker) (o : DownloadState) :
    FinalMerge.Config where
  P := P
  manifest := worker.manifest
  password := o.password
  stored i := ((orderInfos worker.manifest.chunks)[i]?).bind fun info =>
    x.store.loadChunk info.chunkHash

lemma namedChunk_of_mem {store : LocalStore} {fileHash : String} {d : ManifestDict}
    {manifest : FileManifest} (hload : store.loadManifest fileHash = some d)
    (hdict : FileManifest.fromDict d = .ok manifest)
    (hnodup : (manifest.chunks.map ChunkInfo.index).Nodup) {info : ChunkInfo}
    (hinfo : info ∈ manifest.chunks) :
    namedChunk store fileHash info.index = some info.chunkHash := by
  simp only [namedChunk, hload, hdict]
  cases hfind : manifest.chunks.find? fun info' => info'.index = info.index with
  | none => exact absurd (decide_eq_true rfl) (List.find?_eq_none.1 hfind info hinfo)
  | some info' =>
    have hindex : info'.index = info.index := by simpa using List.find?_some hfind
    rw [List.inj_on_of_nodup_map hnodup (List.mem_of_find?_eq_some hfind) hinfo hindex]
    rfl

/-- When the manifest on the node is the one of the worker, all chunks are on disk at the merge. -/
lemma exists_loadChunk_of_merging (hx : Sound x) (hi : Inv Set.univ count x.manager) {w : ℕ}
    {worker : Worker} (hw : x.manager.workers[w]? = some worker)
    (hphase : worker.phase = .merging) {d : ManifestDict}
    (hload : x.store.loadManifest worker.fileHash = some d)
    (hdict : FileManifest.fromDict d = .ok worker.manifest) :
    ∀ info ∈ worker.manifest.chunks, ∃ data, x.store.loadChunk info.chunkHash = some data := by
  intro info hinfo
  obtain ⟨hindexed, o, ho, hhash, hmerging⟩ := hi.worker w worker hw
  rw [hphase] at hmerging
  have hmissing : o.missingChunks = [] := hmerging trivial
  replace hindexed := hindexed trivial
  have hobject := hi.object _ o ho
  have hcompleted : info.index ∈ o.completedChunks := by
    have hmem : info.index ∈ (List.range (count worker.fileHash)).map Int.ofNat :=
      hindexed.mem_iff.1 (List.mem_map_of_mem hinfo)
    obtain ⟨n, hn, heq⟩ := List.mem_map.1 hmem
    have htotal : o.totalChunks = count worker.fileHash := hhash ▸ hobject.total trivial
    refine ((hobject.exact.cover info.index).2 ⟨?_, ?_⟩).resolve_left ?_
    · exact heq ▸ Int.natCast_nonneg n
    · rw [← heq, htotal]
      exact Int.ofNat_lt.2 (List.mem_range.1 hn)
    · rw [hmissing]
      exact List.not_mem_nil
  have hnodup : (worker.manifest.chunks.map ChunkInfo.index).Nodup :=
    hindexed.nodup_iff.2 (List.nodup_range.map fun a b hab => Int.ofNat.inj hab)
  have hworking : Working x.manager worker.obj := ⟨w, worker, hw, rfl, by rw [hphase]; simp⟩
  obtain ⟨o', ho', hdisk⟩ := hx.counts.object worker.obj (Or.inr (Or.inl hworking))
  obtain rfl := Option.some.inj (ho.symm.trans ho')
  exact LocalStore.mem_chunkNames.1
    (hdisk _ hcompleted _ (hhash ▸ namedChunk_of_mem hload hdict hnodup hinfo))

/-! ## Runs -/

/-- What a run among honest peers keeps. -/
structure Trusted (count : String → ℕ) (x : State) : Prop where
  sound : Sound x
  indexed : Inv Set.univ count x.manager
  addressed : ContentAddressed x.store

lemma Trusted.step (hx : Trusted count x) (h : exec x l = some y)
    (hl : Safe x l ∧ Honest count x l) : Trusted count y where
  sound := sound_step hx.sound h hl.1
  indexed := by
    rcases exec_managerLabel h with hsame | ⟨l', hl', hstep⟩
    · rw [hsame]
      exact hx.indexed
    · exact inv_exec hx.indexed hstep fun h _ => (hl.2.agreeing l' hl').agreed h
  addressed := contentAddressed_exec hx.addressed h hl.2.genuine

lemma Trusted.of_run {store : LocalStore} {ls : List Label} (hstore : ContentAddressed store)
    (hmeets : (machine store).Meets (fun x l => Safe x l ∧ Honest count x l) (machine store).init
      ls)
    (hrun : (machine store).run (machine store).init ls = some x) : Trusted count x := by
  have htrusted : (machine store).Always (Trusted count) (machine store).init ls :=
    Machine.always_of_meets (fun x l y hx hy hl => hx.step hy hl)
      ⟨sound_init store, inv_init, hstore⟩ hmeets
  exact htrusted.last hrun

/-- A worker has come to the final merge of a file: its manifest is the one on the node. -/
structure Merges (x : State) (worker : Worker) (o : DownloadState) : Prop where
  running : worker ∈ x.manager.workers
  phase : worker.phase = .merging
  object : x.manager.objects[worker.obj]? = some o
  manifest : ∃ d, x.store.loadManifest worker.fileHash = some d ∧
    FileManifest.fromDict d = .ok worker.manifest

/-! ## A file of one byte -/

def byteChunk : Bytes := [40, 181, 47, 253, 32, 1, 9, 0, 0, 97]

def byteHash : String := "ca978112ca1bbdcafac231b39a23dc4da786eff8147c4e72b9807785afee48bb"

def byteChunkHash : String := "47091afb1c226843b9e819d75ed9684f42073994761521e3f57b1697ce5b09c7"

def byteManifest : FileManifest where
  originalFilename := "a.txt"
  originalSize := 1
  fileHash := byteHash
  chunkSize := 1
  merkleRoot := byteChunkHash
  compression := "zstd"
  chunks := [⟨0, byteChunkHash, 10, false⟩]

lemma hash_byteChunk : sha256Hash byteChunk = byteChunkHash := by decide +kernel

lemma runWriter_byte : runWriter rawPackages .chunkFile "a.txt" (some ⟨"a.txt", [0x61]⟩) 1
    (some "") default default = .ok (byteManifest, [byteChunk]) := by
  have hblocks : readBlocks 1 [0x61] = [[0x61]] := by simp [readBlocks]
  have hpairs : encodedChunks rawPackages (some "") default default [0x61] 1 =
      [(⟨0, byteChunkHash, 10, false⟩, byteChunk)] := by
    rw [encodedChunks, streamChunks, hblocks, ← hash_byteChunk]
    rfl
  have hfile : sha256Hash [0x61] = byteHash := by decide +kernel
  rw [runWriter_eq, hpairs, writtenManifest, hfile]
  rfl

/-- A node that has the manifest. -/
def byteStore : LocalStore := (∅ : LocalStore).saveManifest byteHash byteManifest.toDict

/-- A download of it, up to its final merge. -/
def byteRun : List Label :=
  [.start byteHash "" true, .manager (.begin 0 true), .fetched 0 (some byteChunk) true]

def byteObject : DownloadState := ⟨byteHash, "a.txt", 1, 1, [], [0], .downloading, "", ""⟩

def byteWorker : Worker where
  fileHash := byteHash
  manifest := { byteManifest with chunkSize := defaultChunkSize }
  obj := 0
  phase := .merging

def byteState : State where
  manager := {
    objects := [byteObject]
    workers := [byteWorker]
    downloads := (∅ : Dict String ℕ).set byteHash 0
    tasks := (∅ : Dict String ℕ).set byteHash 0
    cancelEvents := (∅ : Dict String ℕ).set byteHash 0
    files := (∅ : Dict String ResumeDict).set byteHash byteObject.toResumeDict }
  store := byteStore.saveChunk byteChunkHash byteChunk

lemma run_byteRun : (machine byteStore).run (machine byteStore).init byteRun = some byteState := by
  rfl

lemma merges_byteState : Merges byteState byteWorker byteObject where
  running := List.mem_singleton.2 rfl
  phase := rfl
  object := rfl
  manifest := ⟨_, rfl, rfl⟩

lemma meets_byteRun : (machine byteStore).Meets
    (fun x l => Safe x l ∧ Honest (fun _ => 1) x l) (machine byteStore).init byteRun := by
  refine (Machine.meets_cons rfl).2 ⟨⟨trivial, fun l hl => ?_, trivial⟩, ?_⟩
  · obtain rfl := Option.some.inj hl
    intro manifest hmanifest
    obtain rfl : byteWorker.manifest = manifest := Except.ok.inj hmanifest
    unfold Indexed
    decide
  refine (Machine.meets_cons rfl).2 ⟨⟨trivial, fun l hl => ?_, trivial⟩, ?_⟩
  · obtain rfl := Option.some.inj hl
    trivial
  refine (Machine.meets_cons rfl).2 ⟨⟨fun e he o ho c hc => Or.inl ?_, fun l hl => ?_, ?_⟩, trivial⟩
  · cases he
    cases ho
    exact Option.mem_unique hc rfl
  · obtain rfl := Option.some.inj hl
    trivial
  · intro e he
    cases he
    exact hash_byteChunk

lemma loadChunk_byteState {c : String} {bytes : Bytes}
    (h : byteState.store.loadChunk c = some bytes) : bytes = byteChunk := by
  rw [byteState, LocalStore.loadChunk_saveChunk] at h
  split at h
  · exact (Option.some.inj h).symm
  · cases h

/-! ## From the upload to the merge -/

end DistriStore.StoredDownloads
