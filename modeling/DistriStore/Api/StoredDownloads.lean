import DistriStore.Advanced.GarbageCollector
import DistriStore.Api.CountedChunks
import DistriStore.Api.DownloadSteps
import DistriStore.Api.Routes

/-!
# Resumable downloads over the chunk store

The download manager together with the `LocalStore` of its node: the endpoints take manifests from
the store or from peers, a worker saves the chunks that it fetches, and the storage monitor evicts
chunks in between.  Other endpoints of the node save chunks and manifests.

The monitor runs on another thread, but a cycle of it is one step here: it falls between two awaits
of the workers and endpoints.

A worker counts an index only when the chunk is on disk.  It stays there until a cycle of the
monitor evicts it, whatever the manager still counts: so what a download in progress counts is on
disk in every run in which the monitor evicts no counted chunk and the manifest of a counted chunk
is not exchanged (`completed_on_disk`), and not in general (`paused_chunk_evicted`).
-/

namespace DistriStore.StoredDownloads

open Lib DownloadManager

/-! ## The node -/

structure State where
  manager : DownloadManager.State := {}
  store : LocalStore
  /-- Requests for these files have found no manifest on the node and ask the peers. -/
  asking : List String := []

inductive Label where
  /-- `POST /download/{file_hash}/start` with the manifest on the node. -/
  | start (fileHash password : String) (written : Bool)
  /-- The same without it; later a peer answers, or none does.  The answer is used even when it
  cannot be saved. -/
  | ask (fileHash : String)
  | answered (j : ℕ) (d : ManifestDict) (password : String) (written : Bool)
  | unanswered (j : ℕ)
  | resume (fileHash password : String)
  /-- Worker `w` has its chunk, from the disk or with this answer of a peer. -/
  | fetched (w : ℕ) (answer : Option Bytes) (written : Bool)
  /-- Another step of the manager. -/
  | manager (l : DownloadManager.Label)
  /-- A cycle of the storage monitor, next to `others` bytes in other files. -/
  | monitor (atime : String → ℚ) (unlinks : String → Bool) (maxStorageMb : ℤ) (others : ℕ)
  /-- Other endpoints. -/
  | save (chunkHash : String) (data : Bytes)
  | saveManifest (fileHash : String) (d : ManifestDict)

/-- `if not local_store.has_chunk(chunk_hash): local_store.save_chunk(chunk_hash, data)`. -/
def cacheChunk (store : LocalStore) (chunkHash : String) (data : Bytes) : LocalStore :=
  if store.hasChunk chunkHash then store else store.saveChunk chunkHash data

/-- The store when the worker has loaded and cached the chunk.  The loader caches the answers of
peers as well, and takes none that it cannot save. -/
def storeFetched (store : LocalStore) (chunkHash : String) (answer : Option Bytes) :
    Option LocalStore :=
  match answer with
  | none => (store.loadChunk chunkHash).map fun data => cacheChunk store chunkHash data
  | some data =>
    if Storable chunkHash then some (cacheChunk (store.saveChunk chunkHash data) chunkHash data)
    else none

/-- The step of the manager takes something from the store. -/
def usesStore : DownloadManager.Label → Bool
  | .start .. => true
  | .resume .. => true
  | .fetched _ none _ => true
  | _ => false

/-- A request goes on with the answer of a peer; an empty dictionary leads to a 404. -/
def startAnswered (s : DownloadManager.State) (fileHash : String) (d : ManifestDict)
    (password : String) (written : Bool) : Option DownloadManager.State :=
  if d.truthy then DownloadManager.exec s (.start fileHash d password written) else some s

/-- The store after `save_manifest`, which raises for a manifest that SQLite does not take. -/
def keepManifest (store : LocalStore) (fileHash : String) (d : ManifestDict) : LocalStore :=
  if NodeDatabase.Bindable d then store.saveManifest fileHash d else store

/-- A step of the manager on its own. -/
def managerStep (s : DownloadManager.State) (l : DownloadManager.Label) :
    Option DownloadManager.State :=
  if usesStore l then none else DownloadManager.exec s l

def exec (x : State) : Label → Option State
  | .start fileHash password written => do
    let d ← x.store.loadManifest fileHash
    let manager ← DownloadManager.exec x.manager (.start fileHash d password written)
    return { x with manager }
  | .ask fileHash =>
    if x.store.loadManifest fileHash = none then some { x with asking := x.asking ++ [fileHash] }
    else none
  | .answered j d password written => do
    let fileHash ← x.asking[j]?
    let manager ← startAnswered x.manager fileHash d password written
    return { manager, store := keepManifest x.store fileHash d, asking := x.asking.eraseIdx j }
  | .unanswered j => do
    let _ ← x.asking[j]?
    return { x with asking := x.asking.eraseIdx j }
  | .resume fileHash password => do
    let manager ← DownloadManager.exec x.manager
      (.resume fileHash password (x.store.loadManifest fileHash))
    return { x with manager }
  | .fetched w answer written => do
    let e ← fetchedChunk x.manager (.fetched w none written)
    let store ← storeFetched x.store e.2.chunkHash answer
    let manager ← DownloadManager.exec x.manager (.fetched w none written)
    return { x with manager, store }
  | .manager l => do
    let manager ← managerStep x.manager l
    -- the requests die with the process
    return { x with manager, asking := if l.crashes then [] else x.asking }
  | .monitor atime unlinks maxStorageMb others =>
    some { x with store := x.store.storageMonitorCycle atime unlinks maxStorageMb others }
  | .save chunkHash data =>
    if Storable chunkHash then some { x with store := x.store.saveChunk chunkHash data } else none
  | .saveManifest fileHash d => some { x with store := keepManifest x.store fileHash d }

/-- A node with an empty manager and what its storage directory has. -/
def machine (store : LocalStore) : Machine State Label where
  init := { store := store }
  exec := exec

/-! ## Counted chunks -/

/-- The chunk that the manifest of the file names for an index. -/
def namedChunk (store : LocalStore) (fileHash : String) (index : ℤ) : Option String :=
  match store.loadManifest fileHash with
  | none => none
  | some d =>
    match FileManifest.fromDict d with
    | .error _ => none
    | .ok manifest =>
      (manifest.chunks.find? fun info => info.index = index).map ChunkInfo.chunkHash

/-- The chunks that the manifest names for these indices are on disk. -/
def OnDisk (store : LocalStore) (fileHash : String) (indices : List ℤ) : Prop :=
  ∀ j ∈ indices, ∀ c ∈ namedChunk store fileHash j, c ∈ store.chunkNames

/-- What the tracked downloads in progress count as completed is on disk. -/
def CompletedOnDisk (x : State) : Prop :=
  ∀ h i (o : DownloadState), x.manager.downloads.get? h = some i →
    x.manager.objects[i]? = some o → o.status = .downloading ∨ o.status = .paused →
    OnDisk x.store h o.completedChunks

/-- A manifest that is saved names chunks on disk for the indices that are counted. -/
def Suits (x : State) (fileHash : String) (d : ManifestDict) : Prop :=
  ∀ j, Counted x.manager fileHash j →
    ∀ c ∈ namedChunk (keepManifest x.store fileHash d) fileHash j, c ∈ x.store.chunkNames

/-- The monitor evicts no counted chunk, manifests that are saved suit what is counted, and a
fetched chunk is the one that the manifest names. -/
def Safe (x : State) : Label → Prop
  | .monitor atime unlinks maxStorageMb others => ∀ h j, Counted x.manager h j →
      ∀ c ∈ namedChunk x.store h j, ¬ x.store.CycleEvicts atime unlinks maxStorageMb others c
  | .saveManifest fileHash d => Suits x fileHash d
  | .answered j d _ _ => ∀ fileHash ∈ x.asking[j]?, Suits x fileHash d
  | .fetched w _ written => ∀ e ∈ fetchedChunk x.manager (.fetched w none written),
      ∀ o ∈ x.manager.objects[e.1]?, ∀ c ∈ namedChunk x.store o.fileHash e.2.index,
        c = e.2.chunkHash ∨ c ∈ x.store.chunkNames
  | _ => True

/-! ## What is on disk -/

section Disk

variable {store store' : LocalStore} {h c : String}

/-- More chunks and the same manifests. -/
structure Grows (store store' : LocalStore) : Prop where
  manifests : ∀ h, store'.loadManifest h = store.loadManifest h
  chunks : ∀ c ∈ store.chunkNames, c ∈ store'.chunkNames

lemma Grows.refl (store : LocalStore) : Grows store store := ⟨fun _ => rfl, fun _ hc => hc⟩

lemma grows_saveChunk (store : LocalStore) (c : String) (data : Bytes) :
    Grows store (store.saveChunk c data) where
  manifests _ := rfl
  chunks _ hc := (Dict.mem_keys_set ..).2 (Or.inr hc)

lemma mem_saveChunk (store : LocalStore) (c : String) (data : Bytes) :
    c ∈ (store.saveChunk c data).chunkNames := (Dict.mem_keys_set ..).2 (Or.inl rfl)

lemma Grows.trans {store'' : LocalStore} (hs : Grows store store') (hs' : Grows store' store'') :
    Grows store store'' where
  manifests h := (hs'.manifests h).trans (hs.manifests h)
  chunks c hc := hs'.chunks c (hs.chunks c hc)

lemma grows_cacheChunk (store : LocalStore) (c : String) (data : Bytes) :
    Grows store (cacheChunk store c data) ∧ c ∈ (cacheChunk store c data).chunkNames := by
  unfold cacheChunk
  split
  · next hhas =>
    refine ⟨Grows.refl store, LocalStore.mem_chunkNames.2 ?_⟩
    exact Option.isSome_iff_exists.1 hhas
  · exact ⟨grows_saveChunk store c data, mem_saveChunk store c data⟩

/-- The worker has its chunk on disk when it goes on. -/
lemma grows_storeFetched {answer : Option Bytes} (hf : storeFetched store c answer = some store') :
    Grows store store' ∧ c ∈ store'.chunkNames := by
  cases answer with
  | none =>
    obtain ⟨data, -, rfl⟩ := Option.map_eq_some_iff.1 hf
    exact grows_cacheChunk store c data
  | some data =>
    obtain ⟨-, hf⟩ := Option.ite_none_right_eq_some.1 hf
    obtain rfl := Option.some.inj hf
    obtain ⟨hgrows, hmem⟩ := grows_cacheChunk (store.saveChunk c data) c data
    exact ⟨(grows_saveChunk store c data).trans hgrows, hmem⟩

lemma namedChunk_congr (hm : store'.loadManifest h = store.loadManifest h) (j : ℤ) :
    namedChunk store' h j = namedChunk store h j := by
  rw [namedChunk, namedChunk, hm]

lemma OnDisk.grow {js : List ℤ} (hjs : OnDisk store h js) (hs : Grows store store') :
    OnDisk store' h js := by
  intro j hj c hc
  rw [namedChunk_congr (hs.manifests h)] at hc
  exact hs.chunks c (hjs j hj c hc)

lemma onDisk_nil (store : LocalStore) (h : String) : OnDisk store h [] := fun j hj => by cases hj

/-- The index that has just been fetched is on disk as well. -/
lemma OnDisk.withIndex {js : List ℤ} {j : ℤ} (hjs : OnDisk store h js)
    (hj : ∀ c ∈ namedChunk store h j, c ∈ store.chunkNames) :
    OnDisk store h (DownloadManager.withIndex j js) := by
  intro j' hj' c hc
  unfold DownloadManager.withIndex at hj'
  split at hj'
  · exact hjs j' hj' c hc
  · rcases List.mem_append.1 hj' with hj' | hj'
    · exact hjs j' hj' c hc
    · rw [List.mem_singleton.1 hj'] at hc
      exact hj c hc

end Disk

/-! ## The invariant -/

/-- What is counted, in memory or in a `.resume` file, is on disk. -/
structure Sound (x : State) : Prop where
  inv : Inv ∅ (fun _ => 0) x.manager
  counts : AllCounts (OnDisk x.store) x.manager

lemma sound_init (store : LocalStore) : Sound (machine store).init where
  inv := inv_init
  counts := allCounts_init ∅ fun h f hf => by simp at hf

lemma Sound.completedOnDisk {x : State} (hx : Sound x) : CompletedOnDisk x := by
  intro h i o hi ho _
  obtain ⟨o', ho', hdisk⟩ := hx.counts.object i (Or.inl ⟨h, hi⟩)
  obtain ⟨o'', ho'', hhash⟩ := hx.inv.tracked h i hi
  rw [ho, Option.some.injEq] at ho' ho''
  subst ho' ho''
  exact hhash ▸ hdisk

/-- A step of the manager that fetches nothing. -/
lemma Sound.step {x : State} (hx : Sound x) {l : DownloadManager.Label}
    {manager : DownloadManager.State} (hl : fetchedChunk x.manager l = none)
    (h : DownloadManager.exec x.manager l = some manager) (asking : List String) :
    Sound { x with manager, asking } where
  inv := inv_step hx.inv h
  counts := allCounts_exec (onDisk_nil x.store) hx.counts h fun e he => by
    rw [hl] at he
    cases he

lemma chunkNames_keepManifest (store : LocalStore) (fileHash : String) (d : ManifestDict) :
    (keepManifest store fileHash d).chunkNames = store.chunkNames := by
  unfold keepManifest
  split <;> rfl

lemma loadManifest_keepManifest_ne {store : LocalStore} {fileHash h : String} {d : ManifestDict}
    (hne : h ≠ fileHash) :
    (keepManifest store fileHash d).loadManifest h = store.loadManifest h := by
  unfold keepManifest
  split
  · rw [LocalStore.loadManifest_saveManifest, if_neg hne]
  · rfl

/-- Saving a manifest that suits what is counted. -/
lemma Sound.saveManifest {x : State} (hx : Sound x) {fileHash : String} {d : ManifestDict}
    (hsuits : Suits x fileHash d) :
    Sound { x with store := keepManifest x.store fileHash d } where
  inv := hx.inv
  counts := hx.counts.imp fun h js hcounted hjs j hj c hc => by
    rw [chunkNames_keepManifest]
    by_cases hh : h = fileHash
    · subst hh
      exact hsuits j (hcounted j hj) c hc
    · rw [namedChunk_congr (loadManifest_keepManifest_ne hh)] at hc
      exact hjs j hj c hc

lemma fetchedChunk_of_not_usesStore {s : DownloadManager.State} {l : DownloadManager.Label}
    (hl : usesStore l = false) : fetchedChunk s l = none := by
  cases l with
  | fetched w error written =>
    cases error with
    | none => cases hl
    | some message => rfl
  | _ => rfl

lemma sound_fetched {x : State} (hx : Sound x) {w : ℕ} {answer : Option Bytes} {written : Bool}
    {e : ℕ × ChunkInfo} {store : LocalStore} {manager : DownloadManager.State}
    (he : fetchedChunk x.manager (.fetched w none written) = some e)
    (hstore : storeFetched x.store e.2.chunkHash answer = some store)
    (h : DownloadManager.exec x.manager (.fetched w none written) = some manager)
    (hsafe : ∀ o ∈ x.manager.objects[e.1]?, ∀ c ∈ namedChunk x.store o.fileHash e.2.index,
      c = e.2.chunkHash ∨ c ∈ x.store.chunkNames) :
    Sound { x with manager, store } where
  inv := inv_step (l := .fetched w none written) hx.inv h
  counts := by
    obtain ⟨hgrows, hmem⟩ := grows_storeFetched hstore
    have hgrown : AllCounts (OnDisk store) x.manager :=
      hx.counts.imp fun _ _ _ hjs => hjs.grow hgrows
    refine allCounts_exec (onDisk_nil store) hgrown h fun e' he' o ho hjs => hjs.withIndex ?_
    rw [he] at he'
    cases he'
    intro c hc
    rw [namedChunk_congr (hgrows.manifests _)] at hc
    rcases hsafe o ho c hc with rfl | hdisk
    · exact hmem
    · exact hgrows.chunks c hdisk

lemma sound_monitor {x : State} (hx : Sound x) {atime : String → ℚ} {unlinks : String → Bool}
    {mb : ℤ} {others : ℕ} (hsafe : ∀ h j, Counted x.manager h j → ∀ c ∈ namedChunk x.store h j,
      ¬ x.store.CycleEvicts atime unlinks mb others c) :
    Sound { x with store := x.store.storageMonitorCycle atime unlinks mb others } where
  inv := hx.inv
  counts := hx.counts.imp fun h js hcounted hjs j hj c hc => by
    rw [namedChunk_congr (LocalStore.loadManifest_cycle ..)] at hc
    obtain ⟨data, hdata⟩ := LocalStore.mem_chunkNames.1 (hjs j hj c hc)
    refine LocalStore.mem_chunkNames.2 ⟨data, (LocalStore.loadChunk_cycle_iff hdata).2 ?_⟩
    exact hsafe h j (hcounted j hj) c hc

lemma sound_step {x y : State} {l : Label} (hx : Sound x) (h : exec x l = some y)
    (hsafe : Safe x l) : Sound y := by
  cases l with
  | start fileHash password written =>
    simp only [exec, Option.bind_eq_bind, Option.bind_eq_some_iff] at h
    obtain ⟨d, -, manager, hstep, h⟩ := h
    cases h
    exact hx.step rfl hstep x.asking
  | ask fileHash =>
    simp only [exec] at h
    split at h
    · cases h
      exact ⟨hx.inv, hx.counts⟩
    · cases h
  | answered j d password written =>
    simp only [exec, Option.bind_eq_bind, Option.bind_eq_some_iff] at h
    obtain ⟨fileHash, hj, manager, hstep, h⟩ := h
    cases h
    have hsaved := hx.saveManifest (hsafe fileHash hj)
    unfold startAnswered at hstep
    split at hstep
    · exact hsaved.step rfl hstep (x.asking.eraseIdx j)
    · cases hstep
      exact ⟨hsaved.inv, hsaved.counts⟩
  | unanswered j =>
    obtain ⟨fileHash, hj, h⟩ := Option.bind_eq_some_iff.1 h
    cases h
    exact ⟨hx.inv, hx.counts⟩
  | resume fileHash password =>
    simp only [exec, Option.bind_eq_bind, Option.bind_eq_some_iff] at h
    obtain ⟨manager, hstep, h⟩ := h
    cases h
    exact hx.step rfl hstep x.asking
  | fetched w answer written =>
    simp only [exec, Option.bind_eq_bind, Option.bind_eq_some_iff] at h
    obtain ⟨e, he, store, hstore, manager, hstep, h⟩ := h
    cases h
    exact sound_fetched hx he hstore hstep (hsafe e he)
  | manager l =>
    simp only [exec, Option.bind_eq_bind, Option.bind_eq_some_iff] at h
    obtain ⟨manager, hstep, h⟩ := h
    cases h
    unfold managerStep at hstep
    split at hstep
    · cases hstep
    · next hl =>
      exact hx.step (fetchedChunk_of_not_usesStore (Bool.eq_false_iff.2 hl)) hstep _
  | monitor atime unlinks maxStorageMb others =>
    cases h
    exact sound_monitor hx hsafe
  | save chunkHash data =>
    obtain ⟨-, h⟩ := Option.ite_none_right_eq_some.1 h
    cases h
    exact ⟨hx.inv, hx.counts.imp fun _ _ _ hjs => hjs.grow (grows_saveChunk ..)⟩
  | saveManifest fileHash d =>
    cases h
    exact hx.saveManifest hsafe

/-- **What a download in progress counts as completed is on disk** in every run in which the
monitor evicts no counted chunk, manifests that are saved suit what is counted, and a fetched chunk
is the one that the manifest names. -/
theorem completed_on_disk (store : LocalStore) {ls : List Label}
    (h : (machine store).Meets Safe (machine store).init ls) :
    (machine store).Always CompletedOnDisk (machine store).init ls := by
  have hsound : (machine store).Always Sound (machine store).init ls :=
    Machine.always_of_meets (fun x l y hx hy hl => sound_step hx hy hl) (sound_init store) h
  exact hsound.imp fun x hx => hx.completedOnDisk

/-! ## A paused download -/

/-- The storage directory of a node that has the manifest of a file of two chunks. -/
def twoChunkStore : LocalStore := (∅ : LocalStore).saveManifest "h" twoChunkManifest

/-- A download that is paused after its first chunk, and then a cycle of the storage monitor with
a quota of a megabyte. -/
def pausedRun (others : ℕ) : List Label :=
  [.start "h" "" true, .manager (.begin 0 true), .manager (.pause "h" true),
    .fetched 0 (some [0]) true, .manager (.pauseDone 0 true),
    .monitor (fun _ => 0) (fun _ => true) 1 others]

/-- The state of the manager when the download is paused. -/
def pausedManager : DownloadManager.State where
  objects := [⟨"h", "a", 2, 2, [1], [0], .paused, "", ""⟩]
  -- the database has no column for `chunk_size`
  workers := [{ fileHash := "h", manifest := { twoChunks with chunkSize := 262144 }, obj := 0,
                phase := .finished, cancelEvent := true }]
  pauses := [{ fileHash := "h", obj := 0, worker := 0, ended := true }]
  downloads := (∅ : Dict String ℕ).set "h" 0
  files := (∅ : Dict String ResumeDict).set "h" ⟨"h", "a", 2, 2, [1], [0], .paused⟩

/-- The state after the cycle. -/
def pausedState (others : ℕ) : State where
  manager := pausedManager
  store := (twoChunkStore.saveChunk "c0" [0]).storageMonitorCycle (fun _ => 0) (fun _ => true) 1
    others

lemma run_pausedRun (others : ℕ) :
    (machine twoChunkStore).run (machine twoChunkStore).init (pausedRun others) =
      some (pausedState others) := by
  rfl

/-- **The monitor evicts the chunk that a paused download counts as completed.** -/
theorem paused_chunk_evicted : ¬ ∀ (store : LocalStore) (ls : List Label),
    (machine store).Always CompletedOnDisk (machine store).init ls := by
  intro hall
  have hcompleted := (hall twoChunkStore (pausedRun 2000000)).last (run_pausedRun 2000000)
  have hmem := hcompleted "h" 0 _ rfl rfl (Or.inr rfl) 0 (List.mem_singleton.2 rfl) "c0"
    (by decide +kernel)
  revert hmem
  decide +kernel

/-- The cycle runs within the quota. -/
lemma meets_pausedRun : (machine twoChunkStore).Meets Safe (machine twoChunkStore).init
    (pausedRun 0) := by
  iterate 3 refine (Machine.meets_cons rfl).2 ⟨trivial, ?_⟩
  refine (Machine.meets_cons rfl).2 ⟨fun e he o ho c hc => ?_, ?_⟩
  · left
    cases he
    cases ho
    exact Option.mem_unique hc rfl
  · refine (Machine.meets_cons rfl).2 ⟨trivial, ?_⟩
    refine (Machine.meets_cons rfl).2 ⟨fun h j hj c hc => ?_, trivial⟩
    exact LocalStore.not_cycleEvicts (by decide +kernel)

theorem completed_on_disk_paused : CompletedOnDisk (pausedState 0) :=
  (completed_on_disk twoChunkStore meets_pausedRun).last (run_pausedRun 0)

end DistriStore.StoredDownloads
