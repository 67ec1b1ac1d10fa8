import DistriStore.Lib.Eviction
import DistriStore.Lib.SortBy
import DistriStore.Storage.LocalStore
import Mathlib.Algebra.Order.Ring.Rat

/-!
# Storage size and eviction (`backend/storage/local_store.py`)

`get_storage_size` counts every file of the storage directory, `evict_oldest_chunks` removes chunk
files only, the ones that have not been read for the longest time first.  Both are stated over the
directory, which also holds the database and the temporary files of downloads
(`StorageDir`); what an eviction does to the chunks of a `LocalStore` is the same loop over
its chunk files.
-/

namespace DistriStore

open Lib

/-! ## The storage directory -/

/-- What `stat()` and `is_file()` say about an entry of the directory. -/
structure FileStat where
  size : ℕ
  atime : ℚ
  isFile : Bool := true
  deriving DecidableEq, Repr

/-- The storage directory, by file name. -/
abbrev StorageDir := Dict String FileStat

/-- The pattern `chunk_*.bin`. -/
def isChunkFile (name : String) : Bool :=
  decide ("chunk_".toList <+: name.toList ∧ ".bin".toList <:+ name.toList)

namespace StorageDir

/-- What a file adds to the storage size. -/
def fileSize (_ : String) (stat : FileStat) : ℕ := if stat.isFile then stat.size else 0

/-- Total bytes of all files. -/
def getStorageSize (dir : StorageDir) : ℕ := dir.totalBy fileSize

def getTotalStorageSize (dir : StorageDir) : ℕ := getStorageSize dir

/-- Total bytes of the files that are not chunks. -/
def othersSize (dir : StorageDir) : ℕ :=
  dir.totalBy fun name stat => if isChunkFile name then 0 else fileSize name stat

/-- `storage_dir.glob("chunk_*.bin")`. -/
def chunkFiles (dir : StorageDir) : List (String × FileStat) :=
  dir.entries.filter fun e => isChunkFile e.1

/-- Whether `unlink` succeeds, which it never does on a directory. -/
def canUnlink (unlinks : String → Bool) (name : String) (stat : FileStat) : Bool :=
  stat.isFile && unlinks name

/-- Delete the oldest chunk files until the target is freed. -/
def evictOldestChunks (unlinks : String → Bool) (dir : StorageDir) (targetBytesToFree : ℤ) :
    StorageDir × ℕ :=
  if (chunkFiles dir).isEmpty then (dir, 0)
  else evict FileStat.size (canUnlink unlinks) targetBytesToFree
    (sortBy (fun e => e.2.atime) (chunkFiles dir)) dir 0

variable {unlinks : String → Bool} {dir : StorageDir} {target : ℤ}

lemma mem_chunkFiles {e : String × FileStat} :
    e ∈ chunkFiles dir ↔ dir.get? e.1 = some e.2 ∧ isChunkFile e.1 = true := by
  rw [chunkFiles, List.mem_filter]
  exact and_congr_left fun _ => ⟨Dict.get?_of_mem_entries, Dict.mem_entries_of_get?⟩

lemma evictOldestChunks_eq : evictOldestChunks unlinks dir target =
    evict FileStat.size (canUnlink unlinks) target
      (sortBy (fun e => e.2.atime) (chunkFiles dir)) dir 0 := by
  unfold evictOldestChunks
  split
  · next hempty =>
    rw [List.isEmpty_iff.1 hempty, sortBy_nil, evict]
  · rfl

lemma nodup_queue : ((sortBy (fun e => e.2.atime) (chunkFiles dir)).map Prod.fst).Nodup := by
  have hperm := (sortBy_perm (fun e : String × FileStat => e.2.atime) (chunkFiles dir)).map Prod.fst
  exact hperm.nodup_iff.2 (dir.nodupKeys.sublist (List.filter_sublist.map _))

/-- Files that are not chunks stay as they are. -/
lemma get?_evictOldestChunks_of_not_chunk {name : String} (h : isChunkFile name = false) :
    (evictOldestChunks unlinks dir target).1.get? name = dir.get? name := by
  rw [evictOldestChunks_eq]
  refine get?_evict_of_not_mem _ _ _ fun hmem => ?_
  obtain ⟨e, he, rfl⟩ := List.mem_map.1 hmem
  rw [mem_sortBy, mem_chunkFiles, h] at he
  exact Bool.false_ne_true he.2

/-- Nothing is added or changed. -/
lemma get?_of_get?_evictOldestChunks {name : String} {stat : FileStat}
    (h : (evictOldestChunks unlinks dir target).1.get? name = some stat) :
    dir.get? name = some stat := by
  rw [evictOldestChunks_eq] at h
  exact get?_of_get?_evict _ _ _ h

lemma othersSize_evictOldestChunks (unlinks : String → Bool) (dir : StorageDir) (target : ℤ) :
    othersSize (evictOldestChunks unlinks dir target).1 = othersSize dir := by
  rw [evictOldestChunks_eq]
  refine totalBy_evict_of_zero _ _ _ fun e he stat => ?_
  rw [mem_sortBy, mem_chunkFiles] at he
  rw [if_pos he.2]

/-- What is reported as freed is missing from the storage size. -/
lemma getStorageSize_evictOldestChunks (unlinks : String → Bool) (dir : StorageDir)
    (target : ℤ) :
    getStorageSize (evictOldestChunks unlinks dir target).1 +
      (evictOldestChunks unlinks dir target).2 = getStorageSize dir := by
  rw [evictOldestChunks_eq]
  refine totalBy_evict _ _ _ nodup_queue (fun e he => ?_) fun e _ hrem => ?_
  · rw [mem_sortBy, mem_chunkFiles] at he
    exact he.1
  · rw [canUnlink, Bool.and_eq_true] at hrem
    rw [fileSize, if_pos hrem.1]

/-- When every chunk file can be removed, the target is met or no chunk file is left. -/
lemma evictOldestChunks_stops (target : ℤ)
    (h : ∀ name stat, dir.get? name = some stat → isChunkFile name = true →
      canUnlink unlinks name stat = true) :
    target ≤ (evictOldestChunks unlinks dir target).2 ∨
      getStorageSize (evictOldestChunks unlinks dir target).1 = othersSize dir := by
  have hrem : ∀ e ∈ sortBy (fun e => e.2.atime) (chunkFiles dir),
      canUnlink unlinks e.1 e.2 = true := by
    intro e he
    rw [mem_sortBy, mem_chunkFiles] at he
    exact h _ _ he.1 he.2
  rw [evictOldestChunks_eq]
  refine (evict_stops _ dir 0 nodup_queue hrem).imp_right fun hgone => ?_
  rw [← evictOldestChunks_eq] at hgone ⊢
  rw [← othersSize_evictOldestChunks unlinks dir target]
  refine Dict.totalBy_congr _ fun name stat hget => ?_
  have hnot : ¬ isChunkFile name = true := by
    intro hchunk
    have hmem : (name, stat) ∈ chunkFiles dir :=
      mem_chunkFiles.2 ⟨get?_of_get?_evictOldestChunks hget, hchunk⟩
    have hnone := hgone (name, stat) ((mem_sortBy _).2 hmem)
    rw [hget] at hnone
    cases hnone
  rw [if_neg hnot]

/-- **Eviction removes the least recently read files, no more than needed, and counts them.**  The
chunk files fall into those that were deleted, those that failed to be deleted and those that were
left alone. -/
theorem evictOldestChunks_lru (unlinks : String → Bool) (dir : StorageDir) (target : ℤ) :
    ∃ deleted failed untouched : List (String × FileStat),
      (deleted ++ failed ++ untouched).Perm (chunkFiles dir) ∧
      (∀ e ∈ deleted, canUnlink unlinks e.1 e.2 = true ∧
        (evictOldestChunks unlinks dir target).1.get? e.1 = none) ∧
      (∀ e ∈ failed, canUnlink unlinks e.1 e.2 = false) ∧
      (∀ name, name ∉ deleted.map Prod.fst →
        (evictOldestChunks unlinks dir target).1.get? name = dir.get? name) ∧
      (evictOldestChunks unlinks dir target).2 = (deleted.map fun e => e.2.size).sum ∧
      deleted.Pairwise (fun e e' => e.2.atime ≤ e'.2.atime) ∧
      (∀ e ∈ deleted, ∀ e' ∈ untouched, e.2.atime ≤ e'.2.atime) ∧
      (∀ init last, deleted = init ++ [last] →
        (((init.map fun e => e.2.size).sum : ℕ) : ℤ) < target) ∧
      (((evictOldestChunks unlinks dir target).2 : ℤ) < target → untouched = []) := by
  set q := sortBy (fun e => e.2.atime) (chunkFiles dir) with hq
  set tried := attempted FileStat.size (canUnlink unlinks) target q 0 with htried
  obtain ⟨untouched, hsplit⟩ : tried <+: q := attempted_prefix q 0
  have hrun : evictOldestChunks unlinks dir target =
      (dir.eraseAll ((tried.filter fun e => canUnlink unlinks e.1 e.2).map Prod.fst),
        sizes FileStat.size (tried.filter fun e => canUnlink unlinks e.1 e.2)) := by
    rw [evictOldestChunks_eq, evict_eq_eraseAll, Nat.zero_add]
    rfl
  have hsorted : (tried ++ untouched).Pairwise fun e e' => e.2.atime ≤ e'.2.atime := by
    rw [hsplit]
    exact pairwise_sortBy (fun e : String × FileStat => e.2.atime) (chunkFiles dir)
  rw [List.pairwise_append] at hsorted
  refine ⟨tried.filter fun e => canUnlink unlinks e.1 e.2,
    tried.filter fun e => !canUnlink unlinks e.1 e.2, untouched, ?_, fun e he => ⟨?_, ?_⟩,
    fun e he => ?_, fun name hname => ?_, ?_, ?_, fun e he e' he' => ?_, fun init last h => ?_,
    fun hlt => ?_⟩
  · have hperm := (List.filter_append_perm (fun e => canUnlink unlinks e.1 e.2) tried).append_right
      untouched
    rw [hsplit] at hperm
    exact hperm.trans (sortBy_perm _ _)
  · exact (List.mem_filter.1 he).2
  · rw [hrun]
    exact Dict.get?_eraseAll_of_mem dir (List.mem_map_of_mem he)
  · simpa using (List.mem_filter.1 he).2
  · rw [hrun]
    exact Dict.get?_eraseAll_of_not_mem dir hname
  · rw [hrun]
    rfl
  · exact hsorted.1.sublist List.filter_sublist
  · exact hsorted.2.2 e (List.mem_of_mem_filter he) e' he'
  · have hlast := freed_before_last_lt q 0 h
    rwa [Nat.zero_add] at hlast
  · have htried : tried = q := by
      by_contra hne
      have hle := le_freed_of_attempted_ne q 0 hne
      rw [hrun] at hlt
      rw [Nat.zero_add] at hle
      exact absurd hlt (not_lt.2 hle)
    rw [htried] at hsplit
    simpa using hsplit

end StorageDir

/-! ## The chunks of a local store -/

namespace LocalStore

/-- Total bytes of the chunk files and of the other files of the storage directory. -/
def getStorageSize (store : LocalStore) (others : ℕ) : ℕ :=
  store.chunks.totalBy (fun _ data => data.length) + others

/-- Delete the chunks that were read last the longest time ago until the target is freed.
`atime` is when a chunk was read last. -/
def evictOldestChunks (store : LocalStore) (atime : String → ℚ) (unlinks : String → Bool)
    (targetBytesToFree : ℤ) : LocalStore × ℕ :=
  let r := evict List.length (fun chunkHash _ => unlinks chunkHash) targetBytesToFree
    (sortBy (fun e => atime e.1) store.chunks.entries) store.chunks 0
  ({ store with chunks := r.1 }, r.2)

/-- What is still stored was stored before. -/
lemma loadChunk_of_evictOldestChunks {store : LocalStore} {atime : String → ℚ}
    {unlinks : String → Bool} {target : ℤ} {chunkHash : String} {data : Bytes}
    (h : (store.evictOldestChunks atime unlinks target).1.loadChunk chunkHash = some data) :
    store.loadChunk chunkHash = some data :=
  get?_of_get?_evict _ _ _ h

/-- The chunks that were read last before this one, in the order in which they go. -/
def olderChunks (store : LocalStore) (atime : String → ℚ) (chunkHash : String) :
    List (String × Bytes) :=
  (sortBy (fun e => atime e.1) store.chunks.entries).takeWhile fun e => e.1 ≠ chunkHash

/-- The file of the chunk can be unlinked, and the older ones do not free enough. -/
def Evicts (store : LocalStore) (atime : String → ℚ) (unlinks : String → Bool)
    (targetBytesToFree : ℤ) (chunkHash : String) : Prop :=
  unlinks chunkHash = true ∧ (freeable List.length (fun chunkHash _ => unlinks chunkHash)
    (store.olderChunks atime chunkHash) : ℤ) < targetBytesToFree

instance (store : LocalStore) (atime : String → ℚ) (unlinks : String → Bool) (target : ℤ) :
    DecidablePred (store.Evicts atime unlinks target) := fun _ =>
  inferInstanceAs (Decidable (_ ∧ _))

lemma nodup_sorted (store : LocalStore) (atime : String → ℚ) :
    ((sortBy (fun e => atime e.1) store.chunks.entries).map Prod.fst).Nodup :=
  ((sortBy_perm _ store.chunks.entries).map Prod.fst).nodup_iff.2 store.chunks.nodupKeys

/-- A chunk stays unless it is evicted. -/
lemma loadChunk_evictOldestChunks_iff {store : LocalStore} {atime : String → ℚ}
    {unlinks : String → Bool} {target : ℤ} {chunkHash : String} {data : Bytes}
    (h : store.loadChunk chunkHash = some data) :
    (store.evictOldestChunks atime unlinks target).1.loadChunk chunkHash = some data ↔
      ¬ store.Evicts atime unlinks target chunkHash := by
  have hmem : (chunkHash, data) ∈ sortBy (fun e => atime e.1) store.chunks.entries :=
    (mem_sortBy _).2 (Dict.mem_entries_of_get? h)
  obtain ⟨pre, post, hq⟩ := List.append_of_mem hmem
  have hnodup := nodup_sorted store atime
  have holder : store.olderChunks atime chunkHash = pre := by
    rw [hq, List.map_append, List.map_cons] at hnodup
    have hne : ∀ e ∈ pre, decide (e.1 ≠ chunkHash) = true := by
      intro e he
      refine decide_eq_true ?_
      exact (List.nodup_append.1 hnodup).2.2 _ (List.mem_map_of_mem he) _ (List.mem_cons_self ..)
    rw [olderChunks, hq, List.takeWhile_append_of_pos hne, List.takeWhile_cons_of_neg (by simp),
      List.append_nil]
  have hget : (evict List.length (fun c _ => unlinks c) target (pre ++ (chunkHash, data) :: post)
      store.chunks 0).1.get? chunkHash = _ :=
    get?_evict_append pre post store.chunks 0 (hq ▸ hnodup) h
  rw [← hq, Nat.zero_add] at hget
  refine (Eq.congr hget rfl).trans ?_
  rw [Evicts, holder]
  split
  · next hgone => exact iff_of_false (by simp) (not_not_intro hgone)
  · next hkept => exact iff_of_true rfl hkept

/-- All chunks stay when nothing is asked for, or no chunk file can be unlinked. -/
lemma chunkNames_evictOldestChunks_iff {store : LocalStore} {atime : String → ℚ}
    {unlinks : String → Bool} {target : ℤ} :
    (∀ c, c ∈ (store.evictOldestChunks atime unlinks target).1.chunkNames ↔
      c ∈ store.chunkNames) ↔ target ≤ 0 ∨ ∀ c ∈ store.chunkNames, unlinks c = false := by
  have hkeeps : (∀ e ∈ sortBy (fun e => atime e.1) store.chunks.entries,
      (evict List.length (fun c _ => unlinks c) target
        (sortBy (fun e => atime e.1) store.chunks.entries) store.chunks 0).1.get? e.1 =
        some e.2) ↔ _ :=
    evict_keeps_iff _ store.chunks 0 (nodup_sorted store atime)
      fun e he => Dict.get?_of_mem_entries ((mem_sortBy _).1 he)
  simp only [mem_sortBy, Nat.cast_zero] at hkeeps
  refine Iff.trans ?_ (hkeeps.trans (or_congr_right ?_))
  · constructor
    · intro h e he
      obtain ⟨data, hdata⟩ := mem_chunkNames.1 ((h e.1).2 (List.mem_map_of_mem he))
      have hbefore := loadChunk_of_evictOldestChunks hdata
      rw [LocalStore.loadChunk, Dict.get?_of_mem_entries he, Option.some.injEq] at hbefore
      exact hbefore ▸ hdata
    · intro h c
      rw [mem_chunkNames, mem_chunkNames]
      constructor
      · rintro ⟨data, hdata⟩
        exact ⟨data, loadChunk_of_evictOldestChunks hdata⟩
      · rintro ⟨data, hdata⟩
        exact ⟨data, h (c, data) (Dict.mem_entries_of_get? hdata)⟩
  · constructor
    · intro h c hc
      obtain ⟨e, he, rfl⟩ := List.mem_map.1 hc
      exact h e he
    · intro h e he
      exact h e.1 (List.mem_map_of_mem he)

@[simp] lemma loadManifest_evictOldestChunks (store : LocalStore) (atime : String → ℚ)
    (unlinks : String → Bool) (target : ℤ) (h : String) :
    (store.evictOldestChunks atime unlinks target).1.loadManifest h = store.loadManifest h := rfl

end LocalStore

end DistriStore
