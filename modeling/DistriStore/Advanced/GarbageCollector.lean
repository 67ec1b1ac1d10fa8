import DistriStore.Storage.Eviction
import Mathlib.Data.Rat.Floor
import Mathlib.Tactic.Linarith

/-!
# Garbage collector (`backend/advanced/garbage_collector.py`)

One cycle of `storage_monitor_loop` compares the size of all files in the storage directory with
the quota and, above it, asks for as many bytes as lead down to nine tenths of the quota.  The
target is truncated and whole chunk files go, so the cycle may free a little less than the fraction
says and up to one file more.
-/

namespace DistriStore

open Lib

/-- `int(x)`: round towards zero. -/
def pyInt (x : ℚ) : ℤ := if 0 ≤ x then ⌊x⌋ else ⌈x⌉

/-- `max_storage_mb * 1024 * 1024`. -/
def maxBytes (maxStorageMb : ℤ) : ℤ := maxStorageMb * 1024 * 1024

/-- The bytes to free when `usedBytes` are in use; `none` while the quota is kept. -/
def evictionTarget (maxStorageMb : ℤ) (usedBytes : ℕ) : Option ℤ :=
  if maxBytes maxStorageMb < usedBytes then
    some (pyInt (usedBytes - maxBytes maxStorageMb * (9 / 10)))
  else none

/-- One cycle of `storage_monitor_loop`, from the end of its sleep. -/
def storageMonitorCycle (unlinks : String → Bool) (maxStorageMb : ℤ) (dir : StorageDir) :
    StorageDir :=
  match evictionTarget maxStorageMb (StorageDir.getTotalStorageSize dir) with
  | some targetBytes => (StorageDir.evictOldestChunks unlinks dir targetBytes).1
  | none => dir

/-- The same cycle on the chunks of a store, next to `others` bytes in other files. -/
def LocalStore.storageMonitorCycle (store : LocalStore) (atime : String → ℚ)
    (unlinks : String → Bool) (maxStorageMb : ℤ) (others : ℕ) : LocalStore :=
  match evictionTarget maxStorageMb (store.getStorageSize others) with
  | some targetBytes => (store.evictOldestChunks atime unlinks targetBytes).1
  | none => store

/-! ## The chunks of a store -/

namespace LocalStore

variable {store : LocalStore} {atime : String → ℚ} {unlinks : String → Bool} {mb : ℤ} {others : ℕ}

/-- Above the quota at least one byte is asked for. -/
lemma evictionTarget_pos {used : ℕ} (h : maxBytes mb < used) :
    0 < pyInt (used - maxBytes mb * (9 / 10)) := by
  have hone : (1 : ℚ) ≤ (used : ℚ) - maxBytes mb * (9 / 10) := by
    have hlt : (maxBytes mb : ℚ) + 1 ≤ used := by exact_mod_cast h
    rcases le_or_gt 0 mb with hmb | hmb
    · have hmax : (0 : ℚ) ≤ maxBytes mb := by
        unfold maxBytes
        exact_mod_cast (by omega : 0 ≤ mb * 1024 * 1024)
      linarith
    · have hmax : (maxBytes mb : ℚ) ≤ -1048576 := by
        unfold maxBytes
        exact_mod_cast (by omega : mb * 1024 * 1024 ≤ -1048576)
      have hused : (0 : ℚ) ≤ used := Nat.cast_nonneg used
      linarith
  rw [pyInt, if_pos (by linarith)]
  exact Int.floor_pos.2 hone

/-- The cycle deletes the file of the chunk. -/
def CycleEvicts (store : LocalStore) (atime : String → ℚ) (unlinks : String → Bool)
    (maxStorageMb : ℤ) (others : ℕ) (chunkHash : String) : Prop :=
  ∃ target ∈ evictionTarget maxStorageMb (store.getStorageSize others),
    store.Evicts atime unlinks target chunkHash

instance (store : LocalStore) (atime : String → ℚ) (unlinks : String → Bool) (maxStorageMb : ℤ)
    (others : ℕ) : DecidablePred (store.CycleEvicts atime unlinks maxStorageMb others) := fun _ =>
  inferInstanceAs (Decidable (∃ target ∈ evictionTarget _ _, _))

lemma not_cycleEvicts {c : String} (h : (store.getStorageSize others : ℤ) ≤ maxBytes mb) :
    ¬ store.CycleEvicts atime unlinks mb others c := by
  rintro ⟨target, htarget, -⟩
  rw [evictionTarget, if_neg (Int.not_lt.2 h)] at htarget
  cases htarget

/-- A chunk stays unless the cycle evicts it. -/
lemma loadChunk_cycle_iff {c : String} {data : Bytes} (h : store.loadChunk c = some data) :
    (store.storageMonitorCycle atime unlinks mb others).loadChunk c = some data ↔
      ¬ store.CycleEvicts atime unlinks mb others c := by
  unfold storageMonitorCycle CycleEvicts
  cases evictionTarget mb (store.getStorageSize others) with
  | none => simpa using h
  | some target => simpa using loadChunk_evictOldestChunks_iff h

/-- What is stored after a cycle was stored before. -/
lemma loadChunk_of_cycle {c : String} {data : Bytes}
    (h : (store.storageMonitorCycle atime unlinks mb others).loadChunk c = some data) :
    store.loadChunk c = some data := by
  unfold storageMonitorCycle at h
  split at h
  · exact loadChunk_of_evictOldestChunks h
  · exact h

/-- A cycle leaves all chunks exactly within the quota, or when no chunk file can be unlinked. -/
lemma chunkNames_cycle_iff :
    (∀ c, c ∈ (store.storageMonitorCycle atime unlinks mb others).chunkNames ↔
      c ∈ store.chunkNames) ↔
    (store.getStorageSize others : ℤ) ≤ maxBytes mb ∨
      ∀ c ∈ store.chunkNames, unlinks c = false := by
  unfold storageMonitorCycle evictionTarget
  split
  · next target htarget =>
    split at htarget
    · next hlt =>
      cases htarget
      have hpos := evictionTarget_pos hlt
      rw [chunkNames_evictOldestChunks_iff]
      exact or_congr_left (by omega)
    · cases htarget
  · next hnone =>
    split at hnone
    · cases hnone
    · next hle => exact iff_of_true (fun _ => Iff.rfl) (Or.inl (Int.not_lt.1 hle))

@[simp] lemma loadManifest_cycle (store : LocalStore) (atime : String → ℚ)
    (unlinks : String → Bool) (mb : ℤ) (others : ℕ) (h : String) :
    (store.storageMonitorCycle atime unlinks mb others).loadManifest h = store.loadManifest h := by
  unfold storageMonitorCycle
  split <;> rfl

end LocalStore

/-! ## The quota -/

section

variable {unlinks : String → Bool} {mb : ℤ} {dir : StorageDir}

lemma storageMonitorCycle_of_le (h : (StorageDir.getStorageSize dir : ℤ) ≤ maxBytes mb) :
    storageMonitorCycle unlinks mb dir = dir := by
  rw [storageMonitorCycle, StorageDir.getTotalStorageSize, evictionTarget, if_neg (Int.not_lt.2 h)]

lemma storageMonitorCycle_of_lt (h : maxBytes mb < StorageDir.getStorageSize dir) :
    storageMonitorCycle unlinks mb dir = (StorageDir.evictOldestChunks unlinks dir
      (pyInt (StorageDir.getStorageSize dir - maxBytes mb * (9 / 10)))).1 := by
  rw [storageMonitorCycle, StorageDir.getTotalStorageSize, evictionTarget, if_pos h]

/-- Freeing the truncated target leaves at most the fraction, rounded up. -/
lemma sub_le_ceil {used freed : ℕ} {x : ℚ} (hx : x ≤ used) (h : pyInt (used - x) ≤ freed) :
    (used : ℤ) - freed ≤ ⌈x⌉ := by
  rw [pyInt, if_pos (sub_nonneg.2 hx)] at h
  have hfloor : (used : ℤ) - ⌈x⌉ ≤ ⌊(used : ℚ) - x⌋ := by
    rw [Int.le_floor]
    push_cast
    have := Int.le_ceil x
    linarith
  omega

lemma nine_tenths_le (hmb : 0 ≤ mb) : (maxBytes mb : ℚ) * (9 / 10) ≤ maxBytes mb := by
  have hmax : (0 : ℚ) ≤ maxBytes mb := by
    unfold maxBytes
    exact_mod_cast (by omega : 0 ≤ mb * 1024 * 1024)
  linarith

/-- What a cycle above the quota leaves. -/
lemma getStorageSize_cycle_le (hmb : 0 ≤ mb)
    (hrem : ∀ name stat, dir.get? name = some stat → isChunkFile name = true →
      StorageDir.canUnlink unlinks name stat = true)
    (h : maxBytes mb < StorageDir.getStorageSize dir) :
    (StorageDir.getStorageSize (storageMonitorCycle unlinks mb dir) : ℤ) ≤
      max ⌈(maxBytes mb : ℚ) * (9 / 10)⌉ (StorageDir.othersSize dir) := by
  have hfree := StorageDir.getStorageSize_evictOldestChunks unlinks dir
    (pyInt (StorageDir.getStorageSize dir - maxBytes mb * (9 / 10)))
  rw [storageMonitorCycle_of_lt h]
  rcases StorageDir.evictOldestChunks_stops _ hrem with hmet | hgone
  · refine le_max_of_le_left ?_
    have hx : (maxBytes mb : ℚ) * (9 / 10) ≤ StorageDir.getStorageSize dir :=
      (nine_tenths_le hmb).trans (by exact_mod_cast h.le)
    have := sub_le_ceil hx hmet
    omega
  · rw [hgone]
    exact le_max_right _ _

end

/-- **One cycle enforces the quota and touches nothing else.**  Within the quota it deletes
nothing.  Above it, it deletes chunk files only and leaves at most nine tenths of the quota, rounded
up, or what the other files take.  When the other files fit in nine tenths of the quota, the
directory is within the quota afterwards, and a later cycle deletes nothing as long as the
directory has not grown. -/
theorem storageMonitorCycle_enforces_quota (unlinks : String → Bool) (mb : ℤ) (hmb : 0 ≤ mb)
    (dir : StorageDir)
    (hrem : ∀ name stat, dir.get? name = some stat → isChunkFile name = true →
      StorageDir.canUnlink unlinks name stat = true) :
    ((StorageDir.getStorageSize dir : ℤ) ≤ maxBytes mb →
      storageMonitorCycle unlinks mb dir = dir) ∧
    (maxBytes mb < StorageDir.getStorageSize dir →
      (∀ name stat, (storageMonitorCycle unlinks mb dir).get? name = some stat →
        dir.get? name = some stat) ∧
      (∀ name, isChunkFile name = false →
        (storageMonitorCycle unlinks mb dir).get? name = dir.get? name) ∧
      (StorageDir.getStorageSize (storageMonitorCycle unlinks mb dir) : ℤ) ≤
        max ⌈(maxBytes mb : ℚ) * (9 / 10)⌉ (StorageDir.othersSize dir)) ∧
    ((StorageDir.othersSize dir : ℚ) ≤ maxBytes mb * (9 / 10) →
      (StorageDir.getStorageSize (storageMonitorCycle unlinks mb dir) : ℤ) ≤ maxBytes mb ∧
      ∀ dir' : StorageDir, StorageDir.getStorageSize dir' ≤
          StorageDir.getStorageSize (storageMonitorCycle unlinks mb dir) →
        storageMonitorCycle unlinks mb dir' = dir') := by
  refine ⟨storageMonitorCycle_of_le, fun h => ⟨?_, ?_, getStorageSize_cycle_le hmb hrem h⟩, ?_⟩
  · intro name stat hget
    rw [storageMonitorCycle_of_lt h] at hget
    exact StorageDir.get?_of_get?_evictOldestChunks hget
  · intro name hname
    rw [storageMonitorCycle_of_lt h]
    exact StorageDir.get?_evictOldestChunks_of_not_chunk hname
  · intro hothers
    have hquota : (StorageDir.getStorageSize (storageMonitorCycle unlinks mb dir) : ℤ) ≤
        maxBytes mb := by
      rcases le_or_gt (StorageDir.getStorageSize dir : ℤ) (maxBytes mb) with h | h
      · rwa [storageMonitorCycle_of_le h]
      · refine (getStorageSize_cycle_le hmb hrem h).trans (max_le ?_ ?_)
        · exact Int.ceil_le.2 (nine_tenths_le hmb)
        · exact_mod_cast hothers.trans (nine_tenths_le hmb)
    refine ⟨hquota, fun dir' hle => storageMonitorCycle_of_le ?_⟩
    omega

/-- A database, a temporary file and two chunks, one byte above a quota of one megabyte. -/
def fullDir : StorageDir where
  entries := [("distristore.db", ⟨4096, 9, true⟩), ("chunk_aa.bin", ⟨600000, 5, true⟩),
    ("temp_1.bin", ⟨100, 1, true⟩), ("chunk_bb.bin", ⟨444381, 3, true⟩)]
  nodupKeys := by decide

/-- The older of the two chunks goes, and the directory is within the quota. -/
theorem storageMonitorCycle_fullDir :
    StorageDir.getStorageSize (storageMonitorCycle (fun _ => true) 1 fullDir) ≤ 1048576 ∧
      StorageDir.getStorageSize fullDir = 1048577 := by
  refine ⟨?_, by decide⟩
  have hquota := storageMonitorCycle_enforces_quota (fun _ => true) 1 (by decide) fullDir
    (fun name stat hget _ => by
      have hmem := Dict.mem_entries_of_get? hget
      simp only [fullDir, List.mem_cons, List.not_mem_nil, or_false, Prod.mk.injEq] at hmem
      rcases hmem with ⟨rfl, rfl⟩ | ⟨rfl, rfl⟩ | ⟨rfl, rfl⟩ | ⟨rfl, rfl⟩ <;> rfl)
  have hothers : StorageDir.othersSize fullDir = 4196 := by decide
  have hle := (hquota.2.2 (by rw [hothers]; norm_num [maxBytes])).1
  simpa [maxBytes] using hle

end DistriStore
