import DistriStore.Storage.Db
import DistriStore.Storage.FileNames

/-!
# Local chunk storage (`backend/storage/local_store.py`)

The storage directory holds one file `chunk_<hash>.bin` for each stored chunk; manifests are in
the database.  Reading and writing use the name given by the caller: nothing here compares a name
with the bytes stored under it.  The callers see to it that a chunk is saved under a name that a
file can have (`Storable`).
-/

namespace DistriStore

open Lib

structure LocalStore where
  /-- The files `chunk_<hash>.bin`, by hash. -/
  chunks : Dict String Bytes
  db : NodeDatabase

instance : EmptyCollection LocalStore := ⟨⟨∅, ∅⟩⟩

namespace LocalStore

/-- Save chunk data to disk. -/
def saveChunk (store : LocalStore) (chunkHash : String) (data : Bytes) : LocalStore :=
  { store with chunks := store.chunks.set chunkHash data }

/-- Load chunk data from disk; `none` if not found. -/
def loadChunk (store : LocalStore) (chunkHash : String) : Option Bytes :=
  store.chunks.get? chunkHash

/-- Check if a chunk exists on disk. -/
def hasChunk (store : LocalStore) (chunkHash : String) : Bool := (store.loadChunk chunkHash).isSome

/-- Delete a chunk file. -/
def deleteChunk (store : LocalStore) (chunkHash : String) : LocalStore :=
  { store with chunks := store.chunks.erase chunkHash }

/-- The hashes of the chunks on disk. -/
def chunkNames (store : LocalStore) : List String := store.chunks.keys

/-- List all chunk hashes stored locally, as they are read off the file names. -/
def listChunks (store : LocalStore) : List String := store.chunkNames.map listedName

/-- Save a file manifest to SQLite. -/
def saveManifest (store : LocalStore) (fileHash : String) (d : ManifestDict) : LocalStore :=
  { store with db := store.db.saveManifestSync fileHash d }

/-- Load a file manifest from SQLite. -/
def loadManifest (store : LocalStore) (fileHash : String) : Option ManifestDict :=
  store.db.getManifestSync fileHash

/-- Save chunks one after the other. -/
def saveChunks (store : LocalStore) (es : List (String × Bytes)) : LocalStore :=
  es.foldl (fun store e => store.saveChunk e.1 e.2) store

@[simp] lemma loadChunk_empty (c : String) : (∅ : LocalStore).loadChunk c = none := rfl

@[simp] lemma loadManifest_empty (h : String) : (∅ : LocalStore).loadManifest h = none := rfl

lemma mem_chunkNames {store : LocalStore} {c : String} :
    c ∈ store.chunkNames ↔ ∃ data, store.loadChunk c = some data :=
  Dict.mem_keys_iff

/-- Plain names are listed as they are. -/
lemma listChunks_of_plain {store : LocalStore} (h : ∀ c ∈ store.chunkNames, Plain c) :
    store.listChunks = store.chunkNames :=
  (List.map_congr_left fun c hc => listedName_of_plain (h c hc)).trans (List.map_id _)

lemma loadChunk_saveChunk (store : LocalStore) (c c' : String) (data : Bytes) :
    (store.saveChunk c data).loadChunk c' = if c' = c then some data else store.loadChunk c' :=
  Dict.get?_set _ _ _ _

lemma loadChunk_deleteChunk (store : LocalStore) (c c' : String) :
    (store.deleteChunk c).loadChunk c' = if c' = c then none else store.loadChunk c' :=
  Dict.get?_erase _ _ _

@[simp] lemma loadChunk_saveManifest (store : LocalStore) (h c : String) (d : ManifestDict) :
    (store.saveManifest h d).loadChunk c = store.loadChunk c := rfl

lemma loadManifest_saveManifest (store : LocalStore) (h h' : String) (d : ManifestDict) :
    (store.saveManifest h d).loadManifest h' =
      if h' = h then some (NodeDatabase.dictOf h (NodeDatabase.rowOf d))
      else store.loadManifest h' :=
  NodeDatabase.getManifestSync_saveManifestSync _ _ _ _

/-- A manifest read from the table is what reading back its own row gives. -/
lemma dictOf_rowOf_loadManifest {store : LocalStore} {h : String} {d : ManifestDict}
    (hd : store.loadManifest h = some d) : NodeDatabase.dictOf h (NodeDatabase.rowOf d) = d := by
  obtain ⟨row, -, rfl⟩ := Option.map_eq_some_iff.1 hd
  rw [NodeDatabase.rowOf_dictOf]

@[simp] lemma loadManifest_saveChunk (store : LocalStore) (c h : String) (data : Bytes) :
    (store.saveChunk c data).loadManifest h = store.loadManifest h := rfl

@[simp] lemma loadManifest_deleteChunk (store : LocalStore) (c h : String) :
    (store.deleteChunk c).loadManifest h = store.loadManifest h := rfl

lemma saveChunks_eq (store : LocalStore) (es : List (String × Bytes)) :
    store.saveChunks es = { store with chunks := store.chunks.setAll es } := by
  induction es generalizing store with
  | nil => rfl
  | cons e es ih => exact ih (store.saveChunk e.1 e.2)

@[simp] lemma loadManifest_saveChunks (store : LocalStore) (es : List (String × Bytes))
    (h : String) : (store.saveChunks es).loadManifest h = store.loadManifest h := by
  rw [saveChunks_eq]
  rfl

/-- A name that is not written keeps its chunk. -/
lemma loadChunk_saveChunks_of_not_mem (store : LocalStore) (es : List (String × Bytes))
    (c : String) (h : c ∉ es.map Prod.fst) :
    (store.saveChunks es).loadChunk c = store.loadChunk c := by
  rw [saveChunks_eq]
  exact Dict.get?_setAll_of_not_mem es _ c h

/-- A name that is written is loaded with some data written under it. -/
lemma exists_loadChunk_saveChunks (store : LocalStore) (es : List (String × Bytes)) (c : String)
    (h : c ∈ es.map Prod.fst) :
    ∃ data, (c, data) ∈ es ∧ (store.saveChunks es).loadChunk c = some data := by
  rw [saveChunks_eq]
  exact Dict.exists_get?_setAll es _ c h

/-- What is loaded after saving chunks was among them or there before. -/
lemma loadChunk_saveChunks_cases (store : LocalStore) (es : List (String × Bytes)) (c : String)
    (data : Bytes) (h : (store.saveChunks es).loadChunk c = some data) :
    (c, data) ∈ es ∨ store.loadChunk c = some data := by
  rw [saveChunks_eq] at h
  exact Dict.get?_setAll_cases es _ c data h

end LocalStore

end DistriStore
