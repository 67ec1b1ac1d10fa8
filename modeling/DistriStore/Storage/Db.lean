import DistriStore.FileEngine.Chunker
import DistriStore.Lib.Dict

/-!
# The manifests table (`backend/storage/db.py`)

A manifest dictionary is stored as one row under a file hash, with the list of chunks as JSON
text.  The row has no column for `chunk_size`, and the dictionary read back carries the hash it
was stored under.  `json.loads` undoes `json.dumps`, so the text is represented by the list it
encodes.  A dictionary with a size beyond 64 bits is refused; the routes that receive one see to it
(`Bindable`).
-/

namespace DistriStore

open Lib

/-- A row of `manifests`, less its key. -/
structure ManifestRow where
  filename : String
  totalSize : ℤ
  merkleRoot : String
  chunksJson : List ChunkDict
  compression : String
  deriving DecidableEq, Repr

structure NodeDatabase where
  manifests : Dict String ManifestRow

instance : EmptyCollection NodeDatabase := ⟨⟨∅⟩⟩

namespace NodeDatabase

/-- The row that `_save_manifest_sync` writes for a dictionary. -/
def rowOf (d : ManifestDict) : ManifestRow where
  filename := d.originalFilename.getD ""
  totalSize := d.originalSize.getD 0
  merkleRoot := d.merkleRoot.getD ""
  chunksJson := d.chunks.getD []
  compression := d.compression.getD ""

/-- The dictionary that `_get_manifest_sync` builds from a row. -/
def dictOf (fileHash : String) (row : ManifestRow) : ManifestDict where
  fileHash := some fileHash
  originalFilename := some row.filename
  originalSize := some row.totalSize
  merkleRoot := some row.merkleRoot
  chunks := some row.chunksJson
  compression := some row.compression

/-- SQLite takes the values of the row: an integer has at most 64 bits, with its sign. -/
def Bindable (d : ManifestDict) : Prop :=
  -2 ^ 63 ≤ d.originalSize.getD 0 ∧ d.originalSize.getD 0 < 2 ^ 63

instance : DecidablePred Bindable := fun _ => inferInstanceAs (Decidable (_ ∧ _))

/-- `INSERT OR REPLACE`: an older row with the same key is deleted. -/
def saveManifestSync (db : NodeDatabase) (fileHash : String) (d : ManifestDict) : NodeDatabase :=
  { db with manifests := (db.manifests.erase fileHash).set fileHash (rowOf d) }

def getManifestSync (db : NodeDatabase) (fileHash : String) : Option ManifestDict :=
  (db.manifests.get? fileHash).map (dictOf fileHash)

/-- `SELECT * FROM manifests`. -/
def getAllManifestsSync (db : NodeDatabase) : List ManifestDict :=
  db.manifests.entries.map fun e => dictOf e.1 e.2

@[simp] lemma getManifestSync_empty (h : String) :
    (∅ : NodeDatabase).getManifestSync h = none := rfl

lemma getManifestSync_saveManifestSync (db : NodeDatabase) (h h' : String) (d : ManifestDict) :
    (db.saveManifestSync h d).getManifestSync h' =
      if h' = h then some (dictOf h (rowOf d)) else db.getManifestSync h' := by
  unfold getManifestSync saveManifestSync
  rw [Dict.get?_set]
  by_cases hh : h' = h
  · simp [hh]
  · rw [if_neg hh, if_neg hh, Dict.get?_erase_ne _ hh]

/-- What was read back once is read back unchanged after any further save and load. -/
lemma rowOf_dictOf (h : String) (row : ManifestRow) : rowOf (dictOf h row) = row := rfl

/-- The table never answers with an empty dictionary. -/
lemma truthy_dictOf (h : String) (row : ManifestRow) : (dictOf h row).truthy = true := by
  simp [ManifestDict.truthy, dictOf]

end NodeDatabase

end DistriStore
