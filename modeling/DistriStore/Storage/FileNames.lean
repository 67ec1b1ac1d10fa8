import DistriStore.FileEngine.Crypto
import Mathlib.Data.List.TakeWhile

/-!
# Names of files in the storage directory

A chunk hash or a file hash is any string that a manifest or a request carries, and becomes part of
a file name.  The file system takes names of at most 255 bytes without `/` and without the null
character; under any other name there is no file, and none can be written.  `Path.exists` answers
`False` for such a name, but raises when a component of the path is too long.
-/

namespace DistriStore

open Lib

/-- The name of a file that can exist. -/
def IsFileName (name : String) : Prop :=
  '/' ∉ name.toList ∧ Char.ofNat 0 ∉ name.toList ∧ name.utf8ByteSize ≤ 255

/-- `Path.exists` raises (`ENAMETOOLONG`): there is no directory that the first component could
name, so that the system comes to no other one. -/
def TooLong (name : String) : Prop :=
  Char.ofNat 0 ∉ name.toList ∧
    255 < (String.ofList (name.toList.takeWhile (· ≠ '/'))).utf8ByteSize

instance : DecidablePred IsFileName := fun _ => inferInstanceAs (Decidable (_ ∧ _ ∧ _))

instance : DecidablePred TooLong := fun _ => inferInstanceAs (Decidable (_ ∧ _))

/-- The file of a chunk. -/
def chunkFileName (chunkHash : String) : String := "chunk_" ++ chunkHash ++ ".bin"

/-- A chunk of this name can be on disk. -/
def Storable (chunkHash : String) : Prop := IsFileName (chunkFileName chunkHash)

instance : DecidablePred Storable := fun _ => inferInstanceAs (Decidable (IsFileName _))

/-- What writing the file of a chunk raises when it cannot have this name. -/
def saveError (chunkHash : String) : PyError :=
  if Char.ofNat 0 ∈ chunkHash.toList then .valueError "embedded null byte" else .osError

/-- How looking for a chunk that is not on disk ends: with `e`, unless the look itself raises. -/
def missingChunk (chunkHash : String) (e : PyError) : PyError :=
  if TooLong (chunkFileName chunkHash) then .osError else e

lemma not_tooLong_of_isFileName {name : String} (h : IsFileName name) : ¬ TooLong name := by
  rintro ⟨-, hlong⟩
  have hall : name.toList.takeWhile (· ≠ '/') = name.toList :=
    List.takeWhile_eq_self_iff.2 fun c hc => decide_eq_true fun heq => h.1 (heq ▸ hc)
  rw [hall, String.ofList_toList] at hlong
  exact absurd h.2.2 (by omega)

/-! ## Digests as names -/

lemma mem_toList_sha256Hash {data : Bytes} {c : Char} (h : c ∈ (sha256Hash data).toList) :
    c ∈ hexDigits := by
  rw [sha256Hash, hexDigest, String.toList_ofList] at h
  obtain ⟨b, -, hc⟩ := List.mem_flatMap.1 h
  rcases List.mem_cons.1 hc with rfl | hc
  · exact List.get_mem ..
  · rw [List.mem_singleton.1 hc]
    exact List.get_mem ..

/-- A string of one-byte characters has as many bytes. -/
lemma utf8ByteSize_ofList {cs : List Char} (h : ∀ c ∈ cs, c.utf8Size = 1) :
    (String.ofList cs).utf8ByteSize = cs.length := by
  induction cs with
  | nil => rfl
  | cons c cs ih =>
    have hcons : String.ofList (c :: cs) = String.singleton c ++ String.ofList cs := by
      simp
    rw [hcons, String.utf8ByteSize_append, String.utf8ByteSize_singleton,
      ih fun c' hc' => h c' (List.mem_cons_of_mem _ hc'), h c (List.mem_cons_self ..),
      List.length_cons, Nat.add_comm]

lemma utf8ByteSize_sha256Hash (data : Bytes) : (sha256Hash data).utf8ByteSize = 64 := by
  have hall : hexDigits.all (fun c => c.val ≤ 127) = true := by decide
  have hone : ∀ c ∈ hexDigits, c.utf8Size = 1 := fun c hc =>
    Char.utf8Size_eq_one_iff.2 (of_decide_eq_true (List.all_eq_true.1 hall c hc))
  have hsize : (String.ofList (sha256Hash data).toList).utf8ByteSize = _ :=
    utf8ByteSize_ofList fun c hc => hone c (mem_toList_sha256Hash hc)
  rwa [String.ofList_toList, String.length_toList, length_sha256Hash] at hsize

/-- A chunk can be stored under any digest. -/
lemma storable_sha256Hash (data : Bytes) : Storable (sha256Hash data) := by
  have hmem {c : Char} (hc : c ∈ (chunkFileName (sha256Hash data)).toList) :
      c ∈ "chunk_".toList ++ hexDigits ++ ".bin".toList := by
    simp only [chunkFileName, String.toList_append, List.mem_append] at hc ⊢
    exact hc.imp_left (Or.imp_right mem_toList_sha256Hash)
  refine ⟨fun h => absurd (hmem h) (by decide), fun h => absurd (hmem h) (by decide), ?_⟩
  rw [chunkFileName, String.utf8ByteSize_append, String.utf8ByteSize_append,
    utf8ByteSize_sha256Hash]
  decide

/-! ## Names as they are listed -/

/-- `s.replace(needle, "")`: what is left when every occurrence is taken out, from the left;
`skip` characters still belong to the last one. -/
def removeAll (needle : List Char) : ℕ → List Char → List Char
  | _, [] => []
  | skip + 1, _ :: cs => removeAll needle skip cs
  | 0, c :: cs =>
    if needle.isPrefixOf (c :: cs) then removeAll needle (needle.length - 1) cs
    else c :: removeAll needle 0 cs

/-- The hash that `list_chunks` reads off the name of a chunk file, whose stem is `chunk_<hash>`. -/
def listedName (chunkHash : String) : String :=
  String.ofList (removeAll "chunk_".toList 0 ("chunk_" ++ chunkHash).toList)

/-- A name that does not contain the prefix of the file names. -/
def Plain (chunkHash : String) : Prop := ¬ "chunk_".toList <:+: chunkHash.toList

instance : DecidablePred Plain := fun _ => inferInstanceAs (Decidable (¬ _))

lemma removeAll_of_not_infix {needle cs : List Char} (h : ¬ needle <:+: cs) :
    removeAll needle 0 cs = cs := by
  induction cs with
  | nil => rfl
  | cons c cs ih =>
    have hnot : ¬ needle.isPrefixOf (c :: cs) = true := fun hp =>
      h (List.isPrefixOf_iff_prefix.1 hp).isInfix
    rw [removeAll, if_neg hnot, ih fun hi => h (hi.trans (List.suffix_cons c cs).isInfix)]

lemma removeAll_append (needle pre cs : List Char) :
    removeAll needle pre.length (pre ++ cs) = removeAll needle 0 cs := by
  induction pre with
  | nil => rfl
  | cons c pre ih => exact ih

/-- A plain name is listed as it is. -/
lemma listedName_of_plain {chunkHash : String} (h : Plain chunkHash) :
    listedName chunkHash = chunkHash := by
  have hprefix : removeAll "chunk_".toList 0 ("chunk_" ++ chunkHash).toList =
      removeAll "chunk_".toList 0 chunkHash.toList := by
    rw [String.toList_append]
    exact removeAll_append "chunk_".toList "hunk_".toList chunkHash.toList
  rw [listedName, hprefix, removeAll_of_not_infix h, String.ofList_toList]

lemma plain_sha256Hash (data : Bytes) : Plain (sha256Hash data) := by
  intro h
  have hmem : 'h' ∈ (sha256Hash data).toList := h.subset (by decide)
  exact absurd (mem_toList_sha256Hash hmem) (by decide)

end DistriStore
