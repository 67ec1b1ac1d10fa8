import DistriStore.FileEngine.Readers
import DistriStore.Storage.LocalStore

/-!
# What the writers produce

Both writers cut a file into the same numbered pieces and encode each piece in the same way, so
there is one description of their output: the list `encodedChunks` of manifest entries with the
chunk bytes, and the manifest `writtenManifest` over it.  `chunkFile_eq` and
`pipelineChunkAndStore_eq` say that this is what they return, and `opens_encodedChunks` that the
chunks open to the blocks of the file, under the password they were written with, or under any
password when they were written without one.

A manifest that goes through the database comes back with its `chunk_size` replaced by the
default, because the table has no column for it (`fromDict_dictOf_rowOf_toDict`).
-/

namespace DistriStore

open Lib

/-! ## Blocks -/

lemma flatten_readBlocks {n : ℕ} (hn : 1 ≤ n) (content : Bytes) :
    (readBlocks n content).flatten = content := by
  induction content using readBlocks.induct n with
  | case1 rest h =>
    rw [readBlocks, if_pos h, List.flatten_nil]
    rcases List.take_eq_nil_iff.1 h with h | h
    · omega
    · exact h.symm
  | case2 rest h ih =>
    rw [readBlocks, if_neg h, List.flatten_cons, ih, List.take_append_drop]

lemma streamingFileHash_eq (content : Bytes) : streamingFileHash content = sha256Hash content := by
  rw [streamingFileHash, flatten_readBlocks (by decide)]

lemma map_snd_streamChunks (content : Bytes) (n : ℕ) :
    (streamChunks content n).map Prod.snd = readBlocks n content := by
  refine List.ext_getElem ?_ ?_
  · simp [streamChunks]
  · intro i h₁ h₂
    simp [streamChunks]

lemma pairwise_streamChunks (content : Bytes) (n : ℕ) :
    (streamChunks content n).Pairwise fun a b => a.1 < b.1 := by
  rw [List.pairwise_iff_getElem]
  intro i j hi hj hij
  simpa [streamChunks] using hij

/-- However the pieces are encoded, their entries are in the order of the file. -/
lemma pairwise_map_streamChunks {encode : ℕ × Bytes → ChunkInfo × Bytes}
    (hindex : ∀ piece, (encode piece).1.index = piece.1) (content : Bytes) (n : ℕ) :
    ((streamChunks content n).map encode).Pairwise fun a b => a.1.index < b.1.index := by
  rw [List.pairwise_map]
  refine (pairwise_streamChunks content n).imp ?_
  intro a b hab
  rw [hindex, hindex]
  exact_mod_cast hab

/-! ## Encoded chunks -/

section Encoded

variable (P : Packages) (password : Option String) (salt : Salt) (nonces : ℕ → Nonce)

/-- The manifest entries and the bytes of the chunks of a file. -/
def encodedChunks (content : Bytes) (chunkSize : ℕ) : List (ChunkInfo × Bytes) :=
  (streamChunks content chunkSize).map (encodeChunk P (writerKey password salt) nonces)

/-- The manifest over a list of encoded chunks. -/
def writtenManifest (file : SourceFile) (chunkSize : ℕ) (pairs : List (ChunkInfo × Bytes)) :
    FileManifest where
  originalFilename := file.name
  originalSize := file.content.length
  fileHash := sha256Hash file.content
  chunkSize := chunkSize
  chunks := pairs.map Prod.fst
  merkleRoot := computeMerkleRoot (pairs.map fun p => p.1.chunkHash)
  compression := "zstd"

variable {P password salt nonces}

lemma encodeChunk_index (key : Option (Bytes × Bytes)) (piece : ℕ × Bytes) :
    (encodeChunk P key nonces piece).1.index = piece.1 := rfl

lemma encodeChunk_hash (key : Option (Bytes × Bytes)) (piece : ℕ × Bytes) :
    sha256Hash (encodeChunk P key nonces piece).2 = (encodeChunk P key nonces piece).1.chunkHash :=
  rfl

lemma encodeChunk_encrypted (piece : ℕ × Bytes) :
    (encodeChunk P (writerKey password salt) nonces piece).1.encrypted = truthy password := by
  unfold encodeChunk writerKey
  by_cases h : truthy password = true <;> simp [h]

lemma hash_of_mem_encodedChunks {content : Bytes} {n : ℕ} {p : ChunkInfo × Bytes}
    (hp : p ∈ encodedChunks P password salt nonces content n) :
    sha256Hash p.2 = p.1.chunkHash := by
  obtain ⟨piece, -, rfl⟩ := List.mem_map.1 hp
  exact encodeChunk_hash _ _

lemma encrypted_of_mem_encodedChunks {content : Bytes} {n : ℕ} {p : ChunkInfo × Bytes}
    (hp : p ∈ encodedChunks P password salt nonces content n) :
    p.1.encrypted = truthy password := by
  obtain ⟨piece, -, rfl⟩ := List.mem_map.1 hp
  exact encodeChunk_encrypted _

lemma readBlocks_nil (n : ℕ) : readBlocks n [] = [] := by
  rw [readBlocks, if_pos (List.take_nil ..)]

lemma content_ne_nil_of_mem_encodedChunks {content : Bytes} {n : ℕ} {p : ChunkInfo × Bytes}
    (hp : p ∈ encodedChunks P password salt nonces content n) : content ≠ [] := by
  rintro rfl
  simp [encodedChunks, streamChunks, readBlocks_nil] at hp

lemma pairwise_encodedChunks (content : Bytes) (n : ℕ) :
    (encodedChunks P password salt nonces content n).Pairwise
      fun a b => a.1.index < b.1.index :=
  pairwise_map_streamChunks (encodeChunk_index _) content n

/-- A reader's password gives the key that a writer with `password` drew with `salt`. -/
def Unlocks (password : Option String) (salt : Bytes) (q : Option String) : Prop :=
  truthy password = true →
    truthy q = true ∧ deriveKey (q.getD "") salt = deriveKey (password.getD "") salt

lemma Unlocks.of_eq {q : Option String} (h : truthy password = true → q = password) :
    Unlocks password salt q := by
  intro hpw
  rw [h hpw]
  exact ⟨hpw, rfl⟩

/-- One encoded piece opens to the piece. -/
lemma opensTo_encodeChunk (hP : P.Lawful) {q : Option String} (hq : Unlocks password salt q)
    (piece : ℕ × Bytes) :
    OpensTo P q (truthy password) salt
      (encodeChunk P (writerKey password salt) nonces piece) piece.2 := by
  by_cases hpw : truthy password = true
  · obtain ⟨hqt, hkeys⟩ := hq hpw
    have hkey : writerKey password salt = some (deriveKey (q.getD "") salt) := by
      rw [writerKey, if_pos hpw, hkeys]
    have hread : readKey (truthy password) salt q = some (deriveKey (q.getD "") salt).1 := by
      simp [readKey, hpw, hqt]
    have hdata : (encodeChunk P (writerKey password salt) nonces piece).2 =
        encryptWithKey P (P.zstdCompress piece.2) (deriveKey (q.getD "") salt).1 salt
          (nonces piece.1) := by
      rw [hkey]
      rfl
    refine ⟨encodeChunk_encrypted piece, fun _ => ?_, ?_⟩
    · rw [hdata]
      exact slice_salt_encryptWithKey P _ _ salt _
    · rw [hread, hdata]
      simp only [workerDecode, if_true, workerDecryptKeyed,
        decryptWithKey_encryptWithKey hP _ _ salt _ (length_deriveKey _ _)]
      exact decompress_zstdCompress hP piece.2
  · have hkey : writerKey password salt = none := by rw [writerKey, if_neg hpw]
    have hread : readKey (truthy password) salt q = none := by simp [readKey, hpw]
    refine ⟨encodeChunk_encrypted piece, fun h => ?_, ?_⟩
    · simp [hpw] at h
    · rw [hread, hkey]
      exact decompress_zstdCompress hP piece.2

theorem opens_encodedChunks (hP : P.Lawful) {q : Option String} {content : Bytes}
    (hq : content ≠ [] → Unlocks password salt q) (n : ℕ) :
    Opens P q (encodedChunks P password salt nonces content n) (readBlocks n content) := by
  refine ⟨pairwise_encodedChunks content n, truthy password, salt, ?_⟩
  rw [encodedChunks, ← map_snd_streamChunks, List.forall₂_map_left_iff,
    List.forall₂_map_right_iff, List.forall₂_same]
  intro piece hpiece
  apply opensTo_encodeChunk hP
  apply hq
  exact content_ne_nil_of_mem_encodedChunks (List.mem_map_of_mem (f := encodeChunk P
    (writerKey password salt) nonces) hpiece)

/-! ## The two writers -/

theorem chunkFile_eq (filePath : String) (file : SourceFile) (n : ℕ) :
    chunkFile P filePath (some file) n password salt nonces =
      .ok (writtenManifest file n (encodedChunks P password salt nonces file.content n),
        (encodedChunks P password salt nonces file.content n).map Prod.snd) := by
  simp only [chunkFile, writtenManifest, encodedChunks, streamingFileHash_eq, List.map_map]
  rfl

lemma pipelineEncode_eq (key : Option (Bytes × Bytes)) (piece : ℕ × Bytes) :
    pipelineEncode P key nonces piece = encodeChunk P key nonces piece := by
  cases key <;> rfl

/-- The pending stores are all made, in order, one after the other. -/
lemma storeLoop_eq {σ : Type} {storeFn : StoreFn σ} {put : σ → String × Bytes → σ}
    (hput : ∀ h d s, storeFn h d s = (.ok (), put s (h, d))) (pairs : List (ChunkInfo × Bytes))
    (pending : Option (String × Bytes)) (s : σ) :
    storeLoop storeFn pairs pending s =
      (.ok (), (pending.toList ++ pairs.map fun p => (p.1.chunkHash, p.2)).foldl put s) := by
  induction pairs generalizing pending s with
  | nil =>
    cases pending with
    | none => rfl
    | some e => exact hput e.1 e.2 s
  | cons p pairs ih =>
    have hawait : awaitStore storeFn pending s = (.ok (), pending.toList.foldl put s) := by
      cases pending with
      | none => rfl
      | some e => exact hput e.1 e.2 s
    rw [storeLoop]
    simp only [hawait, ih, Option.toList_some, List.map_cons, List.foldl_append, List.foldl_cons,
      List.cons_append, List.nil_append]

theorem pipelineChunkAndStore_eq {σ : Type} {storeFn : StoreFn σ} {put : σ → String × Bytes → σ}
    (hput : ∀ h d s, storeFn h d s = (.ok (), put s (h, d))) (filePath : String)
    (file : SourceFile) (n : ℕ) (s : σ) :
    pipelineChunkAndStore P filePath (some file) storeFn (some n) password salt nonces s =
      (.ok (writtenManifest file n (encodedChunks P password salt nonces file.content n)),
        ((encodedChunks P password salt nonces file.content n).map
          fun p => (p.1.chunkHash, p.2)).foldl put s) := by
  have henc : pipelineEncode P (writerKey password salt) nonces =
      encodeChunk P (writerKey password salt) nonces :=
    funext fun piece => pipelineEncode_eq _ piece
  simp only [pipelineChunkAndStore, henc, Option.getD_some, storeLoop_eq hput, writtenManifest,
    encodedChunks, streamingFileHash_eq, List.map_map, Option.toList_none, List.nil_append]
  rfl

end Encoded

/-! ## Manifests through the database -/

lemma fromDict_toDict_chunks (chunks : List ChunkInfo) :
    (chunks.map ChunkInfo.toDict).mapM ChunkInfo.fromDict = .ok chunks := by
  induction chunks with
  | nil => rfl
  | cons c chunks ih =>
    rw [List.map_cons, List.mapM_cons, ih]
    rfl

/-- A manifest whose Merkle root is that of its chunks comes back from the database with
everything but its `chunk_size`. -/
theorem fromDict_dictOf_rowOf_toDict (m : FileManifest)
    (hroot : m.merkleRoot = computeMerkleRoot (m.chunks.map ChunkInfo.chunkHash)) :
    FileManifest.fromDict (NodeDatabase.dictOf m.fileHash (NodeDatabase.rowOf m.toDict)) =
      .ok { m with chunkSize := defaultChunkSize } := by
  have hchunks := fromDict_toDict_chunks m.chunks
  simp only [FileManifest.fromDict, NodeDatabase.dictOf, NodeDatabase.rowOf, FileManifest.toDict,
    getKey, Option.getD_some, Option.getD_none, bind, Except.bind, pure, Except.pure, hchunks,
    ← hroot, ite_self]

end DistriStore
