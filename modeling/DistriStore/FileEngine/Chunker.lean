import DistriStore.FileEngine.Crypto
import DistriStore.Lib.SortBy

/-!
# Chunking and merging (`backend/file_engine/chunker.py`)

A file is read in blocks of `chunk_size` bytes; each block is compressed, encrypted when there is
a password, and named by the SHA-256 of what results.  The manifest lists the chunks with their
indices, the hash of the whole file and the Merkle root of the chunk hashes.  Both mergers sort
the chunks by index, decode them one after the other and compare the hash of what they have
assembled with the manifest's `file_hash`; `merge_chunks` also checks every chunk hash and the
Merkle root first.

A manifest travels as a dictionary (`ManifestDict`): a JSON object whose keys may be missing, with
values of the types that the dataclasses declare.
-/

namespace DistriStore

open Lib

def defaultChunkSize : ℕ := 262144

/-! ## Dynamic chunk sizing thresholds -/

def chunk256KB : ℕ := 262144
def chunk1MB : ℕ := 1048576
def chunk4MB : ℕ := 4194304
def tier50MB : ℕ := 50 * 1024 * 1024
def tier500MB : ℕ := 500 * 1024 * 1024

/-- Select chunk size dynamically based on file size. -/
def getOptimalChunkSize (fileSizeBytes : ℕ) : ℕ :=
  if fileSizeBytes < tier50MB then chunk256KB
  else if fileSizeBytes < tier500MB then chunk1MB
  else chunk4MB

lemma getOptimalChunkSize_pos (n : ℕ) : 1 ≤ getOptimalChunkSize n := by
  unfold getOptimalChunkSize
  split
  · decide
  · split <;> decide

/-! ## Merkle tree -/

/-- The next level: neighbours are hashed together, a last node without a neighbour with
itself. -/
def merkleLevel : List String → List String
  | [] => []
  | [left] => [sha256Hash (encodeUtf8 (left ++ left))]
  | left :: right :: rest => sha256Hash (encodeUtf8 (left ++ right)) :: merkleLevel rest

lemma length_merkleLevel : ∀ level : List String,
    (merkleLevel level).length = (level.length + 1) / 2
  | [] => by simp [merkleLevel]
  | [_] => by simp [merkleLevel]
  | _ :: _ :: rest => by
    rw [merkleLevel, List.length_cons, length_merkleLevel rest, List.length_cons, List.length_cons]
    omega

/-- `while len(level) > 1`. -/
def merkleLoop (level : List String) : String :=
  if 1 < level.length then merkleLoop (merkleLevel level) else level.headD ""
termination_by level.length
decreasing_by
  rw [length_merkleLevel]
  omega

/-- Merkle root of a list of hashes. -/
def computeMerkleRoot (hashes : List String) : String :=
  match hashes with
  | [] => sha256Hash []
  | [h] => h
  | _ => merkleLoop hashes

/-! ## Data classes -/

structure ChunkInfo where
  index : ℤ
  chunkHash : String
  size : ℤ
  encrypted : Bool := false
  deriving DecidableEq, Repr

structure FileManifest where
  originalFilename : String
  originalSize : ℤ
  fileHash : String
  chunkSize : ℤ
  merkleRoot : String := ""
  compression : String := ""
  chunks : List ChunkInfo := []
  deriving DecidableEq, Repr

/-- One element of the `chunks` list of a manifest dictionary. -/
structure ChunkDict where
  index : Option ℤ
  chunkHash : Option String
  size : Option ℤ
  encrypted : Option Bool
  deriving DecidableEq, Repr

/-- A manifest dictionary; `none` is a missing key. -/
structure ManifestDict where
  version : Option ℤ := none
  originalFilename : Option String := none
  originalSize : Option ℤ := none
  fileHash : Option String := none
  chunkSize : Option ℤ := none
  merkleRoot : Option String := none
  compression : Option String := none
  chunkCount : Option ℤ := none
  chunks : Option (List ChunkDict) := none
  deriving DecidableEq, Repr

/-- The truth value of a dictionary: it has a key. -/
def ManifestDict.truthy (d : ManifestDict) : Bool := d ≠ {}

def ChunkInfo.toDict (c : ChunkInfo) : ChunkDict where
  index := some c.index
  chunkHash := some c.chunkHash
  size := some c.size
  encrypted := some c.encrypted

def FileManifest.toDict (m : FileManifest) : ManifestDict where
  version := some 2
  originalFilename := some m.originalFilename
  originalSize := some m.originalSize
  fileHash := some m.fileHash
  chunkSize := some m.chunkSize
  merkleRoot := some m.merkleRoot
  compression := some m.compression
  chunkCount := some m.chunks.length
  chunks := some (m.chunks.map ChunkInfo.toDict)

/-- `d[key]`. -/
def getKey {α : Type} (key : String) : Option α → Except PyError α
  | some v => .ok v
  | none => .error (.keyError key)

def ChunkInfo.fromDict (c : ChunkDict) : Except PyError ChunkInfo := do
  let index ← getKey "index" c.index
  let chunkHash ← getKey "chunk_hash" c.chunkHash
  let size ← getKey "size" c.size
  return { index, chunkHash, size, encrypted := c.encrypted.getD false }

def FileManifest.fromDict (d : ManifestDict) : Except PyError FileManifest := do
  let originalFilename ← getKey "original_filename" d.originalFilename
  let originalSize ← getKey "original_size" d.originalSize
  let fileHash ← getKey "file_hash" d.fileHash
  let chunks ← (d.chunks.getD []).mapM ChunkInfo.fromDict
  let merkleRoot := d.merkleRoot.getD ""
  return {
    originalFilename, originalSize, fileHash, chunks
    chunkSize := d.chunkSize.getD defaultChunkSize
    compression := d.compression.getD ""
    merkleRoot := if merkleRoot = "" ∧ chunks ≠ [] then
      computeMerkleRoot (chunks.map ChunkInfo.chunkHash) else merkleRoot }

/-! ## Reading -/

/-- The file at `file_path`. -/
structure SourceFile where
  name : String
  content : Bytes

/-- `while True: block = f.read(n); if not block: break`. -/
def readBlocks (n : ℕ) (rest : Bytes) : List Bytes :=
  if rest.take n = [] then [] else rest.take n :: readBlocks n (rest.drop n)
termination_by rest.length
decreasing_by
  rename_i h
  rw [List.length_drop]
  have hn : n ≠ 0 := fun hn => h (by simp [hn])
  have hr : rest.length ≠ 0 := fun hr => h (by simp [List.eq_nil_of_length_eq_zero hr])
  omega

/-- Yields (index, raw bytes) one chunk at a time. -/
def streamChunks (content : Bytes) (chunkSize : ℕ) : List (ℕ × Bytes) :=
  (readBlocks chunkSize content).mapIdx fun idx chunk => (idx, chunk)

/-- SHA-256 of a file, fed block by block. -/
def streamingFileHash (content : Bytes) : String :=
  sha256Hash (readBlocks 65536 content).flatten

/-! ## Chunker -/

/-- The body of the loop of `chunk_file`: one block to its entry in the manifest and its bytes.
`key` is the key and the salt derived once from the password. -/
def encodeChunk (P : Packages) (key : Option (Bytes × Bytes)) (nonces : ℕ → Nonce)
    (piece : ℕ × Bytes) : ChunkInfo × Bytes :=
  let compressed := P.zstdCompress piece.2
  let chunkBytes := match key with
    | some (k, salt) => encryptWithKey P compressed k salt (nonces piece.1)
    | none => compressed
  ({ index := piece.1
     chunkHash := sha256Hash chunkBytes
     size := chunkBytes.length
     encrypted := key.isSome }, chunkBytes)

/-- `derive_key(password)` when there is a password. -/
def writerKey (password : Option String) (salt : Salt) : Option (Bytes × Bytes) :=
  if truthy password then some (deriveKey (password.getD "") salt) else none

/-- Chunk the file found at `file_path`: the manifest and the bytes of the chunks.  `salt` and
`nonces i` are what `os.urandom` returns for the key and for chunk `i`. -/
def chunkFile (P : Packages) (filePath : String) (file : Option SourceFile) (chunkSize : ℕ)
    (password : Option String) (salt : Salt) (nonces : ℕ → Nonce) :
    Except PyError (FileManifest × List Bytes) :=
  match file with
  | none => .error (.fileNotFoundError ("File not found: " ++ filePath))
  | some file =>
    let encoded := (streamChunks file.content chunkSize).map
      (encodeChunk P (writerKey password salt) nonces)
    let chunks := encoded.map Prod.fst
    .ok ({ originalFilename := file.name
           originalSize := file.content.length
           fileHash := streamingFileHash file.content
           chunkSize := chunkSize
           chunks := chunks
           merkleRoot := computeMerkleRoot (chunks.map ChunkInfo.chunkHash)
           compression := "zstd" }, encoded.map Prod.snd)

/-! ## Mergers -/

/-- `sorted(zip(manifest.chunks, chunk_data_list), key=lambda x: x[0].index)`. -/
def orderChunks (chunks : List ChunkInfo) (chunkDataList : List Bytes) :
    List (ChunkInfo × Bytes) :=
  sortBy (fun p => p.1.index) (chunks.zip chunkDataList)

/-- The key both mergers derive once, from the salt of the first chunk. -/
def mergeKey (password : Option String) (ordered : List (ChunkInfo × Bytes)) : Option Bytes :=
  match ordered with
  | [] => none
  | (info, data) :: _ =>
    if truthy password && info.encrypted then
      some (deriveKey (password.getD "") (slice data 1 (1 + saltSize))).1
    else none

/-- Decrypt and decompress one chunk, as the loops of both mergers do. -/
def decodeChunk (P : Packages) (password : Option String) (decKey : Option Bytes) (useZstd : Bool)
    (info : ChunkInfo) (data : Bytes) : Except PyError Bytes := do
  let data ←
    if info.encrypted && truthy password then
      match decKey with
      | some key => decryptWithKey P data key
      | none => decrypt P data (password.getD "")
    else .ok data
  if useZstd then decompress P data else .ok data

/-- The check of one received chunk against its entry; returns its hash. -/
def verifyReceived (info : ChunkInfo) (data : Bytes) : Except PyError String :=
  let actualHash := sha256Hash data
  if actualHash ≠ info.chunkHash then
    .error (.valueError ("Chunk " ++ toString info.index ++ " hash mismatch! Expected " ++
      strTake 16 info.chunkHash ++ "... got " ++ strTake 16 actualHash ++ "..."))
  else .ok actualHash

/-- `buffer[offset:offset + len(data)] = data` on a bytearray. -/
def assignSlice (buffer : Bytes) (offset : ℕ) (data : Bytes) : Bytes :=
  buffer.take offset ++ data ++ buffer.drop (offset + data.length)

/-- The decode loop of `merge_chunks`: the buffer and the offset after each chunk. -/
def mergeLoop (decode : ChunkInfo → Bytes → Except PyError Bytes) :
    List (ChunkInfo × Bytes) → Bytes → ℕ → Except PyError (Bytes × ℕ)
  | [], buffer, offset => .ok (buffer, offset)
  | (info, data) :: rest, buffer, offset => do
    let data ← decode info data
    mergeLoop decode rest (assignSlice buffer offset data) (offset + data.length)

/-- The text of the last check, which each merger opens in its own words. -/
def integrityMessage (opening expected got : String) : String :=
  opening ++ " Expected " ++ strTake 16 expected ++ "... got " ++ strTake 16 got ++ "..."

/-- Merge in memory, into a buffer pre-allocated with `original_size` bytes. -/
def mergeChunks (P : Packages) (manifest : FileManifest) (chunkDataList : List Bytes)
    (password : Option String) : Except PyError Bytes := do
  let ordered := orderChunks manifest.chunks chunkDataList
  let receivedHashes ← ordered.mapM fun p => verifyReceived p.1 p.2
  if manifest.merkleRoot ≠ "" ∧ computeMerkleRoot receivedHashes ≠ manifest.merkleRoot then
    .error (.valueError (integrityMessage "Merkle root mismatch!" manifest.merkleRoot
      (computeMerkleRoot receivedHashes)))
  let decKey := mergeKey password ordered
  let useZstd := decide (manifest.compression = "zstd")
  if manifest.originalSize < 0 then .error (.valueError "negative count")
  let (buffer, offset) ← mergeLoop (decodeChunk P password decKey useZstd) ordered
    (List.replicate manifest.originalSize.toNat 0) 0
  let result := buffer.take offset
  if sha256Hash result ≠ manifest.fileHash then
    .error (.valueError (integrityMessage "File integrity check failed!" manifest.fileHash
      (sha256Hash result)))
  return result

/-- What a merger that writes to `output_path` leaves behind: how it ended, and the file at the
path, if there is one. -/
structure DiskOutcome where
  outcome : Except PyError Unit
  file : Option Bytes

/-- The write loop of `merge_chunks_to_disk`: what has been written when it ends, and how it
ended. -/
def writeLoop (decode : ChunkInfo → Bytes → Except PyError Bytes) :
    List (ChunkInfo × Bytes) → Bytes → Bytes × Except PyError Unit
  | [], written => (written, .ok ())
  | (info, data) :: rest, written =>
    match decode info data with
    | .ok data => writeLoop decode rest (written ++ data)
    | .error e => (written, .error e)

/-- The last step of the mergers to disk: keep the file when its hash is the manifest's, unlink
it and raise when it is not. -/
def finishOnDisk (opening fileHash : String) (written : Bytes × Except PyError Unit) :
    DiskOutcome :=
  match written with
  | (bytes, .error e) => ⟨.error e, some bytes⟩
  | (bytes, .ok ()) =>
    if sha256Hash bytes ≠ fileHash then
      ⟨.error (.valueError (integrityMessage opening fileHash (sha256Hash bytes))), none⟩
    else ⟨.ok (), some bytes⟩

/-- A merger that succeeds leaves a file with the hash that was asked of it. -/
lemma finishOnDisk_ok {opening fileHash : String} {written : Bytes × Except PyError Unit}
    (h : (finishOnDisk opening fileHash written).outcome = .ok ()) :
    written.2 = .ok () ∧ sha256Hash written.1 = fileHash ∧
      (finishOnDisk opening fileHash written).file = some written.1 := by
  obtain ⟨bytes, outcome⟩ := written
  cases outcome with
  | error e => simp [finishOnDisk] at h
  | ok _ =>
    by_cases hhash : sha256Hash bytes = fileHash
    · exact ⟨rfl, hhash, by simp [finishOnDisk, hhash]⟩
    · simp [finishOnDisk, hhash] at h

/-- Stream decrypted chunks directly to disk. -/
def mergeChunksToDisk (P : Packages) (manifest : FileManifest) (chunkDataList : List Bytes)
    (password : Option String) : DiskOutcome :=
  let ordered := orderChunks manifest.chunks chunkDataList
  let decKey := mergeKey password ordered
  let useZstd := decide (manifest.compression = "zstd")
  finishOnDisk "File integrity check failed!" manifest.fileHash
    (writeLoop (decodeChunk P password decKey useZstd) ordered [])

end DistriStore
