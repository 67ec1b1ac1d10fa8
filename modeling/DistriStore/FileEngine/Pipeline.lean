import DistriStore.FileEngine.Chunker

/-!
# The streaming pipeline (`backend/file_engine/pipeline.py`)

The asynchronous versions of the chunker and of the mergers.  A `store_fn` or `load_fn` is an
asynchronous callable with effects of its own: here a function on a state `σ`, which is whatever
it reads and writes.  `run_in_executor` and `to_thread` apply the function they are given.

The writer keeps the store of chunk `i` pending while chunk `i + 1` is read and encrypted, and
awaits it before the next store starts.  The merger asks for chunk `i + 1` while chunk `i` is
decoded and written, and looks at the outcome of that load only afterwards.
-/

namespace DistriStore

open Lib

/-- An asynchronous `store_fn(chunk_hash, chunk_data)` with effects on `σ`. -/
abbrev StoreFn (σ : Type) := String → Bytes → σ → Except PyError Unit × σ

/-- An asynchronous `load_fn(chunk_hash)` with effects on `σ`. -/
abbrev LoadFn (σ : Type) := String → σ → Except PyError Bytes × σ

section

variable {σ : Type}

/-! ## Read → Encrypt → Store -/

/-- Compress and encrypt (or only compress) one block in the process pool. -/
def pipelineEncode (P : Packages) (key : Option (Bytes × Bytes)) (nonces : ℕ → Nonce)
    (piece : ℕ × Bytes) : ChunkInfo × Bytes :=
  let encoded : Bytes × String := match key with
    | some (encKey, encSalt) => workerEncryptKeyed P piece.2 encKey encSalt (nonces piece.1)
    | none =>
      let ct := P.zstdCompress piece.2
      (ct, sha256Hash ct)
  ({ index := piece.1
     chunkHash := encoded.2
     size := encoded.1.length
     encrypted := key.isSome }, encoded.1)

/-- `if pending_store is not None: await pending_store`. -/
def awaitStore (storeFn : StoreFn σ) (pending : Option (String × Bytes)) (s : σ) :
    Except PyError Unit × σ :=
  match pending with
  | none => (.ok (), s)
  | some (chunkHash, chunkData) => storeFn chunkHash chunkData s

/-- The loop of `pipeline_chunk_and_store` over the encoded chunks, with the store of the
previous chunk pending. -/
def storeLoop (storeFn : StoreFn σ) :
    List (ChunkInfo × Bytes) → Option (String × Bytes) → σ → Except PyError Unit × σ
  | [], pending, s => awaitStore storeFn pending s
  | (info, ct) :: rest, pending, s =>
    match awaitStore storeFn pending s with
    | (.ok (), s) => storeLoop storeFn rest (some (info.chunkHash, ct)) s
    | (.error e, s) => (.error e, s)

/-- Streaming pipeline: Read → Encrypt → Store, one chunk at a time. -/
def pipelineChunkAndStore (P : Packages) (filePath : String) (file : Option SourceFile)
    (storeFn : StoreFn σ) (chunkSize : Option ℕ) (password : Option String) (salt : Salt)
    (nonces : ℕ → Nonce) (s : σ) : Except PyError FileManifest × σ :=
  match file with
  | none => (.error (.fileNotFoundError ("File not found: " ++ filePath)), s)
  | some file =>
    let chunkSize := chunkSize.getD (getOptimalChunkSize file.content.length)
    let encoded := (streamChunks file.content chunkSize).map
      (pipelineEncode P (writerKey password salt) nonces)
    let chunks := encoded.map Prod.fst
    match storeLoop storeFn encoded none s with
    | (.error e, s) => (.error e, s)
    | (.ok (), s) =>
      (.ok { originalFilename := file.name
             originalSize := file.content.length
             fileHash := streamingFileHash file.content
             chunkSize := chunkSize
             chunks := chunks
             merkleRoot := computeMerkleRoot (chunks.map ChunkInfo.chunkHash)
             compression := "zstd" }, s)

/-! ## Load → Decrypt → Write -/

/-- `sorted(manifest.chunks, key=lambda c: c.index)`. -/
def orderInfos (chunks : List ChunkInfo) : List ChunkInfo := sortBy ChunkInfo.index chunks

/-- Decode a chunk in the process pool: under `decKey` when it is encrypted and there is a
password, decompressing when the manifest says so. -/
def workerDecode (P : Packages) (useZstd : Bool) (decKey : Option Bytes) (data : Bytes) :
    Except PyError Bytes :=
  match decKey with
  | some key => if useZstd then workerDecryptKeyed P data key
      else workerDecryptKeyedNocompress P data key
  | none => if useZstd then decompress P data else .ok data

/-- The decoding of `pipeline_merge_to_disk`: a key is derived for every encrypted chunk, from
its own salt. -/
def pipelineDecode (P : Packages) (useZstd : Bool) (password : Option String) (info : ChunkInfo)
    (data : Bytes) : Except PyError Bytes :=
  workerDecode P useZstd
    (if info.encrypted && truthy password then
      some (deriveKey (password.getD "") (slice data 1 (1 + saltSize))).1
    else none) data

/-- The data of the current chunk: prefetched, or loaded now. -/
def takeOrLoad (loadFn : LoadFn σ) (nextData : Option Bytes) (info : ChunkInfo) (s : σ) :
    Except PyError Bytes × σ :=
  match nextData with
  | some data => (.ok data, s)
  | none => loadFn info.chunkHash s

/-- The load of the next chunk, which runs while the current one is decoded and written. -/
def prefetchNext (loadFn : LoadFn σ) (rest : List ChunkInfo) (s : σ) :
    Option (Except PyError Bytes) × σ :=
  match rest with
  | [] => (none, s)
  | next :: _ => ((loadFn next.chunkHash s).1, (loadFn next.chunkHash s).2)

/-- The loop of `pipeline_merge_to_disk` with the data prefetched for the next chunk: what has
been written when it ends, how it ended, and the state of `load_fn`. -/
def pipelineMergeLoop (loadFn : LoadFn σ) (decode : ChunkInfo → Bytes → Except PyError Bytes) :
    List ChunkInfo → Option Bytes → Bytes → σ → (Bytes × Except PyError Unit) × σ
  | [], _, written, s => ((written, .ok ()), s)
  | info :: rest, nextData, written, s =>
    match takeOrLoad loadFn nextData info s with
    | (.error e, s) => ((written, .error e), s)
    | (.ok data, s) =>
      let (prefetch, s) := prefetchNext loadFn rest s
      match decode info data, prefetch with
      | .error e, _ => ((written, .error e), s)
      | .ok plaintext, none =>
        pipelineMergeLoop loadFn decode rest none (written ++ plaintext) s
      | .ok plaintext, some (.ok data) =>
        pipelineMergeLoop loadFn decode rest (some data) (written ++ plaintext) s
      -- the outcome of the prefetch is looked at after the write
      | .ok plaintext, some (.error e) => ((written ++ plaintext, .error e), s)

/-- Streaming merge pipeline: Load → Decrypt → Write, one chunk at a time. -/
def pipelineMergeToDisk (P : Packages) (manifest : FileManifest) (loadFn : LoadFn σ)
    (password : Option String) (s : σ) : DiskOutcome × σ :=
  let ordered := orderInfos manifest.chunks
  let useZstd := decide (manifest.compression = "zstd")
  let (written, s) := pipelineMergeLoop loadFn (pipelineDecode P useZstd password) ordered none [] s
  (finishOnDisk "Pipeline merge integrity failed!" manifest.fileHash written, s)

/-! ## Streaming generator -/

/-- The loop of `pipeline_stream_file`: the pieces it yields, how it ends and the state of
`load_fn`.  `decKey` is derived once, from the first encrypted chunk. -/
def pipelineStreamLoop (P : Packages) (useZstd : Bool) (password : Option String)
    (loadFn : LoadFn σ) :
    List ChunkInfo → Option Bytes → σ → (List Bytes × Except PyError Unit) × σ
  | [], _, s => (([], .ok ()), s)
  | info :: rest, decKey, s =>
    match loadFn info.chunkHash s with
    | (.error e, s) => (([], .error e), s)
    | (.ok data, s) =>
      let keyed := info.encrypted && truthy password
      let decKey := if keyed && decKey.isNone then
          some (deriveKey (password.getD "") (slice data 1 (1 + saltSize))).1
        else decKey
      match workerDecode P useZstd (if keyed then decKey else none) data with
      | .error e => (([], .error e), s)
      | .ok plaintext =>
        let (tail, s) := pipelineStreamLoop P useZstd password loadFn rest decKey s
        ((plaintext :: tail.1, tail.2), s)

/-- Yields decrypted and decompressed chunks sequentially. -/
def pipelineStreamFile (P : Packages) (manifest : FileManifest) (loadFn : LoadFn σ)
    (password : Option String) (s : σ) : (List Bytes × Except PyError Unit) × σ :=
  pipelineStreamLoop P (decide (manifest.compression = "zstd")) password loadFn
    (orderInfos manifest.chunks) none s

end

/-- The generator's loads keep any property of its state that each of them keeps. -/
lemma pipelineStreamLoop_state {P : Packages} {σ : Type} {loadFn : LoadFn σ} {I : σ → Prop}
    {useZstd : Bool} {password : Option String} (infos : List ChunkInfo)
    (hload : ∀ info ∈ infos, ∀ s, I s → I (loadFn info.chunkHash s).2) (decKey : Option Bytes)
    (s : σ) (hs : I s) :
    I (pipelineStreamLoop P useZstd password loadFn infos decKey s).2 := by
  induction infos generalizing decKey s with
  | nil => exact hs
  | cons info infos ih =>
    have hnext := hload info (List.mem_cons_self ..) s hs
    rw [pipelineStreamLoop]
    cases hl : loadFn info.chunkHash s with
    | mk outcome s' =>
      rw [hl] at hnext
      cases outcome with
      | error e => exact hnext
      | ok data =>
        dsimp only
        split
        · exact hnext
        · exact ih (fun info' hinfo' => hload info' (List.mem_cons_of_mem _ hinfo')) _ _ hnext

end DistriStore
