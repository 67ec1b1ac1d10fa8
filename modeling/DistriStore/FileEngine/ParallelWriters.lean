import DistriStore.FileEngine.Writers
import DistriStore.Lib.Pool

/-!
# The writers under every schedule

The batches of `crypto.py` hand all chunks to the process pool and collect the results; the
pipeline of `pipeline.py` hands over one chunk at a time and lets the store of the previous chunk
run meanwhile.  Here both are machines whose labels say which job or task moves next, so that a
run is one order in which the jobs finish and the stores are made.  Whatever the order, they
produce what `chunk_file` does with the same salt and nonces (`parallel_writers_eq_chunkFile`).
-/

namespace DistriStore

open Lib

/-! ## The batches of `crypto.py` -/

/-- Encrypt chunks in the process pool, under a key derived once; chunk `i` draws nonce `i`. -/
def encryptChunksParallel (P : Packages) (chunks : List Bytes) (password : String) (salt : Salt)
    (nonces : ℕ → Nonce) : Machine (Pool.State PyError (Bytes × String)) Pool.Label :=
  let derived := deriveKey password salt
  Pool.machine chunks.zipIdx fun job =>
    .ok (workerEncryptKeyed P job.1 derived.1 derived.2 (nonces job.2))

/-- Decrypt chunks in the process pool, under a key derived once, from the salt of the first
chunk.  Without chunks there is nothing to submit and the result is the empty list. -/
def decryptChunksParallel (P : Packages) (chunks : List Bytes) (password : String)
    (compressed : Bool) : Machine (Pool.State PyError Bytes) Pool.Label :=
  let firstSalt := slice (chunks.headD []) 1 (1 + saltSize)
  let key := (deriveKey password firstSalt).1
  Pool.machine chunks fun chunk =>
    if compressed then workerDecryptKeyed P chunk key else workerDecryptKeyedNocompress P chunk key

/-! ## The pipeline, task by task -/

namespace PipelineWriter

/-- What a call of `pipeline_chunk_and_store` works on. -/
structure Config where
  P : Packages
  file : SourceFile
  chunkSize : ℕ
  password : Option String
  salt : Salt
  nonces : ℕ → Nonce

/-- The task made by `asyncio.create_task(store_fn(ch, ct))`. -/
inductive StoreTask where
  | created (ch : String) (ct : Bytes)
  | running
  | ended (outcome : Except PyError Unit)

/-- Where the coroutine is: waiting for a pool job, for the store of the previous chunk, or at its
end. -/
inductive Phase where
  | hashingFile
  | encoding (piece : ℕ × Bytes)
  /-- Hashing the compressed piece; only without a password, else the worker hashes. -/
  | hashingChunk (piece : ℕ × Bytes) (ct : Bytes)
  | awaitingStore (ch : String) (ct : Bytes)
  | awaitingLast
  | returned (manifest : FileManifest)
  | raised (e : PyError)

structure State where
  phase : Phase
  /-- What `_stream_chunks` has still to yield. -/
  pieces : List (ℕ × Bytes)
  fileHash : String
  /-- `manifest.chunks`. -/
  chunks : List ChunkInfo
  pendingStore : Option StoreTask
  /-- The calls that `store_fn` has received. -/
  received : List (String × Bytes)

inductive Label where
  /-- The pool finishes the job that the coroutine waits for. -/
  | poolDone
  /-- The store task starts, and calls `store_fn`. -/
  | storeBegin
  | storeEnd (outcome : Except PyError Unit)
  /-- The coroutine goes on after `await pending_store`. -/
  | resume

/-- `for idx, raw_bytes in _stream_chunks(...)`: the next piece, or the end of the loop. -/
def State.advance (s : State) : State :=
  match s.pieces with
  | [] => { s with phase := .awaitingLast }
  | piece :: rest => { s with phase := .encoding piece, pieces := rest }

/-- `chunk_hashes.append(ch)` and `manifest.chunks.append(...)`. -/
def State.append (s : State) (idx : ℕ) (ct : Bytes) (ch : String) (encrypted : Bool) : State :=
  { s with
    chunks := s.chunks ++ [{
      index := idx
      chunkHash := ch
      size := ct.length
      encrypted := encrypted }]
    phase := .awaitingStore ch ct }

/-- What `await pending_store` gives; `none` while it has to wait. -/
def awaited : Option StoreTask → Option (Except PyError Unit)
  | none => some (.ok ())
  | some (.ended outcome) => some outcome
  | some _ => none

def Config.manifest (c : Config) (fileHash : String) (chunks : List ChunkInfo) : FileManifest where
  originalFilename := c.file.name
  originalSize := c.file.content.length
  fileHash := fileHash
  chunkSize := c.chunkSize
  chunks := chunks
  merkleRoot := computeMerkleRoot (chunks.map ChunkInfo.chunkHash)
  compression := "zstd"

def init (c : Config) : State where
  phase := .hashingFile
  pieces := streamChunks c.file.content c.chunkSize
  fileHash := ""
  chunks := []
  pendingStore := none
  received := []

def poolDone (c : Config) (s : State) : Option State :=
  match s.phase with
  | .hashingFile =>
    some { s with fileHash := streamingFileHash c.file.content }.advance
  | .encoding piece =>
    match writerKey c.password c.salt with
    | some (encKey, encSalt) =>
      let encoded := workerEncryptKeyed c.P piece.2 encKey encSalt (c.nonces piece.1)
      some (s.append piece.1 encoded.1 encoded.2 true)
    | none => some { s with phase := .hashingChunk piece (c.P.zstdCompress piece.2) }
  | .hashingChunk piece ct => some (s.append piece.1 ct (sha256Hash ct) false)
  | _ => none

def storeBegin (s : State) : Option State :=
  match s.pendingStore with
  | some (.created ch ct) =>
    some { s with pendingStore := some .running, received := s.received ++ [(ch, ct)] }
  | _ => none

def storeEnd (s : State) (outcome : Except PyError Unit) : Option State :=
  match s.pendingStore with
  | some .running => some { s with pendingStore := some (.ended outcome) }
  | _ => none

def resume (c : Config) (s : State) : Option State :=
  match s.phase, awaited s.pendingStore with
  | .awaitingStore ch ct, some (.ok ()) =>
    some { s with pendingStore := some (.created ch ct) }.advance
  | .awaitingLast, some (.ok ()) =>
    some { s with phase := .returned (c.manifest s.fileHash s.chunks) }
  | .awaitingStore _ _, some (.error e) => some { s with phase := .raised e }
  | .awaitingLast, some (.error e) => some { s with phase := .raised e }
  | _, _ => none

def exec (c : Config) (s : State) : Label → Option State
  | .poolDone => poolDone c s
  | .storeBegin => storeBegin s
  | .storeEnd outcome => storeEnd s outcome
  | .resume => resume c s

/-- `pipeline_chunk_and_store` on an existing file, with its store tasks. -/
def machine (c : Config) : Machine State Label where
  init := init c
  exec := exec c

/-- No call of `store_fn` raises. -/
def StoresSucceed (_ : State) (l : Label) : Prop := ∀ e, l ≠ .storeEnd (.error e)

lemma storeBegin_cases {s t : State} (ht : storeBegin s = some t) :
    ∃ ch ct, s.pendingStore = some (.created ch ct) ∧
      t = { s with pendingStore := some .running, received := s.received ++ [(ch, ct)] } := by
  unfold storeBegin at ht
  split at ht
  · next ch ct hp => exact ⟨ch, ct, hp, (Option.some.inj ht).symm⟩
  · cases ht

lemma storeEnd_cases {s t : State} {outcome : Except PyError Unit}
    (ht : storeEnd s outcome = some t) :
    s.pendingStore = some .running ∧ t = { s with pendingStore := some (.ended outcome) } := by
  unfold storeEnd at ht
  split at ht
  · next hp => exact ⟨hp, (Option.some.inj ht).symm⟩
  · cases ht

/-! ## What has been produced so far -/

/-- The piece whose chunk is being made. -/
def Phase.current : Phase → List (ℕ × Bytes)
  | .encoding piece => [piece]
  | .hashingChunk piece _ => [piece]
  | _ => []

/-- The chunk that waits for the store of the previous one. -/
def Phase.held : Phase → List (String × Bytes)
  | .awaitingStore ch ct => [(ch, ct)]
  | _ => []

/-- The call that a store task has still to make. -/
def pendingCall : Option StoreTask → List (String × Bytes)
  | some (.created ch ct) => [(ch, ct)]
  | _ => []

def Config.encode (c : Config) : ℕ × Bytes → ChunkInfo × Bytes :=
  encodeChunk c.P (writerKey c.password c.salt) c.nonces

def Config.encoded (c : Config) : List (ChunkInfo × Bytes) :=
  encodedChunks c.P c.password c.salt c.nonces c.file.content c.chunkSize

/-- The arguments with which a chunk is stored. -/
def storeArgs (p : ChunkInfo × Bytes) : String × Bytes := (p.1.chunkHash, p.2)

/-- What holds in each phase. -/
def PhaseOk (c : Config) (s : State) : Prop :=
  match s.phase with
  | .hashingFile => True
  | .encoding _ => s.fileHash = sha256Hash c.file.content
  | .hashingChunk piece ct => s.fileHash = sha256Hash c.file.content ∧
      writerKey c.password c.salt = none ∧ ct = c.P.zstdCompress piece.2
  | .awaitingStore _ _ => s.fileHash = sha256Hash c.file.content
  | .awaitingLast => s.fileHash = sha256Hash c.file.content ∧ s.pieces = []
  | .returned m => m = writtenManifest c.file c.chunkSize c.encoded ∧ s.pieces = [] ∧
      pendingCall s.pendingStore = []
  | .raised _ => True

/-- The chunks made so far, with those of the pieces to come, are the chunks of the file; so are
the calls of `store_fn` made so far, with those to come. -/
structure Inv (c : Config) (s : State) : Prop where
  chunks : s.chunks ++ (s.phase.current ++ s.pieces).map (fun piece => (c.encode piece).1) =
    c.encoded.map Prod.fst
  stored : s.received ++ pendingCall s.pendingStore ++ s.phase.held ++
    (s.phase.current ++ s.pieces).map (fun piece => storeArgs (c.encode piece)) =
      c.encoded.map storeArgs
  phase : PhaseOk c s

variable {c : Config} {s t : State}

lemma inv_init (c : Config) : Inv c (init c) where
  chunks := by simp [init, Phase.current, Config.encoded, encodedChunks, Config.encode]
  stored := by simp [init, Phase.current, Phase.held, pendingCall, Config.encoded, encodedChunks,
    Config.encode]
  phase := trivial

/-- Going on to the next piece, when no chunk is being made or held. -/
lemma inv_advance (hhash : s.fileHash = sha256Hash c.file.content)
    (hchunks : s.chunks ++ s.pieces.map (fun piece => (c.encode piece).1) =
      c.encoded.map Prod.fst)
    (hstored : s.received ++ pendingCall s.pendingStore ++
      s.pieces.map (fun piece => storeArgs (c.encode piece)) = c.encoded.map storeArgs) :
    Inv c s.advance := by
  unfold State.advance
  split
  · next hnil =>
    rw [hnil] at hchunks hstored
    exact ⟨by simpa [Phase.current, hnil] using hchunks,
      by simpa [Phase.current, Phase.held, hnil] using hstored, hhash, hnil⟩
  · next piece rest hcons =>
    rw [hcons] at hchunks hstored
    exact ⟨by simpa [Phase.current] using hchunks,
      by simpa [Phase.current, Phase.held] using hstored, hhash⟩

/-- A store task goes on; the calls made so far and the call to come are the same. -/
lemma Inv.store_step (h : Inv c s) {task : StoreTask} {received : List (String × Bytes)}
    (hnone : pendingCall (some task) = [])
    (hcalls : received = s.received ++ pendingCall s.pendingStore) :
    Inv c { s with pendingStore := some task, received := received } where
  chunks := h.chunks
  stored := by
    show received ++ pendingCall (some task) ++ _ ++ _ = _
    rw [hnone, List.append_nil, hcalls]
    exact h.stored
  phase := by
    have hphase := h.phase
    unfold PhaseOk at hphase ⊢
    cases hs : s.phase <;> simp_all

/-- Appending the chunk that was made of the current piece. -/
lemma Inv.append (h : Inv c s) {piece : ℕ × Bytes} (hcurrent : s.phase.current = [piece])
    (hheld : s.phase.held = []) (hhash : s.fileHash = sha256Hash c.file.content) {ct : Bytes}
    {ch : String} {encrypted : Bool}
    (hencode : c.encode piece = (⟨piece.1, ch, ct.length, encrypted⟩, ct)) :
    Inv c (s.append piece.1 ct ch encrypted) where
  chunks := by
    rw [← h.chunks, hcurrent]
    simp [State.append, Phase.current, hencode]
  stored := by
    rw [← h.stored, hcurrent, hheld]
    simp [State.append, Phase.current, Phase.held, storeArgs, hencode]
  phase := hhash

lemma Inv.poolDone (h : Inv c s) (ht : poolDone c s = some t) : Inv c t := by
  unfold PipelineWriter.poolDone at ht
  have hphase := h.phase
  unfold PhaseOk at hphase
  split at ht
  · next hs =>
    rw [← Option.some.inj ht]
    refine inv_advance (streamingFileHash_eq _) ?_ ?_
    · simpa [hs, Phase.current] using h.chunks
    · simpa [hs, Phase.current, Phase.held] using h.stored
  · next piece hs =>
    rw [hs] at hphase
    split at ht
    · next encKey encSalt hkey =>
      rw [← Option.some.inj ht]
      refine h.append (by rw [hs]; rfl) (by rw [hs]; rfl) hphase ?_
      simp [Config.encode, encodeChunk, hkey, workerEncryptKeyed]
    · next hkey =>
      rw [← Option.some.inj ht]
      exact ⟨by simpa [hs, Phase.current] using h.chunks,
        by simpa [hs, Phase.current, Phase.held] using h.stored, hphase, hkey, rfl⟩
  · next piece ct hs =>
    rw [hs] at hphase
    obtain ⟨hhash, hkey, rfl⟩ := hphase
    rw [← Option.some.inj ht]
    refine h.append (by rw [hs]; rfl) (by rw [hs]; rfl) hhash ?_
    simp [Config.encode, encodeChunk, hkey]
  · simp at ht

lemma Inv.storeBegin (h : Inv c s) (ht : storeBegin s = some t) : Inv c t := by
  obtain ⟨ch, ct, hp, rfl⟩ := storeBegin_cases ht
  exact h.store_step rfl (by rw [hp]; rfl)

lemma Inv.storeEnd (h : Inv c s) {outcome : Except PyError Unit}
    (ht : storeEnd s outcome = some t) : Inv c t := by
  obtain ⟨hp, rfl⟩ := storeEnd_cases ht
  exact h.store_step rfl (by rw [hp]; exact (List.append_nil _).symm)

/-- A store task whose outcome can be awaited has made its call. -/
lemma pendingCall_of_awaited {p : Option StoreTask} {outcome : Except PyError Unit}
    (h : awaited p = some outcome) : pendingCall p = [] := by
  rcases p with _ | ⟨⟩ | _ | _ <;> simp_all [awaited, pendingCall]

lemma manifest_encoded (c : Config) :
    c.manifest (sha256Hash c.file.content) (c.encoded.map Prod.fst) =
      writtenManifest c.file c.chunkSize c.encoded := by
  simp only [Config.manifest, writtenManifest, List.map_map]
  rfl

lemma Inv.resume (h : Inv c s) (ht : resume c s = some t) :
    (∃ e, t.phase = .raised e) ∨ Inv c t := by
  unfold PipelineWriter.resume at ht
  have hphase := h.phase
  unfold PhaseOk at hphase
  split at ht
  · next ch ct hs hp =>
    rw [hs] at hphase
    have hcall := pendingCall_of_awaited hp
    have hstored := h.stored
    rw [hcall, hs] at hstored
    rw [← Option.some.inj ht]
    refine Or.inr (inv_advance hphase ?_ ?_)
    · simpa [hs, Phase.current] using h.chunks
    · simpa [Phase.current, Phase.held, pendingCall] using hstored
  · next hs hp =>
    rw [hs] at hphase
    obtain ⟨hhash, hnil⟩ := hphase
    have hchunks : s.chunks = c.encoded.map Prod.fst := by
      simpa [hs, hnil, Phase.current] using h.chunks
    rw [← Option.some.inj ht]
    refine Or.inr ⟨by simpa [hs, Phase.current] using h.chunks,
      by simpa [hs, Phase.current, Phase.held] using h.stored, ?_, hnil, pendingCall_of_awaited hp⟩
    rw [hhash, hchunks, manifest_encoded]
  · next ch ct e hs hp =>
    rw [← Option.some.inj ht]
    exact Or.inl ⟨e, rfl⟩
  · next e hs hp =>
    rw [← Option.some.inj ht]
    exact Or.inl ⟨e, rfl⟩
  · simp at ht

/-- After a failed store the coroutine is over; only the store tasks may go on. -/
lemma raised_step {e : PyError} {l : Label} (h : s.phase = .raised e)
    (ht : exec c s l = some t) : t.phase = .raised e := by
  cases l with
  | poolDone => simp [exec, PipelineWriter.poolDone, h] at ht
  | resume => simp [exec, PipelineWriter.resume, h] at ht
  | storeBegin =>
    obtain ⟨ch, ct, -, rfl⟩ := storeBegin_cases ht
    exact h
  | storeEnd outcome =>
    obtain ⟨-, rfl⟩ := storeEnd_cases ht
    exact h

lemma inv_step {l : Label} (h : (∃ e, s.phase = .raised e) ∨ Inv c s)
    (ht : exec c s l = some t) : (∃ e, t.phase = .raised e) ∨ Inv c t := by
  rcases h with ⟨e, he⟩ | h
  · exact Or.inl ⟨e, raised_step he ht⟩
  · cases l with
    | poolDone => exact Or.inr (h.poolDone ht)
    | storeBegin => exact Or.inr (h.storeBegin ht)
    | storeEnd outcome => exact Or.inr (h.storeEnd ht)
    | resume => exact h.resume ht

/-- What the pipeline returns, and what has been stored by then. -/
lemma Inv.returned (h : Inv c s) {m : FileManifest} (hs : s.phase = .returned m) :
    m = writtenManifest c.file c.chunkSize c.encoded ∧ s.received = c.encoded.map storeArgs := by
  have hphase := h.phase
  unfold PhaseOk at hphase
  rw [hs] at hphase
  obtain ⟨hm, hnil, hcall⟩ := hphase
  have hstored := h.stored
  rw [hcall, hs, hnil] at hstored
  exact ⟨hm, by simpa [Phase.current, Phase.held] using hstored⟩

/-! ## The pipeline ends -/

def Phase.weight : Phase → ℕ
  | .hashingFile => 2
  | .encoding _ => 6
  | .hashingChunk _ _ => 5
  | .awaitingStore _ _ => 4
  | .awaitingLast => 1
  | .returned _ => 0
  | .raised _ => 0

def storeWeight : Option StoreTask → ℕ
  | some (.created _ _) => 2
  | some .running => 1
  | _ => 0

/-- The steps that are still to come. -/
def measure (s : State) : ℕ := 7 * s.pieces.length + s.phase.weight + storeWeight s.pendingStore

lemma measure_advance (s : State) :
    measure s.advance ≤ 7 * s.pieces.length + 1 + storeWeight s.pendingStore := by
  unfold State.advance
  split
  · next hnil => simp [measure, Phase.weight, hnil]
  · next piece rest hcons =>
    simp only [measure, Phase.weight, hcons, List.length_cons]
    omega

lemma storeWeight_of_awaited {p : Option StoreTask} {outcome : Except PyError Unit}
    (h : awaited p = some outcome) : storeWeight p = 0 := by
  rcases p with _ | ⟨⟩ | _ | _ <;> simp_all [awaited, storeWeight]

lemma measure_lt {l : Label} (ht : exec c s l = some t) : measure t < measure s := by
  cases l with
  | poolDone =>
    simp only [exec, PipelineWriter.poolDone] at ht
    split at ht
    · next hs =>
      have := measure_advance { s with fileHash := streamingFileHash c.file.content }
      have hweight : s.phase.weight = 2 := by rw [hs]; rfl
      rw [← Option.some.inj ht]
      simp only [measure] at this ⊢
      omega
    · next piece hs =>
      split at ht
      · rw [← Option.some.inj ht]
        simp only [measure, State.append, Phase.weight, hs]
        omega
      · rw [← Option.some.inj ht]
        simp only [measure, Phase.weight, hs]
        omega
    · next piece ct hs =>
      rw [← Option.some.inj ht]
      simp only [measure, State.append, Phase.weight, hs]
      omega
    · simp at ht
  | storeBegin =>
    obtain ⟨ch, ct, hp, rfl⟩ := storeBegin_cases ht
    simp only [measure, storeWeight, hp]
    omega
  | storeEnd outcome =>
    obtain ⟨hp, rfl⟩ := storeEnd_cases ht
    simp only [measure, storeWeight, hp]
    omega
  | resume =>
    simp only [exec, PipelineWriter.resume] at ht
    split at ht
    · next ch ct hs hp =>
      have := measure_advance { s with pendingStore := some (.created ch ct) }
      have hweight : s.phase.weight = 4 := by rw [hs]; rfl
      have hstore := storeWeight_of_awaited hp
      rw [← Option.some.inj ht]
      simp only [measure, storeWeight] at this ⊢
      omega
    · next hs hp =>
      rw [← Option.some.inj ht]
      simp only [measure, Phase.weight, hs]
      omega
    · next hs hp =>
      rw [← Option.some.inj ht]
      simp only [measure, Phase.weight, hs]
      omega
    · next hs hp =>
      rw [← Option.some.inj ht]
      simp only [measure, Phase.weight, hs]
      omega
    · simp at ht

/-- The pending store can go on until its outcome can be awaited. -/
lemma exists_awaited_of_stuck (h : (machine c).Stuck s) : ∃ r, awaited s.pendingStore = some r := by
  have hbegin := h .storeBegin
  have hend := h (.storeEnd (.ok ()))
  simp only [machine, exec, PipelineWriter.storeBegin, PipelineWriter.storeEnd] at hbegin hend
  rcases hp : s.pendingStore with _ | ⟨ch, ct⟩ | _ | r
  · exact ⟨.ok (), rfl⟩
  · simp [hp] at hbegin
  · simp [hp] at hend
  · exact ⟨r, rfl⟩

/-- A pipeline that cannot go on has returned or raised. -/
lemma ended_of_stuck (h : (machine c).Stuck s) :
    (∃ m, s.phase = .returned m) ∨ ∃ e, s.phase = .raised e := by
  have hpool := h .poolDone
  have hresume := h .resume
  obtain ⟨r, hr⟩ := exists_awaited_of_stuck h
  simp only [machine, exec, PipelineWriter.poolDone, PipelineWriter.resume, hr] at hpool hresume
  rcases hs : s.phase with _ | piece | ⟨piece, ct⟩ | ⟨ch, ct⟩ | _ | m | e
  · simp [hs] at hpool
  · simp only [hs] at hpool
    split at hpool <;> simp at hpool
  · simp [hs] at hpool
  · cases r <;> simp [hs] at hresume
  · cases r <;> simp [hs] at hresume
  · exact Or.inl ⟨m, rfl⟩
  · exact Or.inr ⟨e, rfl⟩

/-- No store has failed. -/
def NoFailure (s : State) : Prop :=
  (∀ e, s.phase ≠ .raised e) ∧ ∀ e, s.pendingStore ≠ some (.ended (.error e))

lemma awaited_ne_error (h : NoFailure s) {e : PyError} :
    awaited s.pendingStore ≠ some (.error e) := by
  intro he
  rcases hp : s.pendingStore with _ | ⟨⟩ | _ | r
  · simp [hp, awaited] at he
  · simp [hp, awaited] at he
  · simp [hp, awaited] at he
  · rw [hp, awaited, Option.some.injEq] at he
    exact h.2 e (he ▸ hp)

lemma noFailure_advance (h : ∀ e, s.pendingStore ≠ some (.ended (.error e))) :
    NoFailure s.advance := by
  unfold State.advance
  split <;> exact ⟨by simp, h⟩

lemma NoFailure.step {l : Label} (h : NoFailure s) (ht : exec c s l = some t)
    (hl : StoresSucceed s l) : NoFailure t := by
  cases l with
  | poolDone =>
    simp only [exec, PipelineWriter.poolDone] at ht
    split at ht
    · rw [← Option.some.inj ht]
      exact noFailure_advance h.2
    · split at ht <;> rw [← Option.some.inj ht] <;> exact ⟨by simp [State.append], h.2⟩
    · rw [← Option.some.inj ht]
      exact ⟨by simp [State.append], h.2⟩
    · simp at ht
  | storeBegin =>
    obtain ⟨ch, ct, -, rfl⟩ := storeBegin_cases ht
    exact ⟨h.1, by simp⟩
  | storeEnd outcome =>
    obtain ⟨-, rfl⟩ := storeEnd_cases ht
    refine ⟨h.1, fun e he => hl e ?_⟩
    simp only [Option.some.injEq, StoreTask.ended.injEq] at he
    rw [he]
  | resume =>
    simp only [exec, PipelineWriter.resume] at ht
    split at ht
    · rw [← Option.some.inj ht]
      exact noFailure_advance (by simp)
    · rw [← Option.some.inj ht]
      exact ⟨by simp, h.2⟩
    · next hp => exact absurd hp (awaited_ne_error h)
    · next hp => exact absurd hp (awaited_ne_error h)
    · simp at ht

end PipelineWriter

/-! ## All writers agree -/

section Agreement

/-- A `store_fn` that only keeps a log of its calls. -/
def logStore : StoreFn (List (String × Bytes)) := fun ch ct log => (.ok (), log.concat (ch, ct))

variable {P : Packages} {file : SourceFile} {n : ℕ} {salt : Salt} {nonces : ℕ → Nonce}

lemma writerKey_some {password : String} (hpw : password ≠ "") :
    writerKey (some password) salt = some (deriveKey password salt) := by
  simp [writerKey, truthy, hpw]

lemma zipIdx_streamChunks :
    ((streamChunks file.content n).map Prod.snd).zipIdx =
      (streamChunks file.content n).map fun piece => (piece.2, piece.1) := by
  rw [map_snd_streamChunks]
  refine List.ext_getElem (by simp [streamChunks]) fun i h₁ h₂ => ?_
  simp [streamChunks]

/-- In whatever order the pool finishes, the batch returns the chunks of the file with their
hashes. -/
lemma encryptChunksParallel_returns {password : String} (hpw : password ≠ "") :
    (encryptChunksParallel P ((streamChunks file.content n).map Prod.snd) password salt
      nonces).Returns Pool.State.outcome
      (.ok ((encodedChunks P (some password) salt nonces file.content n).map
        fun p => (p.2, p.1.chunkHash))) := by
  have hseq : (encodedChunks P (some password) salt nonces file.content n).map
      (fun p => (p.2, p.1.chunkHash)) =
        ((streamChunks file.content n).map Prod.snd).zipIdx.map fun job =>
          workerEncryptKeyed P job.1 (deriveKey password salt).1 (deriveKey password salt).2
            (nonces job.2) := by
    rw [zipIdx_streamChunks, encodedChunks, List.map_map, List.map_map, writerKey_some hpw]
    rfl
  rw [hseq, ← mapM_of_forall₂ (List.forall₂_map_right_iff.2 (List.forall₂_same.2 fun _ _ => rfl))]
  exact Pool.returns_mapM _ _

/-- The salt that is read from the first chunk is the one it was written with. -/
lemma slice_salt_headD {pairs : List (ChunkInfo × Bytes)}
    (h : ∀ p ∈ pairs, slice p.2 1 (1 + saltSize) = salt) (hne : pairs ≠ []) :
    slice ((pairs.map Prod.snd).headD []) 1 (1 + saltSize) = salt := by
  cases pairs with
  | nil => exact absurd rfl hne
  | cons p pairs => exact h p (List.mem_cons_self ..)

/-- What the batch has encrypted, the batch decrypts. -/
lemma decryptChunksParallel_returns (hP : P.Lawful) {password : String} (hpw : password ≠ "") :
    (decryptChunksParallel P
      ((encodedChunks P (some password) salt nonces file.content n).map Prod.snd) password
      true).Returns Pool.State.outcome
        (.ok ((streamChunks file.content n).map Prod.snd)) := by
  set pairs := encodedChunks P (some password) salt nonces file.content n with hpairs
  have htruthy : truthy (some password) = true := truthy_iff.2 ⟨password, rfl, hpw⟩
  have hopens : ∀ piece, OpensTo P (some password) true salt
      (encodeChunk P (writerKey (some password) salt) nonces piece) piece.2 := fun piece =>
    htruthy ▸ opensTo_encodeChunk hP (Unlocks.of_eq fun _ => rfl) piece
  have hread : readKey true salt (some password) = some (deriveKey password salt).1 := by
    simp [readKey, htruthy]
  have hsalt : ∀ p ∈ pairs, slice p.2 1 (1 + saltSize) = salt := by
    intro p hp
    obtain ⟨piece, -, rfl⟩ := List.mem_map.1 hp
    exact (hopens piece).salted (by simp [htruthy])
  have hmap : (pairs.map Prod.snd).mapM (fun chunk =>
      workerDecryptKeyed P chunk (deriveKey password (slice ((pairs.map Prod.snd).headD []) 1
        (1 + saltSize))).1) = .ok ((streamChunks file.content n).map Prod.snd) := by
    rcases List.eq_nil_or_concat' (streamChunks file.content n) with hnil | ⟨_, _, hne⟩
    · simp only [hpairs, encodedChunks, hnil]
      rfl
    · have hne' : pairs ≠ [] := by simp [hpairs, encodedChunks, hne]
      rw [slice_salt_headD hsalt hne', hpairs, encodedChunks]
      apply mapM_of_forall₂
      simp only [List.forall₂_map_left_iff, List.forall₂_map_right_iff, List.forall₂_same]
      intro piece _
      have hdecodes := (hopens piece).decodes
      rwa [hread] at hdecodes
  rw [← hmap]
  exact Pool.returns_mapM _ _

/-- The schedule of its stores is not seen in what the pipeline does: it is the sequential
`pipelineChunkAndStore`. -/
theorem returned_eq_pipelineChunkAndStore (filePath : String) {password : Option String}
    {s : PipelineWriter.State} {m : FileManifest}
    (hs : (PipelineWriter.machine ⟨P, file, n, password, salt, nonces⟩).Reachable s)
    (hm : s.phase = .returned m) :
    pipelineChunkAndStore P filePath (some file) logStore (some n) password salt nonces [] =
      (.ok m, s.received) := by
  have hinv := hs.invariant (Or.inr (PipelineWriter.inv_init _))
    fun _ _ _ => PipelineWriter.inv_step
  rcases hinv with ⟨e, he⟩ | hinv
  · simp [he] at hm
  · obtain ⟨rfl, hreceived⟩ := hinv.returned hm
    rw [pipelineChunkAndStore_eq fun ch ct log => (rfl : logStore ch ct log =
      (.ok (), log.concat (ch, ct))), hreceived]
    have hcalls : ∀ calls log : List (String × Bytes),
        calls.foldl List.concat log = log ++ calls := by
      intro calls
      induction calls with
      | nil => simp
      | cons call calls ih => simp [ih]
    rw [hcalls]
    rfl

/-- **All writers agree.** Under every schedule the pipeline returns the manifest of `chunk_file`
and has stored its chunks, in order, under their hashes; it comes to an end, and returns unless a
store fails.  The batches encrypt to the same chunks and decrypt these to the blocks of the file. -/
theorem parallel_writers_eq_chunkFile (hP : P.Lawful) (filePath : String) (file : SourceFile)
    (n : ℕ) (password : Option String) (salt : Salt) (nonces : ℕ → Nonce) :
    ∃ m data, chunkFile P filePath (some file) n password salt nonces = .ok (m, data) ∧
      (∀ s, (PipelineWriter.machine ⟨P, file, n, password, salt, nonces⟩).Reachable s →
        ∀ m', s.phase = .returned m' →
          m' = m ∧ s.received = (m.chunks.map ChunkInfo.chunkHash).zip data) ∧
      (∃ k, ∀ ls s, (PipelineWriter.machine ⟨P, file, n, password, salt, nonces⟩).run
        (PipelineWriter.init ⟨P, file, n, password, salt, nonces⟩) ls = some s → ls.length ≤ k) ∧
      (∀ s, (PipelineWriter.machine ⟨P, file, n, password, salt, nonces⟩).ReachableBy
        PipelineWriter.StoresSucceed s →
          (PipelineWriter.machine ⟨P, file, n, password, salt, nonces⟩).Stuck s →
            s.phase = .returned m) ∧
      ∀ pw, password = some pw → pw ≠ "" →
        (encryptChunksParallel P ((streamChunks file.content n).map Prod.snd) pw salt
          nonces).Returns Pool.State.outcome (.ok (data.zip (m.chunks.map ChunkInfo.chunkHash))) ∧
        (decryptChunksParallel P data pw true).Returns Pool.State.outcome
          (.ok ((streamChunks file.content n).map Prod.snd)) := by
  set c : PipelineWriter.Config := ⟨P, file, n, password, salt, nonces⟩ with hc
  have hinv : ∀ s, (PipelineWriter.machine c).Reachable s →
      (∃ e, s.phase = .raised e) ∨ PipelineWriter.Inv c s := fun s hs =>
    hs.invariant (Or.inr (PipelineWriter.inv_init c)) fun _ _ _ => PipelineWriter.inv_step
  have hzip : c.encoded.map PipelineWriter.storeArgs =
      ((c.encoded.map Prod.fst).map ChunkInfo.chunkHash).zip (c.encoded.map Prod.snd) := by
    rw [List.map_map, List.zip_map']
    rfl
  have hreturned : ∀ s, (PipelineWriter.machine c).Reachable s → ∀ m', s.phase = .returned m' →
      m' = writtenManifest file n c.encoded ∧
        s.received = c.encoded.map PipelineWriter.storeArgs := by
    intro s hs m' hm'
    rcases hinv s hs with ⟨e, he⟩ | h
    · simp [he] at hm'
    · exact h.returned hm'
  refine ⟨_, _, chunkFile_eq filePath file n, fun s hs m' hm' => ?_, ?_, fun s hs hstuck => ?_,
    fun pw hpw hne => ?_⟩
  · obtain ⟨rfl, hreceived⟩ := hreturned s hs m' hm'
    exact ⟨rfl, hreceived.trans hzip⟩
  · refine ⟨PipelineWriter.measure (PipelineWriter.init c), fun ls s hs => ?_⟩
    have h := Machine.length_le_of_run (M := PipelineWriter.machine c) (I := fun _ => True)
      (fun _ _ _ _ _ => trivial) (fun _ _ _ _ ht => PipelineWriter.measure_lt ht) ls _ s trivial hs
    omega
  · have hfree : PipelineWriter.NoFailure s :=
      hs.invariant ⟨by simp [PipelineWriter.machine, PipelineWriter.init],
        by simp [PipelineWriter.machine, PipelineWriter.init]⟩ fun _ _ _ h => h.step
    rcases PipelineWriter.ended_of_stuck hstuck with ⟨m', hm'⟩ | ⟨e, he⟩
    · rw [hm', (hreturned s hs.reachable m' hm').1]
      rfl
    · exact absurd he (hfree.1 e)
  · subst hpw
    have hpairs : ((encodedChunks P (some pw) salt nonces file.content n).map Prod.snd).zip
        ((writtenManifest file n (encodedChunks P (some pw) salt nonces file.content n)).chunks.map
          ChunkInfo.chunkHash) = (encodedChunks P (some pw) salt nonces file.content n).map
            fun p => (p.2, p.1.chunkHash) := by
      rw [writtenManifest, List.map_map, List.zip_map']
      rfl
    rw [hpairs]
    exact ⟨encryptChunksParallel_returns hne, decryptChunksParallel_returns hP hne⟩

/-- Two chunks under a password. -/
theorem parallel_writers_eq_chunkFile_two :
    ∃ m data, chunkFile rawPackages "ab.txt" (some ⟨"ab.txt", [0x61, 0x62]⟩) 1 (some "pw") default
        (fun _ => default) = .ok (m, data) ∧
      (decryptChunksParallel rawPackages data "pw" true).Returns Pool.State.outcome
        (.ok [[0x61], [0x62]]) := by
  obtain ⟨m, data, hfile, -, -, -, hbatch⟩ := parallel_writers_eq_chunkFile rawPackages_lawful
    "ab.txt" ⟨"ab.txt", [0x61, 0x62]⟩ 1 (some "pw") default (fun _ => default)
  refine ⟨m, data, hfile, ?_⟩
  have hblocks : (streamChunks [0x61, 0x62] 1).map Prod.snd = [[(0x61 : UInt8)], [0x62]] := by
    rw [map_snd_streamChunks]
    simp [readBlocks]
  rw [← hblocks]
  exact (hbatch "pw" rfl (by decide)).2

end Agreement

end DistriStore
