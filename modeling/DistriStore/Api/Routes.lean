import DistriStore.FileEngine.Pipeline
import DistriStore.Strategies.Replication

/-!
# REST endpoints (`backend/api/routes.py`)

Upload, download, preview, the two endpoints peers fetch from, and the chunk loader of resumable
downloads.  What a peer answers to an HTTP request is an argument (`Reply`): a request may fail,
and a response has a status code and a body.  A handler that ends in an exception returns it as a
value; FastAPI turns an `HTTPException` into the response with its code and every other exception
into a 500.
-/

namespace DistriStore

open Lib

/-! ## Answers of peers -/

/-- What comes of one HTTP request to a peer. -/
inductive Reply (β : Type) where
  /-- The request raises: no connection, a timeout, a broken response. -/
  | failed
  /-- `body` is `none` when the body cannot be read as what was asked for. -/
  | response (statusCode : ℕ) (body : Option β)

/-- The body of a response with status 200. -/
def Reply.accepted {β : Type} : Reply β → Option β
  | .response statusCode body => if statusCode = 200 then body else none
  | .failed => none

/-- The JSON that a peer sends for a manifest: a dictionary, or any other value, of which only its
truth value matters. -/
inductive ManifestBody where
  | dict (d : ManifestDict)
  | other (truthy : Bool)

instance : Coe ManifestDict ManifestBody := ⟨.dict⟩

namespace ManifestBody

/-- `if manifest_dict:`. -/
def truthy : ManifestBody → Bool
  | .dict d => d.truthy
  | .other truthy => truthy

/-- `save_manifest` does not raise. -/
def saves : ManifestBody → Bool
  | .dict d => decide (NodeDatabase.Bindable d)
  | .other _ => false

/-- The dictionary, if it is one. -/
def dict? : ManifestBody → Option ManifestDict
  | .dict d => some d
  | .other _ => none

/-- `FileManifest.from_dict`, which indexes its argument by strings. -/
def manifest : ManifestBody → Except PyError FileManifest
  | .dict d => FileManifest.fromDict d
  | .other _ => .error .typeError

end ManifestBody

/-- The response of a node to a request that its handler answers so. -/
def Reply.of {β : Type} : Except PyError β → Reply β
  | .ok body => .response 200 (some body)
  | .error (.httpException statusCode _) => .response statusCode none
  | .error _ => .response 500 none

/-- The body of the first peer, in order, that answers with status 200. -/
def firstAnswer {β : Type} (replies : List (Reply β)) : Option β := replies.findSome? Reply.accepted

/-- What the alive peers answer to `GET /manifest/{file_hash}`, in order. -/
abbrev ManifestReplies := List (Reply ManifestBody)

/-- What the alive peers answer to `GET /chunk/{chunk_hash}`, in order. -/
abbrev ChunkReplies := List (String → Reply Bytes)

/-- `GET /manifest/{file_hash}`. -/
def getManifest (store : LocalStore) (fileHash : String) : Except PyError ManifestDict :=
  match (store.loadManifest fileHash).filter ManifestDict.truthy with
  | some d => .ok d
  | none => .error (.httpException 404 ("Manifest not found: " ++ fileHash))

/-- `GET /chunk/{chunk_hash}`. -/
def getChunk (store : LocalStore) (chunkHash : String) : Except PyError Bytes :=
  match store.loadChunk chunkHash with
  | some data => .ok data
  | none => .error (missingChunk chunkHash
      (.httpException 404 ("Chunk not found: " ++ strTake 16 chunkHash ++ "...")))

/-! ## Upload -/

structure UploadResponse where
  fileHash : String
  filename : String
  size : ℤ
  compressedSize : ℕ
  compression : String
  chunks : ℕ
  manifest : ManifestDict
  replication : Dict String ReplicationResult

/-- `password if password else None`. -/
def passwordOrNone (password : String) : Option String :=
  if password = "" then none else some password

/-- `for info, data in zip(manifest.chunks, chunks): save_chunk, register_chunk`. -/
def storeAll (pairs : List (ChunkInfo × Bytes)) (node : Node) : Node :=
  pairs.foldl (fun node p => saveLocally node p.1 p.2) node

/-- Upload a file: chunk, encrypt, store locally, and replicate.  `peers` are the alive peers when
the local part is done, `envs` what replication meets.  The chunks are named by digests, under which
they can be saved; the size is that of a file on disk, which the database takes. -/
def uploadFile (P : Packages) (file : SourceFile) (password : String) (salt : Salt)
    (nonces : ℕ → Nonce) (peers : Dict String PeerInfo) (envs : ℕ → ReplicationEnv) (node : Node) :
    Except PyError UploadResponse × Node :=
  let optChunkSize := getOptimalChunkSize file.content.length
  match chunkFile P file.name (some file) optChunkSize (passwordOrNone password) salt nonces with
  | .error e => (.error e, node)
  | .ok (manifest, chunks) =>
    let node := storeAll (manifest.chunks.zip chunks) node
    let node := { node with store := node.store.saveManifest manifest.fileHash manifest.toDict }
    let (replicated, node) :=
      if peers.keys = [] then (.ok ∅, node)
      else replicateChunks defaultReplicationFactor envs manifest chunks node
    (replicated.map fun replicated =>
      { fileHash := manifest.fileHash
        filename := manifest.originalFilename
        size := manifest.originalSize
        compressedSize := (chunks.map List.length).sum
        compression := manifest.compression
        chunks := manifest.chunks.length
        manifest := manifest.toDict
        replication := replicated }, node)

/-! ## Finding manifests and chunks -/

/-- The loop over the peers that asks for a manifest; `body` is `manifest_dict` so far.  It ends
with the first body that is saved.  What `save_manifest` raises is caught, and the body stays. -/
def askManifest (fileHash : String) :
    ManifestReplies → Option ManifestBody → LocalStore → Option ManifestBody × LocalStore
  | [], body, store => (body, store)
  | reply :: replies, body, store =>
    match reply.accepted with
    | none => askManifest fileHash replies body store
    | some (.other truthy) => askManifest fileHash replies (some (.other truthy)) store
    | some (.dict d) =>
      if NodeDatabase.Bindable d then (some (.dict d), store.saveManifest fileHash d)
      else askManifest fileHash replies (some (.dict d)) store

/-- The manifest in the local store, or else what the loop over the peers ends with; `none` leads to
a 404. -/
def findManifest (fileHash : String) (replies : ManifestReplies) (store : LocalStore) :
    Option ManifestBody × LocalStore :=
  match (store.loadManifest fileHash).filter ManifestDict.truthy with
  | some d => (some d, store)
  | none =>
    let (body, store) := askManifest fileHash replies none store
    (body.filter ManifestBody.truthy, store)

/-- The loop over the peers that asks for a chunk: the first answer that can be saved, which is the
first one, or none at all. -/
def answerFor (replies : ChunkReplies) (chunkHash : String) : Option Bytes :=
  if Storable chunkHash then firstAnswer (replies.map fun peer => peer chunkHash) else none

/-- One chunk: the local one, or else the one that a peer answers, which is cached. -/
def findChunk (replies : ChunkReplies) (chunkHash : String) (store : LocalStore) :
    Option Bytes × LocalStore :=
  match store.loadChunk chunkHash with
  | some data => (some data, store)
  | none =>
    match answerFor replies chunkHash with
    | some data => (some data, store.saveChunk chunkHash data)
    | none => (none, store)

/-- The chunk loop of `download_file`. -/
def findChunks (replies : ChunkReplies) : List ChunkInfo → LocalStore →
    Except PyError (List Bytes) × LocalStore
  | [], store => (.ok [], store)
  | info :: rest, store =>
    match findChunk replies info.chunkHash store with
    | (none, store) =>
      (.error (missingChunk info.chunkHash (.httpException 404
        ("Chunk " ++ strTake 16 info.chunkHash ++ "... not found on any node"))), store)
    | (some data, store) =>
      match findChunks replies rest store with
      | (.ok chunks, store) => (.ok (data :: chunks), store)
      | (.error e, store) => (.error e, store)

/-! ## Download -/

structure FileResponse where
  content : Bytes
  filename : String
  deriving DecidableEq, Repr

/-- How `download_file` ends.  `tempFile` is what the temporary file holds at that moment: after a
success it is the file being served, which a background task removes later. -/
structure DownloadOutcome where
  result : Except PyError FileResponse
  tempFile : Option Bytes := none

/-- The text of the 400 after a failed merge. -/
def mergeErrorDetail (isEncrypted : Bool) (msg : String) : String :=
  let msg := if strContains "integrity check failed" msg.toLower && isEncrypted then
      msg ++ " (Wrong password? This file is encrypted.)"
    else msg
  "Decryption/integrity error: " ++ msg

/-- Step 3 of `download_file`: merge and decrypt to disk. -/
def serveMerged (P : Packages) (manifest : FileManifest) (chunks : List Bytes)
    (password : String) : DownloadOutcome :=
  let isEncrypted := manifest.chunks.any ChunkInfo.encrypted
  let pwd := passwordOrNone password
  if isEncrypted && !truthy pwd then
    { result := .error (.httpException 400
        "This file is encrypted. Please provide the decryption password.") }
  else
    let merged := mergeChunksToDisk P manifest chunks pwd
    match merged.outcome with
    | .ok () =>
      { result := .ok { content := merged.file.getD [], filename := manifest.originalFilename }
        tempFile := merged.file }
    -- only a `ValueError` is caught; the file it leaves is removed
    | .error (.valueError msg) =>
      { result := .error (.httpException 400 (mergeErrorDetail isEncrypted msg)) }
    | .error e => { result := .error e, tempFile := merged.file }

/-- Download a file by its hash: load chunks, decrypt, merge to disk. -/
def downloadFile (P : Packages) (fileHash password : String) (manifestReplies : ManifestReplies)
    (chunkReplies : ChunkReplies) (store : LocalStore) : DownloadOutcome × LocalStore :=
  match findManifest fileHash manifestReplies store with
  | (none, store) =>
    ({ result := .error (.httpException 404
        ("File not found on this node or any peer: " ++ fileHash)) }, store)
  | (some body, store) =>
    match body.manifest with
    | .error e => ({ result := .error e }, store)
    | .ok manifest =>
      match findChunks chunkReplies manifest.chunks store with
      | (.error e, store) => ({ result := .error e }, store)
      | (.ok chunks, store) => (serveMerged P manifest chunks password, store)

/-! ## Preview and resumable downloads -/

/-- The `load_chunk` of `preview_file`; `replies i` is what the peers alive at its `i`-th call
answer. -/
def previewLoader (replies : ℕ → ChunkReplies) : LoadFn (LocalStore × ℕ) :=
  fun chunkHash s =>
    match findChunk (replies s.2) chunkHash s.1 with
    | (some data, store) => (.ok data, store, s.2 + 1)
    | (none, store) =>
      (.error (missingChunk chunkHash
          (.httpException 404 ("Chunk " ++ strTake 16 chunkHash ++ "... not found"))),
        store, s.2 + 1)

/-- Stream a file for in-browser preview.  The client takes `pulls` pieces and then closes the
connection, or reads to the end when there are fewer: the pieces sent and how the stream ended. -/
def previewFile (P : Packages) (fileHash password : String) (manifestReplies : ManifestReplies)
    (replies : ℕ → ChunkReplies) (pulls : ℕ) (store : LocalStore) :
    (List Bytes × Except PyError Unit) × LocalStore :=
  match findManifest fileHash manifestReplies store with
  | (none, store) => (([], .error (.httpException 404 ("File not found: " ++ fileHash))), store)
  | (some body, store) =>
    match body.manifest with
    | .error e => (([], .error e), store)
    | .ok manifest =>
      let isEncrypted := manifest.chunks.any ChunkInfo.encrypted
      let pwd := passwordOrNone password
      if isEncrypted && !truthy pwd then
        (([], .error (.httpException 400 "This file is encrypted. Provide a password.")), store)
      else
        let (sent, s) := pipelineStreamLoop P (decide (manifest.compression = "zstd")) pwd
          (previewLoader replies) ((orderInfos manifest.chunks).take pulls) none (store, 0)
        (sent, s.1)

/-- The `load_chunk` that `_build_chunk_loader` builds for resumable downloads. -/
def chunkLoader (replies : ChunkReplies) (chunkHash : String) (store : LocalStore) :
    Except PyError Bytes × LocalStore :=
  match findChunk replies chunkHash store with
  | (some data, store) => (.ok data, store)
  | (none, store) =>
    (.error (missingChunk chunkHash
      (.fileNotFoundError ("Chunk " ++ strTake 16 chunkHash ++ "... not available"))), store)

/-- The first part of `start_resumable_download`: the manifest the download starts with. -/
def startManifest (fileHash : String) (manifestReplies : ManifestReplies) (store : LocalStore) :
    Except PyError FileManifest × LocalStore :=
  match findManifest fileHash manifestReplies store with
  | (none, store) => (.error (.httpException 404 ("File not found: " ++ fileHash)), store)
  | (some body, store) => (body.manifest, store)

/-! ## What finding a manifest or chunks does to the store -/

section Finding

variable {store : LocalStore} {manifestReplies : ManifestReplies} {replies : ChunkReplies}

lemma manifest_eq_ok {body : ManifestBody} {m : FileManifest} :
    body.manifest = .ok m ↔ ∃ d, body = .dict d ∧ FileManifest.fromDict d = .ok m := by
  cases body <;> simp [ManifestBody.manifest]

/-- The bodies with status 200 that the peers send, in order. -/
def ManifestReplies.bodies (replies : ManifestReplies) : List ManifestBody :=
  replies.filterMap Reply.accepted

/-- The body that the loop over the peers ends with: the first one that is saved, or else the last
one. -/
def ManifestReplies.inUse (replies : ManifestReplies) : Option ManifestBody :=
  (replies.bodies.find? ManifestBody.saves).or replies.bodies.getLast?

/-- **The manifest that the answers lead to**, and whether it is saved. -/
lemma askManifest_eq (fileHash : String) (replies : ManifestReplies) (body : Option ManifestBody)
    (store : LocalStore) : askManifest fileHash replies body store =
      match replies.bodies.find? ManifestBody.saves with
      | some (.dict d) => (some (.dict d), store.saveManifest fileHash d)
      | _ => (replies.bodies.getLast?.or body, store) := by
  induction replies generalizing body with
  | nil => rfl
  | cons reply replies ih =>
    rw [askManifest]
    unfold ManifestReplies.bodies at ih ⊢
    cases hreply : reply.accepted with
    | none => simp only [hreply, List.filterMap_cons_none, ih]
    | some sent =>
      have hlast (l : List ManifestBody) :
          l.getLast?.or (some sent) = (sent :: l).getLast?.or body := by
        rw [List.getLast?_cons]
        cases l.getLast? <;> rfl
      cases sent with
      | other truthy =>
        rw [List.filterMap_cons_some hreply, List.find?_cons_of_neg (by simp [ManifestBody.saves])]
        simp only [ih, hlast]
      | dict d =>
        rw [List.filterMap_cons_some hreply]
        by_cases hd : NodeDatabase.Bindable d
        · rw [List.find?_cons_of_pos (by simpa [ManifestBody.saves] using hd)]
          simp only [if_pos hd]
        · rw [List.find?_cons_of_neg (by simpa [ManifestBody.saves] using hd)]
          simp only [if_neg hd, ih, hlast]

lemma askManifest_fst (fileHash : String) (replies : ManifestReplies) (store : LocalStore) :
    (askManifest fileHash replies none store).1 = replies.inUse := by
  rw [askManifest_eq, ManifestReplies.inUse]
  cases hfind : replies.bodies.find? ManifestBody.saves with
  | none => simp
  | some body =>
    cases body with
    | dict d => simp
    | other truthy => cases List.find?_some hfind

/-- The loop over the peers saves a manifest that can be bound, which it ends with, or none. -/
lemma askManifest_cases (fileHash : String) (replies : ManifestReplies) (store : LocalStore) :
    (∃ d, ManifestBody.dict d ∈ replies.bodies ∧ NodeDatabase.Bindable d ∧
        askManifest fileHash replies none store =
          (some (.dict d), store.saveManifest fileHash d)) ∨
      (∀ d, ManifestBody.dict d ∈ replies.bodies → ¬ NodeDatabase.Bindable d) ∧
        askManifest fileHash replies none store = (replies.bodies.getLast?, store) := by
  rw [askManifest_eq]
  cases hfind : replies.bodies.find? ManifestBody.saves with
  | none =>
    refine Or.inr ⟨fun d hd => ?_, by simp⟩
    simpa [ManifestBody.saves] using List.find?_eq_none.1 hfind _ hd
  | some body =>
    cases body with
    | dict d =>
      exact Or.inl ⟨d, List.mem_of_find?_eq_some hfind,
        by simpa [ManifestBody.saves] using List.find?_some hfind, rfl⟩
    | other truthy => cases List.find?_some hfind

@[simp] lemma loadChunk_findManifest (manifestReplies : ManifestReplies) (store : LocalStore)
    (fileHash c : String) :
    (findManifest fileHash manifestReplies store).2.loadChunk c = store.loadChunk c := by
  unfold findManifest
  split
  · rfl
  · rcases askManifest_cases fileHash manifestReplies store with ⟨d, -, -, h⟩ | ⟨-, h⟩ <;> rw [h]
    rfl

lemma findManifest_fst (fileHash : String) (replies : ManifestReplies) (store : LocalStore) :
    (findManifest fileHash replies store).1 =
      (((store.loadManifest fileHash).filter ManifestDict.truthy).map ManifestBody.dict).or
        (replies.inUse.filter ManifestBody.truthy) := by
  unfold findManifest
  cases (store.loadManifest fileHash).filter ManifestDict.truthy with
  | some d => rfl
  | none =>
    dsimp only
    rw [askManifest_fst]
    rfl

/-- When all that is sent can be saved, the first body is in use. -/
lemma ManifestReplies.inUse_of_saves {replies : ManifestReplies}
    (h : ∀ body ∈ replies.bodies, body.saves = true) : replies.inUse = firstAnswer replies := by
  rw [firstAnswer, ← List.head?_filterMap, inUse]
  change (replies.bodies.find? _).or _ = replies.bodies.head?
  cases hbodies : replies.bodies with
  | nil => rfl
  | cons body rest =>
    rw [List.find?_cons_of_pos (h body (hbodies ▸ List.mem_cons_self ..))]
    rfl

/-- What is found was in the store, or sent by a peer. -/
lemma findManifest_fst_cases {fileHash : String} {body : ManifestBody}
    (h : (findManifest fileHash manifestReplies store).1 = some body) :
    (∃ d, body = .dict d ∧ store.loadManifest fileHash = some d) ∨
      body ∈ manifestReplies.bodies := by
  unfold findManifest at h
  cases hl : (store.loadManifest fileHash).filter ManifestDict.truthy with
  | some d =>
    simp only [hl, Option.some.injEq] at h
    exact Or.inl ⟨d, h.symm, (Option.filter_eq_some_iff.1 hl).1⟩
  | none =>
    simp only [hl] at h
    refine Or.inr ?_
    rcases askManifest_cases fileHash manifestReplies store with ⟨d, hmem, -, hask⟩ | ⟨-, hask⟩
    · rw [hask] at h
      exact Option.some.inj (Option.filter_eq_some_iff.1 h).1 ▸ hmem
    · rw [hask] at h
      exact List.mem_of_getLast? (Option.filter_eq_some_iff.1 h).1

/-- A manifest that is found is in the store afterwards, under the hash that was asked for, when all
that the peers send can be saved. -/
lemma loadManifest_findManifest {fileHash : String} {d : ManifestDict}
    (h : (findManifest fileHash manifestReplies store).1 = some (.dict d))
    (hsaves : ∀ d', ManifestBody.dict d' ∈ manifestReplies.bodies → NodeDatabase.Bindable d') :
    (findManifest fileHash manifestReplies store).2.loadManifest fileHash =
      some (NodeDatabase.dictOf fileHash (NodeDatabase.rowOf d)) := by
  unfold findManifest at h ⊢
  cases hl : (store.loadManifest fileHash).filter ManifestDict.truthy with
  | some d' =>
    simp only [hl, Option.some.injEq, ManifestBody.dict.injEq] at h ⊢
    subst h
    have hstored := (Option.filter_eq_some_iff.1 hl).1
    rw [hstored]
    exact (congrArg some (LocalStore.dictOf_rowOf_loadManifest hstored)).symm
  | none =>
    simp only [hl] at h ⊢
    rcases askManifest_cases fileHash manifestReplies store with ⟨d', -, -, hask⟩ | ⟨hnone, hask⟩
    · rw [hask] at h ⊢
      have hd : ManifestBody.dict d' = .dict d :=
        Option.some.inj (Option.filter_eq_some_iff.1 h).1
      cases hd
      rw [LocalStore.loadManifest_saveManifest, if_pos rfl]
    · rw [hask] at h
      have hmem := List.mem_of_getLast? (Option.filter_eq_some_iff.1 h).1
      exact absurd (hsaves d hmem) (hnone d hmem)

/-- A manifest in the store afterwards was there before, or was sent by a peer. -/
lemma loadManifest_findManifest_cases {fileHash h' : String} {d' : ManifestDict}
    (h : (findManifest fileHash manifestReplies store).2.loadManifest h' = some d') :
    store.loadManifest h' = some d' ∨ h' = fileHash ∧
      ∃ d, ManifestBody.dict d ∈ manifestReplies.bodies ∧
        d' = NodeDatabase.dictOf fileHash (NodeDatabase.rowOf d) := by
  unfold findManifest at h
  split at h
  · exact Or.inl h
  · rcases askManifest_cases fileHash manifestReplies store with ⟨d, hmem, -, hask⟩ | ⟨-, hask⟩
    · rw [hask] at h
      dsimp only at h
      rw [LocalStore.loadManifest_saveManifest] at h
      split at h
      · next hh => exact Or.inr ⟨hh, d, hmem, (Option.some.inj h).symm⟩
      · exact Or.inl h
    · rw [hask] at h
      exact Or.inl h

lemma storable_of_answerFor {c : String} {x : Bytes} (h : answerFor replies c = some x) :
    Storable c := by
  unfold answerFor at h
  split at h
  · assumption
  · cases h

/-- What `findChunk` does: nothing when the chunk is held or no peer has it; otherwise it caches
the answer it delivers. -/
lemma findChunk_cases (replies : ChunkReplies) (c : String) (store : LocalStore) :
    (∃ data, store.loadChunk c = some data ∧ findChunk replies c store = (some data, store)) ∨
    (store.loadChunk c = none ∧ ∃ data, answerFor replies c = some data ∧
      findChunk replies c store = (some data, store.saveChunk c data)) ∨
    (store.loadChunk c = none ∧ answerFor replies c = none ∧
      findChunk replies c store = (none, store)) := by
  unfold findChunk
  cases hl : store.loadChunk c with
  | some data => exact Or.inl ⟨data, rfl, rfl⟩
  | none =>
    cases ha : answerFor replies c with
    | some data => exact Or.inr (Or.inl ⟨rfl, data, rfl, rfl⟩)
    | none => exact Or.inr (Or.inr ⟨rfl, rfl, rfl⟩)

/-- The store after chunks have been looked for: all it had, and answers of peers for names it
did not have. -/
structure Cached (replies : ChunkReplies) (names : List String) (store store' : LocalStore) :
    Prop where
  manifests : ∀ h, store'.loadManifest h = store.loadManifest h
  keeps : ∀ c x, store.loadChunk c = some x → store'.loadChunk c = some x
  gains : ∀ c x, store'.loadChunk c = some x → store.loadChunk c = some x ∨
    c ∈ names ∧ store.loadChunk c = none ∧ answerFor replies c = some x

lemma Cached.refl (names : List String) : Cached replies names store store :=
  ⟨fun _ => rfl, fun _ _ h => h, fun _ _ h => Or.inl h⟩

lemma Cached.trans {names names' : List String} {store' store'' : LocalStore}
    (h : Cached replies names store store') (h' : Cached replies names' store' store'') :
    Cached replies (names ++ names') store store'' where
  manifests f := (h'.manifests f).trans (h.manifests f)
  keeps c x hx := h'.keeps c x (h.keeps c x hx)
  gains c x hx := by
    rcases h'.gains c x hx with hx | ⟨hc, hnone, hans⟩
    · rcases h.gains c x hx with hx | ⟨hc, hnone, hans⟩
      · exact Or.inl hx
      · exact Or.inr ⟨List.mem_append_left _ hc, hnone, hans⟩
    · refine Or.inr ⟨List.mem_append_right _ hc, ?_, hans⟩
      cases hl : store.loadChunk c with
      | none => rfl
      | some y => rw [h.keeps c y hl] at hnone; cases hnone

lemma cached_findChunk (replies : ChunkReplies) (c : String) (store : LocalStore) :
    Cached replies [c] store (findChunk replies c store).2 := by
  rcases findChunk_cases replies c store with
    ⟨data, -, h⟩ | ⟨hnone, data, hans, h⟩ | ⟨-, -, h⟩
  · rw [h]
    exact Cached.refl _
  · rw [h]
    refine ⟨fun _ => rfl, fun c' x hx => ?_, fun c' x hx => ?_⟩
    · have hne : c' ≠ c := by
        rintro rfl
        rw [hnone] at hx
        cases hx
      rw [LocalStore.loadChunk_saveChunk, if_neg hne, hx]
    · rw [LocalStore.loadChunk_saveChunk] at hx
      split at hx
      · next hc =>
        subst hc
        exact Or.inr ⟨List.mem_singleton_self _, hnone, hans.trans hx⟩
      · exact Or.inl hx
  · rw [h]
    exact Cached.refl _

lemma cached_findChunks (replies : ChunkReplies) (infos : List ChunkInfo) (store : LocalStore) :
    Cached replies (infos.map ChunkInfo.chunkHash) store (findChunks replies infos store).2 := by
  induction infos generalizing store with
  | nil => exact Cached.refl _
  | cons info infos ih =>
    have hone := cached_findChunk replies info.chunkHash store
    rw [findChunks]
    cases hf : findChunk replies info.chunkHash store with
    | mk found store' =>
      rw [hf] at hone
      cases found with
      | none =>
        exact ⟨hone.manifests, hone.keeps, fun c x hx => (hone.gains c x hx).imp_right
          fun ⟨hc, h⟩ => ⟨by rw [List.mem_singleton.1 hc]; exact List.mem_cons_self .., h⟩⟩
      | some data =>
        have hrest := hone.trans (ih store')
        cases hr : findChunks replies infos store' with
        | mk outcome store'' =>
          rw [hr] at hrest
          cases outcome <;> simpa [hr] using hrest

/-- A list of found values has one for every key. -/
lemma exists_of_forall₂_some {α β : Type} {f : α → Option β} {l : List α} {l' : List β}
    (h : List.Forall₂ (fun a b => f a = some b) l l') {a : α} (ha : a ∈ l) : ∃ b, f a = some b := by
  induction h with
  | nil => cases ha
  | @cons a' b l l' hab _ ih =>
    rcases List.mem_cons.1 ha with rfl | ha
    · exact ⟨b, hab⟩
    · exact ih ha

/-- A list of found values is determined by the keys. -/
lemma forall₂_some_unique {α β : Type} {f : α → Option β} {l : List α} {l' l'' : List β}
    (h : List.Forall₂ (fun a b => f a = some b) l l')
    (h' : List.Forall₂ (fun a b => f a = some b) l l'') : l' = l'' := by
  induction h generalizing l'' with
  | nil =>
    cases h'
    rfl
  | @cons a b l l' hab _ ih =>
    cases h' with
    | cons hab' hrest => rw [Option.some.inj (hab.symm.trans hab'), ih hrest]

/-- When all chunks are found, each is in the store afterwards as it was delivered. -/
lemma findChunks_ok {infos : List ChunkInfo} {datas : List Bytes} {store' : LocalStore}
    (h : findChunks replies infos store = (.ok datas, store')) :
    List.Forall₂ (fun info data => store'.loadChunk info.chunkHash = some data) infos datas := by
  induction infos generalizing store datas with
  | nil =>
    simp only [findChunks, Prod.mk.injEq, Except.ok.injEq] at h
    rw [← h.1]
    exact List.Forall₂.nil
  | cons info infos ih =>
    rw [findChunks] at h
    rcases findChunk_cases replies info.chunkHash store with
      ⟨data, hl, hf⟩ | ⟨-, data, -, hf⟩ | ⟨-, -, hf⟩
    all_goals simp only [hf] at h
    · cases hr : findChunks replies infos store with
      | mk outcome store'' =>
        rw [hr] at h
        cases outcome with
        | error e => simp at h
        | ok chunks =>
          obtain ⟨hd, rfl⟩ := Prod.mk.inj h
          have hcached := cached_findChunks replies infos store
          rw [hr] at hcached
          rw [← Except.ok.inj hd]
          exact List.Forall₂.cons (hcached.keeps _ _ hl) (ih hr)
    · cases hr : findChunks replies infos (store.saveChunk info.chunkHash data) with
      | mk outcome store'' =>
        rw [hr] at h
        cases outcome with
        | error e => simp at h
        | ok chunks =>
          obtain ⟨hd, rfl⟩ := Prod.mk.inj h
          have hcached := cached_findChunks replies infos
            (store.saveChunk info.chunkHash data)
          rw [hr] at hcached
          rw [← Except.ok.inj hd]
          refine List.Forall₂.cons (hcached.keeps _ _ ?_) (ih hr)
          rw [LocalStore.loadChunk_saveChunk, if_pos rfl]
    · simp at h

/-- Chunks that are all held or answered are all found. -/
lemma findChunks_of_available {infos : List ChunkInfo}
    (h : ∀ info ∈ infos, (∃ x, store.loadChunk info.chunkHash = some x) ∨
      ∃ x, answerFor replies info.chunkHash = some x) :
    ∃ datas store', findChunks replies infos store = (.ok datas, store') := by
  induction infos generalizing store with
  | nil => exact ⟨[], store, rfl⟩
  | cons info infos ih =>
    obtain ⟨data, store', hf⟩ : ∃ data store', findChunk replies info.chunkHash store =
        (some data, store') := by
      rcases findChunk_cases replies info.chunkHash store with
        ⟨data, -, hf⟩ | ⟨-, data, -, hf⟩ | ⟨hnone, hans, -⟩
      · exact ⟨data, _, hf⟩
      · exact ⟨data, _, hf⟩
      · rcases h info (List.mem_cons_self ..) with ⟨x, hx⟩ | ⟨x, hx⟩
        · rw [hnone] at hx
          cases hx
        · rw [hans] at hx
          cases hx
    have hcached := cached_findChunk replies info.chunkHash store
    rw [hf] at hcached
    obtain ⟨datas, store'', hr⟩ : ∃ datas store'',
        findChunks replies infos store' = (.ok datas, store'') := by
      apply ih
      intro info' hinfo'
      rcases h info' (List.mem_cons_of_mem _ hinfo') with ⟨x, hx⟩ | hans
      · exact Or.inl ⟨x, hcached.keeps _ x hx⟩
      · exact Or.inr hans
    refine ⟨data :: datas, store'', ?_⟩
    rw [findChunks]
    simp only [hf, hr]

/-- The entries of the manifest that a request for `fileHash` works with. -/
def requestedInfos (fileHash : String) (manifestReplies : ManifestReplies) (store : LocalStore) :
    List ChunkInfo :=
  match (findManifest fileHash manifestReplies store).1 with
  | none => []
  | some body =>
    match body.manifest with
    | .ok m => m.chunks
    | .error _ => []

/-- What a download leaves in the store: the manifest found and cached answers of peers, whatever
its outcome. -/
lemma cached_downloadFile (P : Packages) (fileHash password : String)
    (manifestReplies : ManifestReplies) (replies : ChunkReplies) (store : LocalStore) :
    Cached replies ((requestedInfos fileHash manifestReplies store).map ChunkInfo.chunkHash)
      (findManifest fileHash manifestReplies store).2
      (downloadFile P fileHash password manifestReplies replies store).2 := by
  unfold downloadFile requestedInfos
  cases hm : findManifest fileHash manifestReplies store with
  | mk found store' =>
    cases found with
    | none => exact Cached.refl _
    | some body =>
      dsimp only
      cases hd : body.manifest with
      | error e => exact Cached.refl _
      | ok m =>
        dsimp only
        have hcached := cached_findChunks replies m.chunks store'
        cases hc : findChunks replies m.chunks store' with
        | mk outcome store'' =>
          rw [hc] at hcached
          cases outcome <;> exact hcached

/-- The steps of a download that serves a file. -/
lemma downloadFile_ok {P : Packages} {fileHash password : String} {r : FileResponse}
    (h : (downloadFile P fileHash password manifestReplies replies store).1.result = .ok r) :
    ∃ d store₁ m datas store₂,
      findManifest fileHash manifestReplies store = (some (.dict d), store₁) ∧
      FileManifest.fromDict d = .ok m ∧ findChunks replies m.chunks store₁ = (.ok datas, store₂) ∧
      (serveMerged P m datas password).result = .ok r ∧
      (downloadFile P fileHash password manifestReplies replies store).2 = store₂ := by
  unfold downloadFile at h ⊢
  cases hm : findManifest fileHash manifestReplies store with
  | mk found store₁ =>
    cases found with
    | none => simp [hm] at h
    | some body =>
      simp only [hm] at h ⊢
      cases hd : body.manifest with
      | error e => simp [hd] at h
      | ok m =>
        obtain ⟨d, rfl, hd'⟩ := manifest_eq_ok.1 hd
        simp only [hd] at h ⊢
        cases hc : findChunks replies m.chunks store₁ with
        | mk outcome store₂ =>
          cases outcome with
          | error e => simp [hc] at h
          | ok datas =>
            simp only [hc] at h ⊢
            exact ⟨d, store₁, m, datas, store₂, rfl, hd', hc, h, rfl⟩

/-- A file is served only when the merge to disk succeeds, and is the merged file. -/
lemma serveMerged_ok {P : Packages} {m : FileManifest} {datas : List Bytes}
    {password : String} {r : FileResponse} (h : (serveMerged P m datas password).result = .ok r) :
    ¬ (m.chunks.any ChunkInfo.encrypted && !truthy (passwordOrNone password)) = true ∧
      (mergeChunksToDisk P m datas (passwordOrNone password)).outcome = .ok () ∧
      r.content = (mergeChunksToDisk P m datas (passwordOrNone password)).file.getD [] := by
  unfold serveMerged at h
  dsimp only at h
  split at h
  · simp at h
  · next hasked =>
    split at h
    · next hout =>
      rw [← Except.ok.inj h]
      exact ⟨hasked, hout, rfl⟩
    · simp at h
    · simp at h

/-- What is served has the hash that the manifest states. -/
lemma hash_of_serveMerged {P : Packages} {m : FileManifest} {datas : List Bytes}
    {password : String} {r : FileResponse}
    (h : (serveMerged P m datas password).result = .ok r) : sha256Hash r.content = m.fileHash := by
  obtain ⟨-, hout, hfile⟩ := serveMerged_ok h
  obtain ⟨-, hhash, hwritten⟩ := finishOnDisk_ok hout
  rw [hfile, mergeChunksToDisk, hwritten]
  exact hhash

end Finding

end DistriStore
