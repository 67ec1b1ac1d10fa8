import DistriStore.Api.Routes
import DistriStore.Lib.Gather

/-!
# The swarming client (`backend/framework/client.py`)

`download_swarmed` and `download_chunks_parallel` make one coroutine for each chunk and await them
with `asyncio.gather`; a semaphore bounds the requests that are under way.  Here the coroutines are
the tasks of `Lib.Gather`, and a run is one order in which they run and their responses arrive.
What a node answers to the request of a task is a parameter, so that the same answers can arrive
in every order.
-/

namespace DistriStore

namespace DistriStoreClient

open Lib

/-- What the calls of the client raise. -/
inductive ClientError where
  /-- An `httpx.RequestError`: no connection, a timeout, a broken response. -/
  | requestError
  /-- `resp.raise_for_status()`. -/
  | httpStatusError (statusCode : ℕ)
  | keyError (key : String)
  | indexError
  | valueError (msg : String)
  deriving DecidableEq, Repr

/-- `resp.raise_for_status()`, and then the body. -/
def content {β : Type} : Reply β → Except ClientError β
  | .failed => .error .requestError
  | .response statusCode body =>
    if 200 ≤ statusCode ∧ statusCode < 300 then
      match body with
      | some body => .ok body
      | none => .error .requestError
    else .error (.httpStatusError statusCode)

/-- What nodes answer: to whom the request goes and what it asks for; the requests for chunks also
by the task that makes them. -/
structure Answers where
  manifest : (peerUrl fileHash : String) → Reply ManifestDict
  chunk : (task : ℕ) → (peerUrl chunkHash : String) → Reply Bytes
  /-- `params` holds the password, if one is sent. -/
  download : (peerUrl fileHash : String) → (params : Option String) → Reply Bytes

/-- The attributes of a client. -/
structure Client where
  baseUrl : String
  swarmConcurrency : ℤ

/-- `base_url.rstrip("/")`. -/
def rstripSlash (s : String) : String :=
  String.ofList (s.toList.reverse.dropWhile fun c => c = '/').reverse

/-- Number of concurrent chunk downloads. -/
def swarmConcurrency : ℤ := 5

def Client.new (baseUrl : String) (swarmConcurrency : ℤ) : Client where
  baseUrl := rstripSlash baseUrl
  swarmConcurrency := swarmConcurrency

/-- `urls[idx % len(urls)]`. -/
def roundRobin (urls : List String) (idx : ℤ) : String :=
  (urls[(idx % urls.length).toNat]?).getD ""

/-- `asyncio.Semaphore(value)`. -/
def newSemaphore (value : ℤ) : Except ClientError ℕ :=
  if value < 0 then .error (.valueError "Semaphore initial value must be >= 0")
  else .ok value.toNat

/-- Download a file (sequential, single-connection): what is written to `output_path`. -/
def Client.download (c : Client) (answers : Answers) (fileHash password : String) :
    Except ClientError Bytes :=
  content (answers.download c.baseUrl fileHash (passwordOrNone password))

/-! ## The coroutines -/

/-- A coroutine that fetches a chunk: whom it asks for what, and what it does with the content. -/
structure Fetch (μ : Type) where
  peerUrl : String
  chunkHash : String
  keep : Bytes → μ → Except ClientError μ

/-- The tasks, and the variables that they share. -/
structure Fetching (μ : Type) where
  gather : Gather.State ClientError
  memory : μ

inductive Step where
  /-- The next task comes to the semaphore. -/
  | start
  /-- A task that has been let in sends its request. -/
  | wake (i : ℕ)
  /-- The response to task `i` arrives. -/
  | answer (i : ℕ)
  deriving DecidableEq, Repr

section Fetching

variable {μ : Type} (tasks : List (Fetch μ)) (answers : Answers)

/-- The rest of a task once its response is there. -/
def settle (i : ℕ) (task : Fetch μ) (memory : μ) : Except ClientError μ := do
  let data ← content (answers.chunk i task.peerUrl task.chunkHash)
  task.keep data memory

def Fetching.exec (s : Fetching μ) : Step → Option (Fetching μ)
  | .start => (Gather.exec s.gather .start).map fun g => { s with gather := g }
  | .wake i => (Gather.exec s.gather (.wake i)).map fun g => { s with gather := g }
  | .answer i =>
    match tasks[i]? with
    | none => none
    | some task =>
      match settle answers i task s.memory with
      | .ok memory =>
        (Gather.exec s.gather (.finish i none)).map fun g => { gather := g, memory := memory }
      | .error e =>
        (Gather.exec s.gather (.finish i (some e))).map fun g => { s with gather := g }

/-- `asyncio.gather(*tasks)` behind a semaphore of `limit` permits. -/
def fetching (limit : ℕ) (memory : μ) : Machine (Fetching μ) Step where
  init := { gather := (Gather.machine ClientError tasks.length limit).init, memory := memory }
  exec := Fetching.exec tasks answers

end Fetching

/-! ## `download_chunks_parallel` -/

/-- `fetch(idx, chunk_hash)`: the shared variable is `results`. -/
def fetch (urls : List String) (idx : ℕ) (chunkHash : String) : Fetch (List (Option Bytes)) where
  peerUrl := roundRobin urls idx
  chunkHash := chunkHash
  keep data results := .ok (results.set idx (some data))

/-- The coroutines `fetch(i, h) for i, h in enumerate(chunk_hashes)`. -/
def fetches (urls chunkHashes : List String) : List (Fetch (List (Option Bytes))) :=
  chunkHashes.mapIdx fun i h => fetch urls i h

/-- Download a list of chunks in parallel from multiple peers. -/
def downloadChunksParallel (urls chunkHashes : List String) (answers : Answers) (limit : ℕ) :
    Machine (Fetching (List (Option Bytes))) Step :=
  fetching (fetches urls chunkHashes) answers limit (List.replicate chunkHashes.length none)

/-- What the call has returned or raised. -/
def returnedChunks (s : Fetching (List (Option Bytes))) :
    Option (Except ClientError (List (Option Bytes))) :=
  s.gather.outcome.map fun r => r.map fun _ => s.memory

/-! ## `download_swarmed` -/

/-- `xs[idx] = x` on a list: negative indices count from its end. -/
def setItem {α : Type} (xs : List α) (idx : ℤ) (x : α) : Except ClientError (List α) :=
  if 0 ≤ idx ∧ idx < xs.length then .ok (xs.set idx.toNat x)
  else if -xs.length ≤ idx ∧ idx < 0 then .ok (xs.set (xs.length + idx).toNat x)
  else .error .indexError

/-- The variables that the coroutines of `download_swarmed` share. -/
structure Progress where
  chunkData : List (Option Bytes)
  downloaded : ℕ := 0
  totalBytes : ℕ := 0

/-- `fetch_chunk(idx, chunk_hash)`. -/
def fetchChunk (urls : List String) (idx : ℤ) (chunkHash : String) : Fetch Progress where
  peerUrl := roundRobin urls idx
  chunkHash := chunkHash
  keep data p := do
    let chunkData ← setItem p.chunkData idx (some data)
    return { chunkData, downloaded := p.downloaded + 1, totalBytes := p.totalBytes + data.length }

/-- `info[key]` on an entry of the manifest. -/
def getItem {α : Type} (key : String) : Option α → Except ClientError α
  | some v => .ok v
  | none => .error (.keyError key)

/-- `fetch_chunk(info["index"], info["chunk_hash"]) for info in chunks_info`. -/
def fetchChunks (urls : List String) (chunksInfo : List ChunkDict) :
    Except ClientError (List (Fetch Progress)) :=
  chunksInfo.mapM fun info => do
    let idx ← getItem "index" info.index
    let chunkHash ← getItem "chunk_hash" info.chunkHash
    return fetchChunk urls idx chunkHash

/-- The returned statistics, less the times. -/
structure SwarmStats where
  fileHash : String
  totalChunks : ℕ
  totalBytes : ℕ
  peersUsed : ℕ
  concurrency : ℤ
  deriving DecidableEq, Repr

/-- Where the coroutine of the call is. -/
inductive Main where
  /-- It awaits the tasks. -/
  | gathering
  /-- Every chunk is there, and it has asked `urls[0]` for the file. -/
  | requesting
  | returned (stats : SwarmStats)
  | raised (e : ClientError)
  deriving DecidableEq, Repr

structure Swarming where
  fetching : Fetching Progress
  main : Main := .gathering
  /-- What has been written to `output_path`. -/
  written : Option Bytes := none

inductive SwarmLabel where
  | task (l : Step)
  /-- The call goes on after `gather`. -/
  | gathered
  /-- The response to the last request arrives. -/
  | downloaded
  deriving DecidableEq, Repr

/-- The arguments of a call. -/
structure Call where
  client : Client
  /-- `peer_urls or [self.base_url]`. -/
  urls : List String
  fileHash : String
  password : String

/-- `urls[0]`. -/
def Call.firstUrl (call : Call) : String := call.urls.headD ""

/-- What precedes the tasks: the manifest is fetched and the coroutines are made. -/
def Call.prepare (call : Call) (answers : Answers) :
    Except ClientError (ℕ × List (Fetch Progress)) := do
  let manifest ← content (answers.manifest call.firstUrl call.fileHash)
  let limit ← newSemaphore call.client.swarmConcurrency
  let tasks ← fetchChunks call.urls (manifest.chunks.getD [])
  return (limit, tasks)

def Call.stats (call : Call) (p : Progress) : SwarmStats where
  fileHash := call.fileHash
  totalChunks := p.chunkData.length
  totalBytes := p.totalBytes
  peersUsed := call.urls.length
  concurrency := call.client.swarmConcurrency

def Swarming.exec (call : Call) (tasks : List (Fetch Progress)) (answers : Answers)
    (s : Swarming) : SwarmLabel → Option Swarming
  | .task l => (s.fetching.exec tasks answers l).map fun f => { s with fetching := f }
  | .gathered =>
    match s.main, s.fetching.gather.outcome with
    | .gathering, some (.ok ()) => some { s with main := .requesting }
    | .gathering, some (.error e) => some { s with main := .raised e }
    | _, _ => none
  | .downloaded =>
    match s.main with
    | .requesting =>
      let params := passwordOrNone call.password
      match content (answers.download call.firstUrl call.fileHash params) with
      | .ok data =>
        some { s with main := .returned (call.stats s.fetching.memory), written := some data }
      | .error e => some { s with main := .raised e }
    | _ => none

/-- Download a file using parallel chunk swarming, from the moment the tasks have been made. -/
def downloadSwarmed (call : Call) (limit : ℕ) (tasks : List (Fetch Progress)) (answers : Answers) :
    Machine Swarming SwarmLabel where
  init := { fetching := (fetching tasks answers limit
    { chunkData := List.replicate tasks.length none }).init }
  exec := Swarming.exec call tasks answers

end DistriStoreClient

end DistriStore
