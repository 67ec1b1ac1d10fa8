import DistriStore.FileEngine.Chunker
import DistriStore.Lib.Dict
import DistriStore.Lib.Machine
import DistriStore.Lib.SortBy
import DistriStore.Lib.Table
import DistriStore.Storage.FileNames

/-!
# The download manager

`api/download_manager.py`: one `DownloadManager` with its worker tasks, the pauses in progress
and the `.resume` files, as a machine.  Several coroutines share the `DownloadState` objects, so
the state holds a heap of them and everything else names an object by its place in the heap;
workers and pauses are named likewise.  A step runs one coroutine up to its next await.

The labels choose the arguments of the calls, the outcome of fetches, merges and writes of
`.resume` files, and crashes.  A crash keeps the `.resume` files alone; because a rename is
atomic a file is always one that `_save_resume` has written.  Timestamps are left out, and so
are the chunks themselves, on which the bookkeeping does not depend.

A manifest is any JSON, and the index of a chunk need not be an integer.  When two indices cannot
be compared `sorted` raises, and it stands before the `try` of the worker; when they are lists the
test for membership in `missing_set` raises inside it.  A label `beginRaises` says that this is so
for the manifest of the worker that begins; any other index that is no number is in no
`missing_set`, as the integers out of range are.
-/

namespace DistriStore.DownloadManager

open Lib

/-- Flush resume state every N chunks. -/
def flushInterval : ℕ := 10

/-! ## Data -/

inductive Status where
  | pending
  | downloading
  | paused
  | completed
  | error
  deriving DecidableEq, Repr

structure DownloadState where
  fileHash : String
  filename : String
  totalChunks : ℕ
  totalSize : ℤ
  missingChunks : List ℤ
  completedChunks : List ℤ
  status : Status := .pending
  errorMessage : String := ""
  password : String := ""
  deriving DecidableEq, Repr

/-- The contents of a `.resume` file. -/
structure ResumeDict where
  fileHash : String
  filename : String
  totalChunks : ℕ
  totalSize : ℤ
  missingChunks : List ℤ
  completedChunks : List ℤ
  status : Status
  deriving DecidableEq, Repr

def DownloadState.toResumeDict (o : DownloadState) : ResumeDict where
  fileHash := o.fileHash
  filename := o.filename
  totalChunks := o.totalChunks
  totalSize := o.totalSize
  missingChunks := o.missingChunks
  completedChunks := o.completedChunks
  status := o.status

/-- `from_resume_dict`; a file that `_save_resume` wrote has all keys. -/
def DownloadState.fromResumeDict (f : ResumeDict) : DownloadState where
  fileHash := f.fileHash
  filename := f.filename
  totalChunks := f.totalChunks
  totalSize := f.totalSize
  missingChunks := f.missingChunks
  completedChunks := f.completedChunks
  status := f.status

/-- The state of a download that starts from nothing. -/
def DownloadState.fresh (fileHash : String) (manifest : FileManifest) (password : String) :
    DownloadState where
  fileHash := fileHash
  filename := manifest.originalFilename
  totalChunks := manifest.chunks.length
  totalSize := manifest.originalSize
  missingChunks := (List.range manifest.chunks.length).map Int.ofNat
  completedChunks := []
  status := .downloading
  password := password

/-- Where a `_download_worker` is. -/
inductive Phase where
  /-- The task is scheduled, the coroutine has not begun. -/
  | created
  /-- In `load_chunk_fn` for `info`, with `rest` of `ordered_chunks` to come. -/
  | fetching (info : ChunkInfo) (rest : List ChunkInfo) (missingSet : List ℤ)
      (chunksSinceFlush : ℕ)
  /-- In `pipeline_merge_to_disk`. -/
  | merging
  | finished
  deriving DecidableEq, Repr

/-- A worker task together with its cancel event. -/
structure Worker where
  fileHash : String
  manifest : FileManifest
  /-- Its `state` argument. -/
  obj : ℕ
  phase : Phase := .created
  /-- `cancel_event.is_set()`. -/
  cancelEvent : Bool := false
  /-- `task.cancel()` was called. -/
  cancelled : Bool := false
  /-- The task is over with an exception that the worker has not caught. -/
  raised : Bool := false
  deriving DecidableEq, Repr

/-- A `pause_download` that waits for a task. -/
structure Pause where
  fileHash : String
  obj : ℕ
  worker : ℕ
  /-- It has cancelled the task and awaits it without a timeout. -/
  cancelling : Bool := false
  ended : Bool := false
  deriving DecidableEq, Repr

/-- The manager, its tasks and its directory. -/
structure State where
  objects : List DownloadState := []
  workers : List Worker := []
  pauses : List Pause := []
  downloads : Dict String ℕ := ∅
  tasks : Dict String ℕ := ∅
  cancelEvents : Dict String ℕ := ∅
  /-- The `.resume` files by the hash in their names. -/
  files : Dict String ResumeDict := ∅

namespace State

/-! ## Single statements -/

/-- Assign to fields of object `i`. -/
def assign (s : State) (i : ℕ) (f : DownloadState → DownloadState) : State :=
  { s with objects := s.objects.modify i f }

def setStatus (s : State) (i : ℕ) (status : Status) : State :=
  s.assign i fun o => { o with status := status }

def setError (s : State) (i : ℕ) (message : String) : State :=
  s.assign i fun o => { o with status := .error, errorMessage := message }

/-- Move an index from `missing_chunks` to `completed_chunks`. -/
def markCompleted (s : State) (i : ℕ) (index : ℤ) : State :=
  s.assign i fun o => { o with
    missingChunks := if index ∈ o.missingChunks then o.missingChunks.erase index
      else o.missingChunks
    completedChunks := if index ∈ o.completedChunks then o.completedChunks
      else o.completedChunks ++ [index] }

def updateWorker (s : State) (w : ℕ) (f : Worker → Worker) : State :=
  { s with workers := s.workers.modify w f }

def setPhase (s : State) (w : ℕ) (phase : Phase) : State :=
  s.updateWorker w fun worker => { worker with phase := phase }

def updatePause (s : State) (p : ℕ) (f : Pause → Pause) : State :=
  { s with pauses := s.pauses.modify p f }

/-- `_save_resume`; when the file cannot be written the old one stays. -/
def saveResume (s : State) (i : ℕ) (written : Bool) : State :=
  { s with
    files := match s.objects[i]? with
      | none => s.files
      | some o => if written then s.files.set o.fileHash o.toResumeDict else s.files }

def deleteResume (s : State) (fileHash : String) : State :=
  { s with files := s.files.erase fileHash }

/-- The name of the `.resume` file. -/
def resumeName (fileHash : String) : String := fileHash ++ ".resume"

/-- `self._downloads.get(file_hash) or self._load_resume(file_hash)` raises: it has to look for a
file that cannot have its name. -/
def lookupRaises (s : State) (fileHash : String) : Prop :=
  s.downloads.get? fileHash = none ∧ TooLong (resumeName fileHash)

instance (s : State) (fileHash : String) : Decidable (s.lookupRaises fileHash) :=
  inferInstanceAs (Decidable (_ ∧ _))

/-- `self._downloads.get(file_hash) or self._load_resume(file_hash)`: the object, which a loaded
file adds to the heap. -/
def existing (s : State) (fileHash : String) : State × Option (ℕ × DownloadState) :=
  match s.downloads.get? fileHash with
  | some i => (s, (s.objects[i]?).map fun o => (i, o))
  | none =>
    match s.files.get? fileHash with
    | none => (s, none)
    | some f =>
      let o := DownloadState.fromResumeDict f
      ({ s with objects := s.objects ++ [o] }, some (s.objects.length, o))

/-- Track object `i`, and launch a worker for it with a cancel event of its own. -/
def launch (s : State) (fileHash : String) (manifest : FileManifest) (i : ℕ) : State :=
  { s with
    workers := s.workers ++ [{ fileHash := fileHash, manifest := manifest, obj := i }]
    tasks := s.tasks.set fileHash s.workers.length
    cancelEvents := s.cancelEvents.set fileHash s.workers.length }

def track (s : State) (fileHash : String) (i : ℕ) : State :=
  { s with downloads := s.downloads.set fileHash i }

end State

/-! ## Download control -/

/-- A fresh download for the manifest. -/
def freshDownload (s : State) (fileHash : String) (manifest : FileManifest) (password : String) :
    State × ℕ :=
  ({ s with objects := s.objects ++ [DownloadState.fresh fileHash manifest password] },
    s.objects.length)

/-- The object that a download goes on with: the existing one while chunks are missing. -/
def prepare (s : State) (fileHash : String) (manifest : FileManifest) (password : String) :
    Option (ℕ × DownloadState) → State × ℕ
  | none => freshDownload s fileHash manifest password
  | some (i, o) =>
    if o.missingChunks ≠ [] then
      (s.assign i fun o => { o with status := .downloading, password := password }, i)
    else freshDownload s fileHash manifest password

/-- `start_download`, with the object it returns or the exception it raises. -/
def startDownload (s : State) (fileHash : String) (manifestDict : ManifestDict)
    (password : String) (written : Bool) : State × Except PyError ℕ :=
  match FileManifest.fromDict manifestDict with
  | .error e => (s, .error e)
  | .ok manifest =>
    if s.lookupRaises fileHash then (s, .error .osError)
    else
      let (s, found) := s.existing fileHash
      match found.filter fun e => e.2.status = .downloading with
      | some (i, _) => (s, .ok i)
      | none =>
        let (s, i) := prepare s fileHash manifest password found
        (((s.track fileHash i).saveResume i written).launch fileHash manifest i, .ok i)

/-- The end of `pause_download`. -/
def finishPause (s : State) (fileHash : String) (i : ℕ) (written : Bool) : State :=
  let s := (s.setStatus i .paused).saveResume i written
  { s with tasks := s.tasks.erase fileHash, cancelEvents := s.cancelEvents.erase fileHash }

/-- Task `w` is over with an exception, which whoever awaits it raises as well. -/
def taskRaised (s : State) (w : ℕ) : Bool := (s.workers[w]?).any fun worker => worker.raised

/-- `pause_download` after its wait. -/
def leavePause (s : State) (pause : Pause) (written : Bool) : State :=
  if taskRaised s pause.worker then s else finishPause s pause.fileHash pause.obj written

/-- Task `w` is over, or there is none. -/
def taskDone (s : State) (w : ℕ) : Bool :=
  (s.workers[w]?).all fun worker => worker.phase = .finished

/-- Set the cancel event of the file, if there is one. -/
def signalCancel (s : State) (fileHash : String) : State :=
  match s.cancelEvents.get? fileHash with
  | none => s
  | some w => s.updateWorker w fun worker => { worker with cancelEvent := true }

/-- `pause_download` with the task of the file: wait for it, or go on. -/
def awaitTask (s : State) (fileHash : String) (i : ℕ) (written : Bool) : State :=
  match s.tasks.get? fileHash with
  | none => finishPause s fileHash i written
  | some w =>
    if taskDone s w then finishPause s fileHash i written
    else { s with pauses := s.pauses ++ [{ fileHash := fileHash, obj := i, worker := w }] }

/-- `pause_download` up to its first await. -/
def pauseDownload (s : State) (fileHash : String) (written : Bool) : State :=
  match s.downloads.get? fileHash with
  | none => s
  | some i =>
    if (s.objects[i]?).any fun o => o.status = .downloading then
      awaitTask (signalCancel s fileHash) fileHash i written
    else s

/-- `resume_download`, when `load_manifest` answers `manifestDict`. -/
def resumeDownload (s : State) (fileHash password : String) (manifestDict : Option ManifestDict) :
    State × Except PyError (Option ℕ) :=
  if s.lookupRaises fileHash then (s, .error .osError)
  else
    match s.existing fileHash with
    | (s, none) => (s, .ok none)
    | (s, some (i, o)) =>
      if o.status = .downloading then (s, .ok (some i))
      else
        match manifestDict.filter ManifestDict.truthy with
        | none => (s, .ok none)
        | some d =>
          match FileManifest.fromDict d with
          | .error e => (s, .error e)
          | .ok manifest =>
            let s := s.assign i fun o => { o with status := .downloading, password := password }
            ((s.track fileHash i).launch fileHash manifest i, .ok (some i))

/-- Take a file out of the three dictionaries. -/
def dropEntry (s : State) (e : String × ℕ) : State :=
  { s with
    downloads := s.downloads.erase e.1
    tasks := s.tasks.erase e.1
    cancelEvents := s.cancelEvents.erase e.1 }

/-- `clear_completed`. -/
def clearCompleted (s : State) : State :=
  let toRemove := s.downloads.entries.filter fun e =>
    (s.objects[e.2]?).any fun o => o.status = .completed ∨ o.status = .error
  toRemove.foldl dropEntry s

/-! ## The worker -/

/-- The loop over `ordered_chunks` up to the next fetch, and the merge after the last one. -/
def workerLoop (s : State) (w : ℕ) (worker : Worker) (rest : List ChunkInfo)
    (missingSet : List ℤ) (chunksSinceFlush : ℕ) (written : Bool) : State :=
  match rest.dropWhile fun info => info.index ∉ missingSet with
  | info :: rest =>
    if worker.cancelEvent then s.setPhase w .finished
    else s.setPhase w (.fetching info rest missingSet chunksSinceFlush)
  | [] => (s.saveResume worker.obj written).setPhase w .merging

/-- `_download_worker` from its beginning. -/
def workerStart (s : State) (w : ℕ) (worker : Worker) (written : Bool) : State :=
  match s.objects[worker.obj]? with
  | none => s
  | some o =>
    let orderedChunks := sortBy ChunkInfo.index worker.manifest.chunks
    workerLoop s w worker orderedChunks o.missingChunks 0 written

/-- `_download_worker` from its beginning, when the indices of its manifest make `sorted` raise, or
the first test for membership in `missing_set`. -/
def workerRaises (s : State) (w : ℕ) (worker : Worker) (sorted : Bool) (message : String)
    (written : Bool) : State :=
  if sorted then
    ((s.setError worker.obj message).saveResume worker.obj written).setPhase w .finished
  else s.updateWorker w fun worker => { worker with phase := .finished, raised := true }

/-- The fetch of `info` is over, with an exception or not. -/
def chunkFetched (s : State) (w : ℕ) (worker : Worker) (info : ChunkInfo) (rest : List ChunkInfo)
    (missingSet : List ℤ) (chunksSinceFlush : ℕ) (error : Option String) (written : Bool) : State :=
  match error with
  | none =>
    let s := s.markCompleted worker.obj info.index
    if flushInterval ≤ chunksSinceFlush + 1 then
      workerLoop (s.saveResume worker.obj written) w worker rest missingSet 0 written
    else workerLoop s w worker rest missingSet (chunksSinceFlush + 1) written
  | some message =>
    -- the progress is saved before the status changes
    ((s.saveResume worker.obj written).setError worker.obj message).setPhase w .finished

/-- `_final_merge` when the merge is over; it deletes the file of a completed download. -/
def mergeDone (s : State) (w : ℕ) (worker : Worker) (error : Option String) (written : Bool) :
    State :=
  match error with
  | none =>
    let s := (s.setStatus worker.obj .completed).saveResume worker.obj written
    (s.deleteResume worker.fileHash).setPhase w .finished
  | some message =>
    let s := s.setError worker.obj ("Merge failed: " ++ message)
    (s.saveResume worker.obj written).setPhase w .finished

/-- The task ends by its cancellation; before its first step it runs no handler. -/
def workerCancelled (s : State) (w : ℕ) (worker : Worker) (written : Bool) : State :=
  match worker.phase with
  | .created => s.setPhase w .finished
  | _ => ((s.setStatus worker.obj .paused).saveResume worker.obj written).setPhase w .finished

/-! ## The machine -/

/-- One step of `_recover_resume_files`. -/
def recoverFile (s : State) (f : ResumeDict) : State :=
  { s with
    objects := s.objects ++ [{ DownloadState.fromResumeDict f with status := .paused }]
    downloads := s.downloads.set f.fileHash s.objects.length }

/-- A new process over the directory. -/
def restart (files : Dict String ResumeDict) : State :=
  files.values.foldl recoverFile { files := files }

inductive Label where
  | start (fileHash : String) (manifestDict : ManifestDict) (password : String) (written : Bool)
  | pause (fileHash : String) (written : Bool)
  /-- A pause has waited for three seconds, and cancels the task. -/
  | pauseTimeout (p : ℕ)
  /-- The task that a pause waits for is over. -/
  | pauseDone (p : ℕ) (written : Bool)
  | resume (fileHash password : String) (manifestDict : Option ManifestDict)
  | clear
  | begin (w : ℕ) (written : Bool)
  | beginRaises (w : ℕ) (sorted : Bool) (message : String) (written : Bool)
  | fetched (w : ℕ) (error : Option String) (written : Bool)
  | merged (w : ℕ) (error : Option String) (written : Bool)
  | cancelled (w : ℕ) (written : Bool)
  /-- The process dies, and a new one starts. -/
  | crash
  /-- The process dies in `_final_merge` before it deletes the file. -/
  | crashInMerge (w : ℕ) (written : Bool)

def exec (s : State) : Label → Option State
  | .start h d password written => some (startDownload s h d password written).1
  | .pause h written => some (pauseDownload s h written)
  | .pauseTimeout p => do
    let pause ← s.pauses[p]?
    if pause.ended ∨ pause.cancelling ∨ taskDone s pause.worker then none
    else some ((s.updatePause p fun pause => { pause with cancelling := true }).updateWorker
      pause.worker fun worker => { worker with cancelled := true })
  | .pauseDone p written => do
    let pause ← s.pauses[p]?
    if pause.ended = false ∧ taskDone s pause.worker then
      some ((leavePause s pause written).updatePause p fun pause => { pause with ended := true })
    else none
  | .resume h password d => some (resumeDownload s h password d).1
  | .clear => some (clearCompleted s)
  | .begin w written => do
    let worker ← s.workers[w]?
    if worker.phase = .created ∧ worker.cancelled = false then some (workerStart s w worker written)
    else none
  | .beginRaises w sorted message written => do
    let worker ← s.workers[w]?
    -- one chunk is enough for an index without a hash, and it takes two that cannot be compared
    if worker.phase = .created ∧ worker.cancelled = false ∧
        (if sorted then 1 else 2) ≤ worker.manifest.chunks.length then
      some (workerRaises s w worker sorted message written)
    else none
  | .fetched w error written => do
    let worker ← s.workers[w]?
    match worker.phase with
    | .fetching info rest missingSet n =>
      some (chunkFetched s w worker info rest missingSet n error written)
    | _ => none
  | .merged w error written => do
    let worker ← s.workers[w]?
    if worker.phase = .merging then some (mergeDone s w worker error written) else none
  | .cancelled w written => do
    let worker ← s.workers[w]?
    if worker.cancelled ∧ worker.phase ≠ .finished then some (workerCancelled s w worker written)
    else none
  | .crash => some (restart s.files)
  | .crashInMerge w written => do
    let worker ← s.workers[w]?
    if worker.phase = .merging then
      some (restart ((s.setStatus worker.obj .completed).saveResume worker.obj written).files)
    else none

def machine : Machine State Label where
  init := {}
  exec := exec

@[simp] lemma machine_exec (s : State) (l : Label) : machine.exec s l = exec s l := rfl

/-! ### What a label says about its step -/

section Exec

variable {s t : State} {p w : ℕ} {error : Option String} {sorted written : Bool} {message : String}

lemma exec_pauseTimeout (h : exec s (.pauseTimeout p) = some t) :
    ∃ pause, s.pauses[p]? = some pause ∧ pause.ended = false ∧
      t = (s.updatePause p fun pause => { pause with cancelling := true }).updateWorker
        pause.worker fun worker => { worker with cancelled := true } := by
  simp only [exec, Option.bind_eq_bind, Option.bind_eq_some_iff] at h
  obtain ⟨pause, hp, h⟩ := h
  rw [Option.ite_none_left_eq_some, Option.some.injEq] at h
  obtain ⟨hactive, rfl⟩ := h
  exact ⟨pause, hp, by simpa using fun hended => hactive (Or.inl hended), rfl⟩

lemma exec_pauseDone (h : exec s (.pauseDone p written) = some t) :
    ∃ pause, s.pauses[p]? = some pause ∧ pause.ended = false ∧ taskDone s pause.worker = true ∧
      t = (leavePause s pause written).updatePause p fun pause => { pause with ended := true } := by
  simp only [exec, Option.bind_eq_bind, Option.bind_eq_some_iff] at h
  obtain ⟨pause, hp, h⟩ := h
  rw [Option.ite_none_right_eq_some, Option.some.injEq] at h
  obtain ⟨⟨hended, hdone⟩, rfl⟩ := h
  exact ⟨pause, hp, hended, hdone, rfl⟩

lemma exec_begin (h : exec s (.begin w written) = some t) :
    ∃ worker, s.workers[w]? = some worker ∧ worker.phase = .created ∧
      t = workerStart s w worker written := by
  simp only [exec, Option.bind_eq_bind, Option.bind_eq_some_iff] at h
  obtain ⟨worker, hw, h⟩ := h
  rw [Option.ite_none_right_eq_some, Option.some.injEq] at h
  obtain ⟨⟨hcreated, -⟩, rfl⟩ := h
  exact ⟨worker, hw, hcreated, rfl⟩

lemma exec_beginRaises (h : exec s (.beginRaises w sorted message written) = some t) :
    ∃ worker, s.workers[w]? = some worker ∧ worker.phase = .created ∧ worker.cancelled = false ∧
      t = workerRaises s w worker sorted message written := by
  simp only [exec, Option.bind_eq_bind, Option.bind_eq_some_iff] at h
  obtain ⟨worker, hw, h⟩ := h
  rw [Option.ite_none_right_eq_some, Option.some.injEq] at h
  obtain ⟨⟨hcreated, hgo, -⟩, rfl⟩ := h
  exact ⟨worker, hw, hcreated, hgo, rfl⟩

lemma exec_fetched (h : exec s (.fetched w error written) = some t) :
    ∃ worker info rest missingSet n, s.workers[w]? = some worker ∧
      worker.phase = .fetching info rest missingSet n ∧
      t = chunkFetched s w worker info rest missingSet n error written := by
  simp only [exec, Option.bind_eq_bind, Option.bind_eq_some_iff] at h
  obtain ⟨worker, hw, h⟩ := h
  split at h
  · next info rest missingSet n hphase =>
    exact ⟨worker, info, rest, missingSet, n, hw, hphase, (Option.some.inj h).symm⟩
  · cases h

lemma exec_merged (h : exec s (.merged w error written) = some t) :
    ∃ worker, s.workers[w]? = some worker ∧ worker.phase = .merging ∧
      t = mergeDone s w worker error written := by
  simp only [exec, Option.bind_eq_bind, Option.bind_eq_some_iff] at h
  obtain ⟨worker, hw, h⟩ := h
  rw [Option.ite_none_right_eq_some, Option.some.injEq] at h
  exact ⟨worker, hw, h.1, h.2.symm⟩

lemma exec_cancelled (h : exec s (.cancelled w written) = some t) :
    ∃ worker, s.workers[w]? = some worker ∧ worker.cancelled = true ∧ worker.phase ≠ .finished ∧
      t = workerCancelled s w worker written := by
  simp only [exec, Option.bind_eq_bind, Option.bind_eq_some_iff] at h
  obtain ⟨worker, hw, h⟩ := h
  rw [Option.ite_none_right_eq_some, Option.some.injEq] at h
  obtain ⟨⟨hcancelled, hlive⟩, rfl⟩ := h
  exact ⟨worker, hw, hcancelled, hlive, rfl⟩

lemma exec_crashInMerge (h : exec s (.crashInMerge w written) = some t) :
    ∃ worker, s.workers[w]? = some worker ∧ worker.phase = .merging ∧
      t = restart ((s.setStatus worker.obj .completed).saveResume worker.obj written).files := by
  simp only [exec, Option.bind_eq_bind, Option.bind_eq_some_iff] at h
  obtain ⟨worker, hw, h⟩ := h
  rw [Option.ite_none_right_eq_some, Option.some.injEq] at h
  exact ⟨worker, hw, h.1, h.2.symm⟩

end Exec

end DistriStore.DownloadManager
