import DistriStore.Api.FailedDownload
import DistriStore.Lib.Machine

/-!
# The final merge of a resumable download (`DownloadManager._final_merge`)

Step by step, `pipeline_merge_to_disk` in the task of the worker: the coroutine is suspended while a
chunk is decoded in the process pool, while it is written in a thread, and while it waits for the
load of the next chunk, which is a task of its own.  In each of these places the task may be
cancelled.

What is raised ends up in `except Exception`, which removes the output, but `CancelledError` is not
an `Exception`.  A run leaves something behind exactly when the task is cancelled in it
(`tidy_iff_not_cancelled`), and otherwise ends as the sequential `pipelineMergeToDisk` says
(`ended_eq_pipelineMergeToDisk`).
-/

namespace DistriStore.FinalMerge

open Lib

/-! ## The machine -/

/-- What a call of `_final_merge` works on. -/
structure Config where
  P : Packages
  manifest : FileManifest
  password : String
  /-- What `load_chunk` answers when the `i`-th chunk in index order is loaded. -/
  stored : ℕ → Option Bytes

/-- The task made by `asyncio.create_task(load_fn(...))`. -/
inductive Prefetch where
  | created (chunkHash : String)
  | ended (outcome : Except PyError Bytes)

/-- Where the coroutine is. -/
inductive Phase where
  | created
  /-- Waiting for a job of the process pool. -/
  | decoding (info : ChunkInfo) (data : Bytes) (rest : List ChunkInfo)
  /-- Waiting for the thread that writes. -/
  | writing (plaintext : Bytes) (rest : List ChunkInfo)
  | awaitingPrefetch (rest : List ChunkInfo)
  | completed
  /-- The handler of `except Exception` has run. -/
  | failed (e : PyError)
  | cancelled

structure State where
  phase : Phase := .created
  /-- The load of the next chunk. -/
  pending : Option Prefetch := none
  /-- How many chunks have been loaded. -/
  loads : ℕ := 0
  /-- What `h` has been fed. -/
  hashed : Bytes := []
  /-- The file at `output_path`. -/
  file : Option Bytes := none

inductive Label where
  | begin
  /-- The pool finishes the job that the coroutine waits for. -/
  | poolDone
  /-- The task that loads the next chunk runs. -/
  | load
  /-- The thread has written the plaintext, and the coroutine goes on. -/
  | written
  /-- The coroutine goes on after `await prefetch`. -/
  | resume
  /-- The task is cancelled; when a thread is writing it may be done with it. -/
  | cancel (flushed : Bool)
  deriving DecidableEq

/-- `load_fn`; its state counts the loads. -/
def loadFn (c : Config) : LoadFn ℕ := fun chunkHash i =>
  match c.stored i with
  | some data => (.ok data, i + 1)
  | none => (.error (.fileNotFoundError
      ("Chunk " ++ strTake 12 chunkHash ++ "... missing from store")), i + 1)

def Config.useZstd (c : Config) : Bool := decide (c.manifest.compression = "zstd")

def Config.decode (c : Config) : ChunkInfo → Bytes → Except PyError Bytes :=
  pipelineDecode c.P c.useZstd (some c.password)

/-- The handler of `except Exception`. -/
def fail (s : State) (e : PyError) : State := { s with phase := .failed e, file := none }

/-- After the loop: the check of the hash. -/
def finish (c : Config) (s : State) : State :=
  let resultHash := sha256Hash s.hashed
  if resultHash ≠ c.manifest.fileHash then
    fail { s with file := none } (.valueError
      (integrityMessage "Pipeline merge integrity failed!" c.manifest.fileHash resultHash))
  else { s with phase := .completed }

/-- What a decoded chunk leads to. -/
def decoded (s : State) (rest : List ChunkInfo) : Except PyError Bytes → State
  | .ok plaintext => { s with phase := .writing plaintext rest }
  | .error e => fail s e

/-- Decode a chunk: in the pool, when it is encrypted and there is a password. -/
def decodeNext (c : Config) (s : State) (info : ChunkInfo) (data : Bytes) (rest : List ChunkInfo) :
    State :=
  if info.encrypted && truthy (some c.password) then { s with phase := .decoding info data rest }
  else decoded s rest (c.decode info data)

/-- The loop from the load of a chunk, or from its end. -/
def turn (c : Config) (s : State) (nextData : Option Bytes) : List ChunkInfo → State
  | [] => finish c s
  | info :: rest =>
    match takeOrLoad (loadFn c) nextData info s.loads with
    | (.error e, n) => fail { s with loads := n } e
    | (.ok data, n) =>
      let pending := rest.head?.map fun next => Prefetch.created next.chunkHash
      decodeNext c { s with loads := n, pending := pending } info data rest

/-- The end of a turn of the loop: `next_data` is what the prefetch has loaded. -/
def collect (c : Config) (s : State) (rest : List ChunkInfo) : State :=
  match s.pending with
  | none => turn c s none rest
  | some (.ended (.ok data)) => turn c s (some data) rest
  | some (.ended (.error e)) => fail s e
  | some (.created _) => { s with phase := .awaitingPrefetch rest }

def begin (c : Config) (s : State) : Option State :=
  match s.phase with
  | .created => some (turn c { s with file := some [] } none (orderInfos c.manifest.chunks))
  | _ => none

def poolDone (c : Config) (s : State) : Option State :=
  match s.phase with
  | .decoding info data rest => some (decoded s rest (c.decode info data))
  | _ => none

def load (c : Config) (s : State) : Option State :=
  match s.pending with
  | some (.created chunkHash) =>
    let (outcome, n) := loadFn c chunkHash s.loads
    some { s with pending := some (.ended outcome), loads := n }
  | _ => none

def written (c : Config) (s : State) : Option State :=
  match s.phase with
  | .writing plaintext rest =>
    some (collect c { s with
      file := s.file.map (· ++ plaintext)
      hashed := s.hashed ++ plaintext } rest)
  | _ => none

def resume (c : Config) (s : State) : Option State :=
  match s.phase, s.pending with
  | .awaitingPrefetch rest, some (.ended _) => some (collect c s rest)
  | _, _ => none

/-- `CancelledError` where the coroutine is suspended; it cancels a task that it waits for. -/
def cancel (s : State) (flushed : Bool) : Option State :=
  match s.phase with
  | .decoding _ _ _ => some { s with phase := .cancelled }
  | .writing plaintext _ => some { s with
      phase := .cancelled
      file := if flushed then s.file.map (· ++ plaintext) else s.file }
  | .awaitingPrefetch _ => some { s with phase := .cancelled, pending := none }
  | _ => none

def exec (c : Config) (s : State) : Label → Option State
  | .begin => begin c s
  | .poolDone => poolDone c s
  | .load => load c s
  | .written => written c s
  | .resume => resume c s
  | .cancel flushed => cancel s flushed

def machine (c : Config) : Machine State Label where
  init := {}
  exec := exec c

/-! ## The sequential merge -/

/-- `pipeline_merge_to_disk` from its beginning to its end, on the same store. -/
def sequential (c : Config) : DiskOutcome :=
  (pipelineMergeToDisk c.P c.manifest (loadFn c) (some c.password) 0).1

/-- The loop of it from a chunk on: what has been written at its end, and how it ends. -/
def loopFrom (c : Config) (rest : List ChunkInfo) (nextData : Option Bytes) (hashed : Bytes)
    (loads : ℕ) : Bytes × Except PyError Unit :=
  (pipelineMergeLoop (loadFn c) c.decode rest nextData hashed loads).1

/-- From the end of a turn on. -/
def afterPrefetch (c : Config) (rest : List ChunkInfo) (hashed : Bytes) (loads : ℕ) :
    Option Prefetch → Bytes × Except PyError Unit
  | none => loopFrom c rest none hashed loads
  | some (.created chunkHash) =>
    match loadFn c chunkHash loads with
    | (.ok data, loads) => loopFrom c rest (some data) hashed loads
    | (.error e, _) => (hashed, .error e)
  | some (.ended (.ok data)) => loopFrom c rest (some data) hashed loads
  | some (.ended (.error e)) => (hashed, .error e)

/-- From the result of a decoding on. -/
def afterDecode (c : Config) (s : State) (rest : List ChunkInfo) :
    Except PyError Bytes → Bytes × Except PyError Unit
  | .ok plaintext => afterPrefetch c rest (s.hashed ++ plaintext) s.loads s.pending
  | .error e => (s.hashed, .error e)

/-- What the sequential loop ends with, if it goes on from this state. -/
def Continues (c : Config) (s : State) (result : Bytes × Except PyError Unit) : Prop :=
  s.file = some s.hashed ∧
    sequential c = finishOnDisk "Pipeline merge integrity failed!" c.manifest.fileHash result

/-- The state is one that the sequential merge comes through, or its end. -/
def Agrees (c : Config) (s : State) : Prop :=
  match s.phase with
  | .created => s.pending = none ∧ s.loads = 0 ∧ s.hashed = []
  | .decoding info data rest => Continues c s (afterDecode c s rest (c.decode info data))
  | .writing plaintext rest =>
    Continues c s (afterPrefetch c rest (s.hashed ++ plaintext) s.loads s.pending)
  | .awaitingPrefetch rest => Continues c s (afterPrefetch c rest s.hashed s.loads s.pending)
  | .completed => s.file = (sequential c).file ∧ (sequential c).outcome = .ok ()
  | .failed e => s.file = none ∧ (sequential c).outcome = .error e
  | .cancelled => False

section Steps

variable {c : Config} {s t : State} {rest : List ChunkInfo}

lemma agrees_fail {bytes : Bytes} {e : PyError} (h : Continues c s (bytes, .error e)) :
    Agrees c (fail s e) :=
  ⟨rfl, by rw [h.2]; rfl⟩

lemma agrees_finish (h : Continues c s (s.hashed, .ok ())) : Agrees c (finish c s) := by
  obtain ⟨hfile, hsequential⟩ := h
  unfold finish
  dsimp only
  split
  · next hhash => exact ⟨rfl, by rw [hsequential, finishOnDisk, if_pos hhash]⟩
  · next hhash =>
    rw [finishOnDisk, if_neg hhash] at hsequential
    exact ⟨by rw [hsequential]; exact hfile, by rw [hsequential]⟩

lemma agrees_decoded {result : Except PyError Bytes}
    (h : Continues c s (afterDecode c s rest result)) : Agrees c (decoded s rest result) := by
  cases result with
  | ok plaintext => exact h
  | error e => exact agrees_fail h

lemma agrees_decodeNext {info : ChunkInfo} {data : Bytes}
    (h : Continues c s (afterDecode c s rest (c.decode info data))) :
    Agrees c (decodeNext c s info data rest) := by
  unfold decodeNext
  split
  · exact h
  · exact agrees_decoded h

/-- One turn of the sequential loop. -/
lemma loopFrom_cons {info : ChunkInfo} {nextData : Option Bytes} {data : Bytes} {n : ℕ}
    (h : takeOrLoad (loadFn c) nextData info s.loads = (.ok data, n)) :
    loopFrom c (info :: rest) nextData s.hashed s.loads = afterDecode c
      { s with loads := n, pending := rest.head?.map fun next => .created next.chunkHash } rest
      (c.decode info data) := by
  rw [loopFrom, pipelineMergeLoop, h]
  dsimp only
  cases c.decode info data with
  | error e =>
    cases rest <;> rfl
  | ok plaintext =>
    cases rest with
    | nil => rfl
    | cons next rest =>
      simp only [prefetchNext, afterDecode, List.head?_cons, Option.map_some, afterPrefetch]
      cases hload : loadFn c next.chunkHash n with
      | mk outcome n' =>
        cases outcome <;> rfl

lemma agrees_turn {infos : List ChunkInfo} {nextData : Option Bytes}
    (h : Continues c s (loopFrom c infos nextData s.hashed s.loads)) :
    Agrees c (turn c s nextData infos) := by
  cases infos with
  | nil => exact agrees_finish h
  | cons info rest =>
    rw [turn]
    split
    · next e n hload =>
      rw [loopFrom, pipelineMergeLoop, hload] at h
      exact agrees_fail (s := { s with loads := n }) h
    · next data n hload =>
      rw [loopFrom_cons hload] at h
      exact agrees_decodeNext h

lemma agrees_collect (h : Continues c s (afterPrefetch c rest s.hashed s.loads s.pending)) :
    Agrees c (collect c s rest) := by
  unfold collect
  split
  · next hpending =>
    rw [hpending] at h
    exact agrees_turn h
  · next data hpending =>
    rw [hpending] at h
    exact agrees_turn h
  · next e hpending =>
    rw [hpending] at h
    exact agrees_fail h
  · exact h

lemma afterPrefetch_load (chunkHash : String) (hashed : Bytes) (loads : ℕ) :
    afterPrefetch c rest hashed loads (some (.created chunkHash)) =
      afterPrefetch c rest hashed (loadFn c chunkHash loads).2
        (some (.ended (loadFn c chunkHash loads).1)) := by
  rw [afterPrefetch]
  cases loadFn c chunkHash loads with
  | mk outcome n => cases outcome <;> rfl

lemma agrees_load (hs : Agrees c s) (ht : load c s = some t) : Agrees c t := by
  obtain ⟨phase, pending, loads, hashed, file⟩ := s
  unfold load at ht
  split at ht
  · next chunkHash hpending =>
    obtain rfl : pending = some (.created chunkHash) := hpending
    obtain rfl := Option.some.inj ht
    have hsame (rest : List ChunkInfo) (hashed : Bytes) :
        afterPrefetch c rest hashed loads (some (.created chunkHash)) =
          afterPrefetch c rest hashed (loadFn c chunkHash loads).2
            (some (.ended (loadFn c chunkHash loads).1)) :=
      afterPrefetch_load chunkHash hashed loads
    cases phase with
    | created => cases hs.1
    | decoding info data rest =>
      obtain ⟨hfile, hsequential⟩ := hs
      refine ⟨hfile, hsequential.trans ?_⟩
      cases c.decode info data with
      | ok plaintext => exact congrArg (finishOnDisk _ _) (hsame rest (hashed ++ plaintext))
      | error e => rfl
    | writing plaintext rest =>
      exact ⟨hs.1, hs.2.trans (congrArg (finishOnDisk _ _) (hsame rest (hashed ++ plaintext)))⟩
    | awaitingPrefetch rest =>
      exact ⟨hs.1, hs.2.trans (congrArg (finishOnDisk _ _) (hsame rest hashed))⟩
    | completed => exact hs
    | failed e => exact hs
    | cancelled => exact hs
  · cases ht

/-- The steps that are not a cancellation stay on the way of the sequential merge. -/
lemma agrees_exec {l : Label} (hs : Agrees c s) (ht : exec c s l = some t)
    (hl : ∀ flushed, l ≠ .cancel flushed) : Agrees c t := by
  cases l with
  | begin =>
    rw [exec, begin] at ht
    split at ht
    · next hphase =>
      obtain rfl := Option.some.inj ht
      unfold Agrees at hs
      rw [hphase] at hs
      obtain ⟨-, hloads, hhashed⟩ := hs
      refine agrees_turn ⟨by rw [hhashed], ?_⟩
      rw [hloads, hhashed]
      rfl
    · cases ht
  | poolDone =>
    rw [exec, poolDone] at ht
    split at ht
    · next info data rest hphase =>
      obtain rfl := Option.some.inj ht
      unfold Agrees at hs
      rw [hphase] at hs
      exact agrees_decoded hs
    · cases ht
  | load => exact agrees_load hs ht
  | written =>
    rw [exec, written] at ht
    split at ht
    · next plaintext rest hphase =>
      obtain rfl := Option.some.inj ht
      unfold Agrees at hs
      rw [hphase] at hs
      exact agrees_collect ⟨by rw [hs.1]; rfl, hs.2⟩
    · cases ht
  | resume =>
    rw [exec, resume] at ht
    split at ht
    · next rest outcome hphase _ =>
      obtain rfl := Option.some.inj ht
      unfold Agrees at hs
      rw [hphase] at hs
      exact agrees_collect hs
    · cases ht
  | cancel flushed => exact absurd rfl (hl flushed)

end Steps

/-! ## Cancellation -/

/-- A merge that has ended without producing its file has left none. -/
def Tidy (s : State) : Prop :=
  match s.phase with
  | .failed _ => s.file = none
  | .cancelled => s.file = none
  | _ => True

/-- The step is no cancellation. -/
def NotCancel (_ : State) (l : Label) : Prop := ∀ flushed, l ≠ .cancel flushed

/-- A cancelled merge has left its file. -/
def Cancelled (s : State) : Prop := s.phase = .cancelled ∧ s.file ≠ none

section Cancellation

variable {c : Config} {s t : State}

lemma Agrees.tidy (hs : Agrees c s) : Tidy s := by
  obtain ⟨phase, pending, loads, hashed, file⟩ := s
  cases phase with
  | failed e => exact hs.1
  | cancelled => exact hs.elim
  | _ => trivial

lemma Cancelled.not_tidy (hs : Cancelled s) : ¬ Tidy s := by
  unfold Tidy
  rw [hs.1]
  exact hs.2

lemma cancelled_of_cancel {flushed : Bool} (hs : Agrees c s) (ht : cancel s flushed = some t) :
    Cancelled t := by
  obtain ⟨phase, pending, loads, hashed, file⟩ := s
  cases phase with
  | decoding info data rest =>
    obtain rfl := Option.some.inj ht
    exact ⟨rfl, by simp [show file = some hashed from hs.1]⟩
  | writing plaintext rest =>
    obtain rfl := Option.some.inj ht
    refine ⟨rfl, ?_⟩
    obtain rfl : file = some hashed := hs.1
    cases flushed with
    | true => simp
    | false => simp
  | awaitingPrefetch rest =>
    obtain rfl := Option.some.inj ht
    exact ⟨rfl, by simp [show file = some hashed from hs.1]⟩
  | _ => cases ht

/-- After a cancellation nothing but a load can happen. -/
lemma Cancelled.exec {l : Label} (hs : Cancelled s) (ht : exec c s l = some t) : Cancelled t := by
  cases l with
  | load =>
    rw [FinalMerge.exec, FinalMerge.load] at ht
    split at ht
    · obtain rfl := Option.some.inj ht
      exact hs
    · cases ht
  | _ => simp [FinalMerge.exec, begin, poolDone, written, resume, cancel, hs.1] at ht

/-- A run is on the way of the sequential merge, or cancelled. -/
lemma agrees_or_cancelled {l : Label} (hs : Agrees c s ∨ Cancelled s) (ht : exec c s l = some t) :
    Agrees c t ∨ Cancelled t := by
  rcases hs with hs | hs
  · by_cases hl : ∃ flushed, l = .cancel flushed
    · obtain ⟨flushed, rfl⟩ := hl
      exact Or.inr (cancelled_of_cancel hs ht)
    · exact Or.inl (agrees_exec hs ht (not_exists.1 hl))
  · exact Or.inr (hs.exec ht)

lemma agrees_init (c : Config) : Agrees c (machine c).init := ⟨rfl, rfl, rfl⟩

/-- **A final merge leaves something behind exactly when it is cancelled.** -/
theorem tidy_iff_not_cancelled (c : Config) (run : List Label) :
    (machine c).Always Tidy (machine c).init run ↔
      (machine c).Meets NotCancel (machine c).init run := by
  refine Machine.always_iff_meets (I := fun s => Agrees c s ∨ Cancelled s)
    (fun s l t hs ht => agrees_or_cancelled hs ht) (fun s l t hs htidy ht => ?_)
    (Or.inl (agrees_init c)) (agrees_init c).tidy
  have hagrees : Agrees c s := hs.resolve_right fun hcancelled => hcancelled.not_tidy htidy
  constructor
  · rintro ht' flushed rfl
    exact (cancelled_of_cancel hagrees ht).not_tidy ht'
  · intro hl
    exact (agrees_exec hagrees ht hl).tidy

/-- **A final merge that is not cancelled ends as the sequential merge**, but for the file, which is
removed after every exception. -/
theorem ended_eq_pipelineMergeToDisk {run : List Label}
    (hmeets : (machine c).Meets NotCancel (machine c).init run)
    (hrun : (machine c).run (machine c).init run = some s) :
    (s.phase = .completed → (sequential c).outcome = .ok () ∧ s.file = (sequential c).file) ∧
      ∀ e, s.phase = .failed e → (sequential c).outcome = .error e ∧ s.file = none := by
  have hagrees : (machine c).Always (Agrees c) (machine c).init run :=
    Machine.always_of_meets (fun _ _ _ hs ht hl => agrees_exec hs ht hl) (agrees_init c) hmeets
  have hlast := hagrees.last hrun
  unfold Agrees at hlast
  constructor
  · intro hphase
    rw [hphase] at hlast
    exact hlast.symm
  · intro e hphase
    rw [hphase] at hlast
    exact hlast.symm

end Cancellation

/-! ## Both ways to merge -/

/-- **Failed merges leave no output behind**, exactly when no download comes to a chunk that does not
decompress, and no final merge is cancelled. -/
theorem failed_merges_leave_nothing_iff (P : Packages) (fileHash password : String)
    (manifestReplies : ManifestReplies) (replies : ChunkReplies) (store : LocalStore) (c : Config)
    (run : List Label) :
    ((downloadFile P fileHash password manifestReplies replies store).1.LeavesNothing ↔
      ¬ ∃ d m datas,
        Undecompressible P fileHash password manifestReplies replies store d m datas) ∧
      ((machine c).Always Tidy (machine c).init run ↔
        (machine c).Meets NotCancel (machine c).init run) :=
  ⟨leavesNothing_downloadFile_iff, tidy_iff_not_cancelled c run⟩

/-- One chunk with one byte, neither compressed nor encrypted. -/
def plainConfig : Config where
  P := rawPackages
  manifest := {
    originalFilename := "a.txt"
    originalSize := 1
    fileHash := "00"
    chunkSize := 262144
    chunks := [{ index := 0, chunkHash := "00", size := 1 }] }
  password := ""
  stored _ := some [0x61]

/-- **Failed merges leave files**: a download with a chunk that is no zstd frame, and a final merge
that is cancelled while it writes. -/
theorem failed_merges_leave_files :
    (¬ ∀ (P : Packages) (_ : P.Lawful) (fileHash password : String)
        (manifestReplies : ManifestReplies) (replies : ChunkReplies) (store : LocalStore),
      (downloadFile P fileHash password manifestReplies replies store).1.LeavesNothing) ∧
      ¬ ∀ (c : Config) (run : List Label), (machine c).Always Tidy (machine c).init run := by
  constructor
  · intro hclaim
    have hleft := hclaim rawPackages rawPackages_lawful "00" ""
      [.response 200 (some (.dict
        { singleChunkManifest "00" "11" with compression := some "zstd" }))]
      [fun _ => .response 200 (some [0x62])] ∅ _ rfl
    cases hleft
  · intro hclaim
    have hleft := (hclaim plainConfig [.begin, .cancel false]).last rfl
    cases hleft

end DistriStore.FinalMerge
