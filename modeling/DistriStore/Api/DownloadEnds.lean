import DistriStore.Api.DownloadCrash
import DistriStore.Api.DownloadPause

/-!
# Downloads come to an end

No download waits for ever: when no more requests come in and the process does not die, the workers
and pauses in progress can only take so many steps together, whatever their fetches and merges come
to and in whatever order they are scheduled, and nothing but the end of all of them stops them
(`downloads_end`).

The same runs show what becomes of a single download.  With one worker, no pause of it in progress,
and a beginning, fetches and a merge that succeed, it ends as `completed`, without a `.resume` file
and, if the manifests agree on its chunks, without a missing chunk, whatever happens to the other
downloads meanwhile (`download_completes`).
-/

namespace DistriStore.DownloadManager

open Lib

/-- A step of a worker or of a pause that is in progress. -/
def Label.continues : Label → Bool
  | .pauseTimeout _ => true
  | .pauseDone _ _ => true
  | l => l.worker.isSome

/-- A worker begins with a manifest whose indices cannot be sorted or cannot be hashed. -/
def Label.raises : Label → Bool
  | .beginRaises _ _ _ _ => true
  | _ => false

/-! ## The steps that are left -/

/-- The steps that a worker has left; `n` is the number of chunks in its manifest. -/
def Phase.remaining (n : ℕ) : Phase → ℕ
  | created => n + 2
  | fetching _ rest _ _ => rest.length + 2
  | merging => 1
  | finished => 0

def Worker.remaining (worker : Worker) : ℕ := worker.phase.remaining worker.manifest.chunks.length

def Pause.remaining (pause : Pause) : ℕ :=
  if pause.ended then 0 else if pause.cancelling then 1 else 2

def State.remaining (s : State) : ℕ :=
  (s.workers.map Worker.remaining).sum + (s.pauses.map Pause.remaining).sum

section Remaining

variable {s t : State} {w p : ℕ} {worker : Worker} {l : Label}

lemma remaining_advance (hw : s.workers[w]? = some worker) {f : Worker → Worker}
    (hlt : (f worker).remaining < worker.remaining) :
    (s.updateWorker w f).remaining < s.remaining := by
  have hsum := sum_map_modify hw Worker.remaining f
  simp only [State.remaining, State.updateWorker]
  omega

lemma remaining_setPhase (hw : s.workers[w]? = some worker) {phase : Phase}
    (hlt : phase.remaining worker.manifest.chunks.length < worker.remaining) :
    (s.setPhase w phase).remaining < s.remaining :=
  remaining_advance (f := fun worker => { worker with phase := phase }) hw hlt

/-- The loop goes on to a chunk that has not been fetched, or it is over. -/
lemma remaining_workerLoop (hw : s.workers[w]? = some worker) (rest : List ChunkInfo)
    (missingSet : List ℤ) (n : ℕ) (written : Bool) (hlt : rest.length + 1 < worker.remaining) :
    (workerLoop s w worker rest missingSet n written).remaining < s.remaining := by
  have hlength := (rest.dropWhile_sublist fun info => info.index ∉ missingSet).length_le
  unfold workerLoop
  split
  · next info rest' hrest =>
    rw [hrest, List.length_cons] at hlength
    split
    · exact remaining_setPhase hw (by simp only [Phase.remaining]; omega)
    · exact remaining_setPhase hw (by simp only [Phase.remaining]; omega)
  · have hw' : (s.saveResume worker.obj written).workers[w]? = some worker := hw
    exact remaining_setPhase hw' (by simp only [Phase.remaining]; omega)

lemma remaining_worker (hi : Inv ∅ (fun _ => 0) s) (hl : l.worker.isSome = true)
    (h : exec s l = some t) : t.remaining < s.remaining := by
  cases l with
  | begin w written =>
    obtain ⟨worker, hw, hphase, rfl⟩ := exec_begin h
    obtain ⟨-, o, ho, -⟩ := hi.worker w worker hw
    rw [workerStart, ho]
    refine remaining_workerLoop hw _ _ _ _ ?_
    rw [length_sortBy, Worker.remaining, hphase, Phase.remaining]
    omega
  | beginRaises w sorted message written =>
    obtain ⟨worker, hw, hphase, -, rfl⟩ := exec_beginRaises h
    have hlt : 0 < worker.remaining := by
      rw [Worker.remaining, hphase]
      exact Nat.succ_pos _
    unfold workerRaises
    split
    · exact remaining_setPhase (s := (s.setError worker.obj message).saveResume worker.obj written)
        hw hlt
    · exact remaining_advance hw hlt
  | fetched w error written =>
    obtain ⟨worker, info, rest, missingSet, n, hw, hphase, rfl⟩ := exec_fetched h
    have hworker : worker.remaining = rest.length + 2 := by rw [Worker.remaining, hphase]; rfl
    unfold chunkFetched
    split
    · split
      · exact remaining_workerLoop (s := (s.markCompleted worker.obj info.index).saveResume
          worker.obj written) hw _ _ _ _ (by omega)
      · exact remaining_workerLoop (s := s.markCompleted worker.obj info.index) hw _ _ _ _
          (by omega)
    · next message =>
      exact remaining_setPhase (s := (s.saveResume worker.obj written).setError worker.obj message)
        hw (by simp only [Phase.remaining]; omega)
  | merged w error written =>
    obtain ⟨worker, hw, hphase, rfl⟩ := exec_merged h
    have hlt : Phase.finished.remaining worker.manifest.chunks.length < worker.remaining := by
      rw [Worker.remaining, hphase]
      exact Nat.zero_lt_one
    cases error with
    | none =>
      exact remaining_setPhase (s := ((s.setStatus worker.obj .completed).saveResume worker.obj
        written).deleteResume worker.fileHash) hw hlt
    | some message =>
      exact remaining_setPhase (s := (s.setError worker.obj ("Merge failed: " ++ message)).saveResume
        worker.obj written) hw hlt
  | cancelled w written =>
    obtain ⟨worker, hw, -, hlive, rfl⟩ := exec_cancelled h
    have hlt : Phase.finished.remaining worker.manifest.chunks.length < worker.remaining := by
      rw [Worker.remaining]
      cases hphase : worker.phase with
      | finished => exact absurd hphase hlive
      | _ => simp [Phase.remaining]
    unfold workerCancelled
    split
    · exact remaining_setPhase hw hlt
    · exact remaining_setPhase (s := (s.setStatus worker.obj .paused).saveResume worker.obj written)
        hw hlt
  | _ => cases hl

lemma remaining_updatePause {pause : Pause} (hp : s.pauses[p]? = some pause) {f : Pause → Pause}
    (hlt : (f pause).remaining < pause.remaining) :
    (s.updatePause p f).remaining < s.remaining := by
  have hsum := sum_map_modify hp Pause.remaining f
  simp only [State.remaining, State.updatePause]
  omega

lemma remaining_updateWorker {f : Worker → Worker}
    (hf : ∀ worker, (f worker).remaining = worker.remaining) :
    (s.updateWorker w f).remaining = s.remaining := by
  have hmap : (s.workers.modify w f).map Worker.remaining = s.workers.map Worker.remaining := by
    refine List.ext_getElem? fun j => ?_
    rw [List.getElem?_map, List.getElem?_map, List.getElem?_modify]
    cases s.workers[j]? with
    | none => rfl
    | some worker => by_cases hwj : w = j <;> simp [hwj, hf]
  simp only [State.remaining, State.updateWorker, hmap]

/-- A pause cancels its task once. -/
lemma not_cancelling {pause : Pause} (hp : s.pauses[p]? = some pause)
    (h : exec s (.pauseTimeout p) = some t) : pause.cancelling = false := by
  simp only [exec, hp, Option.bind_eq_bind, Option.bind_some, Option.ite_none_left_eq_some] at h
  exact Bool.eq_false_iff.2 fun hcancelling => h.1 (Or.inr (Or.inl hcancelling))

/-- Every step uses up one of the steps that are left. -/
lemma remaining_lt (hi : Inv ∅ (fun _ => 0) s) (hl : l.continues = true)
    (h : exec s l = some t) : t.remaining < s.remaining := by
  cases l with
  | pauseTimeout p =>
    obtain ⟨pause, hp, hended, rfl⟩ := exec_pauseTimeout h
    have hnew := not_cancelling hp h
    refine (remaining_updateWorker (f := fun worker => { worker with cancelled := true })
      fun _ => rfl).trans_lt (remaining_updatePause hp ?_)
    simp [Pause.remaining, hended, hnew]
  | pauseDone p written =>
    obtain ⟨pause, hp, hended, -, rfl⟩ := exec_pauseDone h
    have hleft : (leavePause s pause written).remaining = s.remaining := by
      unfold leavePause
      split <;> rfl
    rw [← hleft]
    rw [← pauses_leavePause s pause written] at hp
    refine remaining_updatePause hp ?_
    cases hcancelling : pause.cancelling <;> simp [Pause.remaining, hended, hcancelling]
  | start => cases hl
  | pause => cases hl
  | resume => cases hl
  | clear => cases hl
  | crash => cases hl
  | crashInMerge => cases hl
  | _ => exact remaining_worker hi rfl h

end Remaining

/-! ## All downloads end -/

/-- No worker and no pause is in progress. -/
structure AllOver (s : State) : Prop where
  workers : ∀ worker ∈ s.workers, worker.phase = .finished
  pauses : ∀ pause ∈ s.pauses, pause.ended = true

/-- Something else than a failure is possible for every worker that is not over. -/
lemma exists_exec_of_live {s : State} {w : ℕ} {worker : Worker} (hw : s.workers[w]? = some worker)
    (hlive : worker.phase ≠ .finished) :
    ∃ l t, l.continues = true ∧ l.outcome ≠ some .error ∧ l.raises = false ∧
      exec s l = some t := by
  cases hphase : worker.phase with
  | created =>
    cases hcancelled : worker.cancelled with
    | false =>
      exact ⟨.begin w true, workerStart s w worker true, rfl, by simp [Label.outcome], rfl,
        by simp [exec, hw, hphase, hcancelled]⟩
    | true =>
      exact ⟨.cancelled w true, workerCancelled s w worker true, rfl, by simp [Label.outcome], rfl,
        by simp [exec, hw, hphase, hcancelled]⟩
  | fetching info rest missingSet n =>
    exact ⟨.fetched w none true, chunkFetched s w worker info rest missingSet n none true, rfl,
      by simp [Label.outcome], rfl, by simp [exec, hw, hphase]⟩
  | merging =>
    exact ⟨.merged w none true, mergeDone s w worker none true, rfl, by simp [Label.outcome], rfl,
      by simp [exec, hw, hphase]⟩
  | finished => exact absurd hphase hlive

/-- What is over does nothing. -/
lemma AllOver.exec_eq_none {s : State} (hs : AllOver s) {l : Label} (hl : l.continues = true) :
    exec s l = none := by
  refine Option.eq_none_iff_forall_ne_some.2 fun t ht => ?_
  have hworker {w : ℕ} {worker : Worker} (hw : s.workers[w]? = some worker) :
      worker.phase = .finished := hs.workers worker (List.mem_of_getElem? hw)
  have hpause {p : ℕ} {pause : Pause} (hp : s.pauses[p]? = some pause) : pause.ended = true :=
    hs.pauses pause (List.mem_of_getElem? hp)
  cases l with
  | begin w written =>
    obtain ⟨worker, hw, hphase, -⟩ := exec_begin ht
    simp [hworker hw] at hphase
  | beginRaises w sorted message written =>
    obtain ⟨worker, hw, hphase, -⟩ := exec_beginRaises ht
    simp [hworker hw] at hphase
  | fetched w error written =>
    obtain ⟨worker, info, rest, missingSet, n, hw, hphase, -⟩ := exec_fetched ht
    simp [hworker hw] at hphase
  | merged w error written =>
    obtain ⟨worker, hw, hphase, -⟩ := exec_merged ht
    simp [hworker hw] at hphase
  | cancelled w written =>
    obtain ⟨worker, hw, -, hlive, -⟩ := exec_cancelled ht
    exact hlive (hworker hw)
  | pauseTimeout p =>
    obtain ⟨pause, hp, hended, -⟩ := exec_pauseTimeout ht
    simp [hpause hp] at hended
  | pauseDone p written =>
    obtain ⟨pause, hp, hended, -⟩ := exec_pauseDone ht
    simp [hpause hp] at hended
  | _ => cases hl

section Ends

variable {C : Label → Prop} [DecidablePred C] {s t : State}

/-- A selection of the steps of workers and pauses under which nobody has to fail. -/
structure Selects (C : Label → Prop) : Prop where
  continues : ∀ l, C l → l.continues = true
  success : ∀ l, l.continues = true → l.outcome ≠ some .error → l.raises = false → C l

lemma Selects.stuck_iff (hC : Selects C) : (machine.restrict C s).Stuck t ↔ AllOver t := by
  constructor
  · intro hstuck
    have hnone {l : Label} (hl : l.continues = true) (houtcome : l.outcome ≠ some .error)
        (hraises : l.raises = false) : exec t l = none :=
      (if_pos (hC.success l hl houtcome hraises)).symm.trans (hstuck l)
    have hworkers : ∀ worker ∈ t.workers, worker.phase = .finished := by
      intro worker hmem
      by_contra hlive
      obtain ⟨w, hw⟩ := List.mem_iff_getElem?.1 hmem
      obtain ⟨l, u, hl, houtcome, hraises, hu⟩ := exists_exec_of_live hw hlive
      rw [hnone hl houtcome hraises] at hu
      cases hu
    refine ⟨hworkers, fun pause hmem => ?_⟩
    by_contra hopen
    obtain ⟨p, hp⟩ := List.mem_iff_getElem?.1 hmem
    have hover : taskDone t pause.worker = true := by
      cases hw : t.workers[pause.worker]? with
      | none => simp [taskDone, hw]
      | some worker => simp [taskDone, hw, hworkers worker (List.mem_of_getElem? hw)]
    have hdone := hnone (l := .pauseDone p true) rfl (by simp [Label.outcome]) rfl
    simp [exec, hp, hopen, hover] at hdone
  · intro hover l
    by_cases hl : C l
    · exact (if_pos hl).trans (hover.exec_eq_none (hC.continues l hl))
    · exact if_neg hl

lemma Selects.bounded (hC : Selects C) (hs : machine.Reachable s) :
    ∃ n, ∀ ls t, (machine.restrict C s).run s ls = some t → ls.length ≤ n := by
  refine Machine.bounded_of_measure (M := machine.restrict C s)
    (I := machine.Reachable) State.remaining hs ?_ ?_
  · exact fun t l u ht h => ht.step (Machine.exec_restrict_eq_some.1 h).2
  · intro t l u ht h
    obtain ⟨hl, hu⟩ := Machine.exec_restrict_eq_some.1 h
    exact remaining_lt (control_of_reachable ht).1 (hC.continues l hl) hu

end Ends

/-- **All downloads end**: when no requests come in, the workers and pauses in progress take no more
than a bounded number of steps, and can always take another one until all of them are over. -/
theorem downloads_end {s : State} (hs : machine.Reachable s) :
    (∃ n, ∀ ls t, (machine.restrict (fun l => l.continues = true) s).run s ls = some t →
      ls.length ≤ n) ∧
    ∀ t, (machine.restrict (fun l => l.continues = true) s).Reachable t →
      ((machine.restrict (fun l => l.continues = true) s).Stuck t ↔ AllOver t) := by
  have hC : Selects fun l => l.continues = true := ⟨fun _ hl => hl, fun _ hl _ _ => hl⟩
  exact ⟨hC.bounded hs, fun t _ => hC.stuck_iff⟩

/-- A download of two chunks that has been started. -/
def started : State := (startDownload {} "h" twoChunkManifest "" true).1

lemma reachableBy_started : machine.ReachableBy (fun _ => Agreed "h" 2) started :=
  Machine.ReachableBy.init.step (l := .start "h" twoChunkManifest "" true) rfl
    fun _ => indexed_twoChunks

theorem downloads_end_started :
    (∃ n, ∀ ls t, (machine.restrict (fun l => l.continues = true) started).run started ls =
      some t → ls.length ≤ n) ∧
    ∀ t, (machine.restrict (fun l => l.continues = true) started).Reachable t →
      ((machine.restrict (fun l => l.continues = true) started).Stuck t ↔ AllOver t) :=
  downloads_end reachableBy_started.reachable

/-! ## A download that nothing happens to -/

/-- Worker `w` is the only one at work on the tracked download, and no pause of it is in
progress. -/
structure Underway (h : String) (w : ℕ) (s : State) : Prop where
  live : ∃ (i : ℕ) (o : DownloadState), Live s h w i ∧ s.downloads.get? h = some i ∧
    s.objects[i]? = some o ∧ o.status = .downloading
  alone : ∀ w' i, Live s h w' i → w' = w
  unpaused : ∀ pause ∈ s.pauses, pause.fileHash = h → pause.ended = true

/-- The download is completed and at rest. -/
structure Completed (h : String) (s : State) : Prop where
  idle : ¬ Busy s h
  object : ∃ (i : ℕ) (o : DownloadState), s.downloads.get? h = some i ∧ s.objects[i]? = some o ∧
    o.status = .completed
  file : s.files.get? h = none
  unpaused : ∀ pause ∈ s.pauses, pause.fileHash = h → pause.ended = true

/-- A step of a worker or a pause, and not a failure of worker `w`. -/
def Favourable (w : ℕ) (l : Label) : Prop :=
  l.continues = true ∧ ¬ (l.worker = some w ∧ (l.outcome = some .error ∨ l.raises = true))

instance (w : ℕ) : DecidablePred (Favourable w) :=
  fun l => inferInstanceAs (Decidable (l.continues = true ∧ ¬ (l.worker = some w ∧
    (l.outcome = some .error ∨ l.raises = true))))

lemma selects_favourable (w : ℕ) : Selects (Favourable w) where
  continues _ hl := hl.1
  success _ hl houtcome hraises :=
    ⟨hl, fun hfails => hfails.2.elim houtcome (Bool.eq_false_iff.1 hraises)⟩

section Favourable

variable {s t : State} {h : String} {w w' p : ℕ} {worker : Worker} {l : Label}

/-- The loop of a worker that has not been told to stop goes on. -/
lemma workers_workerLoop (s : State) (w : ℕ) (worker : Worker) (rest : List ChunkInfo)
    (missingSet : List ℤ) (n : ℕ) (written : Bool) : ∃ phase,
    (workerLoop s w worker rest missingSet n written).workers =
      (s.setPhase w phase).workers ∧ (worker.cancelEvent = false → phase ≠ .finished) := by
  unfold workerLoop
  split
  · split
    · next hcancel => exact ⟨_, rfl, fun hgo => absurd (hcancel.symm.trans hgo) (by decide)⟩
    · exact ⟨_, rfl, fun _ => by simp⟩
  · exact ⟨_, rfl, fun _ => by simp⟩

lemma pauses_workerLoop (s : State) (w : ℕ) (worker : Worker) (rest : List ChunkInfo)
    (missingSet : List ℤ) (n : ℕ) (written : Bool) :
    (workerLoop s w worker rest missingSet n written).pauses = s.pauses := by
  unfold workerLoop
  split
  · split <;> rfl
  · rfl

/-- A step of a worker changes it and leaves the other workers and the pauses alone.  It goes on to
another phase but for its end, unless it has been told to stop. -/
lemma workers_of_worker (hi : Inv ∅ (fun _ => 0) s) (hl : l.worker = some w)
    (hexec : exec s l = some t) (hw : s.workers[w]? = some worker) : t.pauses = s.pauses ∧
    ∃ f : Worker → Worker, t.workers = (s.updateWorker w f).workers ∧
      (worker.cancelEvent = false → worker.cancelled = false → l.outcome = none →
        l.raises = false → ∃ phase, f worker = { worker with phase := phase } ∧
          phase ≠ .finished) := by
  have hloop {u : State} {rest : List ChunkInfo} {missingSet : List ℤ} {n : ℕ} {written : Bool}
      (hworkers : u.workers = s.workers) (hpauses : u.pauses = s.pauses) :
      (workerLoop u w worker rest missingSet n written).pauses = s.pauses ∧
        ∃ f : Worker → Worker, (workerLoop u w worker rest missingSet n written).workers =
          (s.updateWorker w f).workers ∧ (worker.cancelEvent = false → ∃ phase,
            f worker = { worker with phase := phase } ∧ phase ≠ .finished) := by
    obtain ⟨phase, hphases, hphase⟩ := workers_workerLoop u w worker rest missingSet n written
    refine ⟨(pauses_workerLoop ..).trans hpauses, fun worker => { worker with phase := phase }, ?_,
      fun hgo => ⟨phase, rfl, hphase hgo⟩⟩
    rw [hphases]
    exact congrArg (·.modify w fun worker => { worker with phase := phase }) hworkers
  cases l with
  | begin w' written =>
    obtain rfl := Option.some.inj hl
    obtain ⟨worker', hw', -, rfl⟩ := exec_begin hexec
    rw [hw, Option.some.injEq] at hw'
    subst hw'
    obtain ⟨-, o, ho, -⟩ := hi.worker w' worker hw
    rw [workerStart, ho]
    obtain ⟨hpauses, f, hworkers, hphase⟩ := hloop (u := s) rfl rfl
    exact ⟨hpauses, f, hworkers, fun hgo _ _ _ => hphase hgo⟩
  | beginRaises w' sorted message written =>
    obtain rfl := Option.some.inj hl
    obtain ⟨worker', hw', -, -, rfl⟩ := exec_beginRaises hexec
    unfold workerRaises
    split <;> exact ⟨rfl, _, rfl, fun _ _ _ hraises => by cases hraises⟩
  | fetched w' error written =>
    obtain rfl := Option.some.inj hl
    obtain ⟨worker', info, rest, missingSet, n, hw', -, rfl⟩ := exec_fetched hexec
    rw [hw, Option.some.injEq] at hw'
    subst hw'
    cases error with
    | some message => exact ⟨rfl, _, rfl, fun _ _ hnone => by cases hnone⟩
    | none =>
      unfold chunkFetched
      dsimp only
      split
      · obtain ⟨hpauses, f, hworkers, hphase⟩ := hloop (u := (s.markCompleted worker.obj
          info.index).saveResume worker.obj written) rfl rfl
        exact ⟨hpauses, f, hworkers, fun hgo _ _ _ => hphase hgo⟩
      · obtain ⟨hpauses, f, hworkers, hphase⟩ := hloop (u := s.markCompleted worker.obj
          info.index) rfl rfl
        exact ⟨hpauses, f, hworkers, fun hgo _ _ _ => hphase hgo⟩
  | merged w' error written =>
    obtain rfl := Option.some.inj hl
    obtain ⟨worker', hw', -, rfl⟩ := exec_merged hexec
    cases error <;> exact ⟨rfl, _, rfl, fun _ _ hnone => by cases hnone⟩
  | cancelled w' written =>
    obtain rfl := Option.some.inj hl
    obtain ⟨worker', hw', hcancelled, -, rfl⟩ := exec_cancelled hexec
    rw [hw, Option.some.injEq] at hw'
    subst hw'
    unfold workerCancelled
    split <;> exact ⟨rfl, _, rfl, fun _ hgo => absurd (hcancelled.symm.trans hgo) (by decide)⟩
  | _ => cases hl

/-- What stays of a worker when another one or a pause goes on. -/
lemma Live.other (hi : Inv ∅ (fun _ => 0) s) (hcontinues : l.continues = true)
    (hne : l.worker ≠ some w) (hexec : exec s l = some t) {i : ℕ} (hlive : Live s h w i) :
    Live t h w i := by
  obtain ⟨worker, hw, hhash, hobj, hphase⟩ := hlive
  cases hl : l.worker with
  | some w' =>
    obtain ⟨worker', hw', -⟩ := worker_cases hi hl hexec
    obtain ⟨-, f, hworkers, -⟩ := workers_of_worker hi hl hexec hw'
    have hw'' : w' ≠ w := fun heq => hne (heq ▸ hl)
    refine ⟨worker, ?_, hhash, hobj, hphase⟩
    rw [hworkers]
    exact (List.getElem?_modify_ne _ _ hw'').trans hw
  | none =>
    cases l with
    | pauseTimeout p =>
      obtain ⟨pause, -, -, rfl⟩ := exec_pauseTimeout hexec
      refine ⟨_, getElem?_modify_of_some _ hw, ?_⟩
      split <;> exact ⟨hhash, hobj, hphase⟩
    | pauseDone p written =>
      obtain ⟨pause, -, -, -, rfl⟩ := exec_pauseDone hexec
      refine ⟨worker, ?_, hhash, hobj, hphase⟩
      unfold leavePause
      split <;> exact hw
    | begin w' written => cases hl
    | beginRaises w' sorted message written => cases hl
    | fetched w' error written => cases hl
    | merged w' error written => cases hl
    | cancelled w' written => cases hl
    | _ => cases hcontinues

/-- No pause of a file begins. -/
lemma unpaused_exec (hi : Inv ∅ (fun _ => 0) s) (hcontinues : l.continues = true)
    (hexec : exec s l = some t)
    (hs : ∀ pause ∈ s.pauses, pause.fileHash = h → pause.ended = true) :
    ∀ pause ∈ t.pauses, pause.fileHash = h → pause.ended = true := by
  have hmodify {p : ℕ} {f : Pause → Pause} (hhash : ∀ pause, (f pause).fileHash = pause.fileHash)
      (hended : ∀ pause, pause.ended = true → (f pause).ended = true) :
      ∀ pause ∈ s.pauses.modify p f, pause.fileHash = h → pause.ended = true := by
    intro pause hmem heq
    obtain ⟨q, hq⟩ := List.mem_iff_getElem?.1 hmem
    obtain ⟨pause', hpause', rfl⟩ := getElem?_modify_cases hq
    have hold := hs pause' (List.mem_of_getElem? hpause')
    by_cases hpq : p = q
    · rw [if_pos hpq] at heq ⊢
      exact hended pause' (hold ((hhash pause').symm.trans heq))
    · rw [if_neg hpq] at heq ⊢
      exact hold heq
  cases hl : l.worker with
  | some w' =>
    obtain ⟨worker', hw', -⟩ := worker_cases hi hl hexec
    rw [(workers_of_worker hi hl hexec hw').1]
    exact hs
  | none =>
    cases l with
    | pauseTimeout p =>
      obtain ⟨pause, -, -, rfl⟩ := exec_pauseTimeout hexec
      exact hmodify (fun _ => rfl) fun _ hended => hended
    | pauseDone p written =>
      obtain ⟨pause, -, -, -, rfl⟩ := exec_pauseDone hexec
      have hpauses := pauses_leavePause s pause written
      rw [show ((leavePause s pause written).updatePause p fun pause => { pause with
        ended := true }).pauses = (leavePause s pause written).pauses.modify p fun pause =>
          { pause with ended := true } from rfl, hpauses]
      exact hmodify (fun _ => rfl) fun _ _ => rfl
    | begin w' written => cases hl
    | beginRaises w' sorted message written => cases hl
    | fetched w' error written => cases hl
    | merged w' error written => cases hl
    | cancelled w' written => cases hl
    | _ => cases hcontinues

/-- A step that is not about the file. -/
lemma apart_of_continues (hi : Inv ∅ (fun _ => 0) s) (hc : Control s)
    (hcontinues : l.continues = true) (hexec : exec s l = some t)
    (hunpaused : ∀ pause ∈ s.pauses, pause.fileHash = h → pause.ended = true)
    (hother : ∀ w i, l.worker = some w → ¬ Live s h w i) : Apart h s t := by
  cases hl : l.worker with
  | some w' =>
    obtain ⟨worker, hw', hphase, hapart, -⟩ := worker_cases hi hl hexec
    exact hapart h fun hhash => hother w' worker.obj hl ⟨worker, hw', hhash, rfl, hphase⟩
  | none =>
    cases l with
    | pauseTimeout p => exact apart_pauseTimeout hexec h
    | pauseDone p written =>
      obtain ⟨pause, hp, hopen, hapart, -⟩ := pauseDone_cases hi hc hexec
      refine hapart h fun hhash => ?_
      rw [hunpaused pause (List.mem_of_getElem? hp) hhash] at hopen
      cases hopen
    | begin w' written => cases hl
    | beginRaises w' sorted message written => cases hl
    | fetched w' error written => cases hl
    | merged w' error written => cases hl
    | cancelled w' written => cases hl
    | _ => cases hcontinues

lemma Completed.step (hs : Completed h s) (hi : Inv ∅ (fun _ => 0) s) (hc : Control s)
    (hcontinues : l.continues = true) (hexec : exec s l = some t) : Completed h t := by
  have hapart := apart_of_continues hi hc hcontinues hexec hs.unpaused
    fun w i _ hlive => hs.idle ⟨w, i, hlive⟩
  obtain ⟨i, o, hi', ho, hstatus⟩ := hs.object
  obtain ⟨o', ho', hhash⟩ := hi.tracked h i hi'
  rw [ho, Option.some.injEq] at ho'
  subst ho'
  obtain ⟨o', ho', -, hsame⟩ := hapart.objects i o ho hhash
  refine ⟨?_, ⟨i, o', hapart.downloads.trans hi', ho', hsame.trans hstatus⟩,
    hapart.files.trans hs.file, unpaused_exec hi hcontinues hexec hs.unpaused⟩
  rintro ⟨w, j, hlive⟩
  exact hs.idle ⟨w, j, hapart.live w j hlive⟩

/-- Nobody has told the worker of an unpaused download to stop. -/
lemma Underway.not_signalled (hs : Underway h w s) (hc : Control s)
    (hw : s.workers[w]? = some worker) (hhash : worker.fileHash = h)
    (hphase : worker.phase ≠ .finished) :
    worker.cancelEvent = false ∧ worker.cancelled = false := by
  rw [← Bool.not_eq_true, ← Bool.not_eq_true, ← not_or]
  intro hsignal
  obtain ⟨p, pause, hp, hpw, hopen⟩ := hc.signalled w worker hw hphase hsignal
  obtain ⟨worker', hw', -, hhash'⟩ := hc.pause p pause hp
  rw [hpw, hw, Option.some.injEq] at hw'
  rw [hs.unpaused pause (List.mem_of_getElem? hp) (by rw [← hhash', ← hw', hhash])] at hopen
  cases hopen

lemma outcome_cases (l : Label) :
    l.outcome = none ∨ l.outcome = some .error ∨ l.outcome = some .completed := by
  unfold Label.outcome
  split <;> simp

/-- **One step of such a download**: the worker goes on, or it has completed it. -/
lemma Underway.step (hs : Underway h w s) (hi : Inv ∅ (fun _ => 0) s) (hc : Control s)
    (hl : Favourable w l) (hexec : exec s l = some t) : Underway h w t ∨ Completed h t := by
  obtain ⟨i, o, hlive, hdown, ho, hstatus⟩ := hs.live
  have hunpaused := unpaused_exec hi hl.1 hexec hs.unpaused
  have hcalm (hcalm : Calm h s t) (hstill : Live t h w i) : Underway h w t := by
    obtain ⟨o', ho', hhash⟩ := hi.tracked h i hdown
    rw [ho, Option.some.injEq] at ho'
    subst ho'
    obtain ⟨o', ho', -, hsame⟩ := hcalm.objects i o ho hhash
    exact ⟨⟨i, o', hstill, hcalm.downloads.trans hdown, ho', hsame.trans hstatus⟩,
      fun w' j hlive' => hs.alone w' j (hcalm.live w' j hlive'), hunpaused⟩
  by_cases hw : l.worker = some w
  · obtain ⟨worker, hworker, hphase, -, hown⟩ := worker_cases hi hw hexec
    obtain ⟨worker', hworker', hhash, hobj, -⟩ := hlive
    rw [hworker, Option.some.injEq] at hworker'
    subst hworker' hhash hobj
    obtain ⟨hevent, hcancelled⟩ := hs.not_signalled hc hworker rfl hphase
    obtain ⟨-, f, hworkers, hgo⟩ := workers_of_worker hi hw hexec hworker
    have hbegun : l.raises = false :=
      Bool.eq_false_iff.2 fun hraises => hl.2 ⟨hw, Or.inr hraises⟩
    have hstill (hnone : l.outcome = none) : Live t worker.fileHash w worker.obj := by
      obtain ⟨phase, hf, hphase⟩ := hgo hevent hcancelled hnone hbegun
      refine ⟨{ worker with phase := phase }, ?_, rfl, rfl, hphase⟩
      rw [hworkers, ← hf]
      exact (getElem?_modify_of_some _ hworker).trans (by rw [if_pos rfl])
    rcases hown with ⟨hkeep, hnone⟩ | hended
    · exact Or.inl (hcalm hkeep (hstill hnone))
    · right
      have houtcome : l.outcome = some .completed := by
        rcases outcome_cases l with hnone | herror | hcompleted
        · exact absurd rfl (hended.live w worker.obj (hstill hnone)).2
        · exact absurd ⟨hw, Or.inl herror⟩ hl.2
        · exact hcompleted
      obtain ⟨o', ho', hcompleted⟩ := hended.status _ houtcome
      refine ⟨?_, ⟨worker.obj, o', hended.downloads.trans hdown, ho', hcompleted⟩,
        hended.files houtcome, hunpaused⟩
      rintro ⟨w', j, hlive'⟩
      obtain ⟨hlive', hne⟩ := hended.live w' j hlive'
      exact hne (hs.alone w' j hlive')
  · left
    have hapart := apart_of_continues hi hc hl.1 hexec hs.unpaused fun w' j hw' hlive' =>
      hw (hs.alone w' j hlive' ▸ hw')
    exact hcalm hapart.toCalm (hlive.other hi hl.1 hw hexec)

end Favourable

/-- A download that is started while nobody is at work on it is one. -/
lemma Launches.underway {s : State} {h : String} {d : ManifestDict} {password : String}
    {written : Bool} (hlaunch : Launches s h d password written) (hidle : Idle s h) :
    Underway h s.workers.length (startDownload s h d password written).1 := by
  obtain ⟨worker, o, hworkers, hhash, hphase, hdown, ho, -, hstatus⟩ := hlaunch
  refine ⟨⟨worker.obj, o, ⟨worker, ?_, hhash, rfl, by simp [hphase]⟩, hdown, ho, hstatus⟩,
    fun w i hlive => ?_, ?_⟩
  · rw [hworkers, List.getElem?_concat_length]
  · obtain ⟨worker', hw, hhash', -, hlive⟩ := hlive
    rw [hworkers] at hw
    rcases getElem?_concat_cases hw with hw | ⟨rfl, -⟩
    · exact absurd (hidle.workers worker' (List.mem_of_getElem? hw) hhash') hlive
    · rfl
  · rw [pauses_startDownload]
    exact hidle.pauses

/-- In every run of such a download the worker is at work or has completed it. -/
lemma underway_or_completed {s t : State} {h : String} {w : ℕ} (hs : machine.Reachable s)
    (hunder : Underway h w s) (ht : (machine.restrict (Favourable w) s).Reachable t) :
    Underway h w t ∨ Completed h t := by
  have hall : machine.Reachable t ∧ (Underway h w t ∨ Completed h t) := by
    refine ht.invariant (I := fun t => machine.Reachable t ∧ (Underway h w t ∨ Completed h t))
      ⟨hs, Or.inl hunder⟩ ?_
    rintro t l u ⟨hreach, hcases⟩ hexec
    obtain ⟨hl, hu⟩ := Machine.exec_restrict_eq_some.1 hexec
    obtain ⟨hi, hc⟩ := control_of_reachable hreach
    refine ⟨hreach.step hu, ?_⟩
    rcases hcases with hunder | hcompleted
    · exact hunder.step hi hc hl hu
    · exact Or.inr (hcompleted.step hi hc hl.1 hu)
  exact hall.2

/-- A step of a worker or a pause passes no manifest. -/
lemma agreed_of_continues {h : String} {n : ℕ} {l : Label} (hl : l.continues = true) :
    Agreed h n l := by
  cases l with
  | start => cases hl
  | resume => cases hl
  | _ => trivial

/-- What a run of workers and pauses completes has no missing chunks, when the manifests before it
agree. -/
lemma missing_of_completed {s t : State} {h : String} {w i n : ℕ} {o : DownloadState}
    (hs : machine.ReachableBy (fun _ => Agreed h n) s)
    (ht : (machine.restrict (Favourable w) s).Reachable t) (hi : t.downloads.get? h = some i)
    (ho : t.objects[i]? = some o) (hstatus : o.status = .completed) : o.missingChunks = [] := by
  have hinv : Inv {h} (fun _ => n) s :=
    hs.invariant inv_init fun _ _ _ hs ht hl => inv_exec hs ht fun _ hk => hk ▸ hl
  have hinv' : Inv {h} (fun _ => n) t := by
    refine ht.invariant hinv fun t l u hinv hexec => ?_
    obtain ⟨hl, hu⟩ := Machine.exec_restrict_eq_some.1 hexec
    exact inv_exec hinv hu fun _ _ => agreed_of_continues hl.1
  obtain ⟨o', ho', hhash⟩ := hinv'.tracked h i hi
  obtain rfl := Option.some.inj (ho.symm.trans ho')
  exact (hinv'.object i o ho).completed hhash hstatus

/-- **A download under way is completed**: when its worker can begin, its fetches and merge succeed
and nobody pauses it, it comes to an end, whatever becomes of the other downloads meanwhile.  Its
`.resume` file is deleted, and nothing is missing if the manifests agree on its chunks. -/
theorem download_completes {s : State} {h : String} {w : ℕ} (hs : machine.Reachable s)
    (hunder : Underway h w s) :
    (∃ n, ∀ ls t, (machine.restrict (Favourable w) s).run s ls = some t → ls.length ≤ n) ∧
    ∀ t, (machine.restrict (Favourable w) s).Reachable t →
      (machine.restrict (Favourable w) s).Stuck t →
      ∃ (i : ℕ) (o : DownloadState), t.downloads.get? h = some i ∧ t.objects[i]? = some o ∧
        o.status = .completed ∧ t.files.get? h = none ∧
        ∀ n, machine.ReachableBy (fun _ => Agreed h n) s → o.missingChunks = [] := by
  have hC := selects_favourable w
  refine ⟨hC.bounded hs, fun t ht hstuck => ?_⟩
  have hover : AllOver t := hC.stuck_iff.1 hstuck
  rcases underway_or_completed hs hunder ht with hunder | hcompleted
  · obtain ⟨i, o, ⟨worker, hw, -, -, hphase⟩, -⟩ := hunder.live
    exact absurd (hover.workers worker (List.mem_of_getElem? hw)) hphase
  · obtain ⟨i, o, hi, ho, hstatus⟩ := hcompleted.object
    exact ⟨i, o, hi, ho, hstatus, hcompleted.file,
      fun n hagreed => missing_of_completed hagreed ht hi ho hstatus⟩

lemma idle_empty (h : String) : Idle {} h where
  workers worker hworker := by cases hworker
  pauses pause hpause := by cases hpause

lemma launches_empty : Launches {} "h" twoChunkManifest "" true :=
  ⟨{ fileHash := "h", manifest := twoChunks, obj := 0 },
    ⟨"h", "a", 2, 2, [0, 1], [], .downloading, "", ""⟩, rfl, rfl, rfl, rfl, rfl, rfl, rfl⟩

theorem download_completes_started :
    (∃ n, ∀ ls t, (machine.restrict (Favourable 0) started).run started ls = some t →
      ls.length ≤ n) ∧
    ∀ t, (machine.restrict (Favourable 0) started).Reachable t →
      (machine.restrict (Favourable 0) started).Stuck t →
      ∃ (i : ℕ) (o : DownloadState), t.downloads.get? "h" = some i ∧ t.objects[i]? = some o ∧
        o.status = .completed ∧ t.files.get? "h" = none ∧ o.missingChunks = [] := by
  obtain ⟨hbounded, hends⟩ :=
    download_completes reachableBy_started.reachable (launches_empty.underway (idle_empty "h"))
  refine ⟨hbounded, fun t ht hstuck => ?_⟩
  obtain ⟨i, o, hi, ho, hstatus, hfile, hmissing⟩ := hends t ht hstuck
  exact ⟨i, o, hi, ho, hstatus, hfile, hmissing 2 reachableBy_started⟩

end DistriStore.DownloadManager
