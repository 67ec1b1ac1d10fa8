import DistriStore.Api.SingleSteps
import DistriStore.Lib.Projection

/-!
# Downloads of different files do not disturb each other

A step either concerns the file and is a step of its own manager, or it is not seen there
(`run_only`).  So what a run does to a file is what the steps that concern it do in a manager of its
own, and every step that this manager can take is possible in the whole (`downloads_isolated`).
-/

namespace DistriStore.DownloadManager

open Lib

/-- The step as the manager of one file takes it, if it concerns the file. -/
def Label.only (h : String) (s : State) : Label → Option Label
  | .start h' d password written =>
    if h' = h then some (.start h' d password written) else none
  | .pause h' written => if h' = h then some (.pause h' written) else none
  | .pauseTimeout p => ((s.pauses[p]?).filter fun pause => pause.fileHash = h).map fun _ =>
      .pauseTimeout (s.pausePlace h p)
  | .pauseDone p written => ((s.pauses[p]?).filter fun pause => pause.fileHash = h).map fun _ =>
      .pauseDone (s.pausePlace h p) written
  | .resume h' password d => if h' = h then some (.resume h' password d) else none
  | .clear => some .clear
  | .begin w written => ((s.workers[w]?).filter fun worker => worker.fileHash = h).map fun _ =>
      .begin (s.workerPlace h w) written
  | .beginRaises w sorted message written =>
    ((s.workers[w]?).filter fun worker => worker.fileHash = h).map fun _ =>
      .beginRaises (s.workerPlace h w) sorted message written
  | .fetched w error written => ((s.workers[w]?).filter fun worker => worker.fileHash = h).map
      fun _ => .fetched (s.workerPlace h w) error written
  | .merged w error written => ((s.workers[w]?).filter fun worker => worker.fileHash = h).map
      fun _ => .merged (s.workerPlace h w) error written
  | .cancelled w written => ((s.workers[w]?).filter fun worker => worker.fileHash = h).map
      fun _ => .cancelled (s.workerPlace h w) written
  | .crash => some .crash
  | .crashInMerge w written => (s.workers[w]?).map fun worker =>
    -- for the other files the process just dies
    if worker.fileHash = h then .crashInMerge (s.workerPlace h w) written else .crash

variable {s t : State} {h : String} {w p : ℕ} {worker : Worker} {pause : Pause}

/-! ## Steps -/

section Exec

variable (hi : Inv ∅ (fun _ => 0) s)
include hi

lemma exec_only_begin (hw : s.workers[w]? = some worker) (hh : worker.fileHash = h)
    (written : Bool) : exec (s.only h) (.begin (s.workerPlace h w) written) =
      (exec s (.begin w written)).map fun t => t.only h := by
  obtain ⟨-, o, ho, hhash, -⟩ := hi.worker w worker hw
  simp only [exec, hw, getElem?_workers_only hw hh, Option.bind_eq_bind, Option.bind_some]
  rw [apply_ite (Option.map _), Option.map_some, Option.map_none,
    only_workerStart hw ho hhash hh]
  rfl

lemma exec_only_beginRaises (hw : s.workers[w]? = some worker) (hh : worker.fileHash = h)
    (sorted : Bool) (message : String) (written : Bool) :
    exec (s.only h) (.beginRaises (s.workerPlace h w) sorted message written) =
      (exec s (.beginRaises w sorted message written)).map fun t => t.only h := by
  obtain ⟨-, o, ho, hhash, -⟩ := hi.worker w worker hw
  simp only [exec, hw, getElem?_workers_only hw hh, Option.bind_eq_bind, Option.bind_some]
  rw [apply_ite (Option.map _), Option.map_some, Option.map_none,
    only_workerRaises hw ho hhash hh]
  rfl

lemma exec_only_fetched (hw : s.workers[w]? = some worker) (hh : worker.fileHash = h)
    (error : Option String) (written : Bool) :
    exec (s.only h) (.fetched (s.workerPlace h w) error written) =
      (exec s (.fetched w error written)).map fun t => t.only h := by
  obtain ⟨-, o, ho, hhash, -⟩ := hi.worker w worker hw
  have hsame : (worker.renumber (s.objectPlace h)).phase = worker.phase := rfl
  simp only [exec, hw, getElem?_workers_only hw hh, Option.bind_eq_bind, Option.bind_some, hsame]
  cases worker.phase with
  | fetching info rest missingSet n =>
    exact congrArg some (only_chunkFetched hw ho hhash hh info rest missingSet n error written).symm
  | _ => rfl

lemma exec_only_merged (hw : s.workers[w]? = some worker) (hh : worker.fileHash = h)
    (error : Option String) (written : Bool) :
    exec (s.only h) (.merged (s.workerPlace h w) error written) =
      (exec s (.merged w error written)).map fun t => t.only h := by
  obtain ⟨-, o, ho, hhash, -⟩ := hi.worker w worker hw
  simp only [exec, hw, getElem?_workers_only hw hh, Option.bind_eq_bind, Option.bind_some]
  rw [apply_ite (Option.map _), Option.map_some, Option.map_none, only_mergeDone hw ho hhash hh]
  rfl

lemma exec_only_cancelled (hw : s.workers[w]? = some worker) (hh : worker.fileHash = h)
    (written : Bool) : exec (s.only h) (.cancelled (s.workerPlace h w) written) =
      (exec s (.cancelled w written)).map fun t => t.only h := by
  obtain ⟨-, o, ho, hhash, -⟩ := hi.worker w worker hw
  simp only [exec, hw, getElem?_workers_only hw hh, Option.bind_eq_bind, Option.bind_some]
  rw [apply_ite (Option.map _), Option.map_some, Option.map_none,
    only_workerCancelled hw ho hhash hh]
  rfl

lemma exec_only_crash : exec (s.only h) .crash = (exec s .crash).map fun t => t.only h := by
  rw [exec, exec, Option.map_some, only_restart fun k f hf => (hi.file k f hf).1]
  rfl

lemma fileHash_of_saveStatus (i : ℕ) (written : Bool) : ∀ k f,
    ((s.setStatus i .completed).saveResume i written).files.get? k = some f → f.fileHash = k := by
  have hsaved : Inv ∅ (fun _ => 0) ((s.setStatus i .completed).saveResume i written) :=
    inv_saveResume _ written (inv_setStatus hi fun _ _ _ hfalse => hfalse.elim)
  exact fun k f hf => (hsaved.file k f hf).1

lemma exec_only_crashInMerge (hw : s.workers[w]? = some worker) (hh : worker.fileHash = h)
    (written : Bool) : exec (s.only h) (.crashInMerge (s.workerPlace h w) written) =
      (exec s (.crashInMerge w written)).map fun t => t.only h := by
  obtain ⟨-, o, ho, hhash, -⟩ := hi.worker w worker hw
  have hsaved := only_saveStatus .completed written ho (hhash.trans hh)
  simp only [exec, hw, getElem?_workers_only hw hh, Option.bind_eq_bind, Option.bind_some]
  rw [apply_ite (Option.map _), Option.map_some, Option.map_none,
    only_restart (fileHash_of_saveStatus hi worker.obj written)]
  exact if_congr Iff.rfl (congrArg (fun s : State => some (restart s.files)) hsaved.symm) rfl

omit hi in
lemma exec_only_pauseTimeout (hs : Handles s) (hp : s.pauses[p]? = some pause)
    (hh : pause.fileHash = h) : exec (s.only h) (.pauseTimeout (s.pausePlace h p)) =
      (exec s (.pauseTimeout p)).map fun t => t.only h := by
  obtain ⟨worker, hw, -, hhash⟩ := hs.pause p pause hp
  have hwh : worker.fileHash = h := hhash.trans hh
  have hcancelling : (s.updatePause p fun pause => { pause with cancelling := true }).only h = _ :=
    only_updatePause (fun _ => rfl) (fun _ _ _ => rfl) hp hh
  have hcancelled : ((s.updatePause p fun pause => { pause with
      cancelling := true }).updateWorker pause.worker fun worker => { worker with
        cancelled := true }).only h = _ :=
    only_updateWorker (s := s.updatePause p fun pause => { pause with cancelling := true })
      (fun _ => rfl) (fun _ _ => rfl) hw hwh
  have hdone : taskDone (s.only h) (pause.renumber (s.objectPlace h) (s.workerPlace h)).worker =
      taskDone s pause.worker := taskDone_only hw hwh
  simp only [exec, hp, getElem?_pauses_only hp hh, Option.bind_eq_bind, Option.bind_some, hdone]
  rw [apply_ite (Option.map _), Option.map_some, Option.map_none, hcancelled, hcancelling]
  rfl

lemma exec_only_pauseDone (hs : Handles s) (hp : s.pauses[p]? = some pause)
    (hh : pause.fileHash = h) (written : Bool) :
    exec (s.only h) (.pauseDone (s.pausePlace h p) written) =
      (exec s (.pauseDone p written)).map fun t => t.only h := by
  obtain ⟨worker, hw, hobj, hhash⟩ := hs.pause p pause hp
  have hwh : worker.fileHash = h := hhash.trans hh
  obtain ⟨-, o, ho, hohash, -⟩ := hi.worker _ worker hw
  rw [hobj] at ho
  have hpauses : (leavePause s pause written).pauses[p]? = some pause := by
    rw [pauses_leavePause]
    exact hp
  have hended : ((leavePause s pause written).updatePause p fun pause =>
      { pause with ended := true }).only h = _ :=
    only_updatePause (fun _ => rfl) (fun _ _ _ => rfl) hpauses hh
  have hplace : (leavePause s pause written).pausePlace h p = s.pausePlace h p := by
    unfold State.pausePlace
    rw [pauses_leavePause]
  have hleft : (leavePause s pause written).only h = leavePause (s.only h)
      (pause.renumber (s.objectPlace h) (s.workerPlace h)) written := by
    have hraised : taskRaised (s.only h)
        (pause.renumber (s.objectPlace h) (s.workerPlace h)).worker = taskRaised s pause.worker :=
      taskRaised_only hw hwh
    unfold leavePause
    rw [hraised]
    split
    · rfl
    · subst hh
      exact only_finishPause written ho (hohash.trans hwh)
  have hdone : taskDone (s.only h) (pause.renumber (s.objectPlace h) (s.workerPlace h)).worker =
      taskDone s pause.worker := taskDone_only hw hwh
  simp only [exec, hp, getElem?_pauses_only hp hh, Option.bind_eq_bind, Option.bind_some, hdone]
  rw [apply_ite (Option.map _), Option.map_some, Option.map_none, hended, hleft, hplace]
  rfl

omit hi in
/-- A step of one file is a step of its manager, and is not seen elsewhere. -/
lemma run_of_owner {l l' : Label} {owner : String} (ht : exec s l = some t)
    (hl : l.only h s = if owner = h then some l' else none)
    (hown : owner = h → exec (s.only h) l' = (exec s l).map fun t => t.only h)
    (hother : owner ≠ h → t.only h = s.only h) :
    machine.run (s.only h) (l.only h s).toList = some (t.only h) := by
  rw [hl]
  split
  · next hh =>
    rw [Option.toList_some, Machine.run_cons, machine_exec, hown hh, ht]
    rfl
  · next hh => exact congrArg some (hother hh).symm

omit hi in
lemma only_of_some {α : Type} (owner : α → String) {x : Option α} {a : α} {l' : Label}
    (hx : x = some a) : ((x.filter fun a => owner a = h).map fun _ => l') =
      if owner a = h then some l' else none := by
  rw [hx, Option.filter_some]
  by_cases hh : owner a = h
  · rw [if_pos (decide_eq_true hh), if_pos hh, Option.map_some]
  · rw [if_neg (by simpa using hh), if_neg hh, Option.map_none]

/-- A step that concerns the file is a step of its manager; the others are not seen there. -/
lemma run_only (hs : Handles s) (h : String) {l : Label} (ht : exec s l = some t) :
    machine.run (s.only h) (l.only h s).toList = some (t.only h) := by
  have hrange := InRange.of_handles hi hs
  cases l with
  | start h' d password written =>
    obtain rfl := Option.some.inj ht
    refine run_of_owner rfl rfl (fun hh => ?_)
      (only_startDownload_other hi hrange d password written)
    subst hh
    exact congrArg some (only_startDownload hi hrange h' d password written)
  | pause h' written =>
    obtain rfl := Option.some.inj ht
    refine run_of_owner rfl rfl (fun hh => ?_) (only_pauseDownload_other hi hs written)
    subst hh
    exact congrArg some (only_pauseDownload hi hs h' written).symm
  | pauseTimeout p =>
    obtain ⟨pause, hp, -, rfl⟩ := exec_pauseTimeout ht
    refine run_of_owner ht (only_of_some Pause.fileHash hp)
      (fun hh => exec_only_pauseTimeout hs hp hh) fun hh => ?_
    obtain ⟨worker, hw, -, hhash⟩ := hs.pause p pause hp
    have hsignal := only_updateWorker_other (h := h)
      (s := s.updatePause p fun pause => { pause with cancelling := true })
      (f := fun worker => { worker with cancelled := true }) (fun _ => rfl) hw
      fun heq => hh (hhash.symm.trans heq)
    exact hsignal.trans (only_updatePause_other (fun _ => rfl) hp hh)
  | pauseDone p written =>
    obtain ⟨pause, hp, -, -, rfl⟩ := exec_pauseDone ht
    refine run_of_owner ht (only_of_some Pause.fileHash hp)
      (fun hh => exec_only_pauseDone hi hs hp hh written) fun hh => ?_
    obtain ⟨worker, hw, hobj, hhash⟩ := hs.pause p pause hp
    obtain ⟨-, o, ho, hohash, -⟩ := hi.worker _ worker hw
    rw [hobj] at ho
    have hpauses : (leavePause s pause written).pauses[p]? = some pause := by
      rw [pauses_leavePause]
      exact hp
    refine (only_updatePause_other (f := fun pause => { pause with ended := true }) (fun _ => rfl)
      hpauses hh).trans ?_
    unfold leavePause
    split
    · rfl
    · exact only_finishPause_other written hh ho (hohash.trans hhash)
  | resume h' password d =>
    obtain rfl := Option.some.inj ht
    refine run_of_owner rfl rfl (fun hh => ?_) (only_resumeDownload_other hi hrange password d)
    subst hh
    exact congrArg some (only_resumeDownload hi hrange h' password d)
  | clear =>
    obtain rfl := Option.some.inj ht
    exact congrArg some (only_clearCompleted hi h).symm
  | begin w written =>
    obtain ⟨worker, hw, -, rfl⟩ := exec_begin ht
    obtain ⟨-, o, ho, hhash, -⟩ := hi.worker w worker hw
    exact run_of_owner ht (only_of_some Worker.fileHash hw)
      (fun hh => exec_only_begin hi hw hh written)
      fun hh => only_workerStart_other hw ho hhash hh written
  | beginRaises w sorted message written =>
    obtain ⟨worker, hw, -, -, rfl⟩ := exec_beginRaises ht
    obtain ⟨-, o, ho, hhash, -⟩ := hi.worker w worker hw
    exact run_of_owner ht (only_of_some Worker.fileHash hw)
      (fun hh => exec_only_beginRaises hi hw hh sorted message written)
      fun hh => only_workerRaises_other hw ho hhash hh sorted message written
  | fetched w error written =>
    obtain ⟨worker, info, rest, missingSet, n, hw, hphase, rfl⟩ := exec_fetched ht
    obtain ⟨-, o, ho, hhash, -⟩ := hi.worker w worker hw
    exact run_of_owner ht (only_of_some Worker.fileHash hw)
      (fun hh => exec_only_fetched hi hw hh error written)
      fun hh => only_chunkFetched_other hw ho hhash hh info rest missingSet n error written
  | merged w error written =>
    obtain ⟨worker, hw, -, rfl⟩ := exec_merged ht
    obtain ⟨-, o, ho, hhash, -⟩ := hi.worker w worker hw
    exact run_of_owner ht (only_of_some Worker.fileHash hw)
      (fun hh => exec_only_merged hi hw hh error written)
      fun hh => only_mergeDone_other hw ho hhash hh error written
  | cancelled w written =>
    obtain ⟨worker, hw, -, -, rfl⟩ := exec_cancelled ht
    obtain ⟨-, o, ho, hhash, -⟩ := hi.worker w worker hw
    exact run_of_owner ht (only_of_some Worker.fileHash hw)
      (fun hh => exec_only_cancelled hi hw hh written)
      fun hh => only_workerCancelled_other hw ho hhash hh written
  | crash =>
    rw [Label.only, Option.toList_some, Machine.run_cons, machine_exec, exec_only_crash hi, ht]
    rfl
  | crashInMerge w written =>
    obtain ⟨worker, hw, -, rfl⟩ := exec_crashInMerge ht
    obtain ⟨-, o, ho, hhash, -⟩ := hi.worker w worker hw
    rw [Label.only, hw, Option.map_some, Option.toList_some, Machine.run_cons, machine_exec]
    by_cases hh : worker.fileHash = h
    · rw [if_pos hh, exec_only_crashInMerge hi hw hh written, ht]
      rfl
    · -- the file of the other download is not this one
      have hsaved := only_saveStatus_other .completed written ho
        fun heq => hh (hhash.symm.trans heq)
      have hfiles := congrArg State.files hsaved
      rw [if_neg hh, exec, Option.bind_some, Machine.run_nil,
        only_restart (fileHash_of_saveStatus hi worker.obj written)]
      exact congrArg (fun files => some (restart files)) hfiles.symm

/-- The request is for the file; every other step of its manager is about it. -/
def Label.About (h : String) : Label → Prop
  | .start h' _ _ _ => h' = h
  | .pause h' _ => h' = h
  | .resume h' _ _ => h' = h
  | _ => True

/-- What the manager of one file can do is possible in the whole. -/
lemma exists_exec (hs : Handles s) {l' : Label} {u : State} (habout : l'.About h)
    (hu : exec (s.only h) l' = some u) :
    ∃ l t, l.only h s = some l' ∧ exec s l = some t ∧ t.only h = u := by
  have hlift {l : Label} (hl : l.only h s = some l')
      (hstep : exec (s.only h) l' = (exec s l).map fun t => t.only h) :
      ∃ l t, l.only h s = some l' ∧ exec s l = some t ∧ t.only h = u := by
    obtain ⟨t, ht, hview⟩ := Option.map_eq_some_iff.1 (hstep.symm.trans hu)
    exact ⟨l, t, hl, ht, hview⟩
  have hrange := InRange.of_handles hi hs
  cases l' with
  | start h' d password written =>
    obtain rfl : h' = h := habout
    exact hlift (l := .start h' d password written) (if_pos rfl)
      (congrArg some (only_startDownload hi hrange h' d password written))
  | pause h' written =>
    obtain rfl : h' = h := habout
    exact hlift (l := .pause h' written) (if_pos rfl)
      (congrArg some (only_pauseDownload hi hs h' written).symm)
  | pauseTimeout p' =>
    obtain ⟨pause', hp', -, -⟩ := exec_pauseTimeout hu
    obtain ⟨p, pause, hp, hh, rfl⟩ := exists_pause_of_only hp'
    exact hlift (l := .pauseTimeout p) ((only_of_some Pause.fileHash hp).trans (if_pos hh))
      (exec_only_pauseTimeout hs hp hh)
  | pauseDone p' written =>
    obtain ⟨pause', hp', -, -, -⟩ := exec_pauseDone hu
    obtain ⟨p, pause, hp, hh, rfl⟩ := exists_pause_of_only hp'
    exact hlift (l := .pauseDone p written) ((only_of_some Pause.fileHash hp).trans (if_pos hh))
      (exec_only_pauseDone hi hs hp hh written)
  | resume h' password d =>
    obtain rfl : h' = h := habout
    exact hlift (l := .resume h' password d) (if_pos rfl)
      (congrArg some (only_resumeDownload hi hrange h' password d))
  | clear => exact hlift (l := .clear) rfl (congrArg some (only_clearCompleted hi h).symm)
  | begin w' written =>
    obtain ⟨worker', hw', -, -⟩ := exec_begin hu
    obtain ⟨w, worker, hw, hh, rfl⟩ := exists_worker_of_only hw'
    exact hlift (l := .begin w written) ((only_of_some Worker.fileHash hw).trans (if_pos hh))
      (exec_only_begin hi hw hh written)
  | beginRaises w' sorted message written =>
    obtain ⟨worker', hw', -, -, -⟩ := exec_beginRaises hu
    obtain ⟨w, worker, hw, hh, rfl⟩ := exists_worker_of_only hw'
    exact hlift (l := .beginRaises w sorted message written)
      ((only_of_some Worker.fileHash hw).trans (if_pos hh))
      (exec_only_beginRaises hi hw hh sorted message written)
  | fetched w' error written =>
    obtain ⟨worker', _, _, _, _, hw', -, -⟩ := exec_fetched hu
    obtain ⟨w, worker, hw, hh, rfl⟩ := exists_worker_of_only hw'
    exact hlift (l := .fetched w error written) ((only_of_some Worker.fileHash hw).trans (if_pos hh))
      (exec_only_fetched hi hw hh error written)
  | merged w' error written =>
    obtain ⟨worker', hw', -, -⟩ := exec_merged hu
    obtain ⟨w, worker, hw, hh, rfl⟩ := exists_worker_of_only hw'
    exact hlift (l := .merged w error written) ((only_of_some Worker.fileHash hw).trans (if_pos hh))
      (exec_only_merged hi hw hh error written)
  | cancelled w' written =>
    obtain ⟨worker', hw', -, -, -⟩ := exec_cancelled hu
    obtain ⟨w, worker, hw, hh, rfl⟩ := exists_worker_of_only hw'
    exact hlift (l := .cancelled w written) ((only_of_some Worker.fileHash hw).trans (if_pos hh))
      (exec_only_cancelled hi hw hh written)
  | crash => exact hlift (l := .crash) rfl (exec_only_crash hi)
  | crashInMerge w' written =>
    obtain ⟨worker', hw', -, -⟩ := exec_crashInMerge hu
    obtain ⟨w, worker, hw, hh, rfl⟩ := exists_worker_of_only hw'
    refine hlift (l := .crashInMerge w written) ?_ (exec_only_crashInMerge hi hw hh written)
    rw [Label.only, hw, Option.map_some, if_pos hh]

end Exec

/-! ## Runs -/

/-- **Downloads of different files do not disturb each other.**  What a run has made of a file is
what the steps that concern the file make of it in a manager that knows no other file; and every
step of that manager is possible in the whole. -/
theorem downloads_isolated (h : String) :
    (∀ run s, machine.run {} run = some s →
      machine.run {} (machine.project (fun s l => l.only h s) {} run) = some (s.only h)) ∧
    ∀ s, machine.Reachable s → ∀ l' u, l'.About h → exec (s.only h) l' = some u →
      ∃ l t, l.only h s = some l' ∧ exec s l = some t ∧ t.only h = u := by
  refine ⟨fun run s hrun => ?_, fun s hs l' u habout hu => ?_⟩
  · exact Machine.run_project machine machine (fun s : State => s.only h)
      (I := fun s => Inv ∅ (fun _ => 0) s ∧ Control s)
      (fun _ _ _ hs ht => ⟨inv_step hs.1 ht, control_exec hs.1 hs.2 ht⟩)
      (fun _ _ _ hs ht => run_only hs.1 hs.2.toHandles h ht) ⟨inv_init, control_init⟩ hrun
  · obtain ⟨hi, hc⟩ := control_of_reachable hs
    exact exists_exec hi hc.toHandles habout hu

/-- Two downloads, whose steps take turns. -/
def twoFiles : List Label :=
  [.start "g" twoChunkManifest "p" true, .start "h" twoChunkManifest "" true, .begin 1 true,
    .begin 0 true, .fetched 1 none true, .pause "g" true, .fetched 0 none true]

/-- The steps of one of them. -/
def oneOfTwoFiles : List Label :=
  [.start "h" twoChunkManifest "" true, .begin 0 true, .fetched 0 none true]

/-- The state after `twoFiles`. -/
def twoFilesState : State :=
  (machine.run {} twoFiles).getD {}

theorem downloads_isolated_two :
    machine.run {} oneOfTwoFiles = some (twoFilesState.only "h") ∧
      ∃ l t, l.only "h" twoFilesState = some (.fetched 0 none true) ∧
        exec twoFilesState l = some t ∧
        some (t.only "h") = exec (twoFilesState.only "h") (.fetched 0 none true) := by
  have hrun : machine.run {} twoFiles = some twoFilesState := rfl
  refine ⟨(downloads_isolated "h").1 twoFiles twoFilesState hrun, ?_⟩
  obtain ⟨l, t, hl, ht, hview⟩ := (downloads_isolated "h").2 twoFilesState ⟨twoFiles, hrun⟩
    (.fetched 0 none true) _ trivial rfl
  exact ⟨l, t, hl, ht, congrArg some hview⟩

end DistriStore.DownloadManager
