import DistriStore.Api.DownloadProgress

/-!
# Starting a failed download again

When no worker and no pause is at work on a file, `start_download` should launch a worker.  It
does not when it finds the status `downloading`, so everything depends on who leaves that status
behind.  In memory it is a worker that `sorted` has thrown out before its `try`, and nobody else:
`Control` says that a tracked object with this status has a live worker, or one that raised, or a
pause in progress that will set it to `paused`.  On disk the chunk failure of `_download_worker`
does, which saves the file before it changes the status; as long as the object is tracked the file
is not read, but `clear_completed` drops the object and keeps the file.

`start_launches_iff` says exactly when a download can be started again.
-/

namespace DistriStore.DownloadManager

open Lib

/-! ## Who is at work on an object -/

/-- Object `i` is tracked, and its status is `downloading`. -/
def Running (s : State) (i : ℕ) : Prop :=
  ∃ (h : String) (o : DownloadState), s.downloads.get? h = some i ∧ s.objects[i]? = some o ∧
    o.status = .downloading

/-- A pause of object `i` is in progress. -/
def Pausing (s : State) (i : ℕ) : Prop :=
  ∃ (p : ℕ) (pause : Pause), s.pauses[p]? = some pause ∧ pause.obj = i ∧ pause.ended = false

/-- A worker of object `i` is live. -/
def Working (s : State) (i : ℕ) : Prop :=
  ∃ (w : ℕ) (worker : Worker), s.workers[w]? = some worker ∧ worker.obj = i ∧
    worker.phase ≠ .finished

/-- A worker of object `i` is live, or has ended with an exception that it did not catch. -/
def Held (s : State) (i : ℕ) : Prop :=
  ∃ (w : ℕ) (worker : Worker), s.workers[w]? = some worker ∧ worker.obj = i ∧
    (worker.phase ≠ .finished ∨ worker.raised = true)

/-- The handles that the manager and its pauses have on the workers. -/
structure Handles (s : State) : Prop where
  paired : ∀ h, s.cancelEvents.get? h = s.tasks.get? h
  task : ∀ h w, s.tasks.get? h = some w → ∃ worker : Worker, s.workers[w]? = some worker ∧
    worker.fileHash = h ∧ s.downloads.get? h = some worker.obj
  pause : ∀ (p : ℕ) (pause : Pause), s.pauses[p]? = some pause → ∃ worker : Worker,
    s.workers[pause.worker]? = some worker ∧ worker.obj = pause.obj ∧
      worker.fileHash = pause.fileHash
  /-- Whoever tells a worker to stop waits for it. -/
  signalled : ∀ (w : ℕ) (worker : Worker), s.workers[w]? = some worker → worker.phase ≠ .finished →
    worker.cancelEvent = true ∨ worker.cancelled = true →
    ∃ (p : ℕ) (pause : Pause), s.pauses[p]? = some pause ∧ pause.worker = w ∧ pause.ended = false
  raised : ∀ (w : ℕ) (worker : Worker), s.workers[w]? = some worker → worker.raised = true →
    worker.phase = .finished

structure Control (s : State) : Prop extends Handles s where
  running : ∀ i, Running s i → Held s i ∨ Pausing s i

lemma control_init : Control {} where
  paired h := rfl
  task h w hw := by simp at hw
  pause p pause hp := by simp at hp
  signalled w worker hw := by simp at hw
  raised w worker hw := by simp at hw
  running i := by
    rintro ⟨h, o, hi, -⟩
    simp at hi

lemma Handles.pausing_of_signalled {s : State} {w : ℕ} {worker : Worker} (hs : Handles s)
    (hw : s.workers[w]? = some worker) (hlive : worker.phase ≠ .finished)
    (hsignal : worker.cancelEvent = true ∨ worker.cancelled = true) : Pausing s worker.obj := by
  obtain ⟨p, pause, hp, hpw, hended⟩ := hs.signalled w worker hw hlive hsignal
  obtain ⟨worker', hw', hobj, -⟩ := hs.pause p pause hp
  rw [hpw, hw, Option.some.injEq] at hw'
  exact ⟨p, pause, hp, hw' ▸ hobj.symm, hended⟩

/-! ## Single statements -/

lemma control_assign {s : State} {i : ℕ} {f : DownloadState → DownloadState} (hs : Control s)
    (hf : ∀ o, (f o).status = .downloading → o.status = .downloading) :
    Control (s.assign i f) := by
  refine { hs with running := ?_ }
  rintro j ⟨h, o, hj, ho, hstatus⟩
  refine hs.running j ?_
  obtain ⟨o', ho', rfl⟩ := getElem?_modify_cases ho
  refine ⟨h, o', hj, ho', ?_⟩
  split at hstatus
  · exact hf o' hstatus
  · exact hstatus

lemma not_running_assign {s : State} {i : ℕ} {f : DownloadState → DownloadState}
    (hf : ∀ o, (f o).status ≠ .downloading) : ¬ Running (s.assign i f) i := by
  rintro ⟨h, o, -, ho, hstatus⟩
  obtain ⟨o', -, rfl⟩ := getElem?_modify_cases ho
  rw [if_pos rfl] at hstatus
  exact hf o' hstatus

/-- A change to a worker keeps the handles on it, when it does not tell a worker to stop that nobody
waits for. -/
lemma Handles.updateWorker {s : State} {w : ℕ} {f : Worker → Worker} (hs : Handles s)
    (hhash : ∀ worker, (f worker).fileHash = worker.fileHash)
    (hobj : ∀ worker, (f worker).obj = worker.obj)
    (hwait : ∀ worker : Worker, s.workers[w]? = some worker → (f worker).phase ≠ .finished →
      (f worker).cancelEvent = true ∨ (f worker).cancelled = true →
      ∃ (p : ℕ) (pause : Pause), s.pauses[p]? = some pause ∧ pause.worker = w ∧
        pause.ended = false)
    (hraised : ∀ worker : Worker, s.workers[w]? = some worker →
      (worker.raised = true → worker.phase = .finished) → (f worker).raised = true →
      (f worker).phase = .finished) : Handles (s.updateWorker w f) where
  paired := hs.paired
  task h w' hw' := by
    obtain ⟨worker', hworker', hhash', hobj'⟩ := hs.task h w' hw'
    refine ⟨_, getElem?_modify_of_some f hworker', ?_, ?_⟩
    · rw [← hhash']
      split
      · exact hhash _
      · rfl
    · rw [show (s.updateWorker w f).downloads = s.downloads from rfl, hobj']
      split
      · rw [hobj]
      · rfl
  pause p pause hp := by
    obtain ⟨worker', hworker', hobj', hhash'⟩ := hs.pause p pause hp
    refine ⟨_, getElem?_modify_of_some f hworker', ?_, ?_⟩
    · rw [← hobj']
      split
      · exact hobj _
      · rfl
    · rw [← hhash']
      split
      · exact hhash _
      · rfl
  signalled w' worker' hw' hlive hsignal := by
    obtain ⟨worker, hw, rfl⟩ := getElem?_modify_cases hw'
    by_cases hww : w = w'
    · subst hww
      rw [if_pos rfl] at hlive hsignal
      exact hwait worker hw hlive hsignal
    · rw [if_neg hww] at hlive hsignal
      exact hs.signalled w' worker hw hlive hsignal
  raised w' worker' hw' := by
    obtain ⟨worker, hw, rfl⟩ := getElem?_modify_cases hw'
    by_cases hww : w = w'
    · subst hww
      rw [if_pos rfl]
      exact hraised worker hw (hs.raised w worker hw)
    · rw [if_neg hww]
      exact hs.raised w' worker hw

/-- A worker that goes on still holds its object. -/
lemma Held.updateWorker {s : State} {w i : ℕ} {f : Worker → Worker} (hi : Held s i)
    (hobj : ∀ worker, (f worker).obj = worker.obj)
    (hphase : ∀ worker : Worker, worker.phase ≠ .finished ∨ worker.raised = true →
      (f worker).phase ≠ .finished ∨ (f worker).raised = true) :
    Held (s.updateWorker w f) i := by
  obtain ⟨w', worker, hw', rfl, hlive⟩ := hi
  refine ⟨w', _, getElem?_modify_of_some f hw', ?_, ?_⟩
  · split
    · exact hobj _
    · rfl
  · split
    · exact hphase worker hlive
    · exact hlive

/-- A worker goes on, or ends in a way that leaves its object to a pause. -/
lemma control_setPhase {s : State} {w : ℕ} {worker : Worker} {phase : Phase} (hs : Control s)
    (hw : s.workers[w]? = some worker) (hlive : worker.phase ≠ .finished)
    (hend : phase = .finished → Running s worker.obj → Pausing s worker.obj) :
    Control (s.setPhase w phase) where
  toHandles := by
    refine hs.toHandles.updateWorker (fun _ => rfl) (fun _ => rfl) (fun worker' hw' _ hsignal => ?_)
      fun worker' hw' hold hraised => ?_
    · rw [hw, Option.some.injEq] at hw'
      subst hw'
      exact hs.signalled w worker hw hlive hsignal
    · rw [hw, Option.some.injEq] at hw'
      subst hw'
      exact absurd (hold hraised) hlive
  running i hi := by
    rcases hs.running i hi with hheld | hpausing
    · by_cases hphase : phase = .finished
      · obtain ⟨w', worker', hw', rfl, hlive'⟩ := hheld
        by_cases hww : w = w'
        · subst hww
          rw [hw, Option.some.injEq] at hw'
          subst hw'
          exact Or.inr (hend hphase hi)
        · exact Or.inl ⟨w', worker', (List.getElem?_modify_ne _ _ hww).trans hw', rfl, hlive'⟩
      · exact Or.inl (hheld.updateWorker (fun _ => rfl) fun _ _ => Or.inl hphase)
    · exact Or.inr hpausing

/-- A worker ends after it has set the status of its object. -/
lemma control_finish {s : State} {w : ℕ} {worker : Worker} (hs : Control s)
    (hw : s.workers[w]? = some worker) (hlive : worker.phase ≠ .finished)
    (hno : ¬ Running s worker.obj) : Control (s.setPhase w .finished) :=
  control_setPhase hs hw hlive fun _ hrun => absurd hrun hno

/-- A worker raises, which its object does not show. -/
lemma control_raise {s : State} {w : ℕ} (hs : Control s) : Control
    (s.updateWorker w fun worker => { worker with phase := .finished, raised := true }) where
  toHandles := hs.toHandles.updateWorker (fun _ => rfl) (fun _ => rfl)
    (fun _ _ hlive => absurd rfl hlive) fun _ _ _ _ => rfl
  running i hi := (hs.running i hi).imp_left fun hheld =>
    hheld.updateWorker (fun _ => rfl) fun _ _ => Or.inr rfl

lemma control_launch {s : State} {i : ℕ} (hs : Handles s)
    (hrun : ∀ j, j ≠ i → Running s j → Held s j ∨ Pausing s j) (h : String)
    (manifest : FileManifest) : Control ((s.track h i).launch h manifest i) := by
  have hold {w : ℕ} {worker : Worker} (hw : s.workers[w]? = some worker) :
      (s.workers ++ [{ fileHash := h, manifest := manifest, obj := i }])[w]? = some worker :=
    getElem?_append_of_some hw _
  have hnew := List.getElem?_concat_length (l := s.workers)
    (a := ({ fileHash := h, manifest := manifest, obj := i } : Worker))
  constructor
  · constructor
    · intro h'
      show (s.cancelEvents.set h _).get? h' = (s.tasks.set h _).get? h'
      rw [Dict.get?_set, Dict.get?_set, hs.paired]
    · intro h' w hw
      replace hw : (s.tasks.set h s.workers.length).get? h' = some w := hw
      show ∃ worker : Worker, _ ∧ _ ∧ (s.downloads.set h i).get? h' = some worker.obj
      rw [Dict.get?_set] at hw ⊢
      split at hw
      · next hh =>
        obtain rfl := Option.some.inj hw
        exact ⟨_, hnew, hh.symm, if_pos hh⟩
      · next hh =>
        obtain ⟨worker, hworker, hhash, hobj⟩ := hs.task h' w hw
        exact ⟨worker, hold hworker, hhash, by rw [if_neg hh, hobj]⟩
    · intro p pause hp
      obtain ⟨worker, hworker, hrest⟩ := hs.pause p pause hp
      exact ⟨worker, hold hworker, hrest⟩
    · intro w worker hw hlive hsignal
      rcases getElem?_concat_cases hw with hw | ⟨-, rfl⟩
      · exact hs.signalled w worker hw hlive hsignal
      · exact absurd hsignal (by simp)
    · intro w worker hw hraised
      rcases getElem?_concat_cases hw with hw | ⟨-, rfl⟩
      · exact hs.raised w worker hw hraised
      · cases hraised
  · rintro j ⟨h', o, hj, ho, hstatus⟩
    replace hj : (s.downloads.set h i).get? h' = some j := hj
    by_cases hij : j = i
    · exact Or.inl ⟨_, _, hnew, hij.symm, Or.inl (by simp)⟩
    · rw [Dict.get?_set] at hj
      split at hj
      · exact absurd (Option.some.inj hj).symm hij
      · rcases hrun j hij ⟨h', o, hj, ho, hstatus⟩ with ⟨w, worker, hw, hrest⟩ | hpausing
        · exact Or.inl ⟨w, worker, hold hw, hrest⟩
        · exact Or.inr hpausing

/-! ## The calls -/

/-- An object loaded from a file is not tracked yet. -/
lemma running_append {s : State} {o : DownloadState} {i : ℕ}
    (hi : Running { s with objects := s.objects ++ [o] } i) (hne : i ≠ s.objects.length) :
    Running s i := by
  obtain ⟨h, o', hj, ho, hstatus⟩ := hi
  rcases getElem?_concat_cases ho with ho | ⟨hlast, -⟩
  · exact ⟨h, o', hj, ho, hstatus⟩
  · exact absurd hlast hne

lemma running_assign_ne {s : State} {i j : ℕ} {f : DownloadState → DownloadState} (hne : j ≠ i)
    (hj : Running (s.assign i f) j) : Running s j := by
  obtain ⟨h, o, hj, ho, hstatus⟩ := hj
  rw [State.assign, List.getElem?_modify] at ho
  exact ⟨h, o, hj, by simpa [Ne.symm hne] using ho, hstatus⟩

variable {U : Set String} {count : String → ℕ}

lemma control_existing {s : State} (hi : Inv U count s) (hs : Control s) (h : String) :
    Control (s.existing h).1 := by
  unfold State.existing
  split
  · exact hs
  · split
    · exact hs
    · next f _ =>
      refine { hs with running := fun i hrun => ?_ }
      have hne : i ≠ s.objects.length := by
        rintro rfl
        obtain ⟨h', o, hj, -⟩ := hrun
        obtain ⟨o', ho', -⟩ := hi.tracked h' _ hj
        exact absurd (List.getElem?_eq_some_iff.1 ho').1 (Nat.lt_irrefl _)
      exact hs.running i (running_append hrun hne)

lemma control_prepare {s : State} (hs : Control s) (h : String) (manifest : FileManifest)
    (password : String) (found : Option (ℕ × DownloadState)) :
    Handles (prepare s h manifest password found).1 ∧
      ∀ j, j ≠ (prepare s h manifest password found).2 →
        Running (prepare s h manifest password found).1 j →
        Held (prepare s h manifest password found).1 j ∨
          Pausing (prepare s h manifest password found).1 j := by
  have hfresh : Handles (freshDownload s h manifest password).1 ∧
      ∀ j, j ≠ (freshDownload s h manifest password).2 →
        Running (freshDownload s h manifest password).1 j →
        Held (freshDownload s h manifest password).1 j ∨
          Pausing (freshDownload s h manifest password).1 j :=
    ⟨{ hs.toHandles with }, fun j hne hrun => hs.running j (running_append hrun hne)⟩
  unfold prepare
  split
  · exact hfresh
  · split
    · exact ⟨{ hs.toHandles with }, fun j hne hrun => hs.running j (running_assign_ne hne hrun)⟩
    · exact hfresh

lemma control_startDownload {s : State} (hi : Inv U count s) (hs : Control s) (h : String)
    (d : ManifestDict) (password : String) (written : Bool) :
    Control (startDownload s h d password written).1 := by
  unfold startDownload
  split
  · exact hs
  · next manifest _ =>
    have hex := control_existing hi hs h
    split
    · exact hs
    · dsimp only
      split
      · exact hex
      obtain ⟨hhandles, hrun⟩ := control_prepare hex h manifest password (s.existing h).2
      set prepared := prepare (s.existing h).1 h manifest password (s.existing h).2
      have hsaved : Handles (prepared.1.saveResume prepared.2 written) := { hhandles with }
      exact control_launch hsaved hrun h manifest

lemma control_resumeDownload {s : State} (hi : Inv U count s) (hs : Control s)
    (h password : String) (d : Option ManifestDict) :
    Control (resumeDownload s h password d).1 := by
  have hex := control_existing hi hs h
  unfold resumeDownload
  split
  · exact hs
  split
  · next hnone => exact (congrArg Prod.fst hnone) ▸ hex
  · next s' i o hsome =>
    rw [hsome] at hex
    split
    · exact hex
    · split
      · exact hex
      · split
        · exact hex
        · have hhandles : Handles (s'.assign i fun o => { o with
              status := .downloading, password := password }) := { hex.toHandles with }
          exact control_launch hhandles
            (fun j hne hrun => hex.running j (running_assign_ne hne hrun)) h _

/-- The end of a pause leaves its object paused. -/
lemma control_finishPause {s : State} (hs : Control s) (h : String) (i : ℕ) (written : Bool) :
    Control (finishPause s h i written) ∧ ¬ Running (finishPause s h i written) i := by
  have hpaused : Control (s.setStatus i .paused) := control_assign hs nofun
  refine ⟨{ hpaused with paired := fun h' => ?_, task := fun h' w hw => ?_ }, ?_⟩
  · show (s.cancelEvents.erase h).get? h' = (s.tasks.erase h).get? h'
    rw [Dict.get?_erase, Dict.get?_erase, hs.paired]
  · replace hw : (s.tasks.erase h).get? h' = some w := hw
    rw [Dict.get?_erase] at hw
    split at hw
    · cases hw
    · exact hs.task h' w hw
  · exact not_running_assign (s := s) (i := i) nofun

/-- A worker may be told to stop when it is over, or when somebody waits for it. -/
lemma control_signal {s : State} {w : ℕ} {f : Worker → Worker} (hs : Control s)
    (hhash : ∀ worker, (f worker).fileHash = worker.fileHash)
    (hobj : ∀ worker, (f worker).obj = worker.obj)
    (hphase : ∀ worker, (f worker).phase = worker.phase)
    (hraised : ∀ worker, (f worker).raised = worker.raised)
    (hwait : ∀ worker : Worker, s.workers[w]? = some worker → worker.phase ≠ .finished →
      ∃ (p : ℕ) (pause : Pause), s.pauses[p]? = some pause ∧ pause.worker = w ∧
        pause.ended = false) : Control (s.updateWorker w f) where
  toHandles := by
    refine hs.toHandles.updateWorker hhash hobj (fun worker hw hlive _ => ?_)
      fun worker _ hold => ?_
    · rw [hphase] at hlive
      exact hwait worker hw hlive
    · rw [hphase, hraised]
      exact hold
  running i hi := by
    refine (hs.running i hi).imp_left fun hheld => hheld.updateWorker hobj ?_
    intro worker hlive
    rw [hphase, hraised]
    exact hlive

/-- A pause begins to wait for the task of its file. -/
lemma control_addPause {s : State} {w : ℕ} {worker : Worker} (hs : Control s)
    (hw : s.workers[w]? = some worker) : Control { s with pauses := s.pauses ++
      [{ fileHash := worker.fileHash, obj := worker.obj, worker := w }] } := by
  have hold {p : ℕ} {pause : Pause} (hp : s.pauses[p]? = some pause) :
      (s.pauses ++ [{ fileHash := worker.fileHash, obj := worker.obj, worker := w }])[p]? =
        some pause :=
    getElem?_append_of_some hp _
  refine { hs with pause := fun p pause hp => ?_, signalled := ?_, running := fun i hi => ?_ }
  · rcases getElem?_concat_cases hp with hp | ⟨-, rfl⟩
    · exact hs.pause p pause hp
    · exact ⟨worker, hw, rfl, rfl⟩
  · intro w' worker' hw' hlive hsignal
    obtain ⟨p, pause, hp, hrest⟩ := hs.signalled w' worker' hw' hlive hsignal
    exact ⟨p, pause, hold hp, hrest⟩
  · refine (hs.running i hi).imp_right ?_
    rintro ⟨p, pause, hp, hrest⟩
    exact ⟨p, pause, hold hp, hrest⟩

lemma finished_of_taskDone {s : State} {w : ℕ} {worker : Worker} (hdone : taskDone s w = true)
    (hw : s.workers[w]? = some worker) : worker.phase = .finished := by
  rw [taskDone, hw] at hdone
  simpa using hdone

lemma control_pauseDownload {s : State} (hs : Control s) (h : String) (written : Bool) :
    Control (pauseDownload s h written) := by
  unfold pauseDownload
  split
  · exact hs
  · next i hi =>
    split
    · unfold signalCancel
      rw [hs.paired]
      cases htask : s.tasks.get? h with
      | none =>
        unfold awaitTask
        dsimp only
        rw [htask]
        exact (control_finishPause hs h i written).1
      | some w =>
        obtain ⟨worker, hw, rfl, hobj⟩ := hs.task h w htask
        rw [hi, Option.some.injEq] at hobj
        unfold awaitTask
        dsimp only
        rw [show (s.updateWorker w fun worker => { worker with cancelEvent := true }).tasks =
          s.tasks from rfl, htask]
        dsimp only
        split
        · next hdone =>
          have hsignalled : Control
              (s.updateWorker w fun worker => { worker with cancelEvent := true }) := by
            refine control_signal hs (fun _ => rfl) (fun _ => rfl) (fun _ => rfl) (fun _ => rfl)
              fun worker' hw' hlive => ?_
            have hfin := finished_of_taskDone hdone (getElem?_modify_of_some _ hw')
            rw [if_pos rfl] at hfin
            exact absurd hfin hlive
          exact (control_finishPause hsignalled _ i written).1
        · rw [hobj]
          refine control_signal (control_addPause hs hw) (fun _ => rfl) (fun _ => rfl)
            (fun _ => rfl) (fun _ => rfl) fun _ _ _ => ?_
          exact ⟨_, _, List.getElem?_concat_length .., rfl, rfl⟩
    · exact hs

/-- A pause changes; it may end when its task is over, and has raised or left an object that is not
running. -/
lemma control_updatePause {s : State} {p : ℕ} {pause : Pause} {f : Pause → Pause} (hs : Control s)
    (hp : s.pauses[p]? = some pause) (hhash : (f pause).fileHash = pause.fileHash)
    (hobj : (f pause).obj = pause.obj) (hworker : (f pause).worker = pause.worker)
    (hended : (f pause).ended = pause.ended ∨
      taskDone s pause.worker = true ∧ (Running s pause.obj → Held s pause.obj)) :
    Control (s.updatePause p f) := by
  refine { hs with pause := fun p' pause' hp' => ?_, signalled := ?_, running := fun i hi => ?_ }
  · obtain ⟨pause'', hp'', rfl⟩ := getElem?_modify_cases hp'
    split
    · next hpp =>
      subst hpp
      rw [hp, Option.some.injEq] at hp''
      subst hp''
      rw [hworker, hobj, hhash]
      exact hs.pause p pause hp
    · exact hs.pause p' pause'' hp''
  · intro w worker hw hlive hsignal
    obtain ⟨p', pause', hp', hpw, hpover⟩ := hs.signalled w worker hw hlive hsignal
    refine ⟨p', _, getElem?_modify_of_some f hp', ?_⟩
    split
    · next hpp =>
      subst hpp
      rw [hp, Option.some.injEq] at hp'
      subst hp'
      rcases hended with hended | ⟨hdone, -⟩
      · exact ⟨hworker.trans hpw, hended.trans hpover⟩
      · exact absurd (finished_of_taskDone hdone (hpw ▸ hw)) hlive
    · exact ⟨hpw, hpover⟩
  · rcases hs.running i hi with hheld | ⟨p', pause', hp', hpi, hpover⟩
    · exact Or.inl hheld
    by_cases hpp : p = p'
    · subst hpp
      rw [hp, Option.some.injEq] at hp'
      subst hp'
      rcases hended with hended | ⟨-, hheld⟩
      · refine Or.inr ⟨p, _, getElem?_modify_of_some f hp, ?_⟩
        rw [if_pos rfl]
        exact ⟨hobj.trans hpi, hended.trans hpover⟩
      · exact Or.inl (hpi ▸ hheld (hpi ▸ hi))
    · refine Or.inr ⟨p', _, getElem?_modify_of_some f hp', ?_⟩
      rw [if_neg hpp]
      exact ⟨hpi, hpover⟩

/-- A pause goes on after its wait. -/
lemma control_leavePause {s : State} {p : ℕ} {pause : Pause} (hs : Control s)
    (hp : s.pauses[p]? = some pause) (hdone : taskDone s pause.worker = true) (written : Bool) :
    Control ((leavePause s pause written).updatePause p
      fun pause => { pause with ended := true }) := by
  unfold leavePause
  split
  · next hraised =>
    refine control_updatePause hs hp rfl rfl rfl (Or.inr ⟨hdone, fun _ => ?_⟩)
    obtain ⟨worker, hw, hobj, -⟩ := hs.pause p pause hp
    rw [taskRaised, hw] at hraised
    exact ⟨pause.worker, worker, hw, hobj, Or.inr hraised⟩
  · obtain ⟨hfinished, hno⟩ := control_finishPause hs pause.fileHash pause.obj written
    exact control_updatePause hfinished hp rfl rfl rfl
      (Or.inr ⟨hdone, fun hrun => absurd hrun hno⟩)

lemma control_clearCompleted {s : State} (hs : Control s) : Control (clearCompleted s) := by
  unfold clearCompleted
  dsimp only
  generalize List.filter _ _ = entries
  induction entries generalizing s with
  | nil => exact hs
  | cons e entries ih =>
    refine ih { hs with paired := fun h => ?_, task := fun h w hw => ?_, running := ?_ }
    · show (s.cancelEvents.erase e.1).get? h = (s.tasks.erase e.1).get? h
      rw [Dict.get?_erase, Dict.get?_erase, hs.paired]
    · replace hw : (s.tasks.erase e.1).get? h = some w := hw
      show ∃ worker : Worker, _ ∧ _ ∧ (s.downloads.erase e.1).get? h = some worker.obj
      rw [Dict.get?_erase] at hw ⊢
      split at hw
      · cases hw
      · next hne =>
        rw [if_neg hne]
        exact hs.task h w hw
    · rintro i ⟨h, o, hi, hrest⟩
      replace hi : (s.downloads.erase e.1).get? h = some i := hi
      rw [Dict.get?_erase] at hi
      split at hi
      · cases hi
      · exact hs.running i ⟨h, o, hi, hrest⟩

/-! ## The worker -/

lemma control_workerLoop {s : State} {w : ℕ} {worker : Worker} (hs : Control s)
    (hw : s.workers[w]? = some worker) (hlive : worker.phase ≠ .finished) (rest : List ChunkInfo)
    (missingSet : List ℤ) (n : ℕ) (written : Bool) :
    Control (workerLoop s w worker rest missingSet n written) := by
  unfold workerLoop
  split
  · split
    · next hcancel =>
      exact control_setPhase hs hw hlive
        fun _ _ => hs.pausing_of_signalled hw hlive (Or.inl hcancel)
    · exact control_setPhase hs hw hlive nofun
  · have hsaved : Control (s.saveResume worker.obj written) := { hs with }
    exact control_setPhase hsaved hw hlive nofun

lemma control_workerRaises {s : State} {w : ℕ} {worker : Worker} (hs : Control s)
    (hw : s.workers[w]? = some worker) (hlive : worker.phase ≠ .finished) (sorted : Bool)
    (message : String) (written : Bool) :
    Control (workerRaises s w worker sorted message written) := by
  unfold workerRaises
  split
  · have herror : Control (s.setError worker.obj message) := control_assign hs nofun
    have hsaved : Control ((s.setError worker.obj message).saveResume worker.obj written) :=
      { herror with }
    have hno : ¬ Running (s.setError worker.obj message) worker.obj := not_running_assign nofun
    exact control_finish hsaved hw hlive hno
  · exact control_raise hs

lemma control_chunkFetched {s : State} {w : ℕ} {worker : Worker} {info : ChunkInfo} (hs : Control s)
    (hw : s.workers[w]? = some worker) (hlive : worker.phase ≠ .finished) (rest : List ChunkInfo)
    (missingSet : List ℤ) (n : ℕ) (error : Option String) (written : Bool) :
    Control (chunkFetched s w worker info rest missingSet n error written) := by
  cases error with
  | some message =>
    have hsaved : Control (s.saveResume worker.obj written) := { hs with }
    have herror : Control ((s.saveResume worker.obj written).setError worker.obj message) :=
      control_assign hsaved nofun
    exact control_finish herror hw hlive (not_running_assign nofun)
  | none =>
    have hmarked : Control (s.markCompleted worker.obj info.index) :=
      control_assign hs fun _ h => h
    have hsaved : Control ((s.markCompleted worker.obj info.index).saveResume worker.obj written) :=
      { hmarked with }
    unfold chunkFetched
    dsimp only
    split
    · exact control_workerLoop hsaved hw hlive ..
    · exact control_workerLoop hmarked hw hlive ..

lemma control_mergeDone {s : State} {w : ℕ} {worker : Worker} (hs : Control s)
    (hw : s.workers[w]? = some worker) (hlive : worker.phase ≠ .finished) (error : Option String)
    (written : Bool) : Control (mergeDone s w worker error written) := by
  cases error with
  | some message =>
    have herror : Control (s.setError worker.obj ("Merge failed: " ++ message)) :=
      control_assign hs nofun
    have hsaved : Control ((s.setError worker.obj ("Merge failed: " ++ message)).saveResume
      worker.obj written) := { herror with }
    have hno : ¬ Running (s.setError worker.obj ("Merge failed: " ++ message)) worker.obj :=
      not_running_assign nofun
    exact control_finish hsaved hw hlive hno
  | none =>
    have hcompleted : Control (s.setStatus worker.obj .completed) := control_assign hs nofun
    have hdeleted : Control (((s.setStatus worker.obj .completed).saveResume worker.obj
      written).deleteResume worker.fileHash) := { hcompleted with }
    have hno : ¬ Running (s.setStatus worker.obj .completed) worker.obj :=
      not_running_assign nofun
    exact control_finish hdeleted hw hlive hno

lemma control_workerCancelled {s : State} {w : ℕ} {worker : Worker} (hs : Control s)
    (hw : s.workers[w]? = some worker) (hlive : worker.phase ≠ .finished)
    (hcancelled : worker.cancelled = true) (written : Bool) :
    Control (workerCancelled s w worker written) := by
  unfold workerCancelled
  split
  · exact control_setPhase hs hw hlive
      fun _ _ => hs.pausing_of_signalled hw hlive (Or.inr hcancelled)
  · have hpaused : Control (s.setStatus worker.obj .paused) := control_assign hs nofun
    have hsaved : Control ((s.setStatus worker.obj .paused).saveResume worker.obj written) :=
      { hpaused with }
    have hno : ¬ Running (s.setStatus worker.obj .paused) worker.obj := not_running_assign nofun
    exact control_finish hsaved hw hlive hno

/-! ## A new process -/

/-- A new process has no tasks, and takes every download for paused. -/
lemma control_restart (files : Dict String ResumeDict) : Control (restart files) := by
  have hrecovered (s : State) (fs : List ResumeDict) (hhandles : Handles s)
      (hpaused : ∀ o ∈ s.objects, o.status = .paused) (htasks : s.tasks = ∅) :
      Control (fs.foldl recoverFile s) := by
    induction fs generalizing s with
    | nil =>
      refine { hhandles with running := ?_ }
      rintro i ⟨h, o, -, ho, hstatus⟩
      rw [hpaused o (List.mem_of_getElem? ho)] at hstatus
      cases hstatus
    | cons f fs ih =>
      refine ih _ { hhandles with task := fun h w hw => ?_ } (fun o ho => ?_) htasks
      · replace hw : s.tasks.get? h = some w := hw
        rw [htasks] at hw
        cases hw
      · rcases List.mem_append.1 ho with ho | ho
        · exact hpaused o ho
        · rw [List.mem_singleton.1 ho]
  exact hrecovered _ _ { control_init.toHandles with } (by simp) rfl

/-! ## Every run -/

/-- **Step lemma.** -/
lemma control_exec {s t : State} {l : Label} (hi : Inv U count s) (hs : Control s)
    (h : machine.exec s l = some t) : Control t := by
  rw [machine_exec] at h
  cases l with
  | start h' d password written =>
    exact Option.some.inj h ▸ control_startDownload hi hs h' d password written
  | pause h' written => exact Option.some.inj h ▸ control_pauseDownload hs h' written
  | pauseTimeout p =>
    obtain ⟨pause, hp, hended, rfl⟩ := exec_pauseTimeout h
    have hpause := control_updatePause (f := fun pause => { pause with cancelling := true }) hs
      hp rfl rfl rfl (Or.inl rfl)
    refine control_signal hpause (fun _ => rfl) (fun _ => rfl) (fun _ => rfl) (fun _ => rfl)
      fun _ _ _ => ?_
    refine ⟨p, _, getElem?_modify_of_some _ hp, ?_⟩
    rw [if_pos rfl]
    exact ⟨rfl, hended⟩
  | pauseDone p written =>
    obtain ⟨pause, hp, -, hdone, rfl⟩ := exec_pauseDone h
    exact control_leavePause hs hp hdone written
  | resume h' password d =>
    exact Option.some.inj h ▸ control_resumeDownload hi hs h' password d
  | clear => exact Option.some.inj h ▸ control_clearCompleted hs
  | begin w written =>
    obtain ⟨worker, hw, hcreated, rfl⟩ := exec_begin h
    have hlive : worker.phase ≠ .finished := by simp [hcreated]
    unfold workerStart
    split
    · exact hs
    · exact control_workerLoop hs hw hlive ..
  | beginRaises w sorted message written =>
    obtain ⟨worker, hw, hcreated, -, rfl⟩ := exec_beginRaises h
    exact control_workerRaises hs hw (by simp [hcreated]) sorted message written
  | fetched w error written =>
    obtain ⟨worker, info, rest, missingSet, n, hw, hphase, rfl⟩ := exec_fetched h
    exact control_chunkFetched hs hw (by simp [hphase]) ..
  | merged w error written =>
    obtain ⟨worker, hw, hphase, rfl⟩ := exec_merged h
    exact control_mergeDone hs hw (by simp [hphase]) ..
  | cancelled w written =>
    obtain ⟨worker, hw, hcancelled, hlive, rfl⟩ := exec_cancelled h
    exact control_workerCancelled hs hw hlive hcancelled written
  | crash => exact Option.some.inj h ▸ control_restart s.files
  | crashInMerge w written =>
    obtain ⟨worker, -, -, rfl⟩ := exec_crashInMerge h
    exact control_restart _

lemma control_of_reachable {s : State} (hs : machine.Reachable s) :
    Inv ∅ (fun _ => 0) s ∧ Control s :=
  hs.invariant (I := fun s => Inv ∅ (fun _ => 0) s ∧ Control s) ⟨inv_init, control_init⟩
    fun _ _ _ hs h => ⟨inv_step hs.1 h, control_exec hs.1 hs.2 h⟩

/-! ## When a download can be started -/

/-- No worker for the file is live, and no pause of it is in progress. -/
structure Idle (s : State) (h : String) : Prop where
  workers : ∀ worker ∈ s.workers, worker.fileHash = h → worker.phase = .finished
  pauses : ∀ pause ∈ s.pauses, pause.fileHash = h → pause.ended = true

/-- `start_download` launches a worker for the file, and leaves it tracked as `downloading`. -/
def Launches (s : State) (h : String) (d : ManifestDict) (password : String) (written : Bool) :
    Prop :=
  ∃ (worker : Worker) (o : DownloadState),
    (startDownload s h d password written).1.workers = s.workers ++ [worker] ∧
    worker.fileHash = h ∧ worker.phase = .created ∧
    (startDownload s h d password written).1.downloads.get? h = some worker.obj ∧
    (startDownload s h d password written).1.objects[worker.obj]? = some o ∧
    o.fileHash = h ∧ o.status = .downloading

/-- A worker of the tracked download was thrown out by `sorted`, and has left its status
`downloading`. -/
def Abandoned (s : State) (i : ℕ) : Prop :=
  (∃ worker ∈ s.workers, worker.obj = i ∧ worker.raised = true) ∧
    ∃ o, s.objects[i]? = some o ∧ o.status = .downloading

/-- An idle download that the manager finds by its hash can be started. -/
def Startable (s : State) (h : String) : Prop :=
  match s.downloads.get? h with
  | some i => ¬ Abandoned s i
  | none => ¬ TooLong (State.resumeName h) ∧
      ∀ f, s.files.get? h = some f → f.status ≠ .downloading

/-- An idle tracked download with the status `downloading` is abandoned. -/
lemma abandoned_of_running {s : State} {h : String} {i : ℕ} (hi : Inv U count s) (hs : Control s)
    (hidle : Idle s h) (htracked : s.downloads.get? h = some i) (hrun : Running s i) :
    Abandoned s i := by
  obtain ⟨o, ho, hhash⟩ := hi.tracked h i htracked
  have howner {w : ℕ} {worker : Worker} (hw : s.workers[w]? = some worker) (hobj : worker.obj = i) :
      worker.fileHash = h := by
    obtain ⟨-, o', ho', hhash', -⟩ := hi.worker w worker hw
    rw [hobj, ho, Option.some.injEq] at ho'
    rw [← hhash', ← ho', hhash]
  rcases hs.running i hrun with ⟨w, worker, hw, hobj, hlive⟩ | ⟨p, pause, hp, hobj, hended⟩
  · have hmem := List.mem_of_getElem? hw
    have hraised := hlive.resolve_left (not_not_intro (hidle.workers worker hmem (howner hw hobj)))
    obtain ⟨-, o', -, ho', hstatus⟩ := hrun
    exact ⟨⟨worker, hmem, hobj, hraised⟩, o', ho', hstatus⟩
  · obtain ⟨worker, hw, hobj', hhash'⟩ := hs.pause p pause hp
    have hpause := hidle.pauses pause (List.mem_of_getElem? hp)
      (hhash' ▸ howner hw (hobj'.trans hobj))
    rw [hended] at hpause
    exact absurd hpause Bool.false_ne_true

lemma workers_existing (s : State) (h : String) : (s.existing h).1.workers = s.workers := by
  unfold State.existing
  split
  · rfl
  · split <;> rfl

lemma workers_prepare (s : State) (h : String) (manifest : FileManifest) (password : String)
    (found : Option (ℕ × DownloadState)) :
    (prepare s h manifest password found).1.workers = s.workers := by
  unfold prepare
  split
  · rfl
  · split <;> rfl

/-- What `start_download` decides on. -/
lemma launches_iff_filter {s : State} (hi : Inv ∅ (fun _ => 0) s) {h : String}
    {d : ManifestDict} {manifest : FileManifest} (hm : FileManifest.fromDict d = .ok manifest)
    (password : String) (written : Bool) : Launches s h d password written ↔ ¬ s.lookupRaises h ∧
      (s.existing h).2.filter (fun e => e.2.status = .downloading) = none := by
  unfold Launches startDownload
  rw [hm]
  dsimp only
  by_cases hraises : s.lookupRaises h
  · rw [if_pos hraises]
    refine iff_of_false ?_ fun hno => hno.1 hraises
    rintro ⟨worker, o, hworkers, -⟩
    simpa using congrArg List.length hworkers
  rw [if_neg hraises]
  cases hfound : (s.existing h).2.filter (fun e => e.2.status = .downloading) with
  | some e =>
    refine iff_of_false ?_ fun hno => absurd hno.2 nofun
    rintro ⟨worker, o, hworkers, -⟩
    have hlen := congrArg List.length (hworkers.symm.trans (workers_existing s h))
    simp at hlen
  | none =>
    refine iff_of_true ?_ ⟨hraises, rfl⟩
    obtain ⟨hex, hspec⟩ := existing_spec hi h
    have hindexed : h ∈ (∅ : Set String) → Indexed 0 manifest := False.elim
    obtain ⟨-, o, ho, hhash, hstatus⟩ := prepare_spec hex hspec hindexed password
    refine ⟨{ fileHash := h, manifest := manifest, obj :=
      (prepare (s.existing h).1 h manifest password (s.existing h).2).2 }, o, ?_, rfl, rfl,
      Dict.get?_set_self .., ho, hhash, hstatus⟩
    show (prepare (s.existing h).1 h manifest password (s.existing h).2).1.workers ++ _ = _
    rw [workers_prepare, workers_existing]

/-- **When an idle download can be started**: a tracked one unless a worker that raised has left it
`downloading`, and one that is not tracked unless its file says so, or cannot be looked for. -/
theorem start_launches_iff {s : State} (hs : machine.Reachable s) {h : String} (hidle : Idle s h)
    {d : ManifestDict} {manifest : FileManifest} (hm : FileManifest.fromDict d = .ok manifest)
    (password : String) (written : Bool) : Launches s h d password written ↔ Startable s h := by
  obtain ⟨hi, hcontrol⟩ := control_of_reachable hs
  rw [launches_iff_filter hi hm, Option.filter_eq_none_iff]
  unfold Startable State.lookupRaises State.existing
  cases hdown : s.downloads.get? h with
  | some i =>
    obtain ⟨o, ho, -⟩ := hi.tracked h i hdown
    simp only [reduceCtorEq, false_and, not_false_eq_true, true_and, ho]
    constructor
    · rintro hno ⟨-, o', ho', hstatus⟩
      rw [ho, Option.some.injEq] at ho'
      subst ho'
      simpa [hstatus] using hno (i, o) rfl
    · intro hno e he
      obtain rfl := Option.some.inj he
      simpa using fun hstatus => hno
        (abandoned_of_running hi hcontrol hidle hdown ⟨h, o, hdown, ho, hstatus⟩)
  | none =>
    cases hfile : s.files.get? h with
    | none => simp
    | some f => simp [DownloadState.fromResumeDict]

/-- A download whose first chunk cannot be fetched. -/
def chunkFailure : List Label :=
  [.start "h" twoChunkManifest "" true, .begin 0 true, .fetched 0 (some "timeout") true]

/-- The state after `chunkFailure`. -/
def failed : State where
  objects := [⟨"h", "a", 2, 2, [0, 1], [], .error, "timeout", ""⟩]
  workers := [{ fileHash := "h", manifest := twoChunks, obj := 0, phase := .finished }]
  downloads := (∅ : Dict String ℕ).set "h" 0
  tasks := (∅ : Dict String ℕ).set "h" 0
  cancelEvents := (∅ : Dict String ℕ).set "h" 0
  files := (∅ : Dict String ResumeDict).set "h" ⟨"h", "a", 2, 2, [0, 1], [], .downloading⟩

lemma run_chunkFailure : machine.run {} chunkFailure = some failed := rfl

lemma idle_failed : Idle failed "h" where
  workers worker hw _ := by rw [List.mem_singleton.1 hw]
  pauses pause hp := absurd hp List.not_mem_nil

theorem start_launches_iff_failed : Launches failed "h" twoChunkManifest "" true :=
  have hvalid : FileManifest.fromDict twoChunkManifest = .ok twoChunks := rfl
  (start_launches_iff ⟨chunkFailure, run_chunkFailure⟩ idle_failed hvalid "" true).2
    fun habandoned => by
      obtain ⟨⟨worker, hmem, -, hraised⟩, -⟩ := habandoned
      rw [List.mem_singleton.1 hmem] at hraised
      cases hraised

/-- **A failed download that was cleared cannot be started again**: its file still says
`downloading`. -/
theorem cleared_download_not_restarted : ¬ ∀ (s : State) (h : String) (d : ManifestDict)
    (manifest : FileManifest) (password : String) (written : Bool), machine.Reachable s →
    Idle s h → FileManifest.fromDict d = .ok manifest → Launches s h d password written := by
  intro hall
  have hreach : machine.Reachable (clearCompleted failed) :=
    Machine.Reachable.step (l := .clear) ⟨chunkFailure, run_chunkFailure⟩ rfl
  have hidle : Idle (clearCompleted failed) "h" := ⟨idle_failed.workers, idle_failed.pauses⟩
  obtain ⟨worker, -, hworkers, -⟩ :=
    hall (clearCompleted failed) "h" twoChunkManifest twoChunks "" true hreach hidle rfl
  have hlen : 1 = 2 := congrArg List.length hworkers
  exact absurd hlen (by decide)

end DistriStore.DownloadManager
