import DistriStore.Api.DownloadWorkers

/-!
# How far a `.resume` file is behind

A worker writes the `.resume` file of its download after every `FLUSH_INTERVAL` chunks, and whoever
ends a worker or begins anew writes it as well, so the file is never far behind the object in
memory.  `Behind` says how far: the file lacks the last chunks that the object counts, `n` of them
at most.  What `n` may be depends on who is at work (`Allows`): a worker that waits for a chunk
allows what it has counted since the last flush, and a file at rest allows nothing, but for the time
between the end of a worker and the return of the pause that it ended for.

The counter of a worker begins at zero, so this only holds if every worker finds the file up to
date.  The steps of a worker keep the invariant (`Paced`) here; the requests, the pauses and the
crashes follow in `DownloadCrash`.
-/

namespace DistriStore.DownloadManager

open Lib

/-! ## How far a file is behind -/

/-- The tracked object of the file counts what its `.resume` file does, and `n` more chunks at
most. -/
def Behind (s : State) (h : String) (n : ℕ) : Prop :=
  ∀ (i : ℕ) (o : DownloadState) (f : ResumeDict), s.downloads.get? h = some i →
    s.objects[i]? = some o → s.files.get? h = some f →
    ∃ extra : List ℤ, o.completedChunks = f.completedChunks ++ extra ∧ extra.length ≤ n

section Statements

variable {s t : State} {h : String} {i w n m : ℕ}

lemma Behind.mono (hs : Behind s h n) (hle : n ≤ m) : Behind s h m := by
  intro i o f hi ho hf
  obtain ⟨extra, heq, hlen⟩ := hs i o f hi ho hf
  exact ⟨extra, heq, hlen.trans hle⟩

/-- An assignment that does not touch the completed chunks. -/
lemma Behind.assign {f : DownloadState → DownloadState} (hs : Behind s h n)
    (hf : ∀ o, (f o).completedChunks = o.completedChunks) : Behind (s.assign i f) h n := by
  intro j o r hj ho hr
  obtain ⟨o', ho', rfl⟩ := getElem?_modify_cases ho
  have hcompleted : (if i = j then f o' else o').completedChunks = o'.completedChunks := by
    split
    · exact hf o'
    · rfl
  rw [hcompleted]
  exact hs j o' r hj ho' hr

/-- One more chunk. -/
lemma Behind.markCompleted (hs : Behind s h n) (index : ℤ) :
    Behind (s.markCompleted i index) h (n + 1) := by
  intro j o r hj ho hr
  obtain ⟨o', ho', rfl⟩ := getElem?_modify_cases ho
  obtain ⟨extra, heq, hlen⟩ := hs j o' r hj ho' hr
  split
  · dsimp only
    split
    · exact ⟨extra, heq, hlen.trans (Nat.le_succ n)⟩
    · refine ⟨extra ++ [index], by rw [heq, List.append_assoc], ?_⟩
      rw [List.length_append, List.length_singleton]
      omega
  · exact ⟨extra, heq, hlen.trans (Nat.le_succ n)⟩

/-- A chunk of another file. -/
lemma Behind.markCompleted_other (hs : Behind s h n) (index : ℤ)
    (hother : s.downloads.get? h ≠ some i) : Behind (s.markCompleted i index) h n := by
  intro j o r hj ho hr
  obtain ⟨o', ho', rfl⟩ := getElem?_modify_cases ho
  have hij : i ≠ j := by
    rintro rfl
    exact hother hj
  rw [if_neg hij]
  exact hs j o' r hj ho' hr

/-- A write brings the file up to date, or is about another file. -/
lemma Behind.saveResume (hs : Behind s h n) (written : Bool)
    (hown : ∀ o : DownloadState, s.objects[i]? = some o → o.fileHash = h →
      s.downloads.get? h = some i) : Behind (s.saveResume i written) h n := by
  intro j o r hj ho hr
  replace hj : s.downloads.get? h = some j := hj
  replace ho : s.objects[j]? = some o := ho
  unfold State.saveResume at hr
  dsimp only at hr
  split at hr
  · exact hs j o r hj ho hr
  · next o' ho' =>
    split at hr
    · rw [Dict.get?_set] at hr
      split at hr
      · next hh =>
        obtain rfl := Option.some.inj hr
        obtain rfl : j = i := Option.some.inj (hj.symm.trans (hown o' ho' hh.symm))
        obtain rfl : o = o' := Option.some.inj (ho.symm.trans ho')
        exact ⟨[], by simp [DownloadState.toResumeDict], Nat.zero_le n⟩
      · exact hs j o r hj ho hr
    · exact hs j o r hj ho hr

lemma behind_saveResume {o : DownloadState} (hi : s.downloads.get? h = some i)
    (ho : s.objects[i]? = some o) (hhash : o.fileHash = h) :
    Behind (s.saveResume i true) h 0 := by
  intro j o' r hj ho' hr
  obtain rfl : i = j := Option.some.inj (hi.symm.trans hj)
  obtain rfl : o = o' := Option.some.inj (ho.symm.trans ho')
  simp only [State.saveResume, ho, hhash, if_true, Dict.get?_set_self, Option.some.injEq] at hr
  subst hr
  exact ⟨[], by simp [DownloadState.toResumeDict], Nat.zero_le 0⟩

lemma Behind.deleteResume (hs : Behind s h n) (fileHash : String) :
    Behind (s.deleteResume fileHash) h n := by
  intro j o r hj ho hr
  rw [State.deleteResume, Dict.get?_erase] at hr
  split at hr
  · cases hr
  · exact hs j o r hj ho hr

/-- A new object is not tracked yet. -/
lemma Behind.append (hs : Behind s h n) (hi : Inv ∅ (fun _ => 0) s)
    (loaded : List DownloadState) : Behind { s with objects := s.objects ++ loaded } h n := by
  intro j o r hj ho hr
  obtain ⟨o', ho', -⟩ := hi.tracked h j hj
  obtain rfl : o' = o :=
    Option.some.inj ((getElem?_append_of_some ho' loaded).symm.trans ho)
  exact hs j o' r hj ho' hr

lemma Behind.track_other (hs : Behind s h n) {h' : String} (hne : h' ≠ h) :
    Behind (s.track h' i) h n := by
  intro j o r hj ho hr
  rw [State.track, Dict.get?_set_ne _ _ hne.symm] at hj
  exact hs j o r hj ho hr

/-! ## What is allowed -/

/-- A pause of the file is in progress, and will write the file. -/
def PauseOpen (s : State) (h : String) : Prop :=
  ∃ (p : ℕ) (pause : Pause), s.pauses[p]? = some pause ∧ pause.fileHash = h ∧
    pause.ended = false ∧ taskRaised s pause.worker = false

lemma taskRaised_updateWorker {f : Worker → Worker} {v : ℕ}
    (hraised : ∀ worker : Worker, w = v → (f worker).raised = worker.raised) :
    taskRaised (s.updateWorker w f) v = taskRaised s v := by
  unfold taskRaised State.updateWorker
  dsimp only
  rw [List.getElem?_modify]
  cases s.workers[v]? with
  | none => rfl
  | some worker =>
    by_cases hwv : w = v
    · simp [hwv, hraised worker hwv]
    · simp [hwv]

lemma PauseOpen.updateWorker {f : Worker → Worker} (hopen : PauseOpen s h)
    (hraised : ∀ worker, (f worker).raised = worker.raised) : PauseOpen (s.updateWorker w f) h := by
  obtain ⟨p, pause, hp, hhash, hended, hcaught⟩ := hopen
  exact ⟨p, pause, hp, hhash, hended,
    (taskRaised_updateWorker fun worker _ => hraised worker).trans hcaught⟩

/-- `chunks_since_flush`. -/
def Phase.sinceFlush : Phase → ℕ
  | .fetching _ _ _ n => n
  | _ => 0

/-- How far the file may be behind. -/
inductive Allows (s : State) (h : String) : ℕ → Prop where
  | always : Allows s h (flushInterval - 1)
  | working (w : ℕ) (worker : Worker) (hw : s.workers[w]? = some worker)
      (hhash : worker.fileHash = h) (hlive : worker.phase ≠ .finished) :
      Allows s h worker.phase.sinceFlush
  | resting (hidle : ¬ Busy s h) (hclosed : ¬ PauseOpen s h) : Allows s h 0

/-- The file is not further behind than it may be, and never by `FLUSH_INTERVAL` chunks. -/
def Flushed (s : State) (h : String) : Prop :=
  ∀ n, Allows s h n → Behind s h n ∧ n < flushInterval

/-- A step that does not bring memory further ahead, and allows no more. -/
lemma Flushed.keep (hs : Flushed s h) (hbehind : ∀ n, Behind s h n → Behind t h n)
    (hallows : ∀ n, Allows t h n → Allows s h n) : Flushed t h := fun n hn =>
  ⟨hbehind n (hs n (hallows n hn)).1, (hs n (hallows n hn)).2⟩


/-- The live workers of the file are the same, and its pauses are still in progress. -/
lemma Allows.of_same (ht : Allows t h n)
    (hworker : ∀ (w : ℕ) (worker : Worker), t.workers[w]? = some worker → worker.fileHash = h →
      worker.phase ≠ .finished → ∃ worker' : Worker, s.workers[w]? = some worker' ∧
        worker'.fileHash = h ∧ worker'.phase = worker.phase)
    (hbusy : Busy s h → Busy t h) (hopen : PauseOpen s h → PauseOpen t h) : Allows s h n := by
  cases ht with
  | always => exact .always
  | working w worker hw hhash hlive =>
    obtain ⟨worker', hw', hhash', hphase⟩ := hworker w worker hw hhash hlive
    rw [← hphase] at hlive ⊢
    exact .working w worker' hw' hhash' hlive
  | resting hidle hclosed => exact .resting (mt hbusy hidle) (mt hopen hclosed)

lemma Allows.of_eq (ht : Allows t h n) (hworkers : t.workers = s.workers)
    (hpauses : t.pauses = s.pauses) : Allows s h n := by
  refine ht.of_same (fun w worker hw hhash _ => ⟨worker, hworkers ▸ hw, hhash, rfl⟩) ?_ ?_
  · rintro ⟨w, i, hlive⟩
    exact ⟨w, i, by rwa [Live, hworkers]⟩
  · intro hopen
    unfold PauseOpen taskRaised at hopen ⊢
    rwa [hpauses, hworkers]

/-- A change to a worker that does not touch its phase, or to one of another file. -/
lemma Allows.of_updateWorker {f : Worker → Worker} (ht : Allows (s.updateWorker w f) h n)
    (hhash : ∀ worker, (f worker).fileHash = worker.fileHash)
    (hphase : ∀ worker : Worker, s.workers[w]? = some worker → worker.fileHash = h →
      (f worker).phase = worker.phase)
    (hraised : ∀ worker, (f worker).raised = worker.raised) : Allows s h n := by
  refine ht.of_same (fun w' worker hw' hh _ => ?_) ?_ fun hopen => hopen.updateWorker hraised
  · obtain ⟨worker', hworker', rfl⟩ := getElem?_modify_cases hw'
    refine ⟨worker', hworker', ?_⟩
    split at hh
    · next hww =>
      rw [hhash] at hh
      rw [if_pos hww]
      exact ⟨hh, (hphase worker' (hww ▸ hworker') hh).symm⟩
    · next hww =>
      rw [if_neg hww]
      exact ⟨hh, rfl⟩
  · rintro ⟨w', i, worker, hw', hh, -, hlive⟩
    refine ⟨w', _, _, getElem?_modify_of_some f hw', ?_, rfl, ?_⟩
    · split
      · rw [hhash, hh]
      · exact hh
    · split
      · next hww =>
        rw [hphase worker (hww ▸ hw') hh]
        exact hlive
      · exact hlive

lemma Allows.of_setPhase {worker : Worker} {phase : Phase} (ht : Allows (s.setPhase w phase) h n)
    (hw : s.workers[w]? = some worker) (hother : worker.fileHash ≠ h) : Allows s h n := by
  refine ht.of_updateWorker (fun _ => rfl) (fun worker' hw' hh => ?_) fun _ => rfl
  obtain rfl := Option.some.inj (hw.symm.trans hw')
  exact absurd hh hother

/-- The only live worker of the file goes on. -/
lemma flushed_setPhase {worker : Worker} {phase : Phase} (hunique : AtMostOne s h)
    (hw : s.workers[w]? = some worker) (hhash : worker.fileHash = h)
    (hlive : worker.phase ≠ .finished) (hphase : phase ≠ .finished)
    (hs : Behind s h phase.sinceFlush) (hsmall : phase.sinceFlush < flushInterval) :
    Flushed (s.setPhase w phase) h := by
  intro n hn
  cases hn with
  | always => exact ⟨hs.mono (Nat.le_pred_of_lt hsmall), by decide⟩
  | working w' worker' hw' hhash' hlive' =>
    obtain ⟨worker₀, hw₀, rfl⟩ := getElem?_modify_cases hw'
    have hww : w = w' := by
      by_contra hne
      rw [if_neg hne] at hhash' hlive'
      exact hne (hunique w w' _ _ ⟨worker, hw, hhash, rfl, hlive⟩
        ⟨worker₀, hw₀, hhash', rfl, hlive'⟩)
    rw [if_pos hww]
    exact ⟨hs, hsmall⟩
  | resting hidle hclosed =>
    refine absurd ⟨w, worker.obj, _, getElem?_modify_of_some _ hw, ?_, ?_, ?_⟩ hidle
    · rw [if_pos rfl]
      exact hhash
    · rw [if_pos rfl]
    · rw [if_pos rfl]
      exact hphase

/-- The only live worker of the file ends: after the file was written, or because of a pause that
will write it. -/
lemma flushed_finish {worker : Worker} (hunique : AtMostOne s h)
    (hw : s.workers[w]? = some worker) (hhash : worker.fileHash = h)
    (hlive : worker.phase ≠ .finished) (hs : Behind s h (flushInterval - 1))
    (hrest : PauseOpen s h ∨ Behind s h 0) : Flushed (s.setPhase w .finished) h := by
  intro n hn
  cases hn with
  | always => exact ⟨hs, by decide⟩
  | working w' worker' hw' hhash' hlive' =>
    obtain ⟨hlive₀, hne⟩ := live_setPhase_finished ⟨worker', hw', hhash', rfl, hlive'⟩
    exact absurd (hunique w' w _ _ hlive₀ ⟨worker, hw, hhash, rfl, hlive⟩) hne
  | resting _ hclosed =>
    rcases hrest with hopen | hzero
    · have hstill : PauseOpen (s.setPhase w .finished) h :=
        hopen.updateWorker (f := fun worker => { worker with phase := .finished }) fun _ => rfl
      exact absurd hstill hclosed
    · exact ⟨hzero, by decide⟩

/-! ## The invariant -/

/-- At most one pause is in progress, and what it waits for is still tracked. -/
def Sequential (s : State) : Prop :=
  ∀ (p : ℕ) (pause : Pause), s.pauses[p]? = some pause → pause.ended = false →
    s.tasks.get? pause.fileHash = some pause.worker ∧
      s.downloads.get? pause.fileHash = some pause.obj ∧
      ∀ (p' : ℕ) (pause' : Pause), s.pauses[p']? = some pause' → pause'.ended = false → p' = p

/-- What holds of the manager and of one file in every serial run. -/
structure Paced (h : String) (s : State) : Prop where
  inv : Inv ∅ (fun _ => 0) s
  control : Control s
  sole : Sole True h s
  pause : Sequential s
  flushed : Flushed s h

/-- The live worker of the file works on the tracked object. -/
lemma Paced.tracked (hs : Paced h s) {worker : Worker} (hw : s.workers[w]? = some worker)
    (hhash : worker.fileHash = h) (hlive : worker.phase ≠ .finished) :
    s.downloads.get? h = some worker.obj :=
  (hs.sole.owned w worker.obj ⟨worker, hw, hhash, rfl, hlive⟩).tracked

/-- A worker that was told to stop has a pause that waits for it. -/
lemma Paced.open_of_cancelEvent (hs : Paced h s) {worker : Worker}
    (hw : s.workers[w]? = some worker) (hhash : worker.fileHash = h)
    (hlive : worker.phase ≠ .finished) (hevent : worker.cancelEvent = true) : PauseOpen s h := by
  obtain ⟨p, pause, hp, hpw, hended⟩ := hs.control.signalled w worker hw hlive (Or.inl hevent)
  obtain ⟨worker', hw', -, hhash'⟩ := hs.control.pause p pause hp
  rw [hpw, hw, Option.some.injEq] at hw'
  subst hw'
  refine ⟨p, pause, hp, hhash'.symm.trans hhash, hended, Bool.eq_false_iff.2 fun hraised => ?_⟩
  rw [taskRaised, hpw, hw] at hraised
  exact hlive (hs.control.raised w worker hw hraised)

/-- When a pause goes on, its task is over. -/
lemma Paced.onTime (hs : Paced h s) {l : Label} (ht : exec s l = some t) : OnTime h s l := by
  cases l with
  | pauseDone p written =>
    obtain ⟨pause, hp, hended, hdone, -⟩ := exec_pauseDone ht
    intro pause' hp' hhash w hw
    obtain rfl := Option.some.inj (hp.symm.trans hp')
    obtain ⟨htask, -, -⟩ := hs.pause p pause hp hended
    rw [← hhash, htask, Option.some.injEq] at hw
    exact hw ▸ hdone
  | _ => trivial

/-! ## Workers -/

section Steps

variable {worker : Worker} {o : DownloadState}

/-- `written` files of other downloads, and those of this one that are tracked. -/
lemma Behind.saveResume_worker (hs : Behind s h n) (ho : s.objects[worker.obj]? = some o)
    (hohash : o.fileHash = worker.fileHash)
    (hown : worker.fileHash = h → s.downloads.get? h = some worker.obj) (written : Bool) :
    Behind (s.saveResume worker.obj written) h n := by
  refine hs.saveResume written fun o' ho' hh => hown ?_
  obtain rfl := Option.some.inj (ho.symm.trans ho')
  exact hohash.symm.trans hh

/-- What the file's own worker does at the end of a step, with `n` chunks since the last flush. -/
lemma flushed_workerLoop (hunique : AtMostOne s h) (hw : s.workers[w]? = some worker)
    (hhash : worker.fileHash = h) (hlive : worker.phase ≠ .finished)
    (hi : s.downloads.get? h = some worker.obj) (ho : s.objects[worker.obj]? = some o)
    (hohash : o.fileHash = h) (hopen : worker.cancelEvent = true → PauseOpen s h)
    (hs : Behind s h n) (hn : n < flushInterval) (rest : List ChunkInfo) (missingSet : List ℤ) :
    Flushed (workerLoop s w worker rest missingSet n true) h := by
  unfold workerLoop
  split
  · split
    · next hevent =>
      exact flushed_finish hunique hw hhash hlive (hs.mono (Nat.le_pred_of_lt hn))
        (Or.inl (hopen hevent))
    · exact flushed_setPhase hunique hw hhash hlive (by simp) hs hn
  · exact flushed_setPhase (s := s.saveResume worker.obj true) hunique hw hhash hlive (by simp)
      (behind_saveResume hi ho hohash) (by decide)

lemma behind_workerLoop (hs : Behind s h n) (ho : s.objects[worker.obj]? = some o)
    (hohash : o.fileHash = worker.fileHash) (hother : worker.fileHash ≠ h) (rest : List ChunkInfo)
    (missingSet : List ℤ) (m : ℕ) (written : Bool) :
    Behind (workerLoop s w worker rest missingSet m written) h n := by
  have hsaved : Behind (s.saveResume worker.obj written) h n :=
    hs.saveResume_worker ho hohash (fun hh => absurd hh hother) written
  unfold workerLoop
  split
  · split
    · exact hs
    · exact hs
  · exact hsaved

lemma allows_workerLoop {rest : List ChunkInfo} {missingSet : List ℤ} {m : ℕ} {written : Bool}
    (ht : Allows (workerLoop s w worker rest missingSet m written) h n)
    (hw : s.workers[w]? = some worker) (hother : worker.fileHash ≠ h) : Allows s h n := by
  unfold workerLoop at ht
  split at ht
  · split at ht
    · exact ht.of_setPhase hw hother
    · exact ht.of_setPhase hw hother
  · exact (ht.of_setPhase (s := s.saveResume worker.obj written) hw hother).of_eq rfl rfl

/-- A worker ends after it has brought its file up to date. -/
lemma Paced.ended {u : State} (hs : Paced h s) (hw : s.workers[w]? = some worker)
    (hlive : worker.phase ≠ .finished) (hworkers : u.workers = s.workers)
    (hpauses : u.pauses = s.pauses) (hown : worker.fileHash = h → Behind u h 0)
    (hother : worker.fileHash ≠ h → ∀ n, Behind s h n → Behind u h n) :
    Flushed (u.setPhase w .finished) h := by
  by_cases hhash : worker.fileHash = h
  · have hunique : AtMostOne u h := by
      intro w₁ w₂ i₁ i₂ hlive₁ hlive₂
      rw [Live, hworkers] at hlive₁ hlive₂
      exact hs.sole.unique w₁ w₂ i₁ i₂ hlive₁ hlive₂
    have hzero := hown hhash
    exact flushed_finish hunique (hworkers ▸ hw) hhash hlive (hzero.mono (Nat.zero_le _))
      (Or.inr hzero)
  · refine hs.flushed.keep (hother hhash) fun n hn => ?_
    exact (hn.of_setPhase (hworkers ▸ hw) hhash).of_eq hworkers hpauses

/-- The object of a worker. -/
lemma Paced.object (hs : Paced h s) (hw : s.workers[w]? = some worker) :
    ∃ o : DownloadState, s.objects[worker.obj]? = some o ∧ o.fileHash = worker.fileHash := by
  obtain ⟨-, o, ho, hhash, -⟩ := hs.inv.worker w worker hw
  exact ⟨o, ho, hhash⟩

/-- A status of a download of `k` is set, and its file is written. -/
lemma behind_assign_saveResume {k : String} {f : DownloadState → DownloadState}
    (ho : s.objects[i]? = some o) (hohash : o.fileHash = k)
    (hhash : ∀ o, (f o).fileHash = o.fileHash)
    (hcompleted : ∀ o, (f o).completedChunks = o.completedChunks)
    (hown : k = h → s.downloads.get? h = some i) :
    (k = h → Behind ((s.assign i f).saveResume i true) h 0) ∧
      (k ≠ h → ∀ n, Behind s h n → Behind ((s.assign i f).saveResume i true) h n) := by
  have ho' : (s.assign i f).objects[i]? = some (f o) := by simp [State.assign, ho]
  refine ⟨fun hh => ?_, fun hother n hs => ?_⟩
  · exact behind_saveResume (hown hh) ho' ((hhash o).trans (hohash.trans hh))
  · refine (hs.assign hcompleted).saveResume true fun o' ho'' hh => absurd ?_ hother
    obtain rfl := Option.some.inj (ho'.symm.trans ho'')
    rw [← hohash, ← hhash, hh]

lemma Paced.flushed_begin (hs : Paced h s) (hw : s.workers[w]? = some worker)
    (hcreated : worker.phase = .created) : Flushed (workerStart s w worker true) h := by
  obtain ⟨o, ho, hohash⟩ := hs.object hw
  have hlive : worker.phase ≠ .finished := by simp [hcreated]
  rw [workerStart, ho]
  by_cases hhash : worker.fileHash = h
  · have hzero : Behind s h 0 := by
      have hallows := Allows.working w worker hw hhash hlive
      rw [hcreated] at hallows
      exact (hs.flushed _ hallows).1
    exact flushed_workerLoop hs.sole.unique hw hhash hlive (hs.tracked hw hhash hlive) ho
      (hohash.trans hhash) (hs.open_of_cancelEvent hw hhash hlive) hzero (by decide) _ _
  · exact hs.flushed.keep (fun n hn => behind_workerLoop hn ho hohash hhash _ _ _ _)
      fun n hn => allows_workerLoop hn hw hhash

lemma Paced.flushed_beginRaises (hs : Paced h s) (hw : s.workers[w]? = some worker)
    (hcreated : worker.phase = .created) (sorted : Bool) (message : String) :
    Flushed (workerRaises s w worker sorted message true) h := by
  obtain ⟨o, ho, hohash⟩ := hs.object hw
  have hlive : worker.phase ≠ .finished := by simp [hcreated]
  have hzero (hhash : worker.fileHash = h) : Behind s h 0 := by
    have hallows := Allows.working w worker hw hhash hlive
    rw [hcreated] at hallows
    exact (hs.flushed _ hallows).1
  cases sorted with
  | true =>
    obtain ⟨hown, hother⟩ := behind_assign_saveResume (s := s) (h := h)
      (f := fun o => { o with status := .error, errorMessage := message })
      ho hohash (fun _ => rfl) (fun _ => rfl) fun hh => hs.tracked hw hh hlive
    exact hs.ended hw hlive rfl rfl hown hother
  | false =>
    -- nobody writes the file any more, which is up to date
    intro n hn
    by_cases hhash : worker.fileHash = h
    · refine ⟨Behind.mono (s := s.updateWorker w _) (hzero hhash) (Nat.zero_le n), ?_⟩
      cases hn with
      | always => decide
      | working w' worker' hw' hhash' hlive' =>
        obtain ⟨worker₀, hw₀, rfl⟩ := getElem?_modify_cases hw'
        have hne : w ≠ w' := by
          rintro rfl
          exact hlive' (by rw [if_pos rfl])
        rw [if_neg hne] at hhash' hlive' ⊢
        exact (hs.flushed _ (.working w' worker₀ hw₀ hhash' hlive')).2
      | resting => decide
    · refine hs.flushed n ?_
      refine hn.of_same (fun w' worker' hw' hhash' hlive' => ?_) ?_ ?_
      · obtain ⟨worker₀, hw₀, rfl⟩ := getElem?_modify_cases hw'
        split at hhash'
        · next hww =>
          subst hww
          obtain rfl := Option.some.inj (hw.symm.trans hw₀)
          exact absurd hhash' hhash
        · next hww =>
          rw [if_neg hww]
          exact ⟨worker₀, hw₀, hhash', rfl⟩
      · rintro ⟨w', i, worker', hw', hhash', hobj, hlive'⟩
        have hww : w ≠ w' := by
          rintro rfl
          obtain rfl := Option.some.inj (hw.symm.trans hw')
          exact hhash hhash'
        exact ⟨w', i, worker', (List.getElem?_modify_ne _ _ hww).trans hw', hhash', hobj, hlive'⟩
      · rintro ⟨p, pause, hp, hhash', hended, hcaught⟩
        obtain ⟨worker', hw', -, hown⟩ := hs.control.pause p pause hp
        refine ⟨p, pause, hp, hhash', hended, (taskRaised_updateWorker ?_).trans hcaught⟩
        rintro - rfl
        obtain rfl := Option.some.inj (hw.symm.trans hw')
        exact absurd (hown.trans hhash') hhash

lemma Paced.flushed_fetched (hs : Paced h s) (hw : s.workers[w]? = some worker)
    {info : ChunkInfo} {rest : List ChunkInfo} {missingSet : List ℤ}
    (hphase : worker.phase = .fetching info rest missingSet n) :
    Flushed (chunkFetched s w worker info rest missingSet n none true) h := by
  obtain ⟨o, ho, hohash⟩ := hs.object hw
  have hlive : worker.phase ≠ .finished := by simp [hphase]
  obtain ⟨o', ho', hohash'⟩ : ∃ o' : DownloadState,
      (s.markCompleted worker.obj info.index).objects[worker.obj]? = some o' ∧
        o'.fileHash = worker.fileHash :=
    ⟨_, getElem?_modify_of_some _ ho, by rw [if_pos rfl]; exact hohash⟩
  unfold chunkFetched
  dsimp only
  by_cases hhash : worker.fileHash = h
  · have hi := hs.tracked hw hhash hlive
    have hopen := hs.open_of_cancelEvent hw hhash hlive
    obtain ⟨hbehind, hn⟩ : Behind s h n ∧ n < flushInterval := by
      have hallows := Allows.working w worker hw hhash hlive
      rw [hphase] at hallows
      exact hs.flushed _ hallows
    split
    · exact flushed_workerLoop (s := (s.markCompleted worker.obj info.index).saveResume worker.obj
        true) hs.sole.unique hw hhash hlive hi ho' (hohash'.trans hhash) hopen
        (behind_saveResume hi ho' (hohash'.trans hhash)) (by decide) _ _
    · next hlt =>
      exact flushed_workerLoop (s := s.markCompleted worker.obj info.index) hs.sole.unique hw hhash
        hlive hi ho' (hohash'.trans hhash) hopen (hbehind.markCompleted info.index)
        (Nat.lt_of_not_le hlt) _ _
  · have hmarked (m : ℕ) (hm : Behind s h m) :
        Behind (s.markCompleted worker.obj info.index) h m := by
      refine hm.markCompleted_other info.index fun hi => hhash ?_
      obtain ⟨o₀, ho₀, hhash₀⟩ := hs.inv.tracked h _ hi
      obtain rfl := Option.some.inj (ho.symm.trans ho₀)
      exact hohash.symm.trans hhash₀
    split
    · refine hs.flushed.keep (fun m hm => ?_) fun m hm => ?_
      · exact behind_workerLoop ((hmarked m hm).saveResume_worker ho' hohash'
          (fun hh => absurd hh hhash) true) ho' hohash' hhash _ _ _ _
      · exact (allows_workerLoop hm hw hhash).of_eq rfl rfl
    · refine hs.flushed.keep (fun m hm => ?_) fun m hm => ?_
      · exact behind_workerLoop (hmarked m hm) ho' hohash' hhash _ _ _ _
      · exact (allows_workerLoop hm hw hhash).of_eq rfl rfl

lemma Paced.flushed_fetchFailed (hs : Paced h s) (hw : s.workers[w]? = some worker)
    (hlive : worker.phase ≠ .finished) (info : ChunkInfo) (rest : List ChunkInfo)
    (missingSet : List ℤ) (n : ℕ) (message : String) :
    Flushed (chunkFetched s w worker info rest missingSet n (some message) true) h := by
  obtain ⟨o, ho, hohash⟩ := hs.object hw
  refine hs.ended hw hlive rfl rfl (fun hh => ?_) fun hother m hm => ?_
  · exact (behind_saveResume (hs.tracked hw hh hlive) ho (hohash.trans hh)).assign fun _ => rfl
  · exact (hm.saveResume_worker ho hohash (fun hh => absurd hh hother) true).assign fun _ => rfl

lemma Paced.flushed_merged (hs : Paced h s) (hw : s.workers[w]? = some worker)
    (hlive : worker.phase ≠ .finished) (error : Option String) :
    Flushed (mergeDone s w worker error true) h := by
  obtain ⟨o, ho, hohash⟩ := hs.object hw
  cases error with
  | none =>
    obtain ⟨hown, hother⟩ := behind_assign_saveResume (s := s) (h := h)
      (f := fun o => { o with status := .completed }) ho hohash (fun _ => rfl) (fun _ => rfl)
      fun hh => hs.tracked hw hh hlive
    exact hs.ended hw hlive rfl rfl (fun hh => (hown hh).deleteResume _)
      fun hh m hm => (hother hh m hm).deleteResume _
  | some message =>
    obtain ⟨hown, hother⟩ := behind_assign_saveResume (s := s) (h := h)
      (f := fun o => { o with status := .error, errorMessage := "Merge failed: " ++ message })
      ho hohash (fun _ => rfl) (fun _ => rfl) fun hh => hs.tracked hw hh hlive
    exact hs.ended hw hlive rfl rfl hown hother

lemma Paced.flushed_cancelled (hs : Paced h s) (hw : s.workers[w]? = some worker)
    (hlive : worker.phase ≠ .finished) : Flushed (workerCancelled s w worker true) h := by
  obtain ⟨o, ho, hohash⟩ := hs.object hw
  unfold workerCancelled
  split
  · next hcreated =>
    refine hs.ended hw hlive rfl rfl (fun hh => ?_) fun _ _ hm => hm
    have hallows := Allows.working w worker hw hh hlive
    rw [hcreated] at hallows
    exact (hs.flushed _ hallows).1
  · obtain ⟨hown, hother⟩ := behind_assign_saveResume (s := s) (h := h)
      (f := fun o => { o with status := .paused }) ho hohash (fun _ => rfl) (fun _ => rfl)
      fun hh => hs.tracked hw hh hlive
    exact hs.ended hw hlive rfl rfl hown hother

end Steps

end Statements

end DistriStore.DownloadManager
