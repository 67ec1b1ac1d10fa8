import DistriStore.Api.DownloadRestart

/-!
# What downloads count as completed

The download manager never invents a completed index: what an object that is still in use, or a
`.resume` file, counts as completed was counted by an object or a file before, up to the index that
a worker has just fetched.  So a property of the counted indices of a file that holds of no index at
all, and that a fetch keeps, holds of all of them throughout a run (`allCounts_exec`).

An object is in use while it is tracked, or a worker or a pause of it is not over; after that nobody
can get at it.
-/

namespace DistriStore.DownloadManager

open Lib

/-- The object is tracked, or a worker or a pause still has it. -/
def Referenced (s : State) (i : ℕ) : Prop :=
  (∃ h, s.downloads.get? h = some i) ∨ Working s i ∨ Pausing s i

section Counting

variable (Q : String → List ℤ → Prop)

/-- Object `i` exists, and what it counts has the property. -/
def Counts (s : State) (i : ℕ) : Prop :=
  ∃ o : DownloadState, s.objects[i]? = some o ∧ Q o.fileHash o.completedChunks

/-- All objects in use and all `.resume` files have the property. -/
structure AllCounts (s : State) : Prop where
  object : ∀ i, Referenced s i → Counts Q s i
  file : ∀ h f, s.files.get? h = some f → Q f.fileHash f.completedChunks

end Counting

/-- An object in use, or a `.resume` file, of the file counts this index. -/
def Counted (s : State) (fileHash : String) (j : ℤ) : Prop :=
  (∃ (i : ℕ) (o : DownloadState), Referenced s i ∧ s.objects[i]? = some o ∧
    o.fileHash = fileHash ∧ j ∈ o.completedChunks) ∨
  ∃ h f, s.files.get? h = some f ∧ f.fileHash = fileHash ∧ j ∈ f.completedChunks

variable {Q : String → List ℤ → Prop} {s : State} {h : String} {i j w p : ℕ}

lemma allCounts_init (files : Dict String ResumeDict)
    (hfile : ∀ h f, files.get? h = some f → Q f.fileHash f.completedChunks) :
    AllCounts Q { files := files } where
  object i := by
    rintro (⟨h, hi⟩ | ⟨w, worker, hw, -⟩ | ⟨p, pause, hp, -⟩)
    · simp at hi
    · simp at hw
    · simp at hp
  file := hfile

/-- Another property may use that its indices are counted. -/
lemma AllCounts.imp {Q' : String → List ℤ → Prop} (hs : AllCounts Q s)
    (hQ : ∀ h js, (∀ j ∈ js, Counted s h j) → Q h js → Q' h js) : AllCounts Q' s where
  object i hi := by
    obtain ⟨o, ho, hq⟩ := hs.object i hi
    exact ⟨o, ho, hQ _ _ (fun j hj => Or.inl ⟨i, o, hi, ho, rfl, hj⟩) hq⟩
  file h f hf := hQ _ _ (fun j hj => Or.inr ⟨h, f, hf, rfl, hj⟩) (hs.file h f hf)

/-! ## Single statements -/

/-- An assignment that does not touch the counted indices. -/
lemma Counts.assign {f : DownloadState → DownloadState} (hi : Counts Q s j)
    (hhash : ∀ o, (f o).fileHash = o.fileHash)
    (hcompleted : ∀ o, (f o).completedChunks = o.completedChunks) :
    Counts Q (s.assign i f) j := by
  obtain ⟨o, ho, hq⟩ := hi
  refine ⟨_, getElem?_modify_of_some f ho, ?_⟩
  split
  · rwa [hhash, hcompleted]
  · exact hq

lemma AllCounts.assign {f : DownloadState → DownloadState} (hs : AllCounts Q s)
    (hhash : ∀ o, (f o).fileHash = o.fileHash)
    (hcompleted : ∀ o, (f o).completedChunks = o.completedChunks) : AllCounts Q (s.assign i f) where
  object j hj := (hs.object j hj).assign hhash hcompleted
  file := hs.file

/-- `completed_chunks` after an index has been fetched. -/
def withIndex (index : ℤ) (completed : List ℤ) : List ℤ :=
  if index ∈ completed then completed else completed ++ [index]

lemma Counts.markCompleted {index : ℤ} (hj : Counts Q s j) (hmark : ∀ o, s.objects[i]? = some o →
    Q o.fileHash o.completedChunks → Q o.fileHash (withIndex index o.completedChunks)) :
    Counts Q (s.markCompleted i index) j := by
  obtain ⟨o, ho, hq⟩ := hj
  refine ⟨_, getElem?_modify_of_some _ ho, ?_⟩
  split
  · next hij => exact hmark o (hij ▸ ho) hq
  · exact hq

lemma AllCounts.markCompleted {index : ℤ} (hs : AllCounts Q s)
    (hmark : ∀ o, s.objects[i]? = some o →
    Q o.fileHash o.completedChunks → Q o.fileHash (withIndex index o.completedChunks)) :
    AllCounts Q (s.markCompleted i index) where
  object j hj := (hs.object j hj).markCompleted hmark
  file := hs.file

/-- A change to a worker that does not call it back from its end. -/
lemma AllCounts.updateWorker {f : Worker → Worker} (hs : AllCounts Q s)
    (hobj : ∀ worker, (f worker).obj = worker.obj)
    (hphase : ∀ worker, s.workers[w]? = some worker → worker.phase = .finished →
      (f worker).phase = .finished) : AllCounts Q (s.updateWorker w f) where
  object j hj := by
    refine hs.object j (hj.imp_right (Or.imp_left ?_))
    rintro ⟨w', worker', hw', rfl, hlive⟩
    obtain ⟨worker, hworker, rfl⟩ := getElem?_modify_cases hw'
    by_cases hw : w = w'
    · subst hw
      rw [if_pos rfl] at hlive ⊢
      exact ⟨w, worker, hworker, (hobj worker).symm, fun h => hlive (hphase worker hworker h)⟩
    · rw [if_neg hw] at hlive ⊢
      exact ⟨w', worker, hworker, rfl, hlive⟩
  file := hs.file

lemma AllCounts.setPhase {worker : Worker} {phase : Phase} (hs : AllCounts Q s)
    (hw : s.workers[w]? = some worker) (hlive : worker.phase ≠ .finished) :
    AllCounts Q (s.setPhase w phase) := by
  refine hs.updateWorker (fun _ => rfl) fun worker' hw' hphase => ?_
  rw [hw, Option.some.injEq] at hw'
  exact absurd (hw' ▸ hphase) hlive

lemma AllCounts.finish (hs : AllCounts Q s) (w : ℕ) : AllCounts Q (s.setPhase w .finished) :=
  hs.updateWorker (fun _ => rfl) fun _ _ _ => rfl

lemma AllCounts.updatePause {f : Pause → Pause} (hs : AllCounts Q s)
    (hobj : ∀ pause, (f pause).obj = pause.obj)
    (hended : ∀ pause, pause.ended = true → (f pause).ended = true) :
    AllCounts Q (s.updatePause p f) where
  object j hj := by
    refine hs.object j (hj.imp_right (Or.imp_right ?_))
    rintro ⟨p', pause', hp', rfl, hlive⟩
    obtain ⟨pause, hpause, rfl⟩ := getElem?_modify_cases hp'
    by_cases hp : p = p'
    · subst hp
      rw [if_pos rfl] at hlive ⊢
      refine ⟨p, pause, hpause, (hobj pause).symm, Bool.eq_false_iff.2 fun h => ?_⟩
      rw [hended pause h] at hlive
      cases hlive
    · rw [if_neg hp] at hlive ⊢
      exact ⟨p', pause, hpause, rfl, hlive⟩
  file := hs.file

lemma AllCounts.saveResume (hs : AllCounts Q s) (hi : Counts Q s i) (written : Bool) :
    AllCounts Q (s.saveResume i written) where
  object := hs.object
  file h f hf := by
    obtain ⟨o, ho, hq⟩ := hi
    simp only [State.saveResume, ho] at hf
    split at hf
    · rw [Dict.get?_set] at hf
      split at hf
      · rw [← Option.some.inj hf]
        exact hq
      · exact hs.file h f hf
    · exact hs.file h f hf

lemma AllCounts.deleteResume (hs : AllCounts Q s) (fileHash : String) :
    AllCounts Q (s.deleteResume fileHash) where
  object := hs.object
  file h f hf := by
    rw [State.deleteResume, Dict.get?_erase] at hf
    split at hf
    · cases hf
    · exact hs.file h f hf

lemma Counts.append (hi : Counts Q s i) (o : DownloadState) :
    Counts Q { s with objects := s.objects ++ [o] } i := by
  obtain ⟨o', ho', hq⟩ := hi
  exact ⟨o', getElem?_append_of_some ho' _, hq⟩

lemma AllCounts.append (hs : AllCounts Q s) (o : DownloadState) :
    AllCounts Q { s with objects := s.objects ++ [o] } where
  object j hj := (hs.object j hj).append o
  file := hs.file

lemma AllCounts.track (hs : AllCounts Q s) (hi : Counts Q s i) (h : String) :
    AllCounts Q (s.track h i) where
  object j hj := by
    rcases hj with ⟨h', hj⟩ | hj
    · rw [State.track, Dict.get?_set] at hj
      split at hj
      · rw [← Option.some.inj hj]
        exact hi
      · exact hs.object j (Or.inl ⟨h', hj⟩)
    · exact hs.object j (Or.inr hj)
  file := hs.file

lemma AllCounts.launch (hs : AllCounts Q s) (hi : Counts Q s i) (h : String)
    (manifest : FileManifest) :
    AllCounts Q (s.launch h manifest i) where
  object j hj := by
    rcases hj with hj | ⟨w, worker, hw, rfl, hlive⟩ | hj
    · exact hs.object j (Or.inl hj)
    · rcases getElem?_concat_cases hw with hw | ⟨-, rfl⟩
      · exact hs.object _ (Or.inr (Or.inl ⟨w, worker, hw, rfl, hlive⟩))
      · exact hi
    · exact hs.object j (Or.inr (Or.inr hj))
  file := hs.file

lemma AllCounts.await (hs : AllCounts Q s) {pause : Pause} (hi : Counts Q s pause.obj) :
    AllCounts Q { s with pauses := s.pauses ++ [pause] } where
  object j hj := by
    rcases hj with hj | hj | ⟨p, pause', hp, rfl, hended⟩
    · exact hs.object j (Or.inl hj)
    · exact hs.object j (Or.inr (Or.inl hj))
    · rcases getElem?_concat_cases hp with hp | ⟨-, rfl⟩
      · exact hs.object _ (Or.inr (Or.inr ⟨p, pause', hp, rfl, hended⟩))
      · exact hi
  file := hs.file

/-! ## The calls -/

lemma allCounts_existing (hs : AllCounts Q s) (h : String) :
    AllCounts Q (s.existing h).1 ∧
      ∀ i o, (s.existing h).2 = some (i, o) → Counts Q (s.existing h).1 i := by
  unfold State.existing
  split
  · next i hi =>
    refine ⟨hs, fun j o hfound => ?_⟩
    obtain ⟨o', -, heq⟩ := Option.map_eq_some_iff.1 hfound
    obtain ⟨rfl, -⟩ := Prod.mk.inj heq
    exact hs.object i (Or.inl ⟨h, hi⟩)
  · split
    · exact ⟨hs, fun i o hfound => by cases hfound⟩
    · next f hf =>
      refine ⟨hs.append _, fun i o hfound => ?_⟩
      obtain ⟨rfl, -⟩ := Prod.mk.inj (Option.some.inj hfound)
      exact ⟨_, List.getElem?_concat_length .., hs.file h f hf⟩

lemma allCounts_prepare {manifest : FileManifest} {found : Option (ℕ × DownloadState)}
    (hnil : ∀ h, Q h []) (hs : AllCounts Q s) (hfound : ∀ i o, found = some (i, o) → Counts Q s i)
    (password : String) : AllCounts Q (prepare s h manifest password found).1 ∧
      Counts Q (prepare s h manifest password found).1
        (prepare s h manifest password found).2 := by
  have hfresh : AllCounts Q (freshDownload s h manifest password).1 ∧
      Counts Q (freshDownload s h manifest password).1
        (freshDownload s h manifest password).2 :=
    ⟨hs.append _, _, List.getElem?_concat_length .., hnil h⟩
  unfold prepare
  split
  · exact hfresh
  · next i o =>
    split
    · exact ⟨hs.assign (fun _ => rfl) fun _ => rfl,
        (hfound i o rfl).assign (fun _ => rfl) fun _ => rfl⟩
    · exact hfresh

lemma allCounts_startDownload (hnil : ∀ h, Q h []) (hs : AllCounts Q s) (h : String)
    (d : ManifestDict) (password : String) (written : Bool) :
    AllCounts Q (startDownload s h d password written).1 := by
  unfold startDownload
  split
  · exact hs
  · obtain ⟨hex, hfound⟩ := allCounts_existing hs h
    split
    · exact hs
    dsimp only
    split
    · exact hex
    · obtain ⟨hprep, hcounts⟩ := allCounts_prepare hnil hex hfound password
      have htracked := hprep.track hcounts h
      exact (htracked.saveResume hcounts written).launch hcounts h _

lemma allCounts_finishPause (hs : AllCounts Q s) (hi : Counts Q s i) (h : String) (written : Bool) :
    AllCounts Q (finishPause s h i written) := by
  have hpaused : AllCounts Q (s.setStatus i .paused) := hs.assign (fun _ => rfl) fun _ => rfl
  have hcounts : Counts Q (s.setStatus i .paused) i := hi.assign (fun _ => rfl) fun _ => rfl
  have hsaved := hpaused.saveResume hcounts written
  exact ⟨hsaved.object, hsaved.file⟩

lemma allCounts_signalCancel (hs : AllCounts Q s) (h : String) :
    AllCounts Q (signalCancel s h) := by
  unfold signalCancel
  split
  · exact hs
  · exact hs.updateWorker (fun _ => rfl) fun _ _ hphase => hphase

lemma counts_signalCancel (hi : Counts Q s i) (h : String) : Counts Q (signalCancel s h) i := by
  unfold signalCancel
  split <;> exact hi

lemma allCounts_pauseDownload (hs : AllCounts Q s) (h : String) (written : Bool) :
    AllCounts Q (pauseDownload s h written) := by
  unfold pauseDownload
  split
  · exact hs
  · next i hi =>
    split
    · have hsignal := allCounts_signalCancel hs h
      have hcounts := counts_signalCancel (hs.object i (Or.inl ⟨h, hi⟩)) h
      unfold awaitTask
      split
      · exact allCounts_finishPause hsignal hcounts h written
      · split
        · exact allCounts_finishPause hsignal hcounts h written
        · exact hsignal.await hcounts
    · exact hs

lemma allCounts_resumeDownload (hs : AllCounts Q s) (h password : String)
    (d : Option ManifestDict) :
    AllCounts Q (resumeDownload s h password d).1 := by
  obtain ⟨hex, hfound⟩ := allCounts_existing hs h
  unfold resumeDownload
  split
  · exact hs
  split
  · next hnone => exact (congrArg Prod.fst hnone) ▸ hex
  · next s' i o hsome =>
    rw [hsome] at hex hfound
    split
    · exact hex
    · split
      · exact hex
      · split
        · exact hex
        · have hcounts : Counts Q (s'.assign i fun o => { o with
              status := .downloading, password := password }) i :=
            (hfound i o rfl).assign (fun _ => rfl) fun _ => rfl
          have hresumed : AllCounts Q (s'.assign i fun o => { o with
              status := .downloading, password := password }) :=
            hex.assign (fun _ => rfl) fun _ => rfl
          exact (hresumed.track hcounts h).launch hcounts h _

lemma allCounts_clearCompleted (hs : AllCounts Q s) : AllCounts Q (clearCompleted s) := by
  unfold clearCompleted
  dsimp only
  generalize List.filter _ _ = entries
  induction entries generalizing s with
  | nil => exact hs
  | cons e entries ih =>
    refine ih ⟨fun i hi => hs.object i (hi.imp_left ?_), hs.file⟩
    rintro ⟨h, hi⟩
    rw [dropEntry, Dict.get?_erase] at hi
    split at hi
    · cases hi
    · exact ⟨h, hi⟩

/-! ## The worker -/

section Worker

variable {worker : Worker} {written : Bool}

/-- A live worker has its object. -/
lemma AllCounts.counts_worker (hs : AllCounts Q s) (hw : s.workers[w]? = some worker)
    (hlive : worker.phase ≠ .finished) : Counts Q s worker.obj :=
  hs.object _ (Or.inr (Or.inl ⟨w, worker, hw, rfl, hlive⟩))

lemma allCounts_workerLoop (hs : AllCounts Q s) (hw : s.workers[w]? = some worker)
    (hlive : worker.phase ≠ .finished) (rest : List ChunkInfo) (missingSet : List ℤ) (n : ℕ) :
    AllCounts Q (workerLoop s w worker rest missingSet n written) := by
  unfold workerLoop
  split
  · split
    · exact hs.finish w
    · exact hs.setPhase hw hlive
  · have hsaved := hs.saveResume (hs.counts_worker hw hlive) written
    exact hsaved.setPhase hw hlive

lemma allCounts_workerRaises (hs : AllCounts Q s) (hw : s.workers[w]? = some worker)
    (hlive : worker.phase ≠ .finished) (sorted : Bool) (message : String) :
    AllCounts Q (workerRaises s w worker sorted message written) := by
  unfold workerRaises
  split
  · have herror : AllCounts Q (s.setError worker.obj message) :=
      hs.assign (fun _ => rfl) fun _ => rfl
    exact (herror.saveResume (herror.counts_worker hw hlive) written).finish w
  · exact hs.updateWorker (fun _ => rfl) fun _ _ _ => rfl

lemma allCounts_chunkFetched (hs : AllCounts Q s) (hw : s.workers[w]? = some worker)
    (hlive : worker.phase ≠ .finished) (info : ChunkInfo) (rest : List ChunkInfo)
    (missingSet : List ℤ) (n : ℕ) (error : Option String)
    (hmark : error = none → ∀ o, s.objects[worker.obj]? = some o →
      Q o.fileHash o.completedChunks → Q o.fileHash (withIndex info.index o.completedChunks)) :
    AllCounts Q (chunkFetched s w worker info rest missingSet n error written) := by
  cases error with
  | some message =>
    have hsaved := hs.saveResume (hs.counts_worker hw hlive) written
    have herror : AllCounts Q ((s.saveResume worker.obj written).setError worker.obj message) :=
      hsaved.assign (fun _ => rfl) fun _ => rfl
    exact herror.finish w
  | none =>
    have hmarked := hs.markCompleted (hmark rfl)
    unfold chunkFetched
    dsimp only
    split
    · have hsaved := hmarked.saveResume (hmarked.counts_worker hw hlive) written
      exact allCounts_workerLoop hsaved hw hlive rest missingSet 0
    · exact allCounts_workerLoop hmarked hw hlive rest missingSet (n + 1)

/-- A worker at the merge completes its download. -/
lemma allCounts_completed (hs : AllCounts Q s) (hw : s.workers[w]? = some worker)
    (hlive : worker.phase ≠ .finished) :
    AllCounts Q ((s.setStatus worker.obj .completed).saveResume worker.obj written) := by
  have hstatus : AllCounts Q (s.setStatus worker.obj .completed) :=
    hs.assign (fun _ => rfl) fun _ => rfl
  exact hstatus.saveResume (hstatus.counts_worker hw hlive) written

lemma allCounts_mergeDone (hs : AllCounts Q s) (hw : s.workers[w]? = some worker)
    (hlive : worker.phase ≠ .finished) (error : Option String) :
    AllCounts Q (mergeDone s w worker error written) := by
  cases error with
  | none => exact ((allCounts_completed hs hw hlive).deleteResume _).finish w
  | some message =>
    have herror : AllCounts Q (s.setError worker.obj ("Merge failed: " ++ message)) :=
      hs.assign (fun _ => rfl) fun _ => rfl
    exact (herror.saveResume (herror.counts_worker hw hlive) written).finish w

lemma allCounts_workerCancelled (hs : AllCounts Q s) (hw : s.workers[w]? = some worker)
    (hlive : worker.phase ≠ .finished) : AllCounts Q (workerCancelled s w worker written) := by
  unfold workerCancelled
  split
  · exact hs.finish w
  · have hstatus : AllCounts Q (s.setStatus worker.obj .paused) :=
      hs.assign (fun _ => rfl) fun _ => rfl
    exact (hstatus.saveResume (hstatus.counts_worker hw hlive) written).finish w

end Worker

/-! ## A new process -/

lemma allCounts_recoverFile (hs : AllCounts Q s) {f : ResumeDict}
    (hf : Q f.fileHash f.completedChunks) :
    AllCounts Q (recoverFile s f) := by
  have happended := hs.append { DownloadState.fromResumeDict f with status := .paused }
  have hcounts : Counts Q { s with
      objects := s.objects ++ [{ DownloadState.fromResumeDict f with status := .paused }] }
      s.objects.length := ⟨_, List.getElem?_concat_length .., hf⟩
  exact happended.track hcounts f.fileHash

lemma allCounts_restart (hs : AllCounts Q s) : AllCounts Q (restart s.files) := by
  have hfiles (f : ResumeDict) (hf : f ∈ s.files.values) : Q f.fileHash f.completedChunks := by
    obtain ⟨⟨h, f'⟩, hmem, rfl⟩ := List.mem_map.1 hf
    exact hs.file h f' (Dict.get?_of_mem_entries hmem)
  have hinit : AllCounts Q { files := s.files } := allCounts_init s.files hs.file
  unfold restart
  revert hfiles hinit
  generalize ({ files := s.files } : State) = s₀
  generalize s.files.values = fs
  intro hfiles hinit
  induction fs generalizing s₀ with
  | nil => exact hinit
  | cons f fs ih =>
    exact ih (recoverFile s₀ f) (fun g hg => hfiles g (List.mem_cons_of_mem _ hg))
      (allCounts_recoverFile hinit (hfiles f (List.mem_cons_self ..)))

/-! ## Every step -/

/-- The chunk that the worker is loading. -/
def Worker.fetching? (worker : Worker) : Option ChunkInfo :=
  match worker.phase with
  | .fetching info _ _ _ => some info
  | _ => none

/-- The chunk whose index a step counts, with the object that counts it. -/
def fetchedChunk (s : State) : Label → Option (ℕ × ChunkInfo)
  | .fetched w none _ => (s.workers[w]?).bind fun worker =>
    worker.fetching?.map fun info => (worker.obj, info)
  | _ => none

/-- **A step counts no index but the one that is fetched.** -/
theorem allCounts_exec {t : State} {l : Label} (hnil : ∀ h, Q h []) (hs : AllCounts Q s)
    (ht : exec s l = some t) (hmark : ∀ e ∈ fetchedChunk s l, ∀ o, s.objects[e.1]? = some o →
      Q o.fileHash o.completedChunks → Q o.fileHash (withIndex e.2.index o.completedChunks)) :
    AllCounts Q t := by
  cases l with
  | start h d password written =>
    exact Option.some.inj ht ▸ allCounts_startDownload hnil hs h d password written
  | pause h written => exact Option.some.inj ht ▸ allCounts_pauseDownload hs h written
  | pauseTimeout p =>
    obtain ⟨pause, -, -, rfl⟩ := exec_pauseTimeout ht
    have hpause : AllCounts Q (s.updatePause p fun pause => { pause with cancelling := true }) :=
      hs.updatePause (fun _ => rfl) fun _ hended => hended
    exact hpause.updateWorker (fun _ => rfl) fun _ _ hphase => hphase
  | pauseDone p written =>
    obtain ⟨pause, hp, hended, -, rfl⟩ := exec_pauseDone ht
    have hcounts : Counts Q s pause.obj :=
      hs.object _ (Or.inr (Or.inr ⟨p, pause, hp, rfl, hended⟩))
    have hleft : AllCounts Q (leavePause s pause written) := by
      unfold leavePause
      split
      · exact hs
      · exact allCounts_finishPause hs hcounts pause.fileHash written
    exact hleft.updatePause (fun _ => rfl) fun _ _ => rfl
  | resume h password d => exact Option.some.inj ht ▸ allCounts_resumeDownload hs h password d
  | clear => exact Option.some.inj ht ▸ allCounts_clearCompleted hs
  | begin w written =>
    obtain ⟨worker, hw, hphase, rfl⟩ := exec_begin ht
    unfold workerStart
    split
    · exact hs
    · exact allCounts_workerLoop hs hw (by simp [hphase]) _ _ 0
  | beginRaises w sorted message written =>
    obtain ⟨worker, hw, hphase, -, rfl⟩ := exec_beginRaises ht
    exact allCounts_workerRaises hs hw (by simp [hphase]) sorted message
  | fetched w error written =>
    obtain ⟨worker, info, rest, missingSet, n, hw, hphase, rfl⟩ := exec_fetched ht
    refine allCounts_chunkFetched hs hw (by simp [hphase]) info rest missingSet n error ?_
    rintro rfl
    exact hmark (worker.obj, info) (by simp [fetchedChunk, hw, Worker.fetching?, hphase])
  | merged w error written =>
    obtain ⟨worker, hw, hphase, rfl⟩ := exec_merged ht
    exact allCounts_mergeDone hs hw (by simp [hphase]) error
  | cancelled w written =>
    obtain ⟨worker, hw, -, hlive, rfl⟩ := exec_cancelled ht
    exact allCounts_workerCancelled hs hw hlive
  | crash => exact Option.some.inj ht ▸ allCounts_restart hs
  | crashInMerge w written =>
    obtain ⟨worker, hw, hphase, rfl⟩ := exec_crashInMerge ht
    exact allCounts_restart (allCounts_completed hs hw (by simp [hphase]))

end DistriStore.DownloadManager
