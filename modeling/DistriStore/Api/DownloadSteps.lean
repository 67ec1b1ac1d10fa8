import DistriStore.Api.DownloadRestart

/-!
# What a step does to one file

The downloads of different files do not meet: a step of the download manager is about one file,
and `Apart` says what it leaves alone of every other.  On its own file a step is one of few
things.  A request launches a worker (`Launched`) or does nothing (`Declined`); a worker works
on (`Calm`) or ends (`Ended`); a pause that comes back takes the status and the task entry
(`Halted`).  The lemmas `request_cases`, `worker_cases`, `pauseDownload_cases`, `pauseDone_cases`,
`apart_pauseTimeout`, `clearCompleted_spec` and `crashes_cases` say so for the labels, and the
arguments about single files are read off their summary, `fileStep`.
-/

namespace DistriStore.DownloadManager

open Lib

/-! ## The workers of a file -/

/-- Task `w` works on the file with object `i` and is not over. -/
def Live (s : State) (h : String) (w i : ℕ) : Prop :=
  ∃ worker : Worker, s.workers[w]? = some worker ∧ worker.fileHash = h ∧ worker.obj = i ∧
    worker.phase ≠ .finished

/-- Some worker of the file is unfinished. -/
def Busy (s : State) (h : String) : Prop := ∃ w i, Live s h w i

/-- No two workers of the file are unfinished. -/
def AtMostOne (s : State) (h : String) : Prop :=
  ∀ w w' i i', Live s h w i → Live s h w' i' → w = w'

/-- The file is tracked with the status `downloading`. -/
def Active (s : State) (h : String) : Prop :=
  ∃ (i : ℕ) (o : DownloadState), s.downloads.get? h = some i ∧ s.objects[i]? = some o ∧
    o.status = .downloading

/-- What a step does that launches no worker of the file, and takes nothing from a live one. -/
structure Calm (h : String) (s t : State) : Prop where
  live : ∀ w i, Live t h w i → Live s h w i
  downloads : t.downloads.get? h = s.downloads.get? h
  tasks : t.tasks.get? h = s.tasks.get? h
  objects : ∀ (i : ℕ) (o : DownloadState), s.objects[i]? = some o → o.fileHash = h →
    ∃ o' : DownloadState, t.objects[i]? = some o' ∧ o'.fileHash = h ∧ o'.status = o.status

/-- A step on other files: it does not touch the `.resume` file either. -/
structure Apart (h : String) (s t : State) : Prop extends Calm h s t where
  files : t.files.get? h = s.files.get? h

lemma Calm.refl (h : String) (s : State) : Calm h s s where
  live _ _ hlive := hlive
  downloads := rfl
  tasks := rfl
  objects _ o ho hhash := ⟨o, ho, hhash, rfl⟩

lemma Calm.trans {h : String} {s t u : State} (hst : Calm h s t) (htu : Calm h t u) :
    Calm h s u where
  live w i hlive := hst.live w i (htu.live w i hlive)
  downloads := htu.downloads.trans hst.downloads
  tasks := htu.tasks.trans hst.tasks
  objects i o ho hhash := by
    obtain ⟨o', ho', hhash', hstatus'⟩ := hst.objects i o ho hhash
    obtain ⟨o'', ho'', hhash'', hstatus''⟩ := htu.objects i o' ho' hhash'
    exact ⟨o'', ho'', hhash'', hstatus''.trans hstatus'⟩

lemma Apart.refl (h : String) (s : State) : Apart h s s := ⟨Calm.refl h s, rfl⟩

lemma Apart.trans {h : String} {s t u : State} (hst : Apart h s t) (htu : Apart h t u) :
    Apart h s u :=
  ⟨hst.toCalm.trans htu.toCalm, htu.files.trans hst.files⟩

/-! ### Single statements -/

/-- Assignments to an object of another file, or to other fields than the status. -/
lemma apart_assign {s : State} {i : ℕ} {f : DownloadState → DownloadState} {h : String}
    (hhash : ∀ o, (f o).fileHash = o.fileHash)
    (hstatus : ∀ o, s.objects[i]? = some o → o.fileHash = h → (f o).status = o.status) :
    Apart h s (s.assign i f) := by
  refine ⟨{ Calm.refl h s with objects := fun j o ho hh => ?_ }, rfl⟩
  refine ⟨_, getElem?_modify_of_some f ho, ?_⟩
  by_cases hij : i = j
  · subst hij
    rw [if_pos rfl]
    exact ⟨(hhash o).trans hh, hstatus o ho hh⟩
  · rw [if_neg hij]
    exact ⟨hh, rfl⟩

lemma calm_saveResume (h : String) (s : State) (i : ℕ) (written : Bool) :
    Calm h s (s.saveResume i written) := { Calm.refl h s with }

/-- Object `i` belongs to another file. -/
def Elsewhere (s : State) (i : ℕ) (h : String) : Prop :=
  ∀ o : DownloadState, s.objects[i]? = some o → o.fileHash ≠ h

lemma Elsewhere.assign {s : State} {i : ℕ} {h : String} {f : DownloadState → DownloadState}
    (hother : Elsewhere s i h) (hhash : ∀ o, (f o).fileHash = o.fileHash) :
    Elsewhere (s.assign i f) i h := by
  intro o ho
  obtain ⟨o', ho', rfl⟩ := getElem?_modify_cases ho
  rw [if_pos rfl, hhash]
  exact hother o' ho'

lemma Elsewhere.apart_assign {s : State} {i : ℕ} {h : String} {f : DownloadState → DownloadState}
    (hother : Elsewhere s i h) (hhash : ∀ o, (f o).fileHash = o.fileHash) :
    Apart h s (s.assign i f) :=
  DownloadManager.apart_assign hhash fun o ho hh => absurd hh (hother o ho)

lemma Elsewhere.apart_saveResume {s : State} {i : ℕ} {h : String} (hother : Elsewhere s i h)
    (written : Bool) : Apart h s (s.saveResume i written) := by
  refine ⟨calm_saveResume h s i written, ?_⟩
  unfold State.saveResume
  dsimp only
  split
  · rfl
  · next o ho =>
    split
    · rw [Dict.get?_set_ne _ _ (hother o ho).symm]
    · rfl

/-- Signals to workers, and the steps of a worker to a next phase. -/
lemma apart_updateWorker (h : String) (s : State) (w : ℕ) {f : Worker → Worker}
    (hhash : ∀ worker, (f worker).fileHash = worker.fileHash)
    (hobj : ∀ worker, (f worker).obj = worker.obj)
    (hphase : ∀ worker, s.workers[w]? = some worker → worker.phase = .finished →
      (f worker).phase = .finished) : Apart h s (s.updateWorker w f) := by
  refine ⟨{ Calm.refl h s with live := ?_ }, rfl⟩
  rintro w' i ⟨worker, hw', hh, hi, hlive⟩
  obtain ⟨worker', hworker', rfl⟩ := getElem?_modify_cases hw'
  refine ⟨worker', hworker', ?_⟩
  by_cases hww : w = w'
  · subst hww
    rw [if_pos rfl] at hh hi hlive
    exact ⟨(hhash worker').symm.trans hh, (hobj worker').symm.trans hi,
      fun hfinished => hlive (hphase worker' hworker' hfinished)⟩
  · rw [if_neg hww] at hh hi hlive
    exact ⟨hh, hi, hlive⟩

lemma apart_setPhase (h : String) {s : State} {w : ℕ} {worker : Worker} (phase : Phase)
    (hw : s.workers[w]? = some worker) (hlive : worker.phase ≠ .finished) :
    Apart h s (s.setPhase w phase) := by
  refine apart_updateWorker h s w (fun _ => rfl) (fun _ => rfl) fun worker' hw' hfinished => ?_
  rw [hw, Option.some.injEq] at hw'
  subst hw'
  exact absurd hfinished hlive

/-! ### Requests -/

/-- The request has launched a worker of the file with object `i`. -/
structure Launched (h : String) (s t : State) (i : ℕ) : Prop where
  /-- Nobody else was taken to be at work. -/
  idle : ¬ Active s h
  workers : ∃ manifest, t.workers =
    s.workers ++ [{ fileHash := h, manifest := manifest, obj := i }]
  downloads : t.downloads = s.downloads.set h i
  tasks : t.tasks = s.tasks.set h s.workers.length
  object : ∃ o : DownloadState, t.objects[i]? = some o ∧ o.status = .downloading
  objects : ∀ (j : ℕ) (o : DownloadState), s.objects[j]? = some o → o.fileHash ≠ h →
    t.objects[j]? = some o
  files : ∀ k, k ≠ h → t.files.get? k = s.files.get? k

/-- The request has launched nothing. -/
structure Declined (s t : State) : Prop where
  workers : t.workers = s.workers
  apart : ∀ k, Apart k s t

lemma declined_refl (s : State) : Declined s s := ⟨rfl, fun k => Apart.refl k s⟩

lemma existing_objects (s : State) (h : String) : ∃ loaded : List DownloadState,
    (s.existing h).1 = { s with objects := s.objects ++ loaded } := by
  unfold State.existing
  split
  · exact ⟨[], by simp⟩
  · split
    · exact ⟨[], by simp⟩
    · exact ⟨_, rfl⟩

lemma declined_existing (s : State) (h : String) : Declined s (s.existing h).1 := by
  refine ⟨workers_existing s h, fun k => ?_⟩
  obtain ⟨loaded, hloaded⟩ := existing_objects s h
  rw [hloaded]
  refine ⟨{ Calm.refl k s with objects := fun j o ho hh => ⟨o, ?_, hh, rfl⟩ }, rfl⟩
  exact getElem?_append_of_some ho _

/-- What is tracked as `downloading` is found so. -/
lemma existing_of_active {s : State} {h : String} (hactive : Active s h) :
    ∃ i o, (s.existing h).2 = some (i, o) ∧ o.status = .downloading := by
  obtain ⟨i, o, hi, ho, hstatus⟩ := hactive
  refine ⟨i, o, ?_, hstatus⟩
  unfold State.existing
  rw [hi]
  simp [ho]

/-- The state before the launch differs from `s` in what belongs to the file alone. -/
lemma launched_of {s u : State} {h : String} {i : ℕ} (hidle : ¬ Active s h)
    (hworkers : u.workers = s.workers) (hdownloads : u.downloads = s.downloads)
    (htasks : u.tasks = s.tasks) (hobject : ∃ o : DownloadState, u.objects[i]? = some o ∧
      o.status = .downloading)
    (hobjects : ∀ (j : ℕ) (o : DownloadState), s.objects[j]? = some o → o.fileHash ≠ h →
      u.objects[j]? = some o)
    (hfiles : ∀ k, k ≠ h → u.files.get? k = s.files.get? k) (manifest : FileManifest) :
    Launched h s ((u.track h i).launch h manifest i) i where
  idle := hidle
  workers := ⟨manifest, congrArg (· ++ _) hworkers⟩
  downloads := congrArg (·.set h i) hdownloads
  tasks := by
    show u.tasks.set h u.workers.length = _
    rw [htasks, hworkers]
  object := hobject
  objects := hobjects
  files := hfiles

/-- The object that `start_download` goes on with is one of the file. -/
lemma objects_prepare {s : State} {h : String} {found : Option (ℕ × DownloadState)}
    (hfound : ∀ i o, found = some (i, o) → s.objects[i]? = some o ∧ o.fileHash = h)
    (manifest : FileManifest) (password : String) (j : ℕ) (o : DownloadState)
    (ho : s.objects[j]? = some o) (hh : o.fileHash ≠ h) :
    (prepare s h manifest password found).1.objects[j]? = some o := by
  have hfresh : (freshDownload s h manifest password).1.objects[j]? = some o :=
    getElem?_append_of_some ho _
  unfold prepare
  split
  · exact hfresh
  · next i o' =>
    split
    · obtain ⟨ho', hhash⟩ := hfound i o' rfl
      have hij : i ≠ j := by
        rintro rfl
        rw [ho, Option.some.injEq] at ho'
        exact hh (ho' ▸ hhash)
      simp [State.assign, hij, ho]
    · exact hfresh

/-- What preparing a download leaves alone. -/
lemma prepare_objects (s : State) (h : String) (manifest : FileManifest) (password : String)
    (found : Option (ℕ × DownloadState)) : ∃ objects : List DownloadState,
    (prepare s h manifest password found).1 = { s with objects := objects } := by
  unfold prepare
  split
  · exact ⟨_, rfl⟩
  · split <;> exact ⟨_, rfl⟩

/-- `start_download` launches a worker of the file or does nothing. -/
lemma startDownload_cases {s : State} (hs : Inv ∅ (fun _ => 0) s) (h : String)
    (d : ManifestDict) (password : String) (written : Bool) :
    Declined s (startDownload s h d password written).1 ∨
      ∃ i, Launched h s (startDownload s h d password written).1 i := by
  unfold startDownload
  split
  · exact Or.inl (declined_refl s)
  · next manifest _ =>
    obtain ⟨hex, hfound⟩ := existing_spec hs h
    split
    · exact Or.inl (declined_refl s)
    dsimp only
    split
    · exact Or.inl (declined_existing s h)
    · next hnone =>
      have hidle : ¬ Active s h := by
        intro hactive
        obtain ⟨i, o, he, hstatus⟩ := existing_of_active hactive
        rw [he] at hnone
        simp [hstatus] at hnone
      obtain ⟨loaded, hloaded⟩ := existing_objects s h
      obtain ⟨objects, hprepared⟩ :=
        prepare_objects (s.existing h).1 h manifest password (s.existing h).2
      have hindexed : h ∈ (∅ : Set String) → Indexed 0 manifest := False.elim
      obtain ⟨-, o, ho, hhash, hstatus⟩ := prepare_spec hex hfound hindexed password
      have hother := objects_prepare hfound manifest password
      set prepared := prepare (s.existing h).1 h manifest password (s.existing h).2
      have hbase : prepared.1 = { s with objects := objects } := by rw [hprepared, hloaded]
      have hworkers : prepared.1.workers = s.workers := by rw [hbase]
      have hdownloads : prepared.1.downloads = s.downloads := by rw [hbase]
      have htasks : prepared.1.tasks = s.tasks := by rw [hbase]
      refine Or.inr ⟨prepared.2, launched_of (u := prepared.1.saveResume prepared.2 written) hidle
        hworkers hdownloads htasks ⟨o, ho, hstatus⟩ (fun j o' ho' hh => ?_) (fun k hk => ?_)
        manifest⟩
      · refine hother j o' ?_ hh
        rw [hloaded]
        exact getElem?_append_of_some ho' _
      · have hsaved : (prepared.1.saveResume prepared.2 written).files.get? k =
            prepared.1.files.get? k := by
          have hother : Elsewhere prepared.1 prepared.2 k := by
            intro o' ho'
            rw [ho, Option.some.injEq] at ho'
            rw [← ho', hhash]
            exact hk.symm
          exact (hother.apart_saveResume written).files
        rw [hsaved, hbase]

/-- `resume_download` launches a worker of the file or does nothing. -/
lemma resumeDownload_cases {s : State} (hs : Inv ∅ (fun _ => 0) s) (h password : String)
    (d : Option ManifestDict) :
    Declined s (resumeDownload s h password d).1 ∨
      ∃ i, Launched h s (resumeDownload s h password d).1 i := by
  obtain ⟨-, hfound⟩ := existing_spec hs h
  have hdeclined := declined_existing s h
  obtain ⟨loaded, hloaded⟩ := existing_objects s h
  unfold resumeDownload
  split
  · exact Or.inl (declined_refl s)
  split
  · next hnone => exact Or.inl ((congrArg Prod.fst hnone) ▸ hdeclined)
  · next s' i o hsome =>
    rw [hsome] at hfound hdeclined hloaded
    obtain ⟨ho, hhash⟩ := hfound i o rfl
    split
    · exact Or.inl hdeclined
    · next hstatus =>
      split
      · exact Or.inl hdeclined
      · split
        · exact Or.inl hdeclined
        · next manifest _ =>
          replace ho : s'.objects[i]? = some o := ho
          replace hloaded : s' = { s with objects := s.objects ++ loaded } := hloaded
          have hidle : ¬ Active s h := by
            intro hactive
            obtain ⟨i', o', he, hstatus'⟩ := existing_of_active hactive
            rw [hsome, Option.some.injEq, Prod.mk.injEq] at he
            exact hstatus (he.2 ▸ hstatus')
          refine Or.inr ⟨i, launched_of hidle (by rw [hloaded]; rfl) (by rw [hloaded]; rfl)
            (by rw [hloaded]; rfl)
            ⟨{ o with status := .downloading, password := password },
              by simp [State.assign, ho], rfl⟩
            (fun j o' ho' hh => ?_) (fun k _ => by rw [hloaded]; rfl) manifest⟩
          have hj : s'.objects[j]? = some o' := by
            rw [hloaded]
            exact getElem?_append_of_some ho' _
          have hij : i ≠ j := by
            rintro rfl
            rw [ho, Option.some.injEq] at hj
            exact hh (hj ▸ hhash)
          simp [State.assign, hij, hj]

/-- The file of a `start_download` or `resume_download`. -/
def Label.request : Label → Option String
  | .start h _ _ _ => some h
  | .resume h _ _ => some h
  | _ => none

/-- **What a request can do**: launch a worker of its file, or nothing. -/
lemma request_cases {s t : State} {l : Label} {h : String} (hi : Inv ∅ (fun _ => 0) s)
    (hl : l.request = some h) (ht : exec s l = some t) :
    Declined s t ∨ ∃ i, Launched h s t i := by
  cases l with
  | start h' d password written =>
    obtain rfl := Option.some.inj hl
    obtain rfl := Option.some.inj ht
    exact startDownload_cases hi h' d password written
  | resume h' password d =>
    obtain rfl := Option.some.inj hl
    obtain rfl := Option.some.inj ht
    exact resumeDownload_cases hi h' password d
  | _ => cases hl

/-- A launch of another file. -/
lemma Launched.apart {h h' : String} {s t : State} {i : ℕ} (ht : Launched h' s t i)
    (hne : h' ≠ h) : Apart h s t := by
  refine ⟨⟨fun w j => ?_, ?_, ?_, fun j o ho hhash => ⟨o, ?_, hhash, rfl⟩⟩, ht.files h hne.symm⟩
  · rintro ⟨worker, hw, hhash, hobj, hphase⟩
    obtain ⟨manifest, hworkers⟩ := ht.workers
    rw [hworkers] at hw
    rcases getElem?_concat_cases hw with hw | ⟨-, rfl⟩
    · exact ⟨worker, hw, hhash, hobj, hphase⟩
    · exact absurd hhash hne
  · rw [ht.downloads, Dict.get?_set_ne _ _ hne.symm]
  · rw [ht.tasks, Dict.get?_set_ne _ _ hne.symm]
  · exact ht.objects j o ho (hhash.trans_ne hne.symm)

/-- The task of the file is over, or there is none. -/
def TaskOver (s : State) (h : String) : Prop := ∀ w, s.tasks.get? h = some w → taskDone s w = true

lemma apart_finishPause {s : State} {h k : String} {i : ℕ} (hother : Elsewhere s i k) (hk : h ≠ k)
    (written : Bool) : Apart k s (finishPause s h i written) := by
  have hpaused : Apart k s (s.setStatus i .paused) := hother.apart_assign fun _ => rfl
  have hother' : Elsewhere (s.setStatus i .paused) i k := hother.assign fun _ => rfl
  have hsaved := hpaused.trans (hother'.apart_saveResume written)
  exact ⟨{ hsaved.toCalm with tasks := Dict.get?_erase_ne _ hk.symm }, hsaved.files⟩

lemma apart_signalCancel (k : String) (s : State) (h : String) : Apart k s (signalCancel s h) := by
  unfold signalCancel
  split
  · exact Apart.refl k s
  · exact apart_updateWorker k s _ (fun _ => rfl) (fun _ => rfl) fun _ _ hfinished => hfinished

lemma tasks_signalCancel (s : State) (h : String) : (signalCancel s h).tasks = s.tasks := by
  unfold signalCancel
  split <;> rfl

lemma pauses_signalCancel (s : State) (h : String) : (signalCancel s h).pauses = s.pauses := by
  unfold signalCancel
  split <;> rfl

lemma downloads_signalCancel (s : State) (h : String) :
    (signalCancel s h).downloads = s.downloads := by
  unfold signalCancel
  split <;> rfl

lemma objects_signalCancel (s : State) (h : String) : (signalCancel s h).objects = s.objects := by
  unfold signalCancel
  split <;> rfl

lemma taskDone_signalCancel (s : State) (h : String) (w : ℕ) :
    taskDone (signalCancel s h) w = taskDone s w := by
  unfold signalCancel
  split
  · rfl
  · next w' _ =>
    rw [taskDone, taskDone, State.updateWorker, List.getElem?_modify]
    cases s.workers[w]? with
    | none => rfl
    | some worker => by_cases hww : w' = w <;> simp [hww]

/-- `clear_completed` touches no active file. -/
lemma clearCompleted_spec (s : State) (h : String) :
    (clearCompleted s).objects = s.objects ∧ (clearCompleted s).workers = s.workers ∧
      (clearCompleted s).files = s.files ∧
      ((clearCompleted s).downloads.get? h = s.downloads.get? h ∧
          (clearCompleted s).tasks.get? h = s.tasks.get? h ∨
        (clearCompleted s).downloads.get? h = none ∧ ∃ (i : ℕ) (o : DownloadState),
          s.downloads.get? h = some i ∧ s.objects[i]? = some o ∧
            (o.status = .completed ∨ o.status = .error)) := by
  unfold clearCompleted
  dsimp only
  have hentries : ∀ e ∈ s.downloads.entries.filter (fun e => (s.objects[e.2]?).any fun o =>
      o.status = .completed ∨ o.status = .error), ∃ o : DownloadState,
      s.downloads.get? e.1 = some e.2 ∧ s.objects[e.2]? = some o ∧
        (o.status = .completed ∨ o.status = .error) := by
    intro e he
    obtain ⟨hmem, hstatus⟩ := List.mem_filter.1 he
    obtain ⟨o, ho, hover⟩ := (Option.any_eq_true ..).1 hstatus
    exact ⟨o, Dict.get?_of_mem_entries hmem, ho, by simpa using hover⟩
  revert hentries
  generalize List.filter _ _ = entries
  intro hentries
  induction entries using List.reverseRecOn with
  | nil => exact ⟨rfl, rfl, rfl, Or.inl ⟨rfl, rfl⟩⟩
  | append_singleton entries e ih =>
    obtain ⟨hobjects, hworkers, hfiles, hdict⟩ :=
      ih fun e' he' => hentries e' (List.mem_append_left _ he')
    rw [List.foldl_append, List.foldl_cons, List.foldl_nil]
    refine ⟨hobjects, hworkers, hfiles, ?_⟩
    unfold dropEntry
    dsimp only
    rw [Dict.get?_erase, Dict.get?_erase]
    by_cases heq : h = e.1
    · obtain ⟨o, hi, ho, hover⟩ := hentries e (List.mem_append_right _ (List.mem_singleton_self e))
      exact Or.inr ⟨if_pos heq, e.2, o, heq ▸ hi, ho, hover⟩
    · rw [if_neg heq, if_neg heq]
      exact hdict

/-! ### The worker -/

/-- A worker of the file has ended with object `i`, and with this status if it has set one. -/
structure Ended (h : String) (s t : State) (w i : ℕ) (outcome : Option Status) : Prop where
  live : ∀ w' i', Live t h w' i' → Live s h w' i' ∧ w' ≠ w
  downloads : t.downloads.get? h = s.downloads.get? h
  status : ∀ st ∈ outcome, ∃ o : DownloadState, t.objects[i]? = some o ∧ o.status = st
  files : outcome = some .completed → t.files.get? h = none

lemma calm_workerLoop (h : String) {s : State} {w : ℕ} {worker : Worker}
    (hw : s.workers[w]? = some worker) (hlive : worker.phase ≠ .finished) (rest : List ChunkInfo)
    (missingSet : List ℤ) (n : ℕ) (written : Bool) :
    Calm h s (workerLoop s w worker rest missingSet n written) := by
  unfold workerLoop
  split
  · split
    · exact (apart_setPhase h _ hw hlive).toCalm
    · exact (apart_setPhase h _ hw hlive).toCalm
  · have hw' : (s.saveResume worker.obj written).workers[w]? = some worker := hw
    exact (calm_saveResume h s worker.obj written).trans (apart_setPhase h _ hw' hlive).toCalm

lemma Elsewhere.files_workerLoop {h : String} {s : State} {w : ℕ} {worker : Worker}
    (hother : Elsewhere s worker.obj h) (rest : List ChunkInfo) (missingSet : List ℤ) (n : ℕ)
    (written : Bool) :
    (workerLoop s w worker rest missingSet n written).files.get? h = s.files.get? h := by
  unfold workerLoop
  split
  · split <;> rfl
  · exact (hother.apart_saveResume written).files

lemma calm_chunkFetched (h : String) {s : State} {w : ℕ} {worker : Worker} {info : ChunkInfo}
    (hw : s.workers[w]? = some worker) (hlive : worker.phase ≠ .finished) (rest : List ChunkInfo)
    (missingSet : List ℤ) (n : ℕ) (written : Bool) :
    Calm h s (chunkFetched s w worker info rest missingSet n none written) := by
  have hmarked : Apart h s (s.markCompleted worker.obj info.index) :=
    apart_assign (fun _ => rfl) fun _ _ _ => rfl
  have hw' : (s.markCompleted worker.obj info.index).workers[w]? = some worker := hw
  unfold chunkFetched
  dsimp only
  split
  · have hw'' : ((s.markCompleted worker.obj info.index).saveResume worker.obj
      written).workers[w]? = some worker := hw
    exact (hmarked.toCalm.trans (calm_saveResume h _ _ written)).trans
      (calm_workerLoop h hw'' hlive ..)
  · exact hmarked.toCalm.trans (calm_workerLoop h hw' hlive ..)

/-- The steps of a worker on another file. -/
lemma apart_workerRaises {h : String} {s : State} {w : ℕ} {worker : Worker}
    (hw : s.workers[w]? = some worker) (hlive : worker.phase ≠ .finished)
    (hother : Elsewhere s worker.obj h) (sorted : Bool) (message : String) (written : Bool) :
    Apart h s (workerRaises s w worker sorted message written) := by
  unfold workerRaises
  split
  · have herror : Apart h s (s.setError worker.obj message) := hother.apart_assign fun _ => rfl
    have hother' : Elsewhere (s.setError worker.obj message) worker.obj h :=
      hother.assign fun _ => rfl
    exact (herror.trans (hother'.apart_saveResume written)).trans (apart_setPhase h _ hw hlive)
  · exact apart_updateWorker h _ _ (fun _ => rfl) (fun _ => rfl) fun _ _ _ => rfl

lemma apart_chunkFetched {h : String} {s : State} {w : ℕ} {worker : Worker} {info : ChunkInfo}
    (hw : s.workers[w]? = some worker) (hlive : worker.phase ≠ .finished)
    (hother : Elsewhere s worker.obj h) (rest : List ChunkInfo) (missingSet : List ℤ) (n : ℕ)
    (error : Option String) (written : Bool) :
    Apart h s (chunkFetched s w worker info rest missingSet n error written) := by
  cases error with
  | none =>
    refine ⟨calm_chunkFetched h hw hlive rest missingSet n written, ?_⟩
    have hother' : Elsewhere (s.markCompleted worker.obj info.index) worker.obj h :=
      hother.assign fun _ => rfl
    unfold chunkFetched
    dsimp only
    split
    · have hsaved := (hother'.apart_saveResume written).files
      have hother'' : Elsewhere ((s.markCompleted worker.obj info.index).saveResume worker.obj
        written) worker.obj h := hother'
      exact (hother''.files_workerLoop ..).trans hsaved
    · exact hother'.files_workerLoop ..
  | some message =>
    have hsaved := hother.apart_saveResume written
    have hother' : Elsewhere (s.saveResume worker.obj written) worker.obj h := hother
    have herror : Apart h (s.saveResume worker.obj written)
        ((s.saveResume worker.obj written).setError worker.obj message) :=
      hother'.apart_assign fun _ => rfl
    exact (hsaved.trans herror).trans (apart_setPhase h _ hw hlive)

lemma apart_mergeDone {h : String} {s : State} {w : ℕ} {worker : Worker}
    (hw : s.workers[w]? = some worker) (hlive : worker.phase ≠ .finished)
    (hother : Elsewhere s worker.obj h) (hhash : worker.fileHash ≠ h) (error : Option String)
    (written : Bool) : Apart h s (mergeDone s w worker error written) := by
  cases error with
  | none =>
    have hcompleted : Apart h s (s.setStatus worker.obj .completed) :=
      hother.apart_assign fun _ => rfl
    have hother' : Elsewhere (s.setStatus worker.obj .completed) worker.obj h :=
      hother.assign fun _ => rfl
    have hsaved := hcompleted.trans (hother'.apart_saveResume written)
    have hdeleted : Apart h s (((s.setStatus worker.obj .completed).saveResume worker.obj
        written).deleteResume worker.fileHash) :=
      ⟨{ hsaved.toCalm with }, (Dict.get?_erase_ne _ hhash.symm).trans hsaved.files⟩
    exact hdeleted.trans (apart_setPhase h _ hw hlive)
  | some message =>
    have herror : Apart h s (s.setError worker.obj ("Merge failed: " ++ message)) :=
      hother.apart_assign fun _ => rfl
    have hother' : Elsewhere (s.setError worker.obj ("Merge failed: " ++ message)) worker.obj h :=
      hother.assign fun _ => rfl
    exact (herror.trans (hother'.apart_saveResume written)).trans (apart_setPhase h _ hw hlive)

lemma apart_workerCancelled {h : String} {s : State} {w : ℕ} {worker : Worker}
    (hw : s.workers[w]? = some worker) (hlive : worker.phase ≠ .finished)
    (hother : Elsewhere s worker.obj h) (written : Bool) :
    Apart h s (workerCancelled s w worker written) := by
  unfold workerCancelled
  split
  · exact apart_setPhase h _ hw hlive
  · have hpaused : Apart h s (s.setStatus worker.obj .paused) := hother.apart_assign fun _ => rfl
    have hother' : Elsewhere (s.setStatus worker.obj .paused) worker.obj h :=
      hother.assign fun _ => rfl
    exact (hpaused.trans (hother'.apart_saveResume written)).trans (apart_setPhase h _ hw hlive)

/-- The end of a worker, after statements that leave the workers alone. -/
lemma live_setPhase_finished {h : String} {s : State} {w w' i' : ℕ}
    (hlive : Live (s.setPhase w .finished) h w' i') : Live s h w' i' ∧ w' ≠ w := by
  obtain ⟨worker, hw', hh, hi, hphase⟩ := hlive
  obtain ⟨worker', hworker', rfl⟩ := getElem?_modify_cases hw'
  by_cases hww : w = w'
  · rw [if_pos hww] at hphase
    exact absurd rfl hphase
  · rw [if_neg hww] at hh hi hphase
    exact ⟨⟨worker', hworker', hh, hi, hphase⟩, Ne.symm hww⟩

/-- The status that a step of a worker sets at its end. -/
def Label.outcome : Label → Option Status
  | .beginRaises _ true _ _ => some .error
  | .fetched _ (some _) _ => some .error
  | .merged _ none _ => some .completed
  | .merged _ (some _) _ => some .error
  | _ => none

/-- The worker that takes the step. -/
def Label.worker : Label → Option ℕ
  | .begin w _ => some w
  | .beginRaises w _ _ _ => some w
  | .fetched w _ _ => some w
  | .merged w _ _ => some w
  | .cancelled w _ => some w
  | _ => none

lemma ended_workerRaises {s : State} {w : ℕ} {worker : Worker} {o : DownloadState}
    (ho : s.objects[worker.obj]? = some o) (sorted : Bool) (message : String) (written : Bool) :
    Ended worker.fileHash s (workerRaises s w worker sorted message written) w worker.obj
      (Label.beginRaises w sorted message written).outcome := by
  cases sorted with
  | true =>
    refine ⟨fun w' i' hlive => live_setPhase_finished (s := (s.setError worker.obj
      message).saveResume worker.obj written) hlive, rfl, fun st hst => ?_,
      fun hcompleted => by simp [Label.outcome] at hcompleted⟩
    obtain rfl := Option.some.inj hst
    exact ⟨{ o with status := .error, errorMessage := message },
      by simp [workerRaises, State.setPhase, State.updateWorker, State.setError, State.assign,
        State.saveResume, ho], rfl⟩
  | false =>
    refine ⟨fun w' i' hlive => ?_, rfl, by simp [Label.outcome], by simp [Label.outcome]⟩
    refine live_setPhase_finished (s := s) ?_
    obtain ⟨worker', hw', hrest⟩ := hlive
    obtain ⟨worker'', hw'', rfl⟩ := getElem?_modify_cases hw'
    refine ⟨_, getElem?_modify_of_some _ hw'', ?_⟩
    split at hrest
    · next hww =>
      rw [if_pos hww]
      exact hrest
    · next hww =>
      rw [if_neg hww]
      exact hrest

lemma ended_chunkFetched {s : State} {w : ℕ} {worker : Worker} {info : ChunkInfo}
    {o : DownloadState} (ho : s.objects[worker.obj]? = some o) (rest : List ChunkInfo)
    (missingSet : List ℤ) (n : ℕ) (message : String) (written : Bool) :
    Ended worker.fileHash s (chunkFetched s w worker info rest missingSet n (some message) written)
      w worker.obj (some .error) where
  live w' i' hlive := live_setPhase_finished (s := (s.saveResume worker.obj written).setError
    worker.obj message) hlive
  downloads := rfl
  status st hst := by
    obtain rfl := Option.some.inj hst
    exact ⟨{ o with status := .error, errorMessage := message },
      by simp [chunkFetched, State.setPhase, State.updateWorker, State.setError, State.assign,
        State.saveResume, ho], rfl⟩
  files hcompleted := by simp at hcompleted

lemma ended_mergeDone {s : State} {w : ℕ} {worker : Worker} {o : DownloadState}
    (ho : s.objects[worker.obj]? = some o) (error : Option String) (written : Bool) :
    Ended worker.fileHash s (mergeDone s w worker error written) w worker.obj
      (Label.merged w error written).outcome := by
  cases error with
  | none =>
    refine ⟨fun w' i' hlive => live_setPhase_finished (s := ((s.setStatus worker.obj
      .completed).saveResume worker.obj written).deleteResume worker.fileHash) hlive, rfl,
      fun st hst => ?_, fun _ => Dict.get?_erase_self ..⟩
    obtain rfl := Option.some.inj hst
    exact ⟨{ o with status := .completed }, by simp [mergeDone, State.setPhase,
      State.updateWorker, State.setStatus, State.assign, State.saveResume, State.deleteResume, ho],
      rfl⟩
  | some message =>
    refine ⟨fun w' i' hlive => live_setPhase_finished (s := (s.setError worker.obj
      ("Merge failed: " ++ message)).saveResume worker.obj written) hlive, rfl,
      fun st hst => ?_, fun hcompleted => by simp [Label.outcome] at hcompleted⟩
    obtain rfl := Option.some.inj hst
    exact ⟨{ o with status := .error, errorMessage := "Merge failed: " ++ message },
      by simp [mergeDone, State.setPhase, State.updateWorker, State.setError, State.assign,
        State.saveResume, ho], rfl⟩

lemma ended_workerCancelled (s : State) (w : ℕ) (worker : Worker) (written : Bool) :
    Ended worker.fileHash s (workerCancelled s w worker written) w worker.obj none := by
  unfold workerCancelled
  split
  · exact ⟨fun w' i' hlive => live_setPhase_finished (s := s) hlive, rfl, by simp, by simp⟩
  · exact ⟨fun w' i' hlive => live_setPhase_finished (s := (s.setStatus worker.obj
      .paused).saveResume worker.obj written) hlive, rfl, by simp, by simp⟩

lemma elsewhere_worker {s : State} {w : ℕ} {worker : Worker} {k : String}
    (hi : Inv ∅ (fun _ => 0) s) (hw : s.workers[w]? = some worker)
    (hk : worker.fileHash ≠ k) : Elsewhere s worker.obj k := by
  obtain ⟨-, o, ho, hhash, -⟩ := hi.worker w worker hw
  intro o' ho'
  rw [ho, Option.some.injEq] at ho'
  rw [← ho', hhash]
  exact hk

/-- **What a worker can do**: nothing to other files; and to its own it does not let go of it, or
it ends and sets the outcome of the step. -/
lemma worker_cases {s t : State} {l : Label} {w : ℕ} (hi : Inv ∅ (fun _ => 0) s)
    (hl : l.worker = some w) (h : exec s l = some t) : ∃ worker : Worker,
    s.workers[w]? = some worker ∧ worker.phase ≠ .finished ∧
      (∀ k, worker.fileHash ≠ k → Apart k s t) ∧
      (Calm worker.fileHash s t ∧ l.outcome = none ∨
        Ended worker.fileHash s t w worker.obj l.outcome) := by
  cases l with
  | begin w' written =>
    obtain rfl := Option.some.inj hl
    obtain ⟨worker, hw, hcreated, rfl⟩ := exec_begin h
    have hlive : worker.phase ≠ .finished := by simp [hcreated]
    obtain ⟨-, o, ho, -⟩ := hi.worker w' worker hw
    refine ⟨worker, hw, hlive, fun k hk => ?_, Or.inl ⟨?_, rfl⟩⟩
    · rw [workerStart, ho]
      exact ⟨calm_workerLoop k hw hlive .., (elsewhere_worker hi hw hk).files_workerLoop ..⟩
    · rw [workerStart, ho]
      exact calm_workerLoop _ hw hlive ..
  | beginRaises w' sorted message written =>
    obtain rfl := Option.some.inj hl
    obtain ⟨worker, hw, hcreated, -, rfl⟩ := exec_beginRaises h
    have hlive : worker.phase ≠ .finished := by simp [hcreated]
    obtain ⟨-, o, ho, -⟩ := hi.worker w' worker hw
    exact ⟨worker, hw, hlive,
      fun k hk => apart_workerRaises hw hlive (elsewhere_worker hi hw hk) ..,
      Or.inr (ended_workerRaises ho ..)⟩
  | fetched w' error written =>
    obtain rfl := Option.some.inj hl
    obtain ⟨worker, info, rest, missingSet, n, hw, hphase, rfl⟩ := exec_fetched h
    have hlive : worker.phase ≠ .finished := by simp [hphase]
    obtain ⟨-, o, ho, -⟩ := hi.worker w' worker hw
    refine ⟨worker, hw, hlive,
      fun k hk => apart_chunkFetched hw hlive (elsewhere_worker hi hw hk) .., ?_⟩
    cases error with
    | none => exact Or.inl ⟨calm_chunkFetched _ hw hlive .., rfl⟩
    | some message => exact Or.inr (ended_chunkFetched ho ..)
  | merged w' error written =>
    obtain rfl := Option.some.inj hl
    obtain ⟨worker, hw, hphase, rfl⟩ := exec_merged h
    have hlive : worker.phase ≠ .finished := by simp [hphase]
    obtain ⟨-, o, ho, -⟩ := hi.worker w' worker hw
    exact ⟨worker, hw, hlive,
      fun k hk => apart_mergeDone hw hlive (elsewhere_worker hi hw hk) hk ..,
      Or.inr (ended_mergeDone ho ..)⟩
  | cancelled w' written =>
    obtain rfl := Option.some.inj hl
    obtain ⟨worker, hw, -, hlive, rfl⟩ := exec_cancelled h
    exact ⟨worker, hw, hlive,
      fun k hk => apart_workerCancelled hw hlive (elsewhere_worker hi hw hk) written,
      Or.inr (ended_workerCancelled s w' worker written)⟩
  | _ => cases hl

/-! ### Pauses and restarts -/

/-- The end of a pause, on its own file. -/
structure Halted (h : String) (s t : State) (i : ℕ) : Prop where
  live : ∀ w i', Live t h w i' → Live s h w i'
  downloads : t.downloads.get? h = s.downloads.get? h
  objects : ∀ (j : ℕ) (o : DownloadState), s.objects[j]? = some o → ∃ o' : DownloadState,
    t.objects[j]? = some o' ∧ o'.fileHash = o.fileHash ∧
      o'.status = if i = j then .paused else o.status

lemma halted_finishPause (s : State) (h : String) (i : ℕ) (written : Bool) :
    Halted h s (finishPause s h i written) i where
  live _ _ hlive := hlive
  downloads := rfl
  objects j o ho := by
    refine ⟨_, getElem?_modify_of_some _ ho, ?_, ?_⟩
    · split <;> rfl
    · split <;> rfl

lemma Calm.halted {h : String} {s s' t : State} {i : ℕ} (hcalm : Calm h s s')
    (hobjects : s'.objects = s.objects) (ht : Halted h s' t i) : Halted h s t i where
  live w i' hlive := hcalm.live w i' (ht.live w i' hlive)
  downloads := ht.downloads.trans hcalm.downloads
  objects j o ho := ht.objects j o (by rw [hobjects, ho])

/-- `pause_download` of an active file waits, or goes on at once because its task is over. -/
lemma pauseDownload_cases {s : State} (hi : Inv ∅ (fun _ => 0) s) (h : String)
    (written : Bool) :
    (¬ Active s h ∧ pauseDownload s h written = s) ∨
      Active s h ∧ ((pauseDownload s h written).pauses.length = s.pauses.length + 1 ∧
          (∀ k, Apart k s (pauseDownload s h written)) ∨
        (pauseDownload s h written).pauses.length = s.pauses.length ∧ TaskOver s h ∧
          (∀ k, h ≠ k → Apart k s (pauseDownload s h written)) ∧
          ∃ i, Halted h s (pauseDownload s h written) i) := by
  have hobjects := objects_signalCancel s h
  have hlength : (signalCancel s h).pauses.length = s.pauses.length :=
    congrArg List.length (pauses_signalCancel s h)
  unfold pauseDownload
  split
  · next hnone =>
    refine Or.inl ⟨?_, rfl⟩
    rintro ⟨i, o, hdown, -⟩
    rw [hnone] at hdown
    cases hdown
  · next i hdown =>
    obtain ⟨o, ho, hhash⟩ := hi.tracked h i hdown
    have hnow : (∀ k, h ≠ k → Apart k s (finishPause (signalCancel s h) h i written)) ∧
        ∃ j, Halted h s (finishPause (signalCancel s h) h i written) j := by
      refine ⟨fun k hk => ?_, i, (apart_signalCancel h s h).toCalm.halted hobjects
        (halted_finishPause (signalCancel s h) h i written)⟩
      have hother : Elsewhere (signalCancel s h) i k := by
        intro o' ho'
        rw [hobjects, ho, Option.some.injEq] at ho'
        rw [← ho', hhash]
        exact hk
      exact (apart_signalCancel k s h).trans (apart_finishPause hother hk written)
    split
    · next hstatus =>
      rw [ho] at hstatus
      refine Or.inr ⟨⟨i, o, hdown, ho, by simpa using hstatus⟩, ?_⟩
      unfold awaitTask
      rw [tasks_signalCancel]
      split
      · next hnone =>
        refine Or.inr ⟨hlength, fun w hw => ?_, hnow⟩
        rw [hnone] at hw
        cases hw
      · next w hw =>
        rw [taskDone_signalCancel]
        split
        · next hdone =>
          refine Or.inr ⟨hlength, fun w' hw' => ?_, hnow⟩
          rw [hw, Option.some.injEq] at hw'
          exact hw' ▸ hdone
        · refine Or.inl ⟨?_, fun k => ?_⟩
          · rw [List.length_append, pauses_signalCancel, List.length_singleton]
          · have hsignal := apart_signalCancel k s h
            exact ⟨{ hsignal.toCalm with tasks := rfl }, hsignal.files⟩
    · next hstatus =>
      refine Or.inl ⟨?_, rfl⟩
      rintro ⟨j, o', hj, ho', hdownloading⟩
      rw [hdown, Option.some.injEq] at hj
      subst hj
      rw [ho'] at hstatus
      simp [hdownloading] at hstatus

/-- A pause comes back when its task is over, without a trace when the task raised. -/
lemma pauseDone_cases {s t : State} {p : ℕ} {written : Bool}
    (hi : Inv ∅ (fun _ => 0) s) (hs : Control s) (h : exec s (.pauseDone p written) = some t) :
    ∃ pause, s.pauses[p]? = some pause ∧ pause.ended = false ∧
      (∀ k, pause.fileHash ≠ k → Apart k s t) ∧
      (Apart pause.fileHash s t ∨ Halted pause.fileHash s t pause.obj) := by
  obtain ⟨pause, hp, hended, -, rfl⟩ := exec_pauseDone h
  unfold leavePause
  split
  · have hapart (k : String) : Apart k s
        (s.updatePause p fun pause => { pause with ended := true }) := ⟨{ Calm.refl k s with }, rfl⟩
    exact ⟨pause, hp, hended, fun k _ => hapart k, Or.inl (hapart _)⟩
  refine ⟨pause, hp, hended, fun k hk => ?_, Or.inr ?_⟩
  · have hother : Elsewhere s pause.obj k := by
      obtain ⟨worker, hw, hobj, hhash⟩ := hs.pause p pause hp
      exact hobj ▸ elsewhere_worker hi hw (hhash ▸ hk)
    have hfinished := apart_finishPause hother hk written
    exact ⟨{ hfinished.toCalm with }, hfinished.files⟩
  · exact { halted_finishPause s pause.fileHash pause.obj written with }

lemma apart_pauseTimeout {s t : State} {p : ℕ} (h : exec s (.pauseTimeout p) = some t)
    (k : String) : Apart k s t := by
  obtain ⟨pause, -, -, rfl⟩ := exec_pauseTimeout h
  have hpause : Apart k s (s.updatePause p fun pause => { pause with cancelling := true }) :=
    ⟨{ Calm.refl k s with }, rfl⟩
  exact hpause.trans
    (apart_updateWorker k _ _ (fun _ => rfl) (fun _ => rfl) fun _ _ hfinished => hfinished)

lemma restart_frame (files : Dict String ResumeDict) :
    (restart files).workers = [] ∧ (restart files).pauses = [] ∧ (restart files).files = files := by
  have hfold (fs : List ResumeDict) (s : State) :
      (fs.foldl recoverFile s).workers = s.workers ∧ (fs.foldl recoverFile s).pauses = s.pauses ∧
        (fs.foldl recoverFile s).files = s.files := by
    induction fs generalizing s with
    | nil => exact ⟨rfl, rfl, rfl⟩
    | cons f fs ih => exact ih (recoverFile s f)
  exact hfold files.values { files := files }

/-- A new process has no tasks, and nothing is `downloading` in it. -/
lemma restart_spec (files : Dict String ResumeDict) (h : String) :
    ¬ Busy (restart files) h ∧ ¬ Active (restart files) h ∧ (restart files).files = files := by
  have hcontrol := control_restart files
  obtain ⟨hworkers, hpauses, hfiles⟩ := restart_frame files
  refine ⟨?_, ?_, hfiles⟩
  · rintro ⟨w, i, worker, hw, -⟩
    simp [hworkers] at hw
  · rintro ⟨i, o, hi, ho, hstatus⟩
    rcases hcontrol.running i ⟨h, o, hi, ho, hstatus⟩ with ⟨w, worker, hw, -⟩ | ⟨p, pause, hp, -⟩
    · simp [hworkers] at hw
    · simp [hpauses] at hp

/-- The process dies in the step. -/
def Label.crashes : Label → Bool
  | .crash => true
  | .crashInMerge _ _ => true
  | _ => false

/-- A crash keeps the `.resume` files, but for the file of a worker that is completing it. -/
lemma crashes_cases {s t : State} {l : Label} (hi : Inv ∅ (fun _ => 0) s)
    (hl : l.crashes = true) (h : exec s l = some t) (k : String) : ¬ Busy t k ∧ ¬ Active t k ∧
      (t.files.get? k = s.files.get? k ∨ Busy s k) := by
  cases l with
  | crash =>
    rw [exec, Option.some.injEq] at h
    subst h
    obtain ⟨hbusy, hactive, hfiles⟩ := restart_spec s.files k
    exact ⟨hbusy, hactive, Or.inl (by rw [hfiles])⟩
  | crashInMerge w written =>
    obtain ⟨worker, hw, hphase, rfl⟩ := exec_crashInMerge h
    obtain ⟨hbusy, hactive, hfiles⟩ := restart_spec
      ((s.setStatus worker.obj .completed).saveResume worker.obj written).files k
    refine ⟨hbusy, hactive, ?_⟩
    by_cases hk : worker.fileHash = k
    · exact Or.inr ⟨w, worker.obj, worker, hw, hk, rfl, by simp [hphase]⟩
    · have hother : Elsewhere (s.setStatus worker.obj .completed) worker.obj k :=
        (elsewhere_worker hi hw hk).assign fun _ => rfl
      rw [hfiles]
      exact Or.inl (hother.apart_saveResume written).files
  | _ => cases hl

/-! ## One file in any step -/

/-- What a step is to one file. -/
inductive FileStep (h : String) (s t : State) (l : Label) : Prop where
  /-- The step is about other files, or a request or pause that does nothing. -/
  | apart (ht : Apart h s t)
  | launched (i : ℕ) (hl : l.request = some h) (ht : Launched h s t i)
  /-- A worker of the file goes on. -/
  | worker (w i : ℕ) (hlive : Live s h w i) (ht : Calm h s t)
  | ended (w i : ℕ) (hlive : Live s h w i) (ht : Ended h s t w i l.outcome)
  /-- `pause_download` does not have to wait. -/
  | paused (i : ℕ) (hactive : Active s h) (hover : TaskOver s h) (ht : Halted h s t i)
  /-- A pause goes on after its wait. -/
  | pauseDone (p : ℕ) (written : Bool) (pause : Pause) (hl : l = .pauseDone p written)
      (hp : s.pauses[p]? = some pause) (hhash : pause.fileHash = h)
      (ht : Halted h s t pause.obj)
  | cleared (hl : l = .clear) (ht : t = clearCompleted s)
  | crashed (hl : l.crashes = true)

/-- **What a step can do to a file.** -/
lemma fileStep (h : String) {s t : State} {l : Label} (hi : Inv ∅ (fun _ => 0) s)
    (hc : Control s) (ht : exec s l = some t) : FileStep h s t l := by
  have hrequest {h' : String} (hl : l.request = some h') : FileStep h s t l := by
    rcases request_cases hi hl ht with hdeclined | ⟨i, hlaunched⟩
    · exact .apart (hdeclined.apart h)
    · by_cases hh : h' = h
      · subst hh
        exact .launched i hl hlaunched
      · exact .apart (hlaunched.apart hh)
  have hworker {w : ℕ} (hl : l.worker = some w) : FileStep h s t l := by
    obtain ⟨worker, hw, hphase, hapart, hown⟩ := worker_cases hi hl ht
    by_cases hh : worker.fileHash = h
    · have hlive : Live s h w worker.obj := ⟨worker, hw, hh, rfl, hphase⟩
      subst hh
      rcases hown with ⟨hcalm, -⟩ | hended
      · exact .worker w worker.obj hlive hcalm
      · exact .ended w worker.obj hlive hended
    · exact .apart (hapart h hh)
  cases l with
  | start h' d password written => exact hrequest rfl
  | resume h' password d => exact hrequest rfl
  | pause h' written =>
    obtain rfl := Option.some.inj ht
    rcases pauseDownload_cases hi h' written with ⟨-, heq⟩ | ⟨hactive, ⟨-, hapart⟩ | hnow⟩
    · rw [heq]
      exact .apart (Apart.refl h s)
    · exact .apart (hapart h)
    · obtain ⟨-, hover, hapart, i, hhalted⟩ := hnow
      by_cases hh : h' = h
      · subst hh
        exact .paused i hactive hover hhalted
      · exact .apart (hapart h hh)
  | pauseTimeout p => exact .apart (apart_pauseTimeout ht h)
  | pauseDone p written =>
    obtain ⟨pause, hp, -, hapart, hown⟩ := pauseDone_cases hi hc ht
    by_cases hh : pause.fileHash = h
    · rcases hown with hraised | hhalted
      · exact .apart (hh ▸ hraised)
      · exact .pauseDone p written pause rfl hp hh (hh ▸ hhalted)
    · exact .apart (hapart h hh)
  | clear => exact .cleared rfl (Option.some.inj ht).symm
  | begin w written => exact hworker rfl
  | beginRaises w sorted message written => exact hworker rfl
  | fetched w error written => exact hworker rfl
  | merged w error written => exact hworker rfl
  | cancelled w written => exact hworker rfl
  | crash => exact .crashed rfl
  | crashInMerge w written => exact .crashed rfl

end DistriStore.DownloadManager
