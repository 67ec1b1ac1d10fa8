import DistriStore.Api.SingleDownload

/-!
# The statements of the manager on one file

What the requests, the workers and a new process do to a file, its own manager does as well
(`only_startDownload`, `only_pauseDownload`, `only_chunkFetched`, `only_restart`, …); what they do to
another file is not seen there.
-/

namespace DistriStore.DownloadManager

open Lib

variable {s t : State} {h h' : String} {i w p : ℕ} {o : DownloadState} {worker : Worker}
  {pause : Pause}

/-! ### Requests -/

lemma only_freshDownload (hs : InRange s) (h : String) (manifest : FileManifest)
    (password : String) : freshDownload (s.only h) h manifest password =
      ((freshDownload s h manifest password).1.only h,
        (freshDownload s h manifest password).1.objectPlace h
          (freshDownload s h manifest password).2) := by
  have happend := hs.only_append (o := DownloadState.fresh h manifest password) rfl
  have hplace := (length_objects_only s h).trans
    (objectPlace_append (DownloadState.fresh h manifest password) h le_rfl).symm
  exact Prod.ext happend.symm hplace

lemma only_prepare (hs : InRange s) (manifest : FileManifest) (password : String)
    {e : Option (ℕ × DownloadState)}
    (he : ∀ i o, e = some (i, o) → s.objects[i]? = some o ∧ o.fileHash = h) :
    prepare (s.only h) h manifest password (found s h e) =
      ((prepare s h manifest password e).1.only h,
        (prepare s h manifest password e).1.objectPlace h (prepare s h manifest password e).2) := by
  cases e with
  | none => exact only_freshDownload hs h manifest password
  | some e =>
    obtain ⟨i, o⟩ := e
    obtain ⟨ho, hh⟩ := he i o rfl
    simp only [found, Option.map_some, prepare]
    split
    · have hplace := objectPlace_assign (f := fun o => { o with
        status := .downloading, password := password }) (fun _ => rfl) s h i
      refine Prod.ext (only_assign (f := fun o => { o with
        status := .downloading, password := password }) (fun _ => rfl) ho hh).symm ?_
      exact (congrFun hplace i).symm
    · exact only_freshDownload hs h manifest password

lemma only_prepare_other (hs : InRange s) (manifest : FileManifest) (password : String)
    {e : Option (ℕ × DownloadState)} (hh : h' ≠ h)
    (he : ∀ i o, e = some (i, o) → s.objects[i]? = some o ∧ o.fileHash = h') :
    (prepare s h' manifest password e).1.only h = s.only h := by
  have hfresh : (freshDownload s h' manifest password).1.only h = s.only h :=
    hs.only_append_other (o := DownloadState.fresh h' manifest password) hh
  cases e with
  | none => exact hfresh
  | some e =>
    obtain ⟨i, o⟩ := e
    obtain ⟨ho, hh'⟩ := he i o rfl
    unfold prepare
    dsimp only
    split
    · exact only_assign_other (fun _ => rfl) ho fun heq => hh (hh'.symm.trans heq)
    · exact hfresh

lemma InRange.prepare (hs : InRange s) (manifest : FileManifest) (password : String)
    (e : Option (ℕ × DownloadState)) :
    InRange (DownloadManager.prepare s h manifest password e).1 := by
  unfold DownloadManager.prepare
  split
  · exact hs.appendObject _
  · split
    · exact hs.assign _ _
    · exact hs.appendObject _

/-- What `start_download` finds does not depend on the places. -/
lemma filter_found (s : State) (h : String) (e : Option (ℕ × DownloadState)) :
    (found s h e).filter (fun e => e.2.status = .downloading) =
      found s h (e.filter fun e => e.2.status = .downloading) := by
  cases e with
  | none => rfl
  | some e => by_cases hstatus : e.2.status = .downloading <;> simp [found, Option.filter, hstatus]

/-- The object of a download that starts, and the references while it is saved. -/
lemma exists_prepared (hi : Inv ∅ (fun _ => 0) s) (hs : InRange s) (h : String)
    (manifest : FileManifest) (password : String) {r : State × ℕ}
    (hr : prepare (s.existing h).1 h manifest password (s.existing h).2 = r) :
    ∃ o, (r.1.track h r.2).objects[r.2]? = some o ∧ o.fileHash = h ∧ InRange (r.1.track h r.2) := by
  obtain ⟨hex, hspec⟩ := existing_spec hi h
  have hindexed : h ∈ (∅ : Set String) → Indexed 0 manifest := False.elim
  obtain ⟨-, o, ho, hh, -⟩ := prepare_spec hex hspec hindexed password
  have hprepared := (hs.existing h).prepare (h := h) manifest password (s.existing h).2
  rw [hr] at ho hprepared
  exact ⟨o, ho, hh, hprepared.track h ho⟩

lemma lookupRaises_only (s : State) (h : String) :
    (s.only h).lookupRaises h ↔ s.lookupRaises h := by
  unfold State.lookupRaises
  rw [get?_downloads_only, Option.map_eq_none_iff]

lemma only_startDownload (hi : Inv ∅ (fun _ => 0) s) (hs : InRange s) (h : String)
    (d : ManifestDict) (password : String) (written : Bool) :
    (startDownload (s.only h) h d password written).1 =
      (startDownload s h d password written).1.only h := by
  obtain ⟨-, hspec⟩ := existing_spec hi h
  unfold startDownload
  split
  · rfl
  · next manifest hmanifest =>
    by_cases hlookup : s.lookupRaises h
    · rw [if_pos ((lookupRaises_only s h).2 hlookup), if_pos hlookup]
    rw [if_neg (mt (lookupRaises_only s h).1 hlookup), if_neg hlookup]
    dsimp only
    rw [only_existing hi hs h]
    dsimp only
    rw [filter_found]
    cases hdownloading : (s.existing h).2.filter fun e => e.2.status = .downloading with
    | some e => rfl
    | none =>
      have hprepare := only_prepare (hs.existing h) manifest password hspec
      obtain ⟨o, ho, hh, htracked⟩ := exists_prepared hi hs h manifest password rfl
      simp only [found, Option.map_none]
      rw [← found, hprepare]
      generalize prepare (s.existing h).1 h manifest password (s.existing h).2 = r at ho htracked ⊢
      dsimp only
      rw [(htracked.saveResume _ written).only_launch h manifest, only_saveResume written ho hh,
        only_track]
      rfl

lemma only_startDownload_other (hi : Inv ∅ (fun _ => 0) s) (hs : InRange s)
    (d : ManifestDict) (password : String) (written : Bool) (hh : h' ≠ h) :
    (startDownload s h' d password written).1.only h = s.only h := by
  obtain ⟨-, hspec⟩ := existing_spec hi h'
  have hexisting := only_existing_other hi hs hh
  unfold startDownload
  split
  · rfl
  · next manifest hmanifest =>
    split
    · rfl
    dsimp only
    split
    · exact hexisting
    · have hprepare := only_prepare_other (hs.existing h') manifest password hh hspec
      obtain ⟨o, ho, hhash, htracked⟩ := exists_prepared hi hs h' manifest password rfl
      generalize prepare (s.existing h').1 h' manifest password (s.existing h').2 = r
        at hprepare ho htracked ⊢
      dsimp only
      rw [(htracked.saveResume _ written).only_launch_other manifest _ hh,
        only_saveResume_other written ho fun heq => hh (hhash.symm.trans heq),
        only_track_other _ _ hh, hprepare, hexisting]

lemma only_resumeDownload (hi : Inv ∅ (fun _ => 0) s) (hs : InRange s) (h password : String)
    (d : Option ManifestDict) : (resumeDownload (s.only h) h password d).1 =
      (resumeDownload s h password d).1.only h := by
  obtain ⟨-, hspec⟩ := existing_spec hi h
  have hrange := hs.existing h
  unfold resumeDownload
  by_cases hlookup : s.lookupRaises h
  · rw [if_pos ((lookupRaises_only s h).2 hlookup), if_pos hlookup]
  rw [if_neg (mt (lookupRaises_only s h).1 hlookup), if_neg hlookup]
  rw [only_existing hi hs h]
  generalize s.existing h = e at hspec hrange ⊢
  obtain ⟨s', e⟩ := e
  cases e with
  | none => rfl
  | some e =>
    obtain ⟨i, o⟩ := e
    obtain ⟨ho, hh⟩ := hspec i o rfl
    simp only [found, Option.map_some]
    split
    · rfl
    · cases d.filter ManifestDict.truthy with
      | none => rfl
      | some d =>
        dsimp only
        cases hmanifest : FileManifest.fromDict d with
        | error e => rfl
        | ok manifest =>
          dsimp only
          have hassign := only_assign (f := fun o => { o with
            status := .downloading, password := password }) (fun _ => rfl) ho hh
          have hplace := objectPlace_assign (f := fun o => { o with
            status := .downloading, password := password }) (fun _ => rfl) s' h i
          have hobject : (s'.assign i fun o => { o with
              status := .downloading, password := password }).objects[i]? = _ :=
            getElem?_modify_of_some _ ho
          rw [((hrange.assign i _).track h hobject).only_launch h manifest, only_track, hassign]
          rw [← hplace]
          rfl

lemma only_resumeDownload_other (hi : Inv ∅ (fun _ => 0) s) (hs : InRange s)
    (password : String) (d : Option ManifestDict) (hh : h' ≠ h) :
    (resumeDownload s h' password d).1.only h = s.only h := by
  obtain ⟨-, hspec⟩ := existing_spec hi h'
  have hrange := hs.existing h'
  have hexisting := only_existing_other hi hs hh
  unfold resumeDownload
  split
  · rfl
  generalize s.existing h' = e at hspec hrange hexisting ⊢
  obtain ⟨s', e⟩ := e
  cases e with
  | none => exact hexisting
  | some e =>
    obtain ⟨i, o⟩ := e
    obtain ⟨ho, hhash⟩ := hspec i o rfl
    dsimp only
    split
    · exact hexisting
    · split
      · exact hexisting
      · split
        · exact hexisting
        · have hobject : (s'.assign i fun o => { o with
              status := .downloading, password := password }).objects[i]? = _ :=
            getElem?_modify_of_some _ ho
          rw [((hrange.assign i _).track h' hobject).only_launch_other _ _ hh,
            only_track_other _ _ hh,
            only_assign_other (f := fun o => { o with
              status := .downloading, password := password }) (fun _ => rfl) ho
              fun heq => hh (hhash.symm.trans heq)]
          exact hexisting

/-! ### Pauses -/

lemma only_finishPause (written : Bool) (ho : s.objects[i]? = some o) (hh : o.fileHash = h) :
    (finishPause s h i written).only h =
      finishPause (s.only h) h (s.objectPlace h i) written := by
  unfold finishPause
  dsimp only
  rw [only_dropHandles, only_saveStatus .paused written ho hh]

lemma only_finishPause_other (written : Bool) (hh : h' ≠ h) (ho : s.objects[i]? = some o)
    (hhash : o.fileHash = h') : (finishPause s h' i written).only h = s.only h := by
  unfold finishPause
  dsimp only
  rw [only_dropHandles_other _ hh,
    only_saveStatus_other .paused written ho fun heq => hh (hhash.symm.trans heq)]

lemma taskDone_only (hw : s.workers[w]? = some worker) (hh : worker.fileHash = h) :
    taskDone (s.only h) (s.workerPlace h w) = taskDone s w := by
  rw [taskDone, taskDone, getElem?_workers_only hw hh, hw]
  rfl

lemma taskRaised_only (hw : s.workers[w]? = some worker) (hh : worker.fileHash = h) :
    taskRaised (s.only h) (s.workerPlace h w) = taskRaised s w := by
  rw [taskRaised, taskRaised, getElem?_workers_only hw hh, hw]
  rfl

/-- A signal to a worker. -/
lemma only_signalCancel (hs : Handles s) (h : String) :
    (signalCancel s h).only h = signalCancel (s.only h) h := by
  unfold signalCancel
  rw [get?_cancelEvents_only, hs.paired h]
  cases htask : s.tasks.get? h with
  | none => rfl
  | some w =>
    obtain ⟨worker, hw, hh, -⟩ := hs.task h w htask
    exact only_updateWorker (fun _ => rfl) (fun _ _ => rfl) hw hh

lemma only_signalCancel_other (hs : Handles s) (hh : h' ≠ h) :
    (signalCancel s h').only h = s.only h := by
  unfold signalCancel
  rw [hs.paired h']
  cases htask : s.tasks.get? h' with
  | none => rfl
  | some w =>
    obtain ⟨worker, hw, hhash, -⟩ := hs.task h' w htask
    exact only_updateWorker_other (fun _ => rfl) hw fun heq => hh (hhash.symm.trans heq)

/-- The task that a pause of the file waits for is a worker of it. -/
lemma task_signalCancel (hs : Handles s) (htask : (signalCancel s h').tasks.get? h = some w) :
    ∃ worker, (signalCancel s h').workers[w]? = some worker ∧ worker.fileHash = h := by
  have hfields : (signalCancel s h').tasks = s.tasks := by
    unfold signalCancel
    split <;> rfl
  obtain ⟨worker, hw, hh, -⟩ := hs.task h w (hfields ▸ htask)
  unfold signalCancel
  split
  · exact ⟨worker, hw, hh⟩
  · refine ⟨_, getElem?_modify_of_some _ hw, ?_⟩
    split
    · exact hh
    · exact hh

lemma only_awaitTask (written : Bool)
    (htask : ∀ w, s.tasks.get? h = some w →
      ∃ worker, s.workers[w]? = some worker ∧ worker.fileHash = h)
    (ho : s.objects[i]? = some o) (hh : o.fileHash = h) :
    (awaitTask s h i written).only h = awaitTask (s.only h) h (s.objectPlace h i) written := by
  unfold awaitTask
  rw [get?_tasks_only]
  cases hget : s.tasks.get? h with
  | none => exact only_finishPause written ho hh
  | some w =>
    obtain ⟨worker, hw, hhash⟩ := htask w hget
    simp only [Option.map_some]
    rw [taskDone_only hw hhash]
    split
    · exact only_finishPause written ho hh
    · exact only_addPause s rfl

lemma only_awaitTask_other (written : Bool) (hh : h' ≠ h) (ho : s.objects[i]? = some o)
    (hhash : o.fileHash = h') : (awaitTask s h' i written).only h = s.only h := by
  unfold awaitTask
  split
  · exact only_finishPause_other written hh ho hhash
  · split
    · exact only_finishPause_other written hh ho hhash
    · exact only_addPause_other s hh

lemma only_pauseDownload (hi : Inv ∅ (fun _ => 0) s) (hs : Handles s) (h : String)
    (written : Bool) : (pauseDownload s h written).only h = pauseDownload (s.only h) h written := by
  unfold pauseDownload
  rw [get?_downloads_only]
  cases htracked : s.downloads.get? h with
  | none => rfl
  | some i =>
    obtain ⟨o, ho, hh⟩ := hi.tracked h i htracked
    have hsignalled : (signalCancel s h).objects[i]? = some o := by
      rw [objects_signalCancel]
      exact ho
    have hplace : (signalCancel s h).objectPlace h = s.objectPlace h := by
      unfold State.objectPlace
      rw [objects_signalCancel]
    simp only [Option.map_some, getElem?_objects_only ho hh, ho]
    split
    · rw [only_awaitTask written (fun w => task_signalCancel hs) hsignalled hh,
        only_signalCancel hs, hplace]
    · rfl

lemma only_pauseDownload_other (hi : Inv ∅ (fun _ => 0) s) (hs : Handles s) (written : Bool)
    (hh : h' ≠ h) : (pauseDownload s h' written).only h = s.only h := by
  unfold pauseDownload
  split
  · rfl
  · next i htracked =>
    obtain ⟨o, ho, hhash⟩ := hi.tracked h' i htracked
    split
    · have hsignalled : (signalCancel s h').objects[i]? = some o := by
        rw [objects_signalCancel]
        exact ho
      rw [only_awaitTask_other written hh hsignalled hhash, only_signalCancel_other hs hh]
    · rfl

/-! ### Clearing -/

lemma foldl_dropEntry (entries : List (String × ℕ)) (s : State) :
    entries.foldl dropEntry s = { s with
      downloads := s.downloads.eraseAll (entries.map Prod.fst)
      tasks := s.tasks.eraseAll (entries.map Prod.fst)
      cancelEvents := s.cancelEvents.eraseAll (entries.map Prod.fst) } := by
  induction entries generalizing s with
  | nil => rfl
  | cons e entries ih =>
    rw [List.foldl_cons, ih]
    rfl

/-- `clear_completed` drops the download of the file. -/
def clears (s : State) (h : String) : Bool :=
  (s.downloads.get? h).any fun i => (s.objects[i]?).any fun o =>
    o.status = .completed ∨ o.status = .error

/-- The files that `clear_completed` drops. -/
def cleared (s : State) : List String :=
  (s.downloads.entries.filter fun e => (s.objects[e.2]?).any fun o =>
    o.status = .completed ∨ o.status = .error).map Prod.fst

lemma clearCompleted_eq (s : State) : clearCompleted s = { s with
    downloads := s.downloads.eraseAll (cleared s)
    tasks := s.tasks.eraseAll (cleared s)
    cancelEvents := s.cancelEvents.eraseAll (cleared s) } := foldl_dropEntry ..

lemma mem_cleared : h ∈ cleared s ↔ clears s h = true := by
  unfold cleared clears
  rw [List.mem_map, Option.any_eq_true]
  constructor
  · rintro ⟨e, he, rfl⟩
    obtain ⟨hmem, hover⟩ := List.mem_filter.1 he
    exact ⟨e.2, Dict.get?_of_mem_entries hmem, hover⟩
  · rintro ⟨i, htracked, hover⟩
    exact ⟨(h, i), List.mem_filter.2 ⟨Dict.mem_entries_of_get? htracked, hover⟩, rfl⟩

lemma cleared_only (hi : Inv ∅ (fun _ => 0) s) (h : String) :
    cleared (s.only h) = if clears s h then [h] else [] := by
  unfold cleared clears
  cases htracked : s.downloads.get? h with
  | none =>
    have hentries : (s.only h).downloads.entries = [] := by
      rw [State.only, State.onlyWith, htracked]
      rfl
    rw [hentries]
    rfl
  | some i =>
    obtain ⟨o, ho, hh⟩ := hi.tracked h i htracked
    have hentries : (s.only h).downloads.entries = [(h, s.objectPlace h i)] := by
      rw [State.only, State.onlyWith, htracked]
      rfl
    rw [hentries, Option.any_some, ho, Option.any_some, List.filter_cons,
      getElem?_objects_only ho hh, Option.any_some]
    split <;> rfl

/-- What is left of a dictionary for the file. -/
lemma single_eraseAll_cleared {υ υ' : Type*} (d : Dict String υ) (s : State) (h : String)
    (place : υ → υ') : Dict.single h (((d.eraseAll (cleared s)).get? h).map place) =
      (Dict.single h ((d.get? h).map place)).eraseAll (if clears s h then [h] else []) := by
  by_cases hclears : clears s h = true
  · rw [Dict.get?_eraseAll_of_mem d (mem_cleared.2 hclears), if_pos hclears]
    exact (Dict.erase_single h _).symm
  · rw [Dict.get?_eraseAll_of_not_mem d fun hmem => hclears (mem_cleared.1 hmem), if_neg hclears]
    rfl

lemma only_clearCompleted (hi : Inv ∅ (fun _ => 0) s) (h : String) :
    (clearCompleted s).only h = clearCompleted (s.only h) := by
  rw [clearCompleted_eq s, clearCompleted_eq (s.only h), cleared_only hi]
  refine State.ext_fields rfl rfl rfl ?_ ?_ ?_ rfl
  · exact single_eraseAll_cleared s.downloads s h _
  · exact single_eraseAll_cleared s.tasks s h _
  · exact single_eraseAll_cleared s.cancelEvents s h _

/-! ### Workers -/

lemma only_workerLoop {worker' : Worker} (hw : s.workers[w]? = some worker')
    (hhash : worker'.fileHash = h) (ho : s.objects[worker.obj]? = some o) (hh : o.fileHash = h)
    (rest : List ChunkInfo) (missingSet : List ℤ) (n : ℕ) (written : Bool) :
    (workerLoop s w worker rest missingSet n written).only h =
      workerLoop (s.only h) (s.workerPlace h w) (worker.renumber (s.objectPlace h)) rest missingSet n
        written := by
  have hsaved : (s.saveResume worker.obj written).workers[w]? = some worker' := hw
  unfold workerLoop
  split
  · rw [apply_ite fun s : State => s.only h, only_setPhase _ hw hhash, only_setPhase _ hw hhash]
    rfl
  · rw [only_setPhase _ hsaved hhash, only_saveResume written ho hh]
    rfl

lemma only_workerLoop_other {worker' : Worker} (hw : s.workers[w]? = some worker')
    (hhash : worker'.fileHash ≠ h) (ho : s.objects[worker.obj]? = some o) (hh : o.fileHash ≠ h)
    (rest : List ChunkInfo) (missingSet : List ℤ) (n : ℕ) (written : Bool) :
    (workerLoop s w worker rest missingSet n written).only h = s.only h := by
  have hsaved : (s.saveResume worker.obj written).workers[w]? = some worker' := hw
  unfold workerLoop
  split
  · rw [apply_ite fun s : State => s.only h, only_setPhase_other _ hw hhash,
      only_setPhase_other _ hw hhash, ite_self]
  · rw [only_setPhase_other _ hsaved hhash, only_saveResume_other written ho hh]

section Steps

variable (hw : s.workers[w]? = some worker) (ho : s.objects[worker.obj]? = some o)
  (hhash : o.fileHash = worker.fileHash)
include hw ho hhash

lemma only_workerStart (hh : worker.fileHash = h) (written : Bool) :
    (workerStart s w worker written).only h =
      workerStart (s.only h) (s.workerPlace h w) (worker.renumber (s.objectPlace h)) written := by
  have hplace : (s.only h).objects[(worker.renumber (s.objectPlace h)).obj]? = some o :=
    getElem?_objects_only ho (hhash.trans hh)
  unfold workerStart
  rw [ho, hplace]
  exact only_workerLoop hw hh ho (hhash.trans hh) ..

lemma only_workerStart_other (hh : worker.fileHash ≠ h) (written : Bool) :
    (workerStart s w worker written).only h = s.only h := by
  unfold workerStart
  rw [ho]
  exact only_workerLoop_other hw hh ho (fun heq => hh (hhash.symm.trans heq)) ..

lemma only_workerRaises (hh : worker.fileHash = h) (sorted : Bool) (message : String)
    (written : Bool) : (workerRaises s w worker sorted message written).only h =
      workerRaises (s.only h) (s.workerPlace h w) (worker.renumber (s.objectPlace h)) sorted message
        written := by
  have hoh : o.fileHash = h := hhash.trans hh
  cases sorted with
  | false =>
    exact only_updateWorker (f := fun worker => { worker with phase := .finished, raised := true })
      (fun _ => rfl) (fun _ _ => rfl) hw hh
  | true =>
    have herror : (s.setError worker.obj message).only h =
        (s.only h).setError (s.objectPlace h worker.obj) message :=
      only_assign (fun _ => rfl) ho hoh
    have hobject : (s.setError worker.obj message).objects[worker.obj]? = some _ :=
      getElem?_assign ho
    have hphase : (((s.setError worker.obj message).saveResume worker.obj written).setPhase w
        .finished).only h = _ :=
      only_setPhase (s := (s.setError worker.obj message).saveResume worker.obj written) _ hw hh
    simp only [workerRaises, if_true]
    rw [hphase, only_saveResume written hobject hoh, herror, objectPlace_setError]
    rfl

lemma only_workerRaises_other (hh : worker.fileHash ≠ h) (sorted : Bool) (message : String)
    (written : Bool) : (workerRaises s w worker sorted message written).only h = s.only h := by
  have hoh : o.fileHash ≠ h := fun heq => hh (hhash.symm.trans heq)
  cases sorted with
  | false =>
    exact only_updateWorker_other
      (f := fun worker => { worker with phase := .finished, raised := true }) (fun _ => rfl) hw hh
  | true =>
    have herror : (s.setError worker.obj message).only h = s.only h :=
      only_assign_other (fun _ => rfl) ho hoh
    have hobject : (s.setError worker.obj message).objects[worker.obj]? = some _ :=
      getElem?_assign ho
    simp only [workerRaises, if_true]
    rw [only_setPhase_other (s := (s.setError worker.obj message).saveResume worker.obj written) _
      hw hh, only_saveResume_other written hobject hoh, herror]

lemma only_chunkFetched (hh : worker.fileHash = h) (info : ChunkInfo) (rest : List ChunkInfo)
    (missingSet : List ℤ) (n : ℕ) (error : Option String) (written : Bool) :
    (chunkFetched s w worker info rest missingSet n error written).only h =
      chunkFetched (s.only h) (s.workerPlace h w) (worker.renumber (s.objectPlace h)) info rest
        missingSet n error written := by
  have hoh : o.fileHash = h := hhash.trans hh
  cases error with
  | none =>
    have hmark : (s.markCompleted worker.obj info.index).only h =
        (s.only h).markCompleted (s.objectPlace h worker.obj) info.index :=
      only_assign (fun _ => rfl) ho hoh
    have hplace := objectPlace_markCompleted s h worker.obj info.index
    have hmarked : (s.markCompleted worker.obj info.index).objects[worker.obj]? = some _ :=
      getElem?_assign ho
    have hsaved : ((s.markCompleted worker.obj info.index).saveResume worker.obj
        written).objectPlace h = s.objectPlace h := hplace
    unfold chunkFetched
    dsimp only
    rw [apply_ite fun s : State => s.only h]
    refine if_congr Iff.rfl ?_ ?_
    · refine (only_workerLoop (s := (s.markCompleted worker.obj info.index).saveResume worker.obj
        written) hw hh hmarked hoh ..).trans ?_
      rw [only_saveResume written hmarked hoh, hmark, hsaved, hplace]
      rfl
    · refine (only_workerLoop (s := s.markCompleted worker.obj info.index) hw hh hmarked hoh
        ..).trans ?_
      rw [hmark, hplace]
      rfl
  | some message =>
    have hsaved : (s.saveResume worker.obj written).objects[worker.obj]? = some o := ho
    have herror : ((s.saveResume worker.obj written).setError worker.obj message).only h =
        ((s.saveResume worker.obj written).only h).setError (s.objectPlace h worker.obj) message :=
      only_assign (s := s.saveResume worker.obj written) (fun _ => rfl) hsaved hoh
    have hphase : (((s.saveResume worker.obj written).setError worker.obj message).setPhase w
        .finished).only h = _ :=
      only_setPhase (s := (s.saveResume worker.obj written).setError worker.obj message) _ hw hh
    unfold chunkFetched
    dsimp only
    rw [hphase, herror, only_saveResume written ho hoh]
    rfl

lemma only_chunkFetched_other (hh : worker.fileHash ≠ h) (info : ChunkInfo)
    (rest : List ChunkInfo) (missingSet : List ℤ) (n : ℕ) (error : Option String)
    (written : Bool) :
    (chunkFetched s w worker info rest missingSet n error written).only h = s.only h := by
  have hoh : o.fileHash ≠ h := fun heq => hh (hhash.symm.trans heq)
  cases error with
  | none =>
    have hmark : (s.markCompleted worker.obj info.index).only h = s.only h :=
      only_assign_other (fun _ => rfl) ho hoh
    have hmarked : (s.markCompleted worker.obj info.index).objects[worker.obj]? = some _ :=
      getElem?_assign ho
    unfold chunkFetched
    dsimp only
    split
    · rw [only_workerLoop_other (s := (s.markCompleted worker.obj info.index).saveResume worker.obj
        written) hw hh hmarked hoh, only_saveResume_other written hmarked hoh, hmark]
    · rw [only_workerLoop_other (s := s.markCompleted worker.obj info.index) hw hh hmarked hoh,
        hmark]
  | some message =>
    have hsaved : (s.saveResume worker.obj written).objects[worker.obj]? = some o := ho
    have herror : ((s.saveResume worker.obj written).setError worker.obj message).only h =
        (s.saveResume worker.obj written).only h :=
      only_assign_other (s := s.saveResume worker.obj written) (fun _ => rfl) hsaved hoh
    unfold chunkFetched
    dsimp only
    rw [only_setPhase_other (s := (s.saveResume worker.obj written).setError worker.obj message) _
      hw hh, herror, only_saveResume_other written ho hoh]

lemma only_mergeDone (hh : worker.fileHash = h) (error : Option String) (written : Bool) :
    (mergeDone s w worker error written).only h =
      mergeDone (s.only h) (s.workerPlace h w) (worker.renumber (s.objectPlace h)) error
        written := by
  have hoh : o.fileHash = h := hhash.trans hh
  cases error with
  | none =>
    have hphase : ((((s.setStatus worker.obj .completed).saveResume worker.obj
        written).deleteResume worker.fileHash).setPhase w .finished).only h = _ :=
      only_setPhase (s := ((s.setStatus worker.obj .completed).saveResume worker.obj
        written).deleteResume worker.fileHash) _ hw hh
    unfold mergeDone
    dsimp only
    rw [hphase, hh, only_deleteResume, only_saveStatus .completed written ho hoh]
    subst hh
    rfl
  | some message =>
    have herror : (s.setError worker.obj ("Merge failed: " ++ message)).only h =
        (s.only h).setError (s.objectPlace h worker.obj) ("Merge failed: " ++ message) :=
      only_assign (fun _ => rfl) ho hoh
    have hobject : (s.setError worker.obj ("Merge failed: " ++ message)).objects[worker.obj]? =
        some _ := getElem?_assign ho
    have hphase : (((s.setError worker.obj ("Merge failed: " ++ message)).saveResume worker.obj
        written).setPhase w .finished).only h = _ :=
      only_setPhase (s := (s.setError worker.obj ("Merge failed: " ++ message)).saveResume
        worker.obj written) _ hw hh
    unfold mergeDone
    dsimp only
    rw [hphase, only_saveResume written hobject hoh, herror, objectPlace_setError]
    rfl

lemma only_mergeDone_other (hh : worker.fileHash ≠ h) (error : Option String) (written : Bool) :
    (mergeDone s w worker error written).only h = s.only h := by
  have hoh : o.fileHash ≠ h := fun heq => hh (hhash.symm.trans heq)
  cases error with
  | none =>
    unfold mergeDone
    dsimp only
    rw [only_setPhase_other (s := ((s.setStatus worker.obj .completed).saveResume worker.obj
      written).deleteResume worker.fileHash) _ hw hh, only_deleteResume_other _ hh,
      only_saveStatus_other .completed written ho hoh]
  | some message =>
    have herror : (s.setError worker.obj ("Merge failed: " ++ message)).only h = s.only h :=
      only_assign_other (fun _ => rfl) ho hoh
    have hobject : (s.setError worker.obj ("Merge failed: " ++ message)).objects[worker.obj]? =
        some _ := getElem?_assign ho
    unfold mergeDone
    dsimp only
    rw [only_setPhase_other (s := (s.setError worker.obj ("Merge failed: " ++ message)).saveResume
      worker.obj written) _ hw hh, only_saveResume_other written hobject hoh, herror]

lemma only_workerCancelled (hh : worker.fileHash = h) (written : Bool) :
    (workerCancelled s w worker written).only h =
      workerCancelled (s.only h) (s.workerPlace h w) (worker.renumber (s.objectPlace h))
        written := by
  have hphase : (((s.setStatus worker.obj .paused).saveResume worker.obj written).setPhase w
      .finished).only h = _ :=
    only_setPhase (s := (s.setStatus worker.obj .paused).saveResume worker.obj written) _ hw hh
  have hsame : (worker.renumber (s.objectPlace h)).phase = worker.phase := rfl
  unfold workerCancelled
  rw [hsame]
  split
  · exact only_setPhase _ hw hh
  · rw [hphase, only_saveStatus .paused written ho (hhash.trans hh)]
    rfl

lemma only_workerCancelled_other (hh : worker.fileHash ≠ h) (written : Bool) :
    (workerCancelled s w worker written).only h = s.only h := by
  unfold workerCancelled
  split
  · exact only_setPhase_other _ hw hh
  · rw [only_setPhase_other (s := (s.setStatus worker.obj .paused).saveResume worker.obj written) _
      hw hh, only_saveStatus_other .paused written ho fun heq => hh (hhash.symm.trans heq)]

end Steps

/-! ### A new process -/

lemma InRange.recoverFile (hs : InRange s) (f : ResumeDict) : InRange (recoverFile s f) :=
  (hs.appendObject { DownloadState.fromResumeDict f with status := .paused }).track f.fileHash
    (List.getElem?_concat_length ..)

lemma only_recoverFile (hs : InRange s) {f : ResumeDict} (hh : f.fileHash = h) :
    (recoverFile s f).only h = recoverFile (s.only h) f := by
  have happend := hs.only_append (h := h)
    (o := { DownloadState.fromResumeDict f with status := .paused }) hh
  have htrack := only_track ({ s with objects := s.objects ++
    [{ DownloadState.fromResumeDict f with status := .paused }] } : State) h s.objects.length
  rw [happend, objectPlace_append _ h le_rfl, ← length_objects_only] at htrack
  subst hh
  exact htrack

lemma only_recoverFile_other (hs : InRange s) {f : ResumeDict} (hh : f.fileHash ≠ h) :
    (recoverFile s f).only h = s.only h := by
  have happend := hs.only_append_other (h := h)
    (o := { DownloadState.fromResumeDict f with status := .paused }) hh
  have htrack := only_track_other ({ s with objects := s.objects ++
    [{ DownloadState.fromResumeDict f with status := .paused }] } : State) s.objects.length hh
  exact htrack.trans happend

lemma only_foldl_recoverFile (fs : List ResumeDict) (hs : InRange s) (h : String) :
    (fs.foldl recoverFile s).only h =
      (fs.filter fun f => f.fileHash = h).foldl recoverFile (s.only h) := by
  induction fs generalizing s with
  | nil => rfl
  | cons f fs ih =>
    rw [List.foldl_cons, ih (hs.recoverFile f)]
    by_cases hh : f.fileHash = h
    · rw [only_recoverFile hs hh, List.filter_cons, if_pos (decide_eq_true hh), List.foldl_cons]
    · rw [only_recoverFile_other hs hh, List.filter_cons, if_neg (by simpa using hh)]

lemma filter_values {files : Dict String ResumeDict}
    (hname : ∀ k f, files.get? k = some f → f.fileHash = k) (h : String) :
    (files.values.filter fun f => f.fileHash = h) = (files.get? h).toList := by
  have hentries : (files.entries.filter fun e => e.2.fileHash = h) =
      files.entries.filter fun e => e.1 = h :=
    List.filter_congr fun e he => by rw [hname e.1 e.2 (Dict.get?_of_mem_entries he)]
  rw [Dict.values, List.filter_map]
  refine (congrArg (List.map _) (hentries.trans (Dict.filter_entries_eq files h))).trans ?_
  rw [List.map_map]
  exact List.map_id _

/-- A new process finds of the file what is in its `.resume` file. -/
lemma only_restart {files : Dict String ResumeDict}
    (hname : ∀ k f, files.get? k = some f → f.fileHash = k) (h : String) :
    (restart files).only h = restart (.single h (files.get? h)) := by
  have hinit : InRange { files := files } :=
    ⟨fun _ _ hi => by simp at hi, fun _ hw => by simp at hw, fun _ hp => by simp at hp,
      fun _ _ hw => by simp at hw, fun _ _ hw => by simp at hw⟩
  unfold restart
  rw [only_foldl_recoverFile _ hinit, filter_values hname, Dict.values_single]
  rfl

end DistriStore.DownloadManager
