import DistriStore.Api.DownloadCrash
import DistriStore.Lib.Selection

/-!
# One file of the download manager

`State.only h` is what a state has of one file: its objects, workers, pauses and its entries of the
dictionaries, as a manager that knows no other file would have them.  References are places, so they
become the places among the objects and workers of the file (`State.objectPlace`).  What a statement
of the source does to an object, a worker or an entry of the file it does to the same one here, and
what it does to one of another file is not seen (`only_assign`, `only_assign_other`, …).
-/

namespace DistriStore.DownloadManager

open Lib

/-! ## One file of a state -/

/-- The place of an object, a worker or a pause among those of the file. -/
def State.objectPlace (s : State) (h : String) (i : ℕ) : ℕ :=
  rank (fun o => o.fileHash = h) s.objects i

def State.workerPlace (s : State) (h : String) (w : ℕ) : ℕ :=
  rank (fun worker => worker.fileHash = h) s.workers w

def State.pausePlace (s : State) (h : String) (p : ℕ) : ℕ :=
  rank (fun pause => pause.fileHash = h) s.pauses p

/-- A worker whose object has another place. -/
def Worker.renumber (place : ℕ → ℕ) (worker : Worker) : Worker :=
  { worker with obj := place worker.obj }

def Pause.renumber (place workerPlace : ℕ → ℕ) (pause : Pause) : Pause :=
  { pause with obj := place pause.obj, worker := workerPlace pause.worker }

/-- What the state has of one file, with these places for its objects and workers. -/
def State.onlyWith (s : State) (h : String) (place workerPlace : ℕ → ℕ) : State where
  objects := s.objects.filter fun o => o.fileHash = h
  workers := (s.workers.filter fun worker => worker.fileHash = h).map (Worker.renumber place)
  pauses := (s.pauses.filter fun pause => pause.fileHash = h).map
    (Pause.renumber place workerPlace)
  downloads := .single h ((s.downloads.get? h).map place)
  tasks := .single h ((s.tasks.get? h).map workerPlace)
  cancelEvents := .single h ((s.cancelEvents.get? h).map workerPlace)
  files := .single h (s.files.get? h)

/-- What the state has of one file. -/
def State.only (s : State) (h : String) : State :=
  s.onlyWith h (s.objectPlace h) (s.workerPlace h)

variable {s t : State} {h h' : String} {i w p : ℕ} {o : DownloadState} {worker : Worker}
  {pause : Pause}

lemma State.ext_fields (hobjects : s.objects = t.objects) (hworkers : s.workers = t.workers)
    (hpauses : s.pauses = t.pauses) (hdownloads : s.downloads = t.downloads)
    (htasks : s.tasks = t.tasks) (hcancelEvents : s.cancelEvents = t.cancelEvents)
    (hfiles : s.files = t.files) : s = t := by
  cases s
  cases t
  congr

/-! ### What is found there -/

lemma getElem?_objects_only (ho : s.objects[i]? = some o) (hh : o.fileHash = h) :
    (s.only h).objects[s.objectPlace h i]? = some o :=
  getElem?_filter_rank ho (decide_eq_true hh)

lemma getElem?_workers_only (hw : s.workers[w]? = some worker) (hh : worker.fileHash = h) :
    (s.only h).workers[s.workerPlace h w]? = some (worker.renumber (s.objectPlace h)) := by
  have hplace := getElem?_filter_rank (p := fun worker => worker.fileHash = h) hw
    (decide_eq_true hh)
  rw [State.only, State.onlyWith, List.getElem?_map]
  exact congrArg (Option.map _) hplace

lemma getElem?_pauses_only (hp : s.pauses[p]? = some pause) (hh : pause.fileHash = h) :
    (s.only h).pauses[s.pausePlace h p]? =
      some (pause.renumber (s.objectPlace h) (s.workerPlace h)) := by
  have hplace := getElem?_filter_rank (p := fun pause => pause.fileHash = h) hp
    (decide_eq_true hh)
  rw [State.only, State.onlyWith, List.getElem?_map]
  exact congrArg (Option.map _) hplace

/-- The workers and pauses there are workers and pauses of the whole. -/
lemma exists_worker_of_only (hw : (s.only h).workers[i]? = some worker) :
    ∃ w worker, s.workers[w]? = some worker ∧ worker.fileHash = h ∧ s.workerPlace h w = i := by
  rw [State.only, State.onlyWith, List.getElem?_map] at hw
  obtain ⟨worker, hw, -⟩ := Option.map_eq_some_iff.1 hw
  obtain ⟨w, hw, hh, hplace⟩ := exists_rank_eq hw
  exact ⟨w, worker, hw, of_decide_eq_true hh, hplace⟩

lemma exists_pause_of_only (hp : (s.only h).pauses[i]? = some pause) :
    ∃ p pause, s.pauses[p]? = some pause ∧ pause.fileHash = h ∧ s.pausePlace h p = i := by
  rw [State.only, State.onlyWith, List.getElem?_map] at hp
  obtain ⟨pause, hp, -⟩ := Option.map_eq_some_iff.1 hp
  obtain ⟨p, hp, hh, hplace⟩ := exists_rank_eq hp
  exact ⟨p, pause, hp, of_decide_eq_true hh, hplace⟩

lemma length_objects_only (s : State) (h : String) :
    (s.only h).objects.length = s.objectPlace h s.objects.length := (rank_length _ _).symm

lemma length_workers_only (s : State) (h : String) :
    (s.only h).workers.length = s.workerPlace h s.workers.length := by
  rw [State.only, State.onlyWith, List.length_map]
  exact (rank_length _ _).symm

lemma get?_downloads_only (s : State) (h : String) :
    (s.only h).downloads.get? h = (s.downloads.get? h).map (s.objectPlace h) := Dict.get?_single h _

lemma get?_tasks_only (s : State) (h : String) :
    (s.only h).tasks.get? h = (s.tasks.get? h).map (s.workerPlace h) := Dict.get?_single h _

lemma get?_cancelEvents_only (s : State) (h : String) :
    (s.only h).cancelEvents.get? h = (s.cancelEvents.get? h).map (s.workerPlace h) :=
  Dict.get?_single h _

lemma get?_files_only (s : State) (h : String) : (s.only h).files.get? h = s.files.get? h :=
  Dict.get?_single h _

/-! ### Assignments -/

section Assign

variable {f : DownloadState → DownloadState} (hf : ∀ o, (f o).fileHash = o.fileHash)
include hf

lemma objectPlace_assign (s : State) (h : String) (i : ℕ) :
    (s.assign i f).objectPlace h = s.objectPlace h :=
  funext fun _ => rank_modify fun b _ => by rw [hf]

/-- An assignment to an object of the file. -/
lemma only_assign (ho : s.objects[i]? = some o) (hh : o.fileHash = h) :
    (s.assign i f).only h = (s.only h).assign (s.objectPlace h i) f := by
  rw [State.only, objectPlace_assign hf]
  refine State.ext_fields ?_ rfl rfl rfl rfl rfl rfl
  exact filter_modify_rank ho (decide_eq_true hh) (decide_eq_true ((hf o).trans hh))

/-- An assignment to an object of another file. -/
lemma only_assign_other (ho : s.objects[i]? = some o) (hh : o.fileHash ≠ h) :
    (s.assign i f).only h = s.only h := by
  rw [State.only, objectPlace_assign hf]
  refine State.ext_fields ?_ rfl rfl rfl rfl rfl rfl
  refine filter_modify_of_not fun b hb => ?_
  obtain rfl := Option.some.inj (ho.symm.trans hb)
  rw [hf]
  exact ⟨decide_eq_false hh, decide_eq_false hh⟩

end Assign

lemma objectPlace_setStatus (s : State) (h : String) (i : ℕ) (status : Status) :
    (s.setStatus i status).objectPlace h = s.objectPlace h :=
  funext fun _ => rank_modify fun _ _ => rfl

lemma objectPlace_markCompleted (s : State) (h : String) (i : ℕ) (index : ℤ) :
    (s.markCompleted i index).objectPlace h = s.objectPlace h :=
  funext fun _ => rank_modify fun _ _ => rfl

lemma objectPlace_setError (s : State) (h : String) (i : ℕ) (message : String) :
    (s.setError i message).objectPlace h = s.objectPlace h :=
  funext fun _ => rank_modify fun _ _ => rfl

lemma getElem?_assign {f : DownloadState → DownloadState} (ho : s.objects[i]? = some o) :
    (s.assign i f).objects[i]? = some (f o) := by
  rw [State.assign, getElem?_modify_of_some f ho, if_pos rfl]

/-! ### Signals and phases -/

section Update

variable {f : Worker → Worker} (hhash : ∀ worker, (f worker).fileHash = worker.fileHash)
include hhash

lemma workerPlace_updateWorker (s : State) (h : String) (w : ℕ) :
    (s.updateWorker w f).workerPlace h = s.workerPlace h :=
  funext fun _ => rank_modify fun b _ => by rw [hhash]

/-- A worker of the file goes on. -/
lemma only_updateWorker
    (hplaces : ∀ place worker, (f worker).renumber place = f (worker.renumber place))
    (hw : s.workers[w]? = some worker) (hh : worker.fileHash = h) :
    (s.updateWorker w f).only h = (s.only h).updateWorker (s.workerPlace h w) f := by
  rw [State.only, workerPlace_updateWorker hhash]
  refine State.ext_fields rfl ?_ rfl rfl rfl rfl rfl
  have hfilter := filter_modify_rank (p := fun worker => worker.fileHash = h) hw
    (decide_eq_true hh) (decide_eq_true ((hhash worker).trans hh))
  exact (congrArg (List.map _) hfilter).trans (map_modify_comm (hplaces _))

/-- A worker of another file goes on. -/
lemma only_updateWorker_other (hw : s.workers[w]? = some worker) (hh : worker.fileHash ≠ h) :
    (s.updateWorker w f).only h = s.only h := by
  rw [State.only, workerPlace_updateWorker hhash]
  refine State.ext_fields rfl ?_ rfl rfl rfl rfl rfl
  refine congrArg (List.map _) (filter_modify_of_not fun b hb => ?_)
  obtain rfl := Option.some.inj (hw.symm.trans hb)
  rw [hhash]
  exact ⟨decide_eq_false hh, decide_eq_false hh⟩

end Update

lemma only_setPhase (phase : Phase) (hw : s.workers[w]? = some worker)
    (hh : worker.fileHash = h) :
    (s.setPhase w phase).only h = (s.only h).setPhase (s.workerPlace h w) phase :=
  only_updateWorker (fun _ => rfl) (fun _ _ => rfl) hw hh

lemma only_setPhase_other (phase : Phase) (hw : s.workers[w]? = some worker)
    (hh : worker.fileHash ≠ h) : (s.setPhase w phase).only h = s.only h :=
  only_updateWorker_other (fun _ => rfl) hw hh

section Pauses

variable {f : Pause → Pause} (hhash : ∀ pause, (f pause).fileHash = pause.fileHash)
include hhash

lemma only_updatePause
    (hplaces : ∀ place workerPlace pause,
      (f pause).renumber place workerPlace = f (pause.renumber place workerPlace))
    (hp : s.pauses[p]? = some pause) (hh : pause.fileHash = h) :
    (s.updatePause p f).only h = (s.only h).updatePause (s.pausePlace h p) f := by
  refine State.ext_fields rfl rfl ?_ rfl rfl rfl rfl
  have hfilter := filter_modify_rank (p := fun pause => pause.fileHash = h) hp
    (decide_eq_true hh) (decide_eq_true ((hhash pause).trans hh))
  exact (congrArg (List.map _) hfilter).trans (map_modify_comm (hplaces _ _))

lemma only_updatePause_other (hp : s.pauses[p]? = some pause) (hh : pause.fileHash ≠ h) :
    (s.updatePause p f).only h = s.only h := by
  refine State.ext_fields rfl rfl ?_ rfl rfl rfl rfl
  refine congrArg (List.map _) (filter_modify_of_not fun b hb => ?_)
  obtain rfl := Option.some.inj (hp.symm.trans hb)
  rw [hhash]
  exact ⟨decide_eq_false hh, decide_eq_false hh⟩

end Pauses

/-! ### Files and handles -/

lemma only_saveResume (written : Bool) (ho : s.objects[i]? = some o) (hh : o.fileHash = h) :
    (s.saveResume i written).only h = (s.only h).saveResume (s.objectPlace h i) written := by
  have hplace := getElem?_objects_only ho hh
  refine State.ext_fields rfl rfl rfl rfl rfl rfl ?_
  simp only [State.saveResume, hplace, ho]
  subst hh
  cases written with
  | true => simp [State.only, State.onlyWith, State.onlyWith]
  | false => rfl

lemma only_saveResume_other (written : Bool) (ho : s.objects[i]? = some o)
    (hh : o.fileHash ≠ h) : (s.saveResume i written).only h = s.only h := by
  refine State.ext_fields rfl rfl rfl rfl rfl rfl ?_
  simp only [State.saveResume, ho]
  cases written with
  | true => simp [State.only, State.onlyWith, Dict.get?_set_ne _ _ (Ne.symm hh)]
  | false => rfl

/-- A new status of the file that is saved. -/
lemma only_saveStatus (status : Status) (written : Bool) (ho : s.objects[i]? = some o)
    (hh : o.fileHash = h) : ((s.setStatus i status).saveResume i written).only h =
      ((s.only h).setStatus (s.objectPlace h i) status).saveResume (s.objectPlace h i)
        written := by
  have hobject : (s.setStatus i status).objects[i]? = some _ := getElem?_assign ho
  have hassign : (s.setStatus i status).only h =
      (s.only h).setStatus (s.objectPlace h i) status := only_assign (fun _ => rfl) ho hh
  rw [only_saveResume written hobject hh, hassign, objectPlace_setStatus]

lemma only_saveStatus_other (status : Status) (written : Bool) (ho : s.objects[i]? = some o)
    (hh : o.fileHash ≠ h) : ((s.setStatus i status).saveResume i written).only h = s.only h := by
  have hobject : (s.setStatus i status).objects[i]? = some _ := getElem?_assign ho
  exact (only_saveResume_other written hobject hh).trans (only_assign_other (fun _ => rfl) ho hh)

lemma only_deleteResume (s : State) (h : String) :
    (s.deleteResume h).only h = (s.only h).deleteResume h := by
  refine State.ext_fields rfl rfl rfl rfl rfl rfl ?_
  simp [State.deleteResume, State.only, State.onlyWith, State.onlyWith]

lemma only_deleteResume_other (s : State) (hh : h' ≠ h) :
    (s.deleteResume h').only h = s.only h := by
  refine State.ext_fields rfl rfl rfl rfl rfl rfl ?_
  simp [State.deleteResume, State.only, State.onlyWith, Dict.get?_erase_ne _ (Ne.symm hh)]

lemma only_track (s : State) (h : String) (i : ℕ) :
    (s.track h i).only h = (s.only h).track h (s.objectPlace h i) := by
  refine State.ext_fields rfl rfl rfl ?_ rfl rfl rfl
  simp [State.track, State.only, State.onlyWith, State.onlyWith]
  rfl

lemma only_track_other (s : State) (i : ℕ) (hh : h' ≠ h) : (s.track h' i).only h = s.only h := by
  refine State.ext_fields rfl rfl rfl ?_ rfl rfl rfl
  simp [State.track, State.only, State.onlyWith, Dict.get?_set_ne _ _ (Ne.symm hh)]
  rfl

lemma only_dropHandles (s : State) (h : String) :
    ({ s with tasks := s.tasks.erase h, cancelEvents := s.cancelEvents.erase h } : State).only h =
      { s.only h with
        tasks := (s.only h).tasks.erase h
        cancelEvents := (s.only h).cancelEvents.erase h } := by
  refine State.ext_fields rfl rfl rfl rfl ?_ ?_ rfl
  · simp [State.only, State.onlyWith]
  · simp [State.only, State.onlyWith]

lemma only_dropHandles_other (s : State) (hh : h' ≠ h) :
    ({ s with tasks := s.tasks.erase h', cancelEvents := s.cancelEvents.erase h' } : State).only h =
      s.only h := by
  refine State.ext_fields rfl rfl rfl rfl ?_ ?_ rfl
  · exact congrArg (fun o => Dict.single h (Option.map _ o)) (Dict.get?_erase_ne _ (Ne.symm hh))
  · exact congrArg (fun o => Dict.single h (Option.map _ o)) (Dict.get?_erase_ne _ (Ne.symm hh))

/-! ### Additions -/

/-- All references lead to objects and workers that there are. -/
structure InRange (s : State) : Prop where
  download : ∀ h i, s.downloads.get? h = some i → i < s.objects.length
  worker : ∀ worker ∈ s.workers, worker.obj < s.objects.length
  pause : ∀ pause ∈ s.pauses, pause.obj < s.objects.length ∧ pause.worker < s.workers.length
  task : ∀ h w, s.tasks.get? h = some w → w < s.workers.length
  cancelEvent : ∀ h w, s.cancelEvents.get? h = some w → w < s.workers.length

/-- Places that nothing refers to do not matter. -/
lemma InRange.onlyWith_congr {place place' workerPlace workerPlace' : ℕ → ℕ} (hs : InRange s)
    (h : String) (hplace : ∀ i, i < s.objects.length → place i = place' i)
    (hworker : ∀ w, w < s.workers.length → workerPlace w = workerPlace' w) :
    s.onlyWith h place workerPlace = s.onlyWith h place' workerPlace' := by
  refine State.ext_fields rfl ?_ ?_ ?_ ?_ ?_ rfl
  · refine List.map_congr_left fun worker hmem => ?_
    rw [Worker.renumber, hplace _ (hs.worker worker (List.mem_of_mem_filter hmem))]
    rfl
  · refine List.map_congr_left fun pause hmem => ?_
    obtain ⟨hobj, hw⟩ := hs.pause pause (List.mem_of_mem_filter hmem)
    rw [Pause.renumber, hplace _ hobj, hworker _ hw]
    rfl
  · exact congrArg (Dict.single h) (Option.map_congr fun i hi => hplace i (hs.download h i hi))
  · exact congrArg (Dict.single h) (Option.map_congr fun w hw => hworker w (hs.task h w hw))
  · exact congrArg (Dict.single h) (Option.map_congr fun w hw => hworker w (hs.cancelEvent h w hw))

lemma InRange.appendObject (hs : InRange s) (o : DownloadState) :
    InRange { s with objects := s.objects ++ [o] } := by
  have hle : s.objects.length ≤ (s.objects ++ [o]).length := by simp
  exact ⟨fun h i hi => (hs.download h i hi).trans_le hle,
    fun worker hw => (hs.worker worker hw).trans_le hle,
    fun pause hp => (hs.pause pause hp).imp_left fun hlt => hlt.trans_le hle, hs.task,
    hs.cancelEvent⟩

lemma objectPlace_append (o : DownloadState) (h : String) (hi : i ≤ s.objects.length) :
    ({ s with objects := s.objects ++ [o] } : State).objectPlace h i = s.objectPlace h i :=
  rank_append _ [o] hi

lemma InRange.onlyWith_append (hs : InRange s) (o : DownloadState) (h : String) :
    s.onlyWith h (({ s with objects := s.objects ++ [o] } : State).objectPlace h)
      (s.workerPlace h) = s.only h :=
  hs.onlyWith_congr h (fun _ hi => objectPlace_append o h hi.le) fun _ _ => rfl

/-- A new object of the file. -/
lemma InRange.only_append (hs : InRange s) (hh : o.fileHash = h) :
    ({ s with objects := s.objects ++ [o] } : State).only h =
      { s.only h with objects := (s.only h).objects ++ [o] } := by
  have hsame := hs.onlyWith_append o h
  refine State.ext_fields ?_ (congrArg State.workers hsame :) (congrArg State.pauses hsame :)
    (congrArg State.downloads hsame :) rfl rfl rfl
  exact filter_concat_of_pos (decide_eq_true hh)

/-- A new object of another file. -/
lemma InRange.only_append_other (hs : InRange s) (hh : o.fileHash ≠ h) :
    ({ s with objects := s.objects ++ [o] } : State).only h = s.only h := by
  have hsame := hs.onlyWith_append o h
  refine State.ext_fields ?_ (congrArg State.workers hsame :) (congrArg State.pauses hsame :)
    (congrArg State.downloads hsame :) rfl rfl rfl
  exact filter_concat_of_not (decide_eq_false hh)

lemma InRange.onlyWith_launch (hs : InRange s) (h h' : String) (manifest : FileManifest) (i : ℕ) :
    s.onlyWith h (s.objectPlace h) ((s.launch h' manifest i).workerPlace h) = s.only h :=
  hs.onlyWith_congr h (fun _ _ => rfl) fun _ hw => rank_append _ _ hw.le

lemma InRange.only_launch (hs : InRange s) (h : String) (manifest : FileManifest) (i : ℕ) :
    (s.launch h manifest i).only h = (s.only h).launch h manifest (s.objectPlace h i) := by
  have hsame := hs.onlyWith_launch h h manifest i
  have hlast : (s.launch h manifest i).workerPlace h s.workers.length =
      (s.only h).workers.length := by
    rw [length_workers_only]
    exact rank_append _ _ le_rfl
  refine State.ext_fields rfl ?_ (congrArg State.pauses hsame :) rfl ?_ ?_ rfl
  · have hfilter : (s.launch h manifest i).workers.filter (fun worker => worker.fileHash = h) =
        (s.workers.filter fun worker => worker.fileHash = h) ++
          [{ fileHash := h, manifest := manifest, obj := i }] :=
      filter_concat_of_pos (decide_eq_true rfl)
    exact (congrArg (List.map _) hfilter).trans List.map_append
  · refine (congrArg (fun o => Dict.single h (Option.map _ o)) (Dict.get?_set_self ..)).trans ?_
    rw [Option.map_some, hlast]
    exact (Dict.set_single h _ _).symm
  · refine (congrArg (fun o => Dict.single h (Option.map _ o)) (Dict.get?_set_self ..)).trans ?_
    rw [Option.map_some, hlast]
    exact (Dict.set_single h _ _).symm

lemma InRange.only_launch_other (hs : InRange s) (manifest : FileManifest) (i : ℕ)
    (hh : h' ≠ h) : (s.launch h' manifest i).only h = s.only h := by
  have hsame := hs.onlyWith_launch h h' manifest i
  refine State.ext_fields rfl ?_ (congrArg State.pauses hsame :) rfl ?_ ?_ rfl
  · exact congrArg (List.map _) (filter_concat_of_not (decide_eq_false hh))
  · refine (congrArg (fun o => Dict.single h (Option.map _ o))
      (Dict.get?_set_ne _ _ (Ne.symm hh))).trans ?_
    exact congrArg State.tasks hsame
  · refine (congrArg (fun o => Dict.single h (Option.map _ o))
      (Dict.get?_set_ne _ _ (Ne.symm hh))).trans ?_
    exact congrArg State.cancelEvents hsame

lemma only_addPause (s : State) (hh : pause.fileHash = h) :
    ({ s with pauses := s.pauses ++ [pause] } : State).only h = { s.only h with
      pauses := (s.only h).pauses ++ [pause.renumber (s.objectPlace h) (s.workerPlace h)] } := by
  refine State.ext_fields rfl rfl ?_ rfl rfl rfl rfl
  have hfilter : (s.pauses ++ [pause]).filter (fun pause => pause.fileHash = h) =
      (s.pauses.filter fun pause => pause.fileHash = h) ++ [pause] :=
    filter_concat_of_pos (decide_eq_true hh)
  exact (congrArg (List.map _) hfilter).trans List.map_append

lemma only_addPause_other (s : State) (hh : pause.fileHash ≠ h) :
    ({ s with pauses := s.pauses ++ [pause] } : State).only h = s.only h := by
  refine State.ext_fields rfl rfl ?_ rfl rfl rfl rfl
  exact congrArg (List.map _) (filter_concat_of_not (decide_eq_false hh))

/-! ### Lookup -/

lemma InRange.of_handles (hi : Inv ∅ (fun _ => 0) s) (hs : Handles s) : InRange s where
  download h i htracked := by
    obtain ⟨o, ho, -⟩ := hi.tracked h i htracked
    exact (List.getElem?_eq_some_iff.1 ho).1
  worker worker hmem := by
    obtain ⟨w, hw⟩ := List.getElem?_of_mem hmem
    obtain ⟨-, o, ho, -⟩ := hi.worker w worker hw
    exact (List.getElem?_eq_some_iff.1 ho).1
  pause pause hmem := by
    obtain ⟨p, hp⟩ := List.getElem?_of_mem hmem
    obtain ⟨worker, hw, hobj, -⟩ := hs.pause p pause hp
    obtain ⟨-, o, ho, -⟩ := hi.worker _ worker hw
    rw [hobj] at ho
    exact ⟨(List.getElem?_eq_some_iff.1 ho).1, (List.getElem?_eq_some_iff.1 hw).1⟩
  task h w htask := by
    obtain ⟨worker, hw, -⟩ := hs.task h w htask
    exact (List.getElem?_eq_some_iff.1 hw).1
  cancelEvent h w hevent := by
    obtain ⟨worker, hw, -⟩ := hs.task h w (hs.paired h ▸ hevent)
    exact (List.getElem?_eq_some_iff.1 hw).1

lemma InRange.assign (hs : InRange s) (i : ℕ) (f : DownloadState → DownloadState) :
    InRange (s.assign i f) := by
  have hlength : (s.objects.modify i f).length = s.objects.length := List.length_modify ..
  exact ⟨fun h i hi => hlength ▸ hs.download h i hi, fun worker hw => hlength ▸ hs.worker worker hw,
    fun pause hp => (hs.pause pause hp).imp_left fun hlt => hlength ▸ hlt, hs.task, hs.cancelEvent⟩

lemma InRange.track (hs : InRange s) (h : String) (ho : s.objects[i]? = some o) :
    InRange (s.track h i) := by
  refine { hs with download := fun h' j hj => ?_ }
  rw [State.track, Dict.get?_set] at hj
  split at hj
  · obtain rfl := Option.some.inj hj
    exact (List.getElem?_eq_some_iff.1 ho).1
  · exact hs.download h' j hj

lemma InRange.saveResume (hs : InRange s) (i : ℕ) (written : Bool) :
    InRange (s.saveResume i written) := { hs with }

lemma InRange.existing (hs : InRange s) (h : String) : InRange (s.existing h).1 := by
  unfold State.existing
  split
  · exact hs
  · split
    · exact hs
    · exact hs.appendObject _

/-- What a request finds, with its place. -/
def found (s : State) (h : String) : Option (ℕ × DownloadState) → Option (ℕ × DownloadState) :=
  Option.map fun e => (s.objectPlace h e.1, e.2)

lemma only_existing (hi : Inv ∅ (fun _ => 0) s) (hs : InRange s) (h : String) :
    (s.only h).existing h = ((s.existing h).1.only h,
      found (s.existing h).1 h (s.existing h).2) := by
  unfold State.existing
  rw [get?_downloads_only, get?_files_only]
  cases htracked : s.downloads.get? h with
  | some i =>
    obtain ⟨o, ho, hh⟩ := hi.tracked h i htracked
    simp only [Option.map_some, getElem?_objects_only ho hh, ho, found]
  | none =>
    cases hfile : s.files.get? h with
    | none => rfl
    | some f =>
      obtain ⟨hh, -⟩ := hi.file h f hfile
      have happend := hs.only_append (o := DownloadState.fromResumeDict f) hh
      have hplace : (s.only h).objects.length = ({ s with
          objects := s.objects ++ [DownloadState.fromResumeDict f] } : State).objectPlace h
            s.objects.length :=
        (length_objects_only s h).trans (objectPlace_append _ h le_rfl).symm
      simp only [Option.map_none, found, Option.map_some]
      rw [happend, hplace]

lemma only_existing_other (hi : Inv ∅ (fun _ => 0) s) (hs : InRange s) (hh : h' ≠ h) :
    (s.existing h').1.only h = s.only h := by
  unfold State.existing
  split
  · rfl
  · split
    · rfl
    · next f hfile =>
      obtain ⟨hh', -⟩ := hi.file h' f hfile
      exact hs.only_append_other (o := DownloadState.fromResumeDict f) fun heq =>
        hh (hh'.symm.trans heq)

end DistriStore.DownloadManager
