import DistriStore.Api.DownloadManager
import DistriStore.Lib.Worklist

/-!
# The bookkeeping of resumable downloads

In every run of the download manager the two lists of a `DownloadState`, in memory or in a
`.resume` file, split the indices of its chunks; and when all manifests of a file agree on its
indices, a download is `completed` only when nothing is missing.

Both are read off one invariant, `Inv`, whose second half is about a set `U` of files on whose
chunks the manifests agree.  Each statement of the source keeps it (`inv_assign`, `inv_saveResume`,
`inv_launch`, `inv_setPhase`), and the steps are put together from these.
-/

namespace DistriStore.DownloadManager

open Lib

/-- The lists of the object split `{0, …, total_chunks - 1}`. -/
def DownloadState.Exact (o : DownloadState) : Prop :=
  Splits (fun i => 0 ≤ i ∧ i < (o.totalChunks : ℤ)) o.missingChunks o.completedChunks

/-- A manifest with the chunk indices `0, …, n - 1`. -/
def Indexed (n : ℕ) (manifest : FileManifest) : Prop :=
  (manifest.chunks.map ChunkInfo.index).Perm ((List.range n).map Int.ofNat)

/-- A manifest that a step passes for `h` is indexed from `0` to `n - 1`. -/
def Agreed (h : String) (n : ℕ) : Label → Prop
  | .start h' d _ _ =>
    h' = h → ∀ manifest, FileManifest.fromDict d = .ok manifest → Indexed n manifest
  | .resume h' _ d => h' = h → ∀ d' ∈ d, ∀ manifest, FileManifest.fromDict d' = .ok manifest →
      Indexed n manifest
  | _ => True

/-- The manifests that a step passes for `h` are indexed from `0` to `count h - 1`. -/
def Agreeing (count : String → ℕ) : Label → Prop
  | .start h d _ _ =>
    ∀ manifest, FileManifest.fromDict d = .ok manifest → Indexed (count h) manifest
  | .resume h _ d => ∀ d' ∈ d, ∀ manifest, FileManifest.fromDict d' = .ok manifest →
      Indexed (count h) manifest
  | _ => True

lemma Agreeing.agreed {count : String → ℕ} {l : Label} (hl : Agreeing count l) (h : String) :
    Agreed h (count h) l := by
  cases l with
  | start h' d password written => exact fun hh => hh ▸ hl
  | resume h' password d => exact fun hh => hh ▸ hl
  | _ => trivial

/-! ## The invariant -/

section Invariant

variable (U : Set String) (count : String → ℕ)

structure ObjectOk (o : DownloadState) : Prop where
  exact : o.Exact
  total : o.fileHash ∈ U → o.totalChunks = count o.fileHash
  completed : o.fileHash ∈ U → o.status = .completed → o.missingChunks = []

/-- What a worker in this phase relies on of its object: the indices it may report belong to the
download, and what is missing is still ahead of it. -/
def PhaseOk (o : DownloadState) : Phase → Prop
  | .fetching info rest missingSet _ =>
    info.index ∈ missingSet ∧ (∀ i ∈ missingSet, 0 ≤ i ∧ i < (o.totalChunks : ℤ)) ∧
      (o.fileHash ∈ U → ∀ i ∈ o.missingChunks, i ∈ missingSet ∧ ∃ c ∈ info :: rest, c.index = i)
  | .merging => o.fileHash ∈ U → o.missingChunks = []
  | _ => True

def WorkerOk (objects : List DownloadState) (worker : Worker) : Prop :=
  (worker.fileHash ∈ U → Indexed (count worker.fileHash) worker.manifest) ∧
    ∃ o : DownloadState, objects[worker.obj]? = some o ∧ o.fileHash = worker.fileHash ∧
      PhaseOk U o worker.phase

structure Inv (s : State) : Prop where
  object : ∀ (i : ℕ) (o : DownloadState), s.objects[i]? = some o → ObjectOk U count o
  file : ∀ h f, s.files.get? h = some f →
    f.fileHash = h ∧ ObjectOk U count (DownloadState.fromResumeDict f)
  worker : ∀ (w : ℕ) (worker : Worker), s.workers[w]? = some worker →
    WorkerOk U count s.objects worker
  tracked : ∀ h i, s.downloads.get? h = some i →
    ∃ o : DownloadState, s.objects[i]? = some o ∧ o.fileHash = h

end Invariant

variable {U : Set String} {count : String → ℕ}

lemma inv_init : Inv U count {} := by
  constructor <;> intro _ _ h <;> simp at h

/-! ### Objects -/

/-- The objects stay where they are, and their missing chunks only become fewer. -/
def Keeps (objects objects' : List DownloadState) : Prop :=
  ∀ (i : ℕ) (o : DownloadState), objects[i]? = some o →
    ∃ o' : DownloadState, objects'[i]? = some o' ∧ o'.fileHash = o.fileHash ∧
      o'.totalChunks = o.totalChunks ∧ ∀ j ∈ o'.missingChunks, j ∈ o.missingChunks

lemma PhaseOk.keep {o o' : DownloadState} {phase : Phase} (h : PhaseOk U o phase)
    (hhash : o'.fileHash = o.fileHash) (htotal : o'.totalChunks = o.totalChunks)
    (hmissing : ∀ j ∈ o'.missingChunks, j ∈ o.missingChunks) : PhaseOk U o' phase := by
  cases phase with
  | fetching info rest missingSet n =>
    obtain ⟨hinfo, hrange, hahead⟩ := h
    refine ⟨hinfo, ?_, fun hU i hi => hahead (hhash ▸ hU) i (hmissing i hi)⟩
    rw [htotal]
    exact hrange
  | merging =>
    intro hU
    refine List.eq_nil_iff_forall_not_mem.2 fun i hi => ?_
    have hmem := hmissing i hi
    rw [h (hhash ▸ hU)] at hmem
    exact List.not_mem_nil hmem
  | created => trivial
  | finished => trivial

lemma WorkerOk.keep {objects objects' : List DownloadState} {worker : Worker}
    (h : WorkerOk U count objects worker) (hkeep : Keeps objects objects') :
    WorkerOk U count objects' worker := by
  obtain ⟨hindexed, o, ho, hhash, hphase⟩ := h
  obtain ⟨o', ho', hhash', htotal, hmissing⟩ := hkeep _ o ho
  exact ⟨hindexed, o', ho', hhash'.trans hhash, hphase.keep hhash' htotal hmissing⟩

lemma inv_of_objects {s : State} {objects : List DownloadState} (hs : Inv U count s)
    (hkeep : Keeps s.objects objects)
    (hok : ∀ (i : ℕ) (o : DownloadState), objects[i]? = some o → ObjectOk U count o) :
    Inv U count { s with objects := objects } where
  object := hok
  file := hs.file
  worker w worker hw := (hs.worker w worker hw).keep hkeep
  tracked h i hi := by
    obtain ⟨o, ho, hhash⟩ := hs.tracked h i hi
    obtain ⟨o', ho', hhash', -⟩ := hkeep i o ho
    exact ⟨o', ho', hhash'.trans hhash⟩

/-- Assignments to an object. -/
lemma inv_assign {s : State} {i : ℕ} {f : DownloadState → DownloadState} (hs : Inv U count s)
    (hf : ∀ o, s.objects[i]? = some o → ObjectOk U count (f o) ∧ (f o).fileHash = o.fileHash ∧
      (f o).totalChunks = o.totalChunks ∧ ∀ j ∈ (f o).missingChunks, j ∈ o.missingChunks) :
    Inv U count (s.assign i f) := by
  refine inv_of_objects hs (fun j o ho => ?_) (fun j o ho => ?_)
  · by_cases hj : i = j
    · subst hj
      exact ⟨f o, by simp [ho], (hf o ho).2⟩
    · exact ⟨o, by simp [hj, ho], rfl, rfl, fun _ h => h⟩
  · obtain ⟨o', ho', rfl⟩ := getElem?_modify_cases ho
    by_cases hj : i = j
    · subst hj
      rw [if_pos rfl]
      exact (hf o' ho').1
    · rw [if_neg hj]
      exact hs.object j o' ho'

lemma inv_setStatus {s : State} {i : ℕ} {status : Status} (hs : Inv U count s)
    (hstatus : status = .completed → ∀ o, s.objects[i]? = some o → o.fileHash ∈ U →
      o.missingChunks = []) :
    Inv U count (s.setStatus i status) := by
  refine inv_assign hs fun o ho => ⟨?_, rfl, rfl, fun _ h => h⟩
  have hok := hs.object i o ho
  exact ⟨hok.exact, hok.total, fun hU h => hstatus h o ho hU⟩

lemma inv_setError {s : State} (i : ℕ) (message : String) (hs : Inv U count s) :
    Inv U count (s.setError i message) := by
  refine inv_assign hs fun o ho => ⟨?_, rfl, rfl, fun _ h => h⟩
  have hok := hs.object i o ho
  exact ⟨hok.exact, hok.total, nofun⟩

lemma inv_resumed {s : State} (i : ℕ) (password : String) (hs : Inv U count s) :
    Inv U count (s.assign i fun o => { o with status := .downloading, password := password }) := by
  refine inv_assign hs fun o ho => ⟨?_, rfl, rfl, fun _ h => h⟩
  have hok := hs.object i o ho
  exact ⟨hok.exact, hok.total, nofun⟩

lemma inv_markCompleted {s : State} {i : ℕ} {index : ℤ} (hs : Inv U count s)
    (hindex : ∀ o, s.objects[i]? = some o → 0 ≤ index ∧ index < (o.totalChunks : ℤ)) :
    Inv U count (s.markCompleted i index) := by
  refine inv_assign hs fun o ho => ?_
  have hok := hs.object i o ho
  have hsub : ∀ j ∈ (if index ∈ o.missingChunks then o.missingChunks.erase index
      else o.missingChunks), j ∈ o.missingChunks := by
    intro j hj
    split at hj
    · exact List.mem_of_mem_erase hj
    · exact hj
  refine ⟨⟨hok.exact.move (hindex o ho), hok.total, fun hU h => ?_⟩, rfl, rfl, hsub⟩
  refine List.eq_nil_iff_forall_not_mem.2 fun j hj => ?_
  have hmem := hsub j hj
  rw [hok.completed hU h] at hmem
  exact List.not_mem_nil hmem

lemma keeps_append (objects : List DownloadState) (o : DownloadState) :
    Keeps objects (objects ++ [o]) := fun _ o' ho' =>
  ⟨o', getElem?_append_of_some ho' _, rfl, rfl, fun _ h => h⟩

lemma inv_append {s : State} {o : DownloadState} (hs : Inv U count s) (ho : ObjectOk U count o) :
    Inv U count { s with objects := s.objects ++ [o] } := by
  refine inv_of_objects hs (keeps_append _ _) fun i o' ho' => ?_
  rcases getElem?_concat_cases ho' with ho' | ⟨-, rfl⟩
  · exact hs.object i o' ho'
  · exact ho

/-! ### Files, workers and dictionaries -/

lemma inv_saveResume {s : State} (i : ℕ) (written : Bool) (hs : Inv U count s) :
    Inv U count (s.saveResume i written) := by
  refine { hs with file := fun h f hf => ?_ }
  rw [State.saveResume] at hf
  dsimp only at hf
  split at hf
  · exact hs.file h f hf
  · next o ho =>
    split at hf
    · rw [Dict.get?_set] at hf
      split at hf
      · next hh =>
        rw [← Option.some.inj hf]
        have hok := hs.object i o ho
        exact ⟨hh.symm, hok.exact, hok.total, hok.completed⟩
      · exact hs.file h f hf
    · exact hs.file h f hf

lemma inv_deleteResume {s : State} (fileHash : String) (hs : Inv U count s) :
    Inv U count (s.deleteResume fileHash) := by
  refine { hs with file := fun h f hf => ?_ }
  rw [State.deleteResume, Dict.get?_erase] at hf
  split at hf
  · cases hf
  · exact hs.file h f hf

lemma inv_updateWorker {s : State} {w : ℕ} {f : Worker → Worker} (hs : Inv U count s)
    (hf : ∀ worker, s.workers[w]? = some worker → WorkerOk U count s.objects (f worker)) :
    Inv U count (s.updateWorker w f) := by
  refine { hs with worker := fun w' worker hw' => ?_ }
  obtain ⟨worker', hworker, rfl⟩ := getElem?_modify_cases hw'
  by_cases hw : w = w'
  · subst hw
    rw [if_pos rfl]
    exact hf worker' hworker
  · rw [if_neg hw]
    exact hs.worker w' worker' hworker

/-- Signals to a worker do not matter to the bookkeeping. -/
lemma inv_signal {s : State} (w : ℕ) {f : Worker → Worker} (hs : Inv U count s)
    (hhash : ∀ worker, (f worker).fileHash = worker.fileHash)
    (hmanifest : ∀ worker, (f worker).manifest = worker.manifest)
    (hobj : ∀ worker, (f worker).obj = worker.obj)
    (hphase : ∀ worker, (f worker).phase = worker.phase) : Inv U count (s.updateWorker w f) := by
  refine inv_updateWorker hs fun worker hw => ?_
  unfold WorkerOk
  rw [hhash, hmanifest, hobj, hphase]
  exact hs.worker w worker hw

lemma inv_setPhase {s : State} {w : ℕ} {worker : Worker} {phase : Phase} {o : DownloadState}
    (hs : Inv U count s) (hw : s.workers[w]? = some worker)
    (ho : s.objects[worker.obj]? = some o) (hphase : PhaseOk U o phase) :
    Inv U count (s.setPhase w phase) := by
  refine inv_updateWorker hs fun worker' hw' => ?_
  rw [hw, Option.some.injEq] at hw'
  subst hw'
  obtain ⟨hindexed, o', ho', hhash, -⟩ := hs.worker w worker hw
  rw [ho, Option.some.injEq] at ho'
  subst ho'
  exact ⟨hindexed, o, ho, hhash, hphase⟩

lemma inv_finish {s : State} (w : ℕ) (hs : Inv U count s) :
    Inv U count (s.setPhase w .finished) := by
  refine inv_updateWorker hs fun worker hw => ?_
  obtain ⟨hindexed, o, ho, hhash, -⟩ := hs.worker w worker hw
  exact ⟨hindexed, o, ho, hhash, trivial⟩

lemma inv_track {s : State} {h : String} {i : ℕ} {o : DownloadState} (hs : Inv U count s)
    (ho : s.objects[i]? = some o) (hhash : o.fileHash = h) : Inv U count (s.track h i) := by
  refine { hs with tracked := fun h' j hj => ?_ }
  rw [State.track, Dict.get?_set] at hj
  split at hj
  · next hh =>
    obtain rfl := Option.some.inj hj
    exact ⟨o, ho, hhash.trans hh.symm⟩
  · exact hs.tracked h' j hj

lemma inv_launch {s : State} {h : String} {manifest : FileManifest} {i : ℕ} {o : DownloadState}
    (hs : Inv U count s) (ho : s.objects[i]? = some o) (hhash : o.fileHash = h)
    (hindexed : h ∈ U → Indexed (count h) manifest) : Inv U count (s.launch h manifest i) := by
  refine { hs with worker := fun w worker hw => ?_ }
  rcases getElem?_concat_cases hw with hw | ⟨-, rfl⟩
  · exact hs.worker w worker hw
  · exact ⟨hindexed, o, ho, hhash, trivial⟩

/-! ### The calls -/

lemma objectOk_fresh (h : String) (manifest : FileManifest) (password : String)
    (hindexed : h ∈ U → Indexed (count h) manifest) :
    ObjectOk U count (DownloadState.fresh h manifest password) where
  exact := by
    refine Splits.of_missing ?_ fun i => ?_
    · exact List.nodup_range.map fun a b hab => Int.ofNat.inj hab
    · simp only [DownloadState.fresh, List.mem_map, List.mem_range]
      constructor
      · rintro ⟨n, hn, rfl⟩
        exact ⟨Int.natCast_nonneg n, Int.ofNat_lt.2 hn⟩
      · rintro ⟨h0, hlt⟩
        exact ⟨i.toNat, by omega, Int.toNat_of_nonneg h0⟩
  total hU := by
    have hlen : manifest.chunks.length = count h := by simpa using (hindexed hU).length_eq
    exact hlen
  completed _ := nofun

/-- What `existing` finds, and what it leaves alone. -/
lemma existing_spec {s : State} (hs : Inv U count s) (h : String) :
    Inv U count (s.existing h).1 ∧ ∀ i o, (s.existing h).2 = some (i, o) →
      (s.existing h).1.objects[i]? = some o ∧ o.fileHash = h := by
  unfold State.existing
  split
  · next i hi =>
    refine ⟨hs, fun j o hfound => ?_⟩
    obtain ⟨o', ho', hhash⟩ := hs.tracked h i hi
    obtain ⟨o'', ho'', heq⟩ := Option.map_eq_some_iff.1 hfound
    obtain ⟨rfl, rfl⟩ := Prod.mk.inj heq
    rw [ho', Option.some.injEq] at ho''
    exact ⟨ho'' ▸ ho', ho'' ▸ hhash⟩
  · split
    · exact ⟨hs, nofun⟩
    · next f hf =>
      obtain ⟨hhash, hok⟩ := hs.file h f hf
      refine ⟨inv_append hs hok, fun j o hfound => ?_⟩
      obtain ⟨rfl, rfl⟩ := Prod.mk.inj (Option.some.inj hfound)
      exact ⟨List.getElem?_concat_length .., hhash⟩

lemma prepare_spec {s : State} {h : String} {manifest : FileManifest}
    {found : Option (ℕ × DownloadState)} (hs : Inv U count s)
    (hfound : ∀ i o, found = some (i, o) → s.objects[i]? = some o ∧ o.fileHash = h)
    (hindexed : h ∈ U → Indexed (count h) manifest) (password : String) :
    Inv U count (prepare s h manifest password found).1 ∧
      ∃ o : DownloadState, (prepare s h manifest password found).1.objects[
        (prepare s h manifest password found).2]? = some o ∧ o.fileHash = h ∧
        o.status = .downloading := by
  have hfresh : Inv U count (freshDownload s h manifest password).1 ∧
      ∃ o : DownloadState, (freshDownload s h manifest password).1.objects[
        (freshDownload s h manifest password).2]? = some o ∧ o.fileHash = h ∧
        o.status = .downloading :=
    ⟨inv_append hs (objectOk_fresh h manifest password hindexed), _,
      List.getElem?_concat_length .., rfl, rfl⟩
  unfold prepare
  split
  · exact hfresh
  · next i o =>
    split
    · obtain ⟨ho, hhash⟩ := hfound i o rfl
      refine ⟨inv_resumed i password hs,
        { o with status := .downloading, password := password }, ?_, hhash, rfl⟩
      simp [State.assign, ho]
    · exact hfresh

lemma inv_startDownload {s : State} (hs : Inv U count s) (h : String) (d : ManifestDict)
    (password : String) (written : Bool) (hindexed : ∀ manifest,
      FileManifest.fromDict d = .ok manifest → h ∈ U → Indexed (count h) manifest) :
    Inv U count (startDownload s h d password written).1 := by
  unfold startDownload
  split
  · exact hs
  · next manifest hm =>
    obtain ⟨hex, hfound⟩ := existing_spec hs h
    split
    · exact hs
    · dsimp only
      split
      · exact hex
      obtain ⟨hprep, o, ho, hhash, -⟩ :=
        prepare_spec hex hfound (hindexed manifest hm) password
      exact inv_launch (inv_saveResume _ _ (inv_track hprep ho hhash)) ho hhash
        (hindexed manifest hm)

lemma inv_finishPause {s : State} (hs : Inv U count s) (h : String) (i : ℕ) (written : Bool) :
    Inv U count (finishPause s h i written) := by
  have hpaused : Inv U count (s.setStatus i .paused) := inv_setStatus hs nofun
  exact { inv_saveResume i written hpaused with }

lemma inv_leavePause {s : State} (hs : Inv U count s) (pause : Pause) (written : Bool) :
    Inv U count (leavePause s pause written) := by
  unfold leavePause
  split
  · exact hs
  · exact inv_finishPause hs ..

lemma inv_signalCancel {s : State} (hs : Inv U count s) (h : String) :
    Inv U count (signalCancel s h) := by
  unfold signalCancel
  split
  · exact hs
  · exact inv_signal _ hs (fun _ => rfl) (fun _ => rfl) (fun _ => rfl) fun _ => rfl

lemma inv_pauseDownload {s : State} (hs : Inv U count s) (h : String) (written : Bool) :
    Inv U count (pauseDownload s h written) := by
  have hsignal := inv_signalCancel hs h
  unfold pauseDownload
  split
  · exact hs
  · next i _ =>
    split
    · unfold awaitTask
      split
      · exact inv_finishPause hsignal h i written
      · split
        · exact inv_finishPause hsignal h i written
        · exact { hsignal with }
    · exact hs

lemma inv_resumeDownload {s : State} (hs : Inv U count s) (h password : String)
    (d : Option ManifestDict) (hindexed : ∀ d' ∈ d, ∀ manifest,
      FileManifest.fromDict d' = .ok manifest → h ∈ U → Indexed (count h) manifest) :
    Inv U count (resumeDownload s h password d).1 := by
  obtain ⟨hex, hfound⟩ := existing_spec hs h
  unfold resumeDownload
  split
  · exact hs
  split
  · next hnone => exact (congrArg Prod.fst hnone) ▸ hex
  · next s' i o hsome =>
    rw [hsome] at hex hfound
    obtain ⟨ho, hhash⟩ := hfound i o rfl
    split
    · exact hex
    · split
      · exact hex
      · next d' hd' =>
        have hmem : d' ∈ d := (Option.filter_eq_some_iff.1 hd').1
        split
        · exact hex
        · next manifest hm =>
          have hobj : (s'.assign i fun o => { o with
              status := .downloading, password := password }).objects[i]? =
              some { o with status := .downloading, password := password } := by
            simp [State.assign, show s'.objects[i]? = some o from ho]
          exact inv_launch (inv_track (inv_resumed i password hex) hobj hhash) hobj hhash
            (hindexed d' hmem manifest hm)

lemma inv_clearCompleted {s : State} (hs : Inv U count s) : Inv U count (clearCompleted s) := by
  unfold clearCompleted
  dsimp only
  generalize List.filter _ _ = entries
  induction entries generalizing s with
  | nil => exact hs
  | cons e entries ih =>
    refine ih { hs with tracked := fun h i hi => hs.tracked h i ?_ }
    rw [dropEntry, Dict.get?_erase] at hi
    split at hi
    · cases hi
    · exact hi

/-! ### The worker -/

lemma mem_dropWhile {α : Type} {p : α → Bool} {a : α} {l : List α} (h : a ∈ l) (hp : p a = false) :
    a ∈ l.dropWhile p := by
  induction l with
  | nil => exact absurd h List.not_mem_nil
  | cons x l ih =>
    rw [List.dropWhile_cons]
    split
    · next hx =>
      refine ih ((List.mem_cons.1 h).resolve_left ?_)
      rintro rfl
      rw [hp] at hx
      exact Bool.false_ne_true hx
    · exact h

/-- The loop keeps ahead of it whatever is missing. -/
lemma inv_workerLoop {s : State} {w : ℕ} {worker : Worker} {o : DownloadState}
    {rest : List ChunkInfo} {missingSet : List ℤ} (hs : Inv U count s)
    (hw : s.workers[w]? = some worker) (ho : s.objects[worker.obj]? = some o)
    (hrange : ∀ i ∈ missingSet, 0 ≤ i ∧ i < (o.totalChunks : ℤ))
    (hahead : o.fileHash ∈ U → ∀ i ∈ o.missingChunks, i ∈ missingSet ∧ ∃ c ∈ rest, c.index = i)
    (n : ℕ) (written : Bool) : Inv U count (workerLoop s w worker rest missingSet n written) := by
  have hleft : o.fileHash ∈ U → ∀ i ∈ o.missingChunks, i ∈ missingSet ∧
      ∃ c ∈ rest.dropWhile fun info => info.index ∉ missingSet, c.index = i := by
    intro hU i hi
    obtain ⟨hmem, c, hc, rfl⟩ := hahead hU i hi
    exact ⟨hmem, c, mem_dropWhile hc (by simpa using hmem), rfl⟩
  unfold workerLoop
  split
  · next info rest' heq =>
    split
    · exact inv_finish w hs
    · rw [heq] at hleft
      have hinfo : info.index ∈ missingSet := by
        have hhead := List.head?_dropWhile_not
          (fun info : ChunkInfo => decide (info.index ∉ missingSet)) rest
        rw [heq] at hhead
        simpa using hhead
      exact inv_setPhase hs hw ho ⟨hinfo, hrange, hleft⟩
  · next heq =>
    rw [heq] at hleft
    refine inv_setPhase (inv_saveResume _ _ hs) hw ho fun hU => ?_
    refine List.eq_nil_iff_forall_not_mem.2 fun i hi => ?_
    obtain ⟨-, c, hc, -⟩ := hleft hU i hi
    exact List.not_mem_nil hc

lemma inv_workerStart {s : State} {w : ℕ} {worker : Worker} (hs : Inv U count s)
    (hw : s.workers[w]? = some worker) (written : Bool) :
    Inv U count (workerStart s w worker written) := by
  unfold workerStart
  split
  · exact hs
  · next o ho =>
    have hok := hs.object _ o ho
    have hrange (i : ℤ) (hi : i ∈ o.missingChunks) : 0 ≤ i ∧ i < (o.totalChunks : ℤ) :=
      (hok.exact.cover i).1 (Or.inl hi)
    refine inv_workerLoop hs hw ho hrange (fun hU i hi => ⟨hi, ?_⟩) 0 written
    -- the manifest has every index of the download
    obtain ⟨hindexed, o', ho', hhash, -⟩ := hs.worker w worker hw
    rw [ho, Option.some.injEq] at ho'
    subst ho'
    obtain ⟨h0, hlt⟩ := hrange i hi
    rw [hok.total hU, hhash] at hlt
    have hmem : i ∈ worker.manifest.chunks.map ChunkInfo.index := by
      rw [(hindexed (hhash ▸ hU)).mem_iff, List.mem_map]
      exact ⟨i.toNat, List.mem_range.2 (by omega), Int.toNat_of_nonneg h0⟩
    obtain ⟨c, hc, hci⟩ := List.mem_map.1 hmem
    exact ⟨c, (mem_sortBy _).2 hc, hci⟩

lemma inv_workerRaises {s : State} (hs : Inv U count s) (w : ℕ) (worker : Worker) (sorted : Bool)
    (message : String) (written : Bool) :
    Inv U count (workerRaises s w worker sorted message written) := by
  unfold workerRaises
  split
  · exact inv_finish w (inv_saveResume _ written (inv_setError _ message hs))
  · refine inv_updateWorker hs fun worker' hw => ?_
    obtain ⟨hindexed, o, ho, hhash, -⟩ := hs.worker w worker' hw
    exact ⟨hindexed, o, ho, hhash, trivial⟩

lemma inv_chunkFetched {s : State} {w : ℕ} {worker : Worker} {info : ChunkInfo}
    {rest : List ChunkInfo} {missingSet : List ℤ} {n : ℕ} (hs : Inv U count s)
    (hw : s.workers[w]? = some worker) (hphase : worker.phase = .fetching info rest missingSet n)
    (error : Option String) (written : Bool) :
    Inv U count (chunkFetched s w worker info rest missingSet n error written) := by
  cases error with
  | some message => exact inv_finish w (inv_setError _ message (inv_saveResume _ written hs))
  | none =>
    obtain ⟨-, o, ho, -, hok⟩ := hs.worker w worker hw
    rw [hphase] at hok
    obtain ⟨hinfo, hrange, hahead⟩ := hok
    have hs' : Inv U count (s.markCompleted worker.obj info.index) := by
      refine inv_markCompleted hs fun o' ho' => ?_
      rw [ho, Option.some.injEq] at ho'
      exact ho' ▸ hrange info.index hinfo
    have ho' : (s.markCompleted worker.obj info.index).objects[worker.obj]? = some { o with
        missingChunks := if info.index ∈ o.missingChunks then o.missingChunks.erase info.index
          else o.missingChunks
        completedChunks := if info.index ∈ o.completedChunks then o.completedChunks
          else o.completedChunks ++ [info.index] } := by
      simp [State.markCompleted, State.assign, ho]
    -- what is still missing is another index, so it comes later
    have hlater : o.fileHash ∈ U → ∀ i ∈ (if info.index ∈ o.missingChunks then
        o.missingChunks.erase info.index else o.missingChunks), i ∈ missingSet ∧ ∃ c ∈ rest, c.index = i := by
      intro hU i hi
      have hne : i ≠ info.index ∧ i ∈ o.missingChunks := by
        split at hi
        · exact (hs.object _ o ho).exact.nodup_missing.mem_erase_iff.1 hi
        · next hno => exact ⟨fun h => hno (h ▸ hi), hi⟩
      obtain ⟨hmem, c, hc, hci⟩ := hahead hU i hne.2
      refine ⟨hmem, c, (List.mem_cons.1 hc).resolve_left ?_, hci⟩
      rintro rfl
      exact hne.1 hci.symm
    unfold chunkFetched
    dsimp only
    split
    · exact inv_workerLoop (inv_saveResume _ written hs') hw ho' hrange hlater 0 written
    · exact inv_workerLoop hs' hw ho' hrange hlater (n + 1) written

/-- A worker at the merge completes its download. -/
lemma inv_completed {s : State} {w : ℕ} {worker : Worker} (hs : Inv U count s)
    (hw : s.workers[w]? = some worker) (hphase : worker.phase = .merging) (written : Bool) :
    Inv U count ((s.setStatus worker.obj .completed).saveResume worker.obj written) := by
  refine inv_saveResume _ _ (inv_setStatus hs fun _ o ho hU => ?_)
  obtain ⟨-, o', ho', -, hok⟩ := hs.worker w worker hw
  rw [ho, Option.some.injEq] at ho'
  subst ho'
  rw [hphase] at hok
  exact hok hU

lemma inv_mergeDone {s : State} {w : ℕ} {worker : Worker} (hs : Inv U count s)
    (hw : s.workers[w]? = some worker) (hphase : worker.phase = .merging) (error : Option String)
    (written : Bool) : Inv U count (mergeDone s w worker error written) := by
  cases error with
  | none => exact inv_finish w (inv_deleteResume _ (inv_completed hs hw hphase written))
  | some message => exact inv_finish w (inv_saveResume _ written (inv_setError _ _ hs))

lemma inv_workerCancelled {s : State} (hs : Inv U count s) (w : ℕ) (worker : Worker)
    (written : Bool) : Inv U count (workerCancelled s w worker written) := by
  unfold workerCancelled
  split
  · exact inv_finish w hs
  · exact inv_finish w (inv_saveResume _ written (inv_setStatus hs nofun))

/-! ### A new process -/

lemma inv_recoverFile {s : State} {f : ResumeDict} (hs : Inv U count s)
    (hok : ObjectOk U count (DownloadState.fromResumeDict f)) : Inv U count (recoverFile s f) := by
  have hok' : ObjectOk U count { DownloadState.fromResumeDict f with status := .paused } :=
    ⟨hok.exact, hok.total, nofun⟩
  have hs' := inv_append hs hok'
  refine { inv_track (i := s.objects.length) hs' (List.getElem?_concat_length ..) rfl with }

lemma inv_restart {s : State} (hs : Inv U count s) : Inv U count (restart s.files) := by
  have hfiles (f : ResumeDict) (hf : f ∈ s.files.values) :
      ObjectOk U count (DownloadState.fromResumeDict f) := by
    obtain ⟨⟨h, f'⟩, hmem, rfl⟩ := List.mem_map.1 hf
    exact (hs.file h f' (Dict.get?_of_mem_entries hmem)).2
  have hinit : Inv U count { files := s.files } := { inv_init with file := hs.file }
  unfold restart
  revert hfiles hinit
  generalize ({ files := s.files } : State) = s₀
  generalize s.files.values = fs
  intro hfiles hinit
  induction fs generalizing s₀ with
  | nil => exact hinit
  | cons f fs ih =>
    exact ih (recoverFile s₀ f) (fun g hg => hfiles g (List.mem_cons_of_mem _ hg))
      (inv_recoverFile hinit (hfiles f (List.mem_cons_self ..)))

/-! ## Every run -/

/-- **Step lemma.** -/
lemma inv_exec {s t : State} {l : Label} (hs : Inv U count s) (h : machine.exec s l = some t)
    (hl : ∀ h ∈ U, Agreed h (count h) l) : Inv U count t := by
  rw [machine_exec] at h
  cases l with
  | start h' d password written =>
    exact Option.some.inj h ▸ inv_startDownload hs h' d password written
      fun manifest hm hU => hl h' hU rfl manifest hm
  | pause h' written => exact Option.some.inj h ▸ inv_pauseDownload hs h' written
  | pauseTimeout p =>
    obtain ⟨pause, -, -, rfl⟩ := exec_pauseTimeout h
    have hpause : Inv U count (s.updatePause p fun pause => { pause with cancelling := true }) :=
      { hs with }
    exact inv_signal _ hpause (fun _ => rfl) (fun _ => rfl) (fun _ => rfl) fun _ => rfl
  | pauseDone p written =>
    obtain ⟨pause, -, -, -, rfl⟩ := exec_pauseDone h
    exact { inv_leavePause hs pause written with }
  | resume h' password d =>
    exact Option.some.inj h ▸ inv_resumeDownload hs h' password d
      fun d' hd' manifest hm hU => hl h' hU rfl d' hd' manifest hm
  | clear => exact Option.some.inj h ▸ inv_clearCompleted hs
  | begin w written =>
    obtain ⟨worker, hw, -, rfl⟩ := exec_begin h
    exact inv_workerStart hs hw written
  | beginRaises w sorted message written =>
    obtain ⟨worker, -, -, -, rfl⟩ := exec_beginRaises h
    exact inv_workerRaises hs w worker sorted message written
  | fetched w error written =>
    obtain ⟨worker, info, rest, missingSet, n, hw, hphase, rfl⟩ := exec_fetched h
    exact inv_chunkFetched hs hw hphase error written
  | merged w error written =>
    obtain ⟨worker, hw, hphase, rfl⟩ := exec_merged h
    exact inv_mergeDone hs hw hphase error written
  | cancelled w written =>
    obtain ⟨worker, -, -, -, rfl⟩ := exec_cancelled h
    exact inv_workerCancelled hs w worker written
  | crash => exact Option.some.inj h ▸ inv_restart hs
  | crashInMerge w written =>
    obtain ⟨worker, hw, hphase, rfl⟩ := exec_crashInMerge h
    exact inv_restart (inv_completed hs hw hphase written)

/-- Nothing is asked of the manifests. -/
lemma inv_step {s t : State} {l : Label} (hs : Inv ∅ count s) (h : machine.exec s l = some t) :
    Inv ∅ count t := inv_exec hs h fun _ => False.elim

/-- Every state in memory and every `.resume` file has exact lists. -/
def ProgressExact (s : State) : Prop :=
  (∀ o ∈ s.objects, o.Exact) ∧
    ∀ h f, s.files.get? h = some f → (DownloadState.fromResumeDict f).Exact

/-- **Progress bookkeeping is exact in every run**, and a run in which all manifests of a file
agree on its chunk indices completes no download with missing chunks. -/
theorem progress_exact (run : List Label) (s : State) (h : machine.run {} run = some s) :
    ProgressExact s ∧ ∀ count : String → ℕ, machine.Meets (fun _ => Agreeing count) {} run →
      ∀ o ∈ s.objects, o.status = .completed → o.missingChunks = [] := by
  constructor
  · have hinv : Inv ∅ (fun _ => 0) s :=
      Machine.run_invariant (fun s l t hs ht => inv_step hs ht) run _ s inv_init h
    refine ⟨fun o ho => ?_, fun h f hf => (hinv.file h f hf).2.exact⟩
    obtain ⟨i, hi⟩ := List.mem_iff_getElem?.1 ho
    exact (hinv.object i o hi).exact
  · intro count hmeets o ho hstatus
    have hinv : Inv Set.univ count s := Machine.Always.last
      (Machine.always_of_meets (fun s l t hs ht hl => inv_exec hs ht fun h _ => hl.agreed h)
        inv_init hmeets) h
    obtain ⟨i, hi⟩ := List.mem_iff_getElem?.1 ho
    exact (hinv.object i o hi).completed trivial hstatus

/-- A manifest of two chunks, listed in reverse order. -/
def twoChunkManifest : ManifestDict where
  originalFilename := some "a"
  originalSize := some 2
  fileHash := some "h"
  chunkSize := some 1
  merkleRoot := some "root"
  chunks := some [⟨some 1, some "c1", some 1, some false⟩, ⟨some 0, some "c0", some 1, some false⟩]

/-- A download that a crash interrupts, and that is resumed and completed. -/
def interrupted : List Label :=
  [.start "h" twoChunkManifest "" true, .begin 0 true, .fetched 0 none true, .crash,
    .resume "h" "" (some twoChunkManifest), .begin 0 true, .fetched 0 none true,
    .fetched 0 none true, .merged 0 none true]

/-- The manifest object of `twoChunkManifest`. -/
def twoChunks : FileManifest where
  originalFilename := "a"
  originalSize := 2
  fileHash := "h"
  chunkSize := 1
  merkleRoot := "root"
  chunks := [⟨1, "c1", 1, false⟩, ⟨0, "c0", 1, false⟩]

lemma indexed_twoChunks (manifest : FileManifest)
    (h : FileManifest.fromDict twoChunkManifest = .ok manifest) : Indexed 2 manifest := by
  obtain rfl : twoChunks = manifest := Except.ok.inj h
  unfold Indexed
  decide

lemma meets_interrupted :
    machine.Meets (fun _ => Agreeing fun _ => 2) {} interrupted := by
  refine (Machine.meets_cons rfl).2 ⟨indexed_twoChunks, ?_⟩
  iterate 3 refine (Machine.meets_cons rfl).2 ⟨trivial, ?_⟩
  refine (Machine.meets_cons rfl).2 ⟨fun d hd => ?_, ?_⟩
  · obtain rfl := Option.some.inj hd
    exact indexed_twoChunks
  · iterate 4 refine (Machine.meets_cons rfl).2 ⟨trivial, ?_⟩
    trivial

/-- The state after `interrupted`. -/
def resumed : State where
  objects := [⟨"h", "a", 2, 2, [], [0, 1], .completed, "", ""⟩]
  workers := [{ fileHash := "h", manifest := twoChunks, obj := 0, phase := .finished }]
  downloads := (∅ : Dict String ℕ).set "h" 0
  tasks := (∅ : Dict String ℕ).set "h" 0
  cancelEvents := (∅ : Dict String ℕ).set "h" 0

theorem progress_exact_interrupted : ProgressExact resumed ∧
    ∀ o ∈ resumed.objects, o.status = .completed → o.missingChunks = [] :=
  (progress_exact interrupted resumed rfl).imp_right fun h => h (fun _ => 2) meets_interrupted

end DistriStore.DownloadManager
