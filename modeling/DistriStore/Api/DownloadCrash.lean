import DistriStore.Api.DownloadFlush

/-!
# What a crash costs

A crash loses what the object of a live worker counts and its `.resume` file does not.  A request
that launches a worker finds the file up to date or writes it, a pause writes it when its worker is
over, and a restart tracks what the files say; with the steps of the workers, at most one flush is
ever open (`crash_loses_little`).

This needs that the requests are handled one after another (`Serial`): then one pause waits at a
time, and its task and object are still the ones that the manager has (`Sequential`).
-/

namespace DistriStore.DownloadManager

open Lib

/-! ## Runs -/

/-- A request of the API. -/
def Label.isRequest : Label → Bool
  | .start _ _ _ _ => true
  | .pause _ _ => true
  | .resume _ _ _ => true
  | .clear => true
  | _ => false

/-- The write of a `.resume` file in the step, if there is one, succeeds. -/
def Label.writes : Label → Bool
  | .start _ _ _ written => written
  | .pause _ written => written
  | .pauseDone _ written => written
  | .begin _ written => written
  | .beginRaises _ _ _ written => written
  | .fetched _ _ written => written
  | .merged _ _ written => written
  | .cancelled _ written => written
  | .crashInMerge _ written => written
  | _ => true

/-- A request is handled when all pauses before it have returned, and writes succeed. -/
structure Serial (s : State) (l : Label) : Prop where
  request : l.isRequest = true → ∀ pause ∈ s.pauses, pause.ended = true
  writes : l.writes = true

instance (s : State) (l : Label) : Decidable (Serial s l) :=
  decidable_of_iff ((l.isRequest = true → ∀ pause ∈ s.pauses, pause.ended = true) ∧
    l.writes = true) ⟨fun h => ⟨h.1, h.2⟩, fun h => ⟨h.1, h.2⟩⟩

/-- How many of the chunks in `completed` are not in `saved`. -/
def lacking (saved completed : List ℤ) : ℕ := (completed.filter fun j => j ∉ saved).length

/-- The file of `h`, when there is one, has only chunks that the object of a live worker has too,
and less than `FLUSH_INTERVAL` chunks fewer; and so much is lost if the process dies now. -/
structure LosesLittle (h : String) (s : State) : Prop where
  behind : ∀ w i, Live s h w i → ∀ f, s.files.get? h = some f →
    ∃ o : DownloadState, s.objects[i]? = some o ∧
      (∀ j ∈ f.completedChunks, j ∈ o.completedChunks) ∧
      lacking f.completedChunks o.completedChunks < flushInterval
  lost : ∀ w i, Live s h w i → ∀ f, s.files.get? h = some f →
    ∃ (o : DownloadState) (i' : ℕ) (o' : DownloadState), s.objects[i]? = some o ∧
      (restart s.files).downloads.get? h = some i' ∧ (restart s.files).objects[i']? = some o' ∧
      lacking o'.completedChunks o.completedChunks < flushInterval

section Statements

variable {s t : State} {h : String} {i w n m : ℕ}

section Steps

variable {worker : Worker} {o : DownloadState}

/-! ## Requests -/

lemma Behind.existing (hs : Behind s h n) (hi : Inv ∅ (fun _ => 0) s) (h' : String) :
    Behind (s.existing h').1 h n := by
  obtain ⟨loaded, hloaded⟩ := existing_objects s h'
  rw [hloaded]
  exact hs.append hi loaded

lemma Behind.prepare (hs : Behind s h n) (hi : Inv ∅ (fun _ => 0) s) (h' : String)
    (manifest : FileManifest) (password : String) (found : Option (ℕ × DownloadState)) :
    Behind (prepare s h' manifest password found).1 h n := by
  unfold DownloadManager.prepare
  split
  · exact hs.append hi _
  · split
    · exact hs.assign fun _ => rfl
    · exact hs.append hi _

/-- The first worker of the file. -/
lemma flushed_launch (hidle : ¬ Busy s h) (hs : Behind s h 0) (manifest : FileManifest) (i : ℕ) :
    Flushed (s.launch h manifest i) h := by
  intro n hn
  refine ⟨Behind.mono (s := s.launch h manifest i) hs (Nat.zero_le n), ?_⟩
  cases hn with
  | always => decide
  | working w worker hw hhash hlive =>
    rcases getElem?_concat_cases hw with hw | ⟨-, rfl⟩
    · exact absurd ⟨w, worker.obj, worker, hw, hhash, rfl, hlive⟩ hidle
    · exact (by decide : 0 < flushInterval)
  | resting => decide

/-- A worker of another file. -/
lemma Allows.of_launch {h' : String} {manifest : FileManifest}
    (ht : Allows (s.launch h' manifest i) h n) (hne : h' ≠ h) : Allows s h n := by
  refine ht.of_same (fun w worker hw hhash _ => ?_) ?_ ?_
  · rcases getElem?_concat_cases hw with hw | ⟨-, rfl⟩
    · exact ⟨worker, hw, hhash, rfl⟩
    · exact absurd hhash hne
  · rintro ⟨w, i, worker, hw, hrest⟩
    exact ⟨w, i, worker, getElem?_append_of_some hw _, hrest⟩
  · rintro ⟨p, pause, hp, hhash, hended, hcaught⟩
    refine ⟨p, pause, hp, hhash, hended, Bool.eq_false_iff.2 fun hraised => ?_⟩
    obtain ⟨worker, hw, hworker⟩ := (Option.any_eq_true ..).1 hraised
    rcases getElem?_concat_cases hw with hw | ⟨-, rfl⟩
    · rw [taskRaised, hw] at hcaught
      exact absurd (hworker.symm.trans hcaught) (by decide)
    · cases hworker

lemma pauses_existing (s : State) (h' : String) : (s.existing h').1.pauses = s.pauses := by
  obtain ⟨loaded, hloaded⟩ := existing_objects s h'
  rw [hloaded]

lemma Paced.flushed_existing (hs : Paced h s) (h' : String) : Flushed (s.existing h').1 h :=
  hs.flushed.keep (fun _ hn => hn.existing hs.inv h') fun _ hn =>
    hn.of_eq (workers_existing s h') (pauses_existing s h')

/-- A worker would have the status `downloading`. -/
lemma Paced.idle_of_existing (hs : Paced h s)
    (hfound : ∀ i o, (s.existing h).2 = some (i, o) → o.status ≠ .downloading) : ¬ Busy s h := by
  intro hbusy
  obtain ⟨i, o, hex, hstatus⟩ := existing_of_active (hs.sole.active_of_busy hbusy)
  exact hfound i o hex hstatus

lemma Paced.flushed_start (hs : Paced h s) (h' : String) (d : ManifestDict) (password : String) :
    Flushed (startDownload s h' d password true).1 h := by
  unfold startDownload
  split
  · exact hs.flushed
  · next manifest _ =>
    obtain ⟨hex, hfound⟩ := existing_spec hs.inv h'
    have hkept := hs.flushed_existing h'
    split
    · exact hs.flushed
    dsimp only
    split
    · exact hkept
    · next hnone =>
      obtain ⟨objects, hprepared⟩ :=
        prepare_objects (s.existing h').1 h' manifest password (s.existing h').2
      obtain ⟨-, o, ho, hohash, -⟩ :=
        prepare_spec hex hfound (False.elim : h' ∈ (∅ : Set String) → Indexed 0 manifest) password
      have hbehind (n : ℕ) (hn : Behind s h n) :=
        (hn.existing hs.inv h').prepare hex h' manifest password (s.existing h').2
      set prepared := prepare (s.existing h').1 h' manifest password (s.existing h').2
      have hworkers : prepared.1.workers = s.workers := by
        rw [hprepared]
        exact workers_existing s h'
      have hpauses : prepared.1.pauses = s.pauses := by
        rw [hprepared]
        exact pauses_existing s h'
      by_cases hh : h' = h
      · subst hh
        have hidle : ¬ Busy s h' := by
          refine hs.idle_of_existing fun i o hex hstatus => ?_
          rw [hex] at hnone
          simp [hstatus] at hnone
        have hzero : Behind ((prepared.1.track h' prepared.2).saveResume prepared.2 true) h' 0 :=
          behind_saveResume (s := prepared.1.track h' prepared.2) (Dict.get?_set_self ..) ho hohash
        refine flushed_launch ?_ hzero manifest prepared.2
        rintro ⟨w, i, hlive⟩
        refine hidle ⟨w, i, ?_⟩
        rw [Live, ← hworkers]
        exact hlive
      · refine hs.flushed.keep (fun n hn => ?_) fun n hn => ?_
        · have htracked : Behind (prepared.1.track h' prepared.2) h n :=
            (hbehind n hn).track_other hh
          refine Behind.saveResume (s := prepared.1.track h' prepared.2) htracked true
            fun o' ho' hh' => absurd ?_ hh
          obtain rfl := Option.some.inj (ho.symm.trans ho')
          exact hohash.symm.trans hh'
        · exact (hn.of_launch hh).of_eq hworkers hpauses

/-- The object that a request goes on with counts what the file does. -/
lemma behind_found (hrest : Behind s h 0)
    (hfound : (s.existing h).2 = some (i, o)) : Behind ((s.existing h).1.track h i) h 0 := by
  unfold State.existing at hfound ⊢
  split at hfound
  · next j hj =>
    obtain ⟨o', -, heq⟩ := Option.map_eq_some_iff.1 hfound
    obtain ⟨rfl, rfl⟩ := Prod.mk.inj heq
    intro k o'' f hk ho'' hf
    rw [State.track, Dict.get?_set_self, Option.some.injEq] at hk
    exact hrest k o'' f (hk ▸ hj) ho'' hf
  · next hnone =>
    split at hfound
    · cases hfound
    · next f hf =>
      obtain ⟨rfl, rfl⟩ := Prod.mk.inj (Option.some.inj hfound)
      intro k o'' f' hk ho'' hf'
      rw [State.track, Dict.get?_set_self, Option.some.injEq] at hk
      subst hk
      obtain rfl := Option.some.inj (hf.symm.trans hf')
      have hlast : (s.objects ++ [DownloadState.fromResumeDict f])[s.objects.length]? =
          some (DownloadState.fromResumeDict f) := List.getElem?_concat_length ..
      obtain rfl := Option.some.inj (hlast.symm.trans ho'')
      exact ⟨[], by simp [DownloadState.fromResumeDict], Nat.le_refl 0⟩

lemma not_pauseOpen (hclosed : ∀ pause ∈ s.pauses, pause.ended = true) : ¬ PauseOpen s h := by
  rintro ⟨p, pause, hp, -, hended, -⟩
  rw [hclosed pause (List.mem_of_getElem? hp)] at hended
  cases hended

lemma Paced.flushed_resume (hs : Paced h s) (hclosed : ∀ pause ∈ s.pauses, pause.ended = true)
    (h' password : String) (d : Option ManifestDict) :
    Flushed (resumeDownload s h' password d).1 h := by
  obtain ⟨hex, -⟩ := existing_spec hs.inv h'
  have hkept := hs.flushed_existing h'
  unfold resumeDownload
  split
  · exact hs.flushed
  split
  · next s' hnone =>
    have hs' : (s.existing h').1 = s' := congrArg Prod.fst hnone
    exact hs' ▸ hkept
  · next s' i o hsome =>
    have hs' : (s.existing h').1 = s' := congrArg Prod.fst hsome
    have hfound : (s.existing h').2 = some (i, o) := congrArg Prod.snd hsome
    subst hs'
    split
    · exact hkept
    · next hinactive =>
      split
      · exact hkept
      · split
        · exact hkept
        · next manifest _ =>
          dsimp only
          by_cases hh : h' = h
          · subst hh
            have hidle : ¬ Busy s h' := by
              refine hs.idle_of_existing fun i' o' hex' => ?_
              obtain ⟨rfl, rfl⟩ := Prod.mk.inj (Option.some.inj (hfound.symm.trans hex'))
              exact hinactive
            have hrest := (hs.flushed 0 (.resting hidle (not_pauseOpen hclosed))).1
            -- the worker begins where the file is, with whatever object it goes on
            have hzero : Behind (((s.existing h').1.track h' i).assign i fun o =>
                { o with status := .downloading, password := password }) h' 0 :=
              (behind_found hrest hfound).assign fun _ => rfl
            refine flushed_launch ?_ hzero manifest i
            rintro ⟨w, j, hlive⟩
            refine hidle ⟨w, j, ?_⟩
            rw [Live, ← workers_existing s h']
            exact hlive
          · refine hs.flushed.keep (fun n hn => ?_) fun n hn => ?_
            · exact ((hn.existing hs.inv h').assign (i := i)
                (f := fun o => { o with status := .downloading, password := password })
                fun _ => rfl).track_other hh
            · exact (hn.of_launch hh).of_eq (workers_existing s h') (pauses_existing s h')

/-! ## Pauses -/

lemma PauseOpen.updatePause {p : ℕ} {f : Pause → Pause} (hopen : PauseOpen s h)
    (hf : ∀ pause, s.pauses[p]? = some pause → pause.fileHash = h →
      taskRaised s pause.worker = false → (f pause).fileHash = h ∧
        (f pause).ended = pause.ended ∧ (f pause).worker = pause.worker) :
    PauseOpen (s.updatePause p f) h := by
  obtain ⟨p', pause, hp', hhash, hended, hcaught⟩ := hopen
  refine ⟨p', _, getElem?_modify_of_some f hp', ?_⟩
  split
  · next hpp =>
    obtain ⟨hhash', hended', hworker⟩ := hf pause (hpp ▸ hp') hhash hcaught
    exact ⟨hhash', hended'.trans hended, hworker ▸ hcaught⟩
  · exact ⟨hhash, hended, hcaught⟩

lemma Flushed.signalCancel (hs : Flushed s h) (h' : String) : Flushed (signalCancel s h') h := by
  unfold DownloadManager.signalCancel
  split
  · exact hs
  · exact hs.keep (fun _ hn => hn) fun _ hn =>
      hn.of_updateWorker (fun _ => rfl) (fun _ _ _ => rfl) fun _ => rfl

/-- The file is brought up to date and nobody begins. -/
lemma Flushed.of_behind (hs : Flushed s h) (hzero : Behind t h 0)
    (hworkers : t.workers = s.workers) : Flushed t h := by
  intro n hn
  refine ⟨hzero.mono (Nat.zero_le n), ?_⟩
  cases hn with
  | always => decide
  | working w worker hw hhash hlive =>
    exact (hs _ (.working w worker (hworkers ▸ hw) hhash hlive)).2
  | resting => decide

/-- The end of a pause, after which `pauses` is left. -/
lemma Flushed.finishPause {h' : String} (hs : Flushed s h) (pauses : List Pause)
    (ho : s.objects[i]? = some o) (hohash : o.fileHash = h')
    (hown : h' = h → s.downloads.get? h = some i)
    (hopen : h' ≠ h → PauseOpen s h → PauseOpen { s with pauses := pauses } h) :
    Flushed { finishPause s h' i true with pauses := pauses } h := by
  obtain ⟨hzero, hother⟩ := behind_assign_saveResume (s := s) (h := h)
    (f := fun o => { o with status := .paused }) ho hohash (fun _ => rfl) (fun _ => rfl) hown
  by_cases hh : h' = h
  · exact hs.of_behind (hzero hh) rfl
  · exact hs.keep (hother hh) fun n hn =>
      hn.of_same (fun w worker hw hhash _ => ⟨worker, hw, hhash, rfl⟩) id (hopen hh)

lemma Paced.flushed_pause (hs : Paced h s) (h' : String) :
    Flushed (pauseDownload s h' true) h := by
  unfold pauseDownload
  split
  · exact hs.flushed
  · next i hi =>
    split
    · obtain ⟨o, ho, hohash⟩ := hs.inv.tracked h' i hi
      have hnow : Flushed (DownloadManager.finishPause (signalCancel s h') h' i true) h := by
        refine (hs.flushed.signalCancel h').finishPause (signalCancel s h').pauses
          (by rwa [objects_signalCancel]) hohash (fun hh => ?_) fun _ hopen => hopen
        rw [downloads_signalCancel, ← hh]
        exact hi
      unfold awaitTask
      split
      · exact hnow
      · split
        · exact hnow
        · refine (hs.flushed.signalCancel h').keep (fun _ hn => hn) fun n hn => hn.of_same
            (fun w worker hw hhash _ => ⟨worker, hw, hhash, rfl⟩) id ?_
          rintro ⟨p, pause, hp, hrest⟩
          exact ⟨p, pause, getElem?_append_of_some hp _, hrest⟩
    · exact hs.flushed

lemma Paced.flushed_pauseTimeout {p : ℕ} (hs : Paced h s)
    (ht : exec s (.pauseTimeout p) = some t) : Flushed t h := by
  obtain ⟨pause, -, -, rfl⟩ := exec_pauseTimeout ht
  refine hs.flushed.keep (fun _ hn => hn) fun n hn => ?_
  refine (hn.of_updateWorker (fun _ => rfl) (fun _ _ _ => rfl) fun _ => rfl).of_same
    (fun w worker hw hhash _ => ⟨worker, hw, hhash, rfl⟩) id fun hopen => ?_
  exact hopen.updatePause fun _ _ hhash _ => ⟨hhash, rfl, rfl⟩

lemma Paced.flushed_pauseDone {p : ℕ} (hs : Paced h s)
    (ht : exec s (.pauseDone p true) = some t) : Flushed t h := by
  obtain ⟨pause, hp, hended, -, rfl⟩ := exec_pauseDone ht
  unfold leavePause
  split
  · next hraised =>
    refine hs.flushed.keep (fun _ hn => hn) fun n hn => hn.of_same
      (fun w worker hw hhash _ => ⟨worker, hw, hhash, rfl⟩) id fun hopen => ?_
    refine hopen.updatePause fun pause' hp' _ hcaught => ?_
    obtain rfl := Option.some.inj (hp.symm.trans hp')
    exact absurd (hraised.symm.trans hcaught) (by decide)
  obtain ⟨-, hi, -⟩ := hs.pause p pause hp hended
  obtain ⟨o, ho, hohash⟩ := hs.inv.tracked _ _ hi
  refine hs.flushed.finishPause _ ho hohash (fun hh => hh ▸ hi) fun hne hopen => ?_
  refine hopen.updatePause fun pause' hp' hhash _ => ?_
  obtain rfl := Option.some.inj (hp.symm.trans hp')
  exact absurd hhash hne

lemma pauses_clearCompleted (s : State) : (clearCompleted s).pauses = s.pauses := by
  have hfold (entries : List (String × ℕ)) (s : State) :
      (entries.foldl dropEntry s).pauses = s.pauses := by
    induction entries generalizing s with
    | nil => rfl
    | cons e entries ih => exact ih (dropEntry s e)
  exact hfold _ s

lemma Paced.flushed_clear (hs : Paced h s) : Flushed (clearCompleted s) h := by
  obtain ⟨hobjects, hworkers, hfiles, hdownloads⟩ := clearCompleted_spec s h
  refine hs.flushed.keep (fun n hn => ?_) fun n hn => hn.of_eq hworkers (pauses_clearCompleted s)
  intro i o f hi ho hf
  rcases hdownloads with ⟨hsame, -⟩ | ⟨hnone, -⟩
  · exact hn i o f (hsame ▸ hi) (hobjects ▸ ho) (hfiles ▸ hf)
  · rw [hnone] at hi
    cases hi

/-! ## Crashes -/

/-- A restart tracks what the file says. -/
lemma restart_tracked {files : Dict String ResumeDict} {f : ResumeDict}
    (hfile : ∀ k f, files.get? k = some f → f.fileHash = k) (hf : files.get? h = some f) :
    ∃ i, (restart files).downloads.get? h = some i ∧ (restart files).objects[i]? =
      some { DownloadState.fromResumeDict f with status := .paused } := by
  have hfold (fs : List ResumeDict) (hfs : ∀ f' ∈ fs, f'.fileHash = h → f' = f) (hmem : f ∈ fs) :
      ∃ i, (fs.foldl recoverFile { files := files }).downloads.get? h = some i ∧
        (fs.foldl recoverFile { files := files }).objects[i]? =
          some { DownloadState.fromResumeDict f with status := .paused } := by
    induction fs using List.reverseRecOn with
    | nil => cases hmem
    | append_singleton fs f' ih =>
      rw [List.foldl_append]
      by_cases hh : f'.fileHash = h
      · obtain rfl := hfs f' (by simp) hh
        exact ⟨_, hh ▸ Dict.get?_set_self .., List.getElem?_concat_length ..⟩
      · have hmem' : f ∈ fs := by
          rcases List.mem_append.1 hmem with hmem | hlast
          · exact hmem
          · rw [List.mem_singleton] at hlast
            exact absurd (hlast ▸ hfile h f hf) hh
        obtain ⟨i, hi, ho⟩ := ih (fun f'' hf'' => hfs f'' (List.mem_append_left _ hf'')) hmem'
        exact ⟨i, (Dict.get?_set_ne _ _ (Ne.symm hh)).trans hi, getElem?_append_of_some ho _⟩
  refine hfold files.values (fun f' hf' hh => ?_) (Dict.mem_values_iff.2 ⟨h, hf⟩)
  obtain ⟨k, hk⟩ := Dict.mem_values_iff.1 hf'
  obtain rfl := (hfile k f' hk).symm.trans hh
  exact Option.some.inj (hk.symm.trans hf)

lemma flushed_restart {files : Dict String ResumeDict}
    (hfile : ∀ k f, files.get? k = some f → f.fileHash = k) : Flushed (restart files) h := by
  obtain ⟨hidle, -, hfiles⟩ := restart_spec files h
  have hzero : Behind (restart files) h 0 := by
    intro i o f hi ho hf
    rw [hfiles] at hf
    obtain ⟨i', hi', ho'⟩ := restart_tracked hfile hf
    obtain rfl := Option.some.inj (hi'.symm.trans hi)
    obtain rfl := Option.some.inj (ho'.symm.trans ho)
    exact ⟨[], by simp [DownloadState.fromResumeDict], Nat.le_refl 0⟩
  intro n hn
  refine ⟨hzero.mono (Nat.zero_le n), ?_⟩
  cases hn with
  | working w worker hw hhash hlive =>
    exact absurd ⟨w, worker.obj, worker, hw, hhash, rfl, hlive⟩ hidle
  | _ => decide

/-- The files that a dead process leaves have the names of the downloads in them. -/
lemma flushed_crash {l : Label} (hi : Inv ∅ (fun _ => 0) t) (hl : l.crashes = true)
    (ht : exec s l = some t) : Flushed t h ∧ t.pauses = [] := by
  obtain ⟨files, rfl⟩ : ∃ files, t = restart files := by
    cases l with
    | crash => exact ⟨_, (Option.some.inj ht).symm⟩
    | crashInMerge w written =>
      obtain ⟨worker, -, -, rfl⟩ := exec_crashInMerge ht
      exact ⟨_, rfl⟩
    | _ => cases hl
  refine ⟨flushed_restart fun k f hf => (hi.file k f ?_).1, (restart_frame files).2.1⟩
  rw [(restart_spec files k).2.2]
  exact hf

/-! ## One pause at a time -/

lemma sequential_of_closed (hclosed : ∀ pause ∈ s.pauses, pause.ended = true) :
    Sequential s := by
  intro p pause hp hended
  rw [hclosed pause (List.mem_of_getElem? hp)] at hended
  cases hended

lemma pauses_startDownload (s : State) (h' : String) (d : ManifestDict) (password : String)
    (written : Bool) : (startDownload s h' d password written).1.pauses = s.pauses := by
  unfold startDownload
  split
  · rfl
  · next manifest _ =>
    split
    · rfl
    dsimp only
    split
    · exact pauses_existing s h'
    · obtain ⟨objects, hprepared⟩ :=
        prepare_objects (s.existing h').1 h' manifest password (s.existing h').2
      refine Eq.trans ?_ (pauses_existing s h')
      rw [hprepared]
      rfl

lemma pauses_resumeDownload (s : State) (h' password : String) (d : Option ManifestDict) :
    (resumeDownload s h' password d).1.pauses = s.pauses := by
  unfold resumeDownload
  split
  · rfl
  rw [← pauses_existing s h']
  split
  · next hnone => rw [hnone]
  · next hsome =>
    rw [hsome]
    split
    · rfl
    · split
      · rfl
      · split <;> rfl

/-- Workers leave the handles alone. -/
lemma Sequential.workerStep {l : Label} (hs : Sequential s) (hl : l.worker = some w)
    (ht : exec s l = some t) : Sequential t := by
  have hloop (s : State) (worker : Worker) (rest : List ChunkInfo) (missingSet : List ℤ) (n : ℕ)
      (written : Bool) (hs : Sequential s) :
      Sequential (workerLoop s w worker rest missingSet n written) := by
    unfold workerLoop
    split
    · split <;> exact hs
    · exact hs
  cases l with
  | begin w' written =>
    obtain rfl := Option.some.inj hl
    obtain ⟨worker, -, -, rfl⟩ := exec_begin ht
    unfold workerStart
    split
    · exact hs
    · exact hloop _ _ _ _ _ _ hs
  | beginRaises w' sorted message written =>
    obtain ⟨worker, -, -, -, rfl⟩ := exec_beginRaises ht
    unfold workerRaises
    split <;> exact hs
  | fetched w' error written =>
    obtain rfl := Option.some.inj hl
    obtain ⟨worker, info, rest, missingSet, n, -, -, rfl⟩ := exec_fetched ht
    unfold chunkFetched
    split
    · dsimp only
      split
      · exact hloop ((s.markCompleted worker.obj info.index).saveResume worker.obj written)
          _ _ _ _ _ hs
      · exact hloop (s.markCompleted worker.obj info.index) _ _ _ _ _ hs
    · exact hs
  | merged w' error written =>
    obtain ⟨worker, -, -, rfl⟩ := exec_merged ht
    unfold mergeDone
    split <;> exact hs
  | cancelled w' written =>
    obtain ⟨worker, -, -, -, rfl⟩ := exec_cancelled ht
    unfold workerCancelled
    split <;> exact hs
  | _ => cases hl

lemma sequential_pause (h' : String) (hclosed : ∀ pause ∈ s.pauses, pause.ended = true) :
    Sequential (pauseDownload s h' true) := by
  have hsame (t : State) (ht : t.pauses = (signalCancel s h').pauses) : Sequential t := by
    refine sequential_of_closed ?_
    rw [ht, pauses_signalCancel]
    exact hclosed
  unfold pauseDownload
  split
  · exact sequential_of_closed hclosed
  · next i hi =>
    split
    · unfold awaitTask
      split
      · exact hsame _ rfl
      · next w hw =>
        split
        · exact hsame _ rfl
        · rw [pauses_signalCancel]
          have hnew (p : ℕ) (pause : Pause) (hp : (s.pauses ++
              [{ fileHash := h', obj := i, worker := w }])[p]? = some pause)
              (hended : pause.ended = false) : p = s.pauses.length ∧
                pause = { fileHash := h', obj := i, worker := w } := by
            rcases getElem?_concat_cases hp with hp | hlast
            · rw [hclosed pause (List.mem_of_getElem? hp)] at hended
              cases hended
            · exact hlast
          intro p pause hp hended
          obtain ⟨rfl, rfl⟩ := hnew p pause hp hended
          refine ⟨hw, ?_, fun p' pause' hp' hended' => (hnew p' pause' hp' hended').1⟩
          rw [← downloads_signalCancel s h'] at hi
          exact hi
    · exact sequential_of_closed hclosed

lemma Sequential.pauseTimeout {p : ℕ} (hs : Sequential s)
    (ht : exec s (.pauseTimeout p) = some t) : Sequential t := by
  obtain ⟨pause, -, -, rfl⟩ := exec_pauseTimeout ht
  have hold (q : ℕ) (pause' : Pause) (hq : (s.updatePause p fun pause =>
      { pause with cancelling := true }).pauses[q]? = some pause') :
      ∃ pause'' : Pause, s.pauses[q]? = some pause'' ∧ pause''.fileHash = pause'.fileHash ∧
        pause''.worker = pause'.worker ∧ pause''.obj = pause'.obj ∧
        pause''.ended = pause'.ended := by
    obtain ⟨pause'', hq'', rfl⟩ := getElem?_modify_cases hq
    refine ⟨pause'', hq'', ?_⟩
    split <;> exact ⟨rfl, rfl, rfl, rfl⟩
  intro q pause' hq hended
  obtain ⟨pause'', hq'', hhash, hworker, hobj, hended''⟩ := hold q pause' hq
  obtain ⟨htask, hdownload, honly⟩ := hs q pause'' hq'' (hended''.trans hended)
  rw [← hhash, ← hworker, ← hobj]
  refine ⟨htask, hdownload, fun q' pause₂ hq' hended' => ?_⟩
  obtain ⟨pause₃, hq₃, -, -, -, hended₃⟩ := hold q' pause₂ hq'
  exact honly q' pause₃ hq₃ (hended₃.trans hended')

lemma pauses_leavePause (s : State) (pause : Pause) (written : Bool) :
    (leavePause s pause written).pauses = s.pauses := by
  unfold leavePause
  split <;> rfl

lemma Sequential.pauseDone {p : ℕ} {written : Bool} (hs : Sequential s)
    (ht : exec s (.pauseDone p written) = some t) : Sequential t := by
  obtain ⟨pause, hp, hended, -, rfl⟩ := exec_pauseDone ht
  refine sequential_of_closed fun pause' hpause' => ?_
  obtain ⟨q, hq⟩ := List.mem_iff_getElem?.1 hpause'
  obtain ⟨pause'', hq'', rfl⟩ := getElem?_modify_cases hq
  rw [pauses_leavePause] at hq''
  split
  · rfl
  · next hne =>
    by_contra hopen
    exact hne ((hs p pause hp hended).2.2 q pause'' hq'' (by simpa using hopen)).symm

end Steps

/-! ## Every step -/

lemma Paced.flushed_step {l : Label} (hs : Paced h s) (ht : exec s l = some t)
    (hi : Inv ∅ (fun _ => 0) t) (hserial : Serial s l) : Flushed t h ∧ Sequential t := by
  have hwrites := hserial.writes
  have hrequest := hserial.request
  cases l with
  | start h' d password written =>
    obtain rfl : written = true := hwrites
    obtain rfl := Option.some.inj ht
    refine ⟨hs.flushed_start h' d password, sequential_of_closed ?_⟩
    rw [pauses_startDownload]
    exact hrequest rfl
  | pause h' written =>
    obtain rfl : written = true := hwrites
    obtain rfl := Option.some.inj ht
    exact ⟨hs.flushed_pause h', sequential_pause h' (hrequest rfl)⟩
  | pauseTimeout p => exact ⟨hs.flushed_pauseTimeout ht, hs.pause.pauseTimeout ht⟩
  | pauseDone p written =>
    obtain rfl : written = true := hwrites
    exact ⟨hs.flushed_pauseDone ht, hs.pause.pauseDone ht⟩
  | resume h' password d =>
    obtain rfl := Option.some.inj ht
    refine ⟨hs.flushed_resume (hrequest rfl) h' password d, sequential_of_closed ?_⟩
    rw [pauses_resumeDownload]
    exact hrequest rfl
  | clear =>
    obtain rfl := Option.some.inj ht
    refine ⟨hs.flushed_clear, sequential_of_closed ?_⟩
    rw [pauses_clearCompleted]
    exact hrequest rfl
  | begin w written =>
    obtain rfl : written = true := hwrites
    refine ⟨?_, hs.pause.workerStep rfl ht⟩
    obtain ⟨worker, hw, hcreated, rfl⟩ := exec_begin ht
    exact hs.flushed_begin hw hcreated
  | beginRaises w sorted message written =>
    obtain rfl : written = true := hwrites
    refine ⟨?_, hs.pause.workerStep rfl ht⟩
    obtain ⟨worker, hw, hcreated, -, rfl⟩ := exec_beginRaises ht
    exact hs.flushed_beginRaises hw hcreated sorted message
  | fetched w error written =>
    obtain rfl : written = true := hwrites
    refine ⟨?_, hs.pause.workerStep rfl ht⟩
    obtain ⟨worker, info, rest, missingSet, n, hw, hphase, rfl⟩ := exec_fetched ht
    cases error with
    | none => exact hs.flushed_fetched hw hphase
    | some message =>
      exact hs.flushed_fetchFailed hw (by simp [hphase]) info rest missingSet n message
  | merged w error written =>
    obtain rfl : written = true := hwrites
    refine ⟨?_, hs.pause.workerStep rfl ht⟩
    obtain ⟨worker, hw, hphase, rfl⟩ := exec_merged ht
    exact hs.flushed_merged hw (by simp [hphase]) error
  | cancelled w written =>
    obtain rfl : written = true := hwrites
    refine ⟨?_, hs.pause.workerStep rfl ht⟩
    obtain ⟨worker, hw, -, hlive, rfl⟩ := exec_cancelled ht
    exact hs.flushed_cancelled hw hlive
  | crash =>
    obtain ⟨hflushed, hpauses⟩ := flushed_crash (h := h) hi rfl ht
    exact ⟨hflushed, sequential_of_closed (by simp [hpauses])⟩
  | crashInMerge w written =>
    obtain ⟨hflushed, hpauses⟩ := flushed_crash (h := h) hi rfl ht
    exact ⟨hflushed, sequential_of_closed (by simp [hpauses])⟩

/-- **Step lemma.** -/
lemma Paced.step {l : Label} (hs : Paced h s) (ht : machine.exec s l = some t)
    (hserial : Serial s l) : Paced h t := by
  have hi := inv_step hs.inv ht
  obtain ⟨hflushed, hsequential⟩ := hs.flushed_step ht hi hserial
  exact ⟨hi, control_exec hs.inv hs.control ht,
    sole_exec hs.inv hs.control hs.sole ht (hs.sole.orderly (hs.onTime ht)), hsequential, hflushed⟩

lemma paced_init (h : String) : Paced h machine.init := by
  have hidle : ¬ Busy machine.init h := by
    rintro ⟨w, i, worker, hw, -⟩
    simp [machine] at hw
  have hzero : Behind machine.init h 0 := by
    intro i o f hi
    simp [machine] at hi
  refine ⟨inv_init, control_init, sole_of_not_busy hidle, sequential_of_closed ?_, fun n hn => ?_⟩
  · simp [machine]
  · refine ⟨hzero.mono (Nat.zero_le n), ?_⟩
    cases hn with
    | working w worker hw hhash hlive =>
      exact absurd ⟨w, worker.obj, worker, hw, hhash, rfl, hlive⟩ hidle
    | _ => decide

lemma lacking_append (saved extra : List ℤ) : lacking saved (saved ++ extra) ≤ extra.length := by
  have hsaved : saved.filter (fun j => j ∉ saved) = [] := by simp
  rw [lacking, List.filter_append, hsaved, List.nil_append]
  exact List.length_filter_le ..

lemma Paced.losesLittle (hs : Paced h s) : LosesLittle h s := by
  have hbehind (w i : ℕ) (hlive : Live s h w i) (f : ResumeDict) (hf : s.files.get? h = some f) :
      ∃ o : DownloadState, s.objects[i]? = some o ∧
        (∀ j ∈ f.completedChunks, j ∈ o.completedChunks) ∧
        lacking f.completedChunks o.completedChunks < flushInterval := by
    obtain ⟨htracked, ⟨o, ho, -⟩, -⟩ := hs.sole.owned w i hlive
    obtain ⟨hbound, hlt⟩ := hs.flushed _ .always
    obtain ⟨extra, heq, hlen⟩ := hbound i o f htracked ho hf
    refine ⟨o, ho, fun j hj => ?_, ?_⟩
    · rw [heq]
      exact List.mem_append_left _ hj
    · rw [heq]
      exact (lacking_append f.completedChunks extra).trans_lt (hlen.trans_lt hlt)
  refine ⟨hbehind, fun w i hlive f hf => ?_⟩
  obtain ⟨o, ho, -, hlt⟩ := hbehind w i hlive f hf
  obtain ⟨i', hi', ho'⟩ := restart_tracked (fun k f hf => (hs.inv.file k f hf).1) hf
  exact ⟨o, i', _, ho, hi', ho', hlt⟩

end Statements

/-- **A crash loses less than `FLUSH_INTERVAL` chunks** of a download in progress, when requests are
handled one after another and writes succeed. -/
theorem crash_loses_little (h : String) (run : List Label)
    (hserial : machine.Meets Serial machine.init run) :
    machine.Always (LosesLittle h) machine.init run := by
  have hpaced : machine.Always (Paced h) machine.init run :=
    Machine.always_of_meets (fun _ _ _ hs ht hl => hs.step ht hl) (paced_init h) hserial
  exact hpaced.imp fun _ hs => hs.losesLittle

theorem crash_loses_little_pausedAndResumed :
    machine.Always (LosesLittle "h") machine.init pausedAndResumed :=
  crash_loses_little "h" pausedAndResumed (by decide +kernel)

end DistriStore.DownloadManager
