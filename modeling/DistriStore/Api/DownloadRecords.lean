import DistriStore.Api.DownloadCrash

/-!
# What is on record of a download

A request goes on with what it finds of a file: the tracked object, or else the `.resume` file.
Most steps leave this record as it is (`SameRecord`), and they take no chunk of the file either
(`Untouched`): so do all requests but a fresh start, and the pauses.

`Backed` and `Ahead` are the two invariants behind the accounts in `DownloadEffort`: while
chunks are missing there is a file, and a worker has only missing chunks ahead of it.
-/

namespace DistriStore.DownloadManager

open Lib

/-! ## What is on record -/

/-- How many chunks a new request for the file would find missing. -/
def outstanding (s : State) (h : String) : ℕ :=
  ((s.existing h).2.map fun e => e.2.missingChunks.length).getD 0

/-- A `start_download` in this state begins from nothing. -/
def beginsFresh (s : State) (h : String) (d : ManifestDict) : Bool :=
  (FileManifest.fromDict d).isOk && !decide (s.lookupRaises h) && (s.existing h).2.all fun e =>
    e.2.status ≠ .downloading ∧ e.2.missingChunks = []

section Statements

variable {s t u : State} {h : String} {i w : ℕ} {o : DownloadState}

lemma outstanding_of_tracked (hi : s.downloads.get? h = some i) (ho : s.objects[i]? = some o) :
    outstanding s h = o.missingChunks.length := by
  simp [outstanding, State.existing, hi, ho]

lemma outstanding_of_untracked (hi : s.downloads.get? h = none) :
    outstanding s h = ((s.files.get? h).map fun f => f.missingChunks.length).getD 0 := by
  unfold outstanding State.existing
  rw [hi]
  cases s.files.get? h <;> rfl

/-- What is outstanding depends on the tracked object, or on the file. -/
lemma outstanding_congr (hi : t.downloads.get? h = s.downloads.get? h)
    (ho : ∀ i, s.downloads.get? h = some i →
      ((t.objects[i]?).map fun o => o.missingChunks.length) =
        (s.objects[i]?).map fun o => o.missingChunks.length)
    (hf : s.downloads.get? h = none → t.files.get? h = s.files.get? h) :
    outstanding t h = outstanding s h := by
  cases htracked : s.downloads.get? h with
  | none =>
    rw [outstanding_of_untracked (hi.trans htracked), outstanding_of_untracked htracked,
      hf htracked]
  | some i =>
    have hobject := ho i htracked
    unfold outstanding State.existing
    rw [hi, htracked]
    dsimp only
    rw [Option.map_map, Option.map_map]
    exact congrArg (Option.getD · 0) hobject

/-! ## Steps that leave the record alone -/

/-- While chunks of a tracked download are missing there is a `.resume` file. -/
def Backed (h : String) (s : State) : Prop :=
  ∀ (i : ℕ) (o : DownloadState), s.downloads.get? h = some i → s.objects[i]? = some o →
    o.missingChunks ≠ [] → (s.files.get? h).isSome = true

/-- The record of the file stays as it is, in memory or on disk. -/
structure SameRecord (h : String) (s t : State) : Prop where
  outstanding : outstanding t h = outstanding s h
  backed : Backed h s → Backed h t

lemma SameRecord.refl (h : String) (s : State) : SameRecord h s s := ⟨rfl, id⟩

lemma SameRecord.trans (hst : SameRecord h s t) (htu : SameRecord h t u) : SameRecord h s u :=
  ⟨htu.outstanding.trans hst.outstanding, fun hs => htu.backed (hst.backed hs)⟩

lemma SameRecord.of_eq (hobjects : t.objects = s.objects)
    (hdownloads : t.downloads.get? h = s.downloads.get? h)
    (hfiles : t.files.get? h = s.files.get? h) : SameRecord h s t := by
  refine ⟨outstanding_congr hdownloads (fun i _ => by rw [hobjects]) fun _ => hfiles, ?_⟩
  intro hs i o hi ho hmissing
  rw [hfiles]
  exact hs i o (hdownloads ▸ hi) (hobjects ▸ ho) hmissing

/-- Assignments to other fields than `missing_chunks`. -/
lemma sameRecord_assign (s : State) (h : String) (i : ℕ) {f : DownloadState → DownloadState}
    (hf : ∀ o, (f o).missingChunks = o.missingChunks) : SameRecord h s (s.assign i f) := by
  refine ⟨outstanding_congr rfl (fun j _ => ?_) fun _ => rfl, ?_⟩
  · rw [State.assign, List.getElem?_modify]
    cases s.objects[j]? with
    | none => rfl
    | some o => by_cases hij : i = j <;> simp [hij, hf]
  · intro hs j o hj ho hmissing
    obtain ⟨o', ho', rfl⟩ := getElem?_modify_cases ho
    refine hs j o' hj ho' ?_
    split at hmissing
    · rwa [hf] at hmissing
    · exact hmissing

/-- An assignment to an object that is not tracked for the file. -/
lemma sameRecord_assign_other (s : State) {f : DownloadState → DownloadState}
    (hother : s.downloads.get? h ≠ some i) : SameRecord h s (s.assign i f) := by
  have hne {j : ℕ} (hj : s.downloads.get? h = some j) : i ≠ j := by
    rintro rfl
    exact hother hj
  refine ⟨outstanding_congr rfl (fun j hj => ?_) fun _ => rfl, ?_⟩
  · rw [State.assign, List.getElem?_modify]
    simp [hne hj]
  · intro hs j o hj ho hmissing
    obtain ⟨o', ho', rfl⟩ := getElem?_modify_cases ho
    rw [if_neg (hne hj)] at hmissing
    exact hs j o' hj ho' hmissing

/-- A write of the tracked object, or of another file. -/
lemma sameRecord_saveResume (written : Bool) (hown : ∀ o : DownloadState,
    s.objects[i]? = some o → o.fileHash = h → s.downloads.get? h = some i) :
    SameRecord h s (s.saveResume i written) := by
  have hfiles : (s.saveResume i written).files.get? h = s.files.get? h ∨
      s.downloads.get? h = some i ∧ ((s.saveResume i written).files.get? h).isSome = true := by
    unfold State.saveResume
    dsimp only
    split
    · exact Or.inl rfl
    · next o ho =>
      split
      · by_cases hhash : o.fileHash = h
        · exact Or.inr ⟨hown o ho hhash, by rw [hhash, Dict.get?_set_self]; rfl⟩
        · exact Or.inl (Dict.get?_set_ne _ _ (Ne.symm hhash))
      · exact Or.inl rfl
  refine ⟨outstanding_congr rfl (fun _ _ => rfl) fun hnone => ?_, ?_⟩
  · refine hfiles.resolve_right ?_
    rintro ⟨hi, -⟩
    rw [hnone] at hi
    cases hi
  · intro hs j o hj ho hmissing
    rcases hfiles with hfiles | ⟨-, hsome⟩
    · rw [hfiles]
      exact hs j o hj ho hmissing
    · exact hsome

/-- New objects are not tracked yet. -/
lemma sameRecord_append (hi : Inv ∅ (fun _ => 0) s) (loaded : List DownloadState) :
    SameRecord h s { s with objects := s.objects ++ loaded } := by
  have hobject {i : ℕ} (htracked : s.downloads.get? h = some i) :
      (s.objects ++ loaded)[i]? = s.objects[i]? := by
    obtain ⟨o, ho, -⟩ := hi.tracked h i htracked
    rw [ho, getElem?_append_of_some ho]
  refine ⟨outstanding_congr rfl (fun i htracked => ?_) fun _ => rfl, ?_⟩
  · rw [hobject htracked]
  · intro hs i o htracked ho hmissing
    replace ho : (s.objects ++ loaded)[i]? = some o := ho
    rw [hobject htracked] at ho
    exact hs i o htracked ho hmissing

/-- Another file is tracked, or this one with what is on record. -/
lemma sameRecord_track {h' : String} (ho : s.objects[i]? = some o)
    (hown : h' = h → o.missingChunks.length = outstanding s h ∧
      (o.missingChunks ≠ [] → (s.files.get? h).isSome = true)) :
    SameRecord h s (s.track h' i) := by
  by_cases hh : h' = h
  · subst hh
    obtain ⟨hlength, hfile⟩ := hown rfl
    have hi : (s.track h' i).downloads.get? h' = some i := Dict.get?_set_self ..
    refine ⟨(outstanding_of_tracked hi ho).trans hlength, ?_⟩
    intro hs j o' hj ho' hmissing
    obtain rfl := Option.some.inj (hi.symm.trans hj)
    obtain rfl := Option.some.inj (ho.symm.trans ho')
    exact hfile hmissing
  · exact .of_eq rfl (Dict.get?_set_ne _ _ (Ne.symm hh)) rfl

lemma sameRecord_existing (hi : Inv ∅ (fun _ => 0) s) (h' : String) :
    SameRecord h s (s.existing h').1 := by
  obtain ⟨loaded, hloaded⟩ := existing_objects s h'
  rw [hloaded]
  exact sameRecord_append hi loaded

/-- What `existing` finds is what is on record. -/
lemma existing_record (hbacked : Backed h s) (hfound : (s.existing h).2 = some (i, o)) :
    o.missingChunks.length = outstanding s h ∧
      (o.missingChunks ≠ [] → (s.files.get? h).isSome = true) := by
  refine ⟨by rw [outstanding, hfound]; rfl, fun hmissing => ?_⟩
  unfold State.existing at hfound
  split at hfound
  · next j hj =>
    obtain ⟨o', ho', heq⟩ := Option.map_eq_some_iff.1 hfound
    obtain ⟨rfl, rfl⟩ := Prod.mk.inj heq
    exact hbacked j o' hj ho' hmissing
  · split at hfound
    · cases hfound
    · next f hf =>
      rw [hf]
      rfl

/-! ## What a worker is going to fetch -/

/-- The chunks that a worker in this phase will fetch are missing, and come once. -/
def Untaken (o : DownloadState) : Phase → Prop
  | .fetching info rest missingSet _ => ((info :: rest).map ChunkInfo.index).Nodup ∧
      ∀ c ∈ info :: rest, c.index ∈ missingSet → c.index ∈ o.missingChunks
  | _ => True

/-- The workers of the file have only missing chunks ahead of them. -/
def Ahead (h : String) (s : State) : Prop :=
  ∀ (w : ℕ) (worker : Worker) (o : DownloadState), s.workers[w]? = some worker →
    worker.fileHash = h → s.objects[worker.obj]? = some o → Untaken o worker.phase

/-- In the loop of `_download_worker`, or not. -/
def Phase.isFetching : Phase → Bool
  | .fetching _ _ _ _ => true
  | _ => false

lemma untaken_of_not_fetching {phase : Phase} (hphase : phase.isFetching = false) :
    Untaken o phase := by
  cases phase with
  | fetching info rest missingSet n => cases hphase
  | _ => trivial

lemma Untaken.keep {o' : DownloadState} {phase : Phase} (hphase : Untaken o phase)
    (hmissing : o'.missingChunks = o.missingChunks) : Untaken o' phase := by
  cases phase with
  | fetching info rest missingSet n =>
    refine hphase.imp_right fun hahead => ?_
    rwa [hmissing]
  | _ => trivial

/-- The step takes no chunk of the file, and no worker of it goes on to another one. -/
structure Untouched (h : String) (s t : State) : Prop where
  objects : ∀ (i : ℕ) (o : DownloadState), s.objects[i]? = some o → o.fileHash = h →
    ∃ o' : DownloadState, t.objects[i]? = some o' ∧ o'.fileHash = h ∧
      o'.missingChunks = o.missingChunks
  fetching : ∀ (w : ℕ) (worker : Worker), t.workers[w]? = some worker → worker.fileHash = h →
    worker.phase.isFetching = true → ∃ worker' : Worker, s.workers[w]? = some worker' ∧
      worker'.fileHash = h ∧ worker'.obj = worker.obj ∧ worker'.phase = worker.phase

lemma Untouched.ahead (ht : Untouched h s t) (hi : Inv ∅ (fun _ => 0) s) (hs : Ahead h s) :
    Ahead h t := by
  intro w worker o hw hhash ho
  by_cases hphase : worker.phase.isFetching = true
  · obtain ⟨worker', hw', hhash', hobj, hsame⟩ := ht.fetching w worker hw hhash hphase
    obtain ⟨-, o', ho', hohash, -⟩ := hi.worker w worker' hw'
    obtain ⟨o'', ho'', -, hmissing⟩ := ht.objects _ o' ho' (hohash.trans hhash')
    rw [hobj, ho, Option.some.injEq] at ho''
    subst ho''
    rw [← hsame]
    exact (hs w worker' o' hw' hhash' ho').keep hmissing
  · exact untaken_of_not_fetching (by simpa using hphase)

lemma Untouched.refl (h : String) (s : State) : Untouched h s s where
  objects _ o ho hhash := ⟨o, ho, hhash, rfl⟩
  fetching _ worker hw hhash _ := ⟨worker, hw, hhash, rfl, rfl⟩

lemma Untouched.trans (hst : Untouched h s t) (htu : Untouched h t u) : Untouched h s u where
  objects i o ho hhash := by
    obtain ⟨o', ho', hhash', hmissing'⟩ := hst.objects i o ho hhash
    obtain ⟨o'', ho'', hhash'', hmissing''⟩ := htu.objects i o' ho' hhash'
    exact ⟨o'', ho'', hhash'', hmissing''.trans hmissing'⟩
  fetching w worker hw hhash hphase := by
    obtain ⟨worker', hw', hhash', hobj', hphase'⟩ := htu.fetching w worker hw hhash hphase
    obtain ⟨worker'', hw'', hhash'', hobj'', hphase''⟩ :=
      hst.fetching w worker' hw' hhash' (hphase' ▸ hphase)
    exact ⟨worker'', hw'', hhash'', hobj''.trans hobj', hphase''.trans hphase'⟩

lemma Untouched.of_eq (hobjects : t.objects = s.objects) (hworkers : t.workers = s.workers) :
    Untouched h s t where
  objects _ o ho hhash := ⟨o, hobjects ▸ ho, hhash, rfl⟩
  fetching _ worker hw hhash _ := ⟨worker, hworkers ▸ hw, hhash, rfl, rfl⟩

lemma untouched_assign (h : String) (s : State) (i : ℕ) {f : DownloadState → DownloadState}
    (hhash : ∀ o, (f o).fileHash = o.fileHash)
    (hmissing : ∀ o : DownloadState, s.objects[i]? = some o → o.fileHash = h →
      (f o).missingChunks = o.missingChunks) : Untouched h s (s.assign i f) := by
  refine { Untouched.refl h s with objects := fun j o ho hh => ?_ }
  refine ⟨_, getElem?_modify_of_some f ho, ?_⟩
  by_cases hij : i = j
  · subst hij
    rw [if_pos rfl]
    exact ⟨(hhash o).trans hh, hmissing o ho hh⟩
  · rw [if_neg hij]
    exact ⟨hh, rfl⟩

lemma untouched_append (h : String) (s : State) (loaded : List DownloadState) :
    Untouched h s { s with objects := s.objects ++ loaded } :=
  { Untouched.refl h s with
    objects := fun _ o ho hh => ⟨o, getElem?_append_of_some ho loaded, hh, rfl⟩ }

lemma untouched_launch (h : String) (s : State) (h' : String) (manifest : FileManifest) (i : ℕ) :
    Untouched h s (s.launch h' manifest i) := by
  refine { Untouched.refl h s with fetching := fun w worker hw hh hphase => ?_ }
  rcases getElem?_concat_cases hw with hw | ⟨-, rfl⟩
  · exact ⟨worker, hw, hh, rfl, rfl⟩
  · cases hphase

/-- A signal to a worker, or the step of a worker of another file, or the end of a worker. -/
lemma untouched_updateWorker (h : String) (s : State) (w : ℕ) {f : Worker → Worker}
    (hhash : ∀ worker, (f worker).fileHash = worker.fileHash)
    (hobj : ∀ worker, (f worker).obj = worker.obj)
    (hphase : ∀ worker : Worker, s.workers[w]? = some worker → worker.fileHash = h →
      (f worker).phase.isFetching = true → (f worker).phase = worker.phase) :
    Untouched h s (s.updateWorker w f) := by
  refine { Untouched.refl h s with fetching := fun w' worker hw' hh hfetching => ?_ }
  obtain ⟨worker', hworker', rfl⟩ := getElem?_modify_cases hw'
  refine ⟨worker', hworker', ?_⟩
  by_cases hww : w = w'
  · subst hww
    rw [if_pos rfl] at hh hfetching ⊢
    rw [hhash] at hh
    exact ⟨hh, (hobj worker').symm, (hphase worker' hworker' hh hfetching).symm⟩
  · rw [if_neg hww] at hh ⊢
    exact ⟨hh, rfl, rfl⟩

/-! ## Requests -/

/-- Neither the record of the file nor its workers go on. -/
structure Uneventful (h : String) (s t : State) : Prop
    extends Untouched h s t, SameRecord h s t

lemma Uneventful.refl (h : String) (s : State) : Uneventful h s s :=
  ⟨Untouched.refl h s, SameRecord.refl h s⟩

lemma Uneventful.trans (hst : Uneventful h s t) (htu : Uneventful h t u) : Uneventful h s u :=
  ⟨hst.toUntouched.trans htu.toUntouched, hst.toSameRecord.trans htu.toSameRecord⟩

lemma Uneventful.of_eq (hobjects : t.objects = s.objects) (hworkers : t.workers = s.workers)
    (hdownloads : t.downloads.get? h = s.downloads.get? h)
    (hfiles : t.files.get? h = s.files.get? h) : Uneventful h s t :=
  ⟨.of_eq hobjects hworkers, .of_eq hobjects hdownloads hfiles⟩

lemma uneventful_existing (hi : Inv ∅ (fun _ => 0) s) (h' : String) :
    Uneventful h s (s.existing h').1 := by
  refine ⟨?_, sameRecord_existing hi h'⟩
  obtain ⟨loaded, hloaded⟩ := existing_objects s h'
  rw [hloaded]
  exact untouched_append h s loaded

lemma uneventful_assign (h : String) (s : State) (i : ℕ) {f : DownloadState → DownloadState}
    (hhash : ∀ o, (f o).fileHash = o.fileHash)
    (hmissing : ∀ o, (f o).missingChunks = o.missingChunks) : Uneventful h s (s.assign i f) :=
  ⟨untouched_assign h s i hhash fun o _ _ => hmissing o, sameRecord_assign s h i hmissing⟩

lemma uneventful_saveResume (written : Bool) (hown : ∀ o : DownloadState,
    s.objects[i]? = some o → o.fileHash = h → s.downloads.get? h = some i) :
    Uneventful h s (s.saveResume i written) :=
  ⟨.of_eq rfl rfl, sameRecord_saveResume written hown⟩

lemma uneventful_launch (h : String) (s : State) (h' : String) (manifest : FileManifest) (i : ℕ) :
    Uneventful h s (s.launch h' manifest i) :=
  ⟨untouched_launch h s h' manifest i, .of_eq rfl rfl rfl⟩

lemma uneventful_track_other {h' : String} (s : State) (i : ℕ) (hne : h' ≠ h) :
    Uneventful h s (s.track h' i) :=
  .of_eq rfl rfl (Dict.get?_set_ne _ _ hne.symm) rfl

/-- A request goes on with what it has found. -/
lemma uneventful_resumed {h' : String} (password : String) (hi : Inv ∅ (fun _ => 0) s)
    (hbacked : Backed h s) (hfound : s.existing h' = (u, some (i, o))) :
    Uneventful h s ((u.assign i fun o => { o with
      status := .downloading, password := password }).track h' i) := by
  have hexisting : Uneventful h s u := by
    have hspec := uneventful_existing (h := h) hi h'
    rwa [hfound] at hspec
  have hassigned := hexisting.trans (uneventful_assign h u i
    (f := fun o => { o with status := .downloading, password := password })
    (fun _ => rfl) fun _ => rfl)
  refine hassigned.trans ⟨.of_eq rfl rfl, ?_⟩
  have hobject : u.objects[i]? = some o := by
    have hspec := (existing_spec hi h').2 i o (congrArg Prod.snd hfound)
    rw [hfound] at hspec
    exact hspec.1
  have hfiles : u.files = s.files := by
    obtain ⟨loaded, hloaded⟩ := existing_objects s h'
    rw [hfound] at hloaded
    obtain rfl : u = { s with objects := s.objects ++ loaded } := hloaded
    rfl
  refine sameRecord_track (getElem?_modify_of_some _ hobject) fun hh => ?_
  subst hh
  obtain ⟨hlength, hfile⟩ := existing_record hbacked (congrArg Prod.snd hfound)
  rw [if_pos rfl, hassigned.outstanding]
  exact ⟨hlength, by rw [← hfiles] at hfile; exact hfile⟩

lemma uneventful_resume {h' password : String} {d : Option ManifestDict}
    (hi : Inv ∅ (fun _ => 0) s) (hbacked : Backed h s) :
    Uneventful h s (resumeDownload s h' password d).1 := by
  have hexisting := uneventful_existing (h := h) hi h'
  unfold resumeDownload
  split
  · exact Uneventful.refl h s
  split
  · next hnone => exact (congrArg Prod.fst hnone) ▸ hexisting
  · next s' i o hsome =>
    have hs' : Uneventful h s s' := by rwa [hsome] at hexisting
    split
    · exact hs'
    · split
      · exact hs'
      · split
        · exact hs'
        · exact (uneventful_resumed _ hi hbacked hsome).trans (uneventful_launch ..)

/-- The state after a start that begins from nothing. -/
def startFresh (s : State) (h : String) (manifest : FileManifest) (password : String)
    (written : Bool) : State :=
  let (s, i) := freshDownload s h manifest password
  ((s.track h i).saveResume i written).launch h manifest i

/-- A fresh download of another file. -/
lemma uneventful_startFresh {h' password : String} {manifest : FileManifest} (written : Bool)
    (hi : Inv ∅ (fun _ => 0) s) (hne : h' ≠ h) :
    Uneventful h s (startFresh s h' manifest password written) := by
  unfold startFresh freshDownload
  dsimp only
  have happend : Uneventful h s
      { s with objects := s.objects ++ [DownloadState.fresh h' manifest password] } :=
    ⟨untouched_append h s _, sameRecord_append hi _⟩
  refine ((happend.trans (uneventful_track_other _ _ hne)).trans
    (uneventful_saveResume written fun o ho hhash => absurd ?_ hne)).trans (uneventful_launch ..)
  obtain rfl : DownloadState.fresh h' manifest password = o :=
    Option.some.inj ((List.getElem?_concat_length ..).symm.trans ho)
  exact hhash

/-- `start_download` of another file, or of one that is active or has missing chunks. -/
lemma uneventful_start {h' password : String} {d : ManifestDict} {written : Bool}
    (hi : Inv ∅ (fun _ => 0) s) (hbacked : Backed h s)
    (hfresh : ¬ (h' = h ∧ beginsFresh s h d = true)) :
    Uneventful h s (startDownload s h' d password written).1 := by
  have hexisting := uneventful_existing (h := h) hi h'
  have hinv := (existing_spec hi h').1
  unfold startDownload
  split
  · exact Uneventful.refl h s
  · next manifest hmanifest =>
    split
    · exact Uneventful.refl h s
    next hlookup =>
    cases hex : s.existing h' with
    | mk u found =>
      rw [hex] at hexisting hinv
      dsimp only
      split
      · exact hexisting
      · next hnone =>
        have hother (hall : found.all fun e =>
            e.2.status ≠ .downloading ∧ e.2.missingChunks = []) : h' ≠ h := by
          rintro rfl
          refine hfresh ⟨rfl, ?_⟩
          rw [beginsFresh, hmanifest, hex, decide_eq_false hlookup]
          exact hall
        unfold prepare
        split
        · exact hexisting.trans (uneventful_startFresh written hinv (hother rfl))
        · next i o =>
          split
          · have hresumed := uneventful_resumed (h := h) password hi hbacked hex
            refine (hresumed.trans (uneventful_saveResume written ?_)).trans
              (uneventful_launch ..)
            intro o' ho' hhash
            obtain ⟨o'', ho'', rfl⟩ := getElem?_modify_cases ho'
            rw [if_pos rfl] at hhash
            have hspec := (existing_spec hi h').2 i o (congrArg Prod.snd hex)
            rw [hex] at hspec
            obtain rfl := Option.some.inj (hspec.1.symm.trans ho'')
            obtain rfl : h' = h := hspec.2.symm.trans hhash
            exact Dict.get?_set_self ..
          · next hmissing =>
            refine hexisting.trans (uneventful_startFresh written hinv (hother ?_))
            have hstatus : o.status ≠ .downloading := by simpa using hnone
            simpa [hstatus] using hmissing

/-- A fresh download of the file. -/
lemma startFresh_spec (s : State) (h : String) (manifest : FileManifest) (password : String) :
    Untouched h s (startFresh s h manifest password true) ∧
      Backed h (startFresh s h manifest password true) ∧
      outstanding (startFresh s h manifest password true) h = manifest.chunks.length := by
  have hobject : (startFresh s h manifest password true).objects[s.objects.length]? =
      some (DownloadState.fresh h manifest password) := List.getElem?_concat_length ..
  have htracked : (startFresh s h manifest password true).downloads.get? h =
      some s.objects.length := Dict.get?_set_self ..
  refine ⟨?_, fun i o hi ho hmissing => ?_, ?_⟩
  · set added : State :=
      { s with objects := s.objects ++ [DownloadState.fresh h manifest password] } with hadded
    have hsaved : Untouched h added ((added.track h s.objects.length).saveResume
        s.objects.length true) := .of_eq rfl rfl
    exact ((untouched_append h s _).trans hsaved).trans (untouched_launch ..)
  · simp [startFresh, freshDownload, State.saveResume, State.track, State.launch,
      DownloadState.fresh]
  · rw [outstanding_of_tracked htracked hobject]
    simp [DownloadState.fresh]

lemma startDownload_of_beginsFresh {d : ManifestDict} (hfresh : beginsFresh s h d = true)
    (password : String) (written : Bool) : outstanding s h = 0 ∧
      ∃ manifest, FileManifest.fromDict d = .ok manifest ∧
        (startDownload s h d password written).1 =
          startFresh (s.existing h).1 h manifest password written := by
  rw [beginsFresh, Bool.and_eq_true, Bool.and_eq_true, Bool.not_eq_true',
    decide_eq_false_iff_not] at hfresh
  obtain ⟨⟨hok, hlookup⟩, hall⟩ := hfresh
  cases hmanifest : FileManifest.fromDict d with
  | error e => simp [hmanifest, Except.isOk, Except.toBool] at hok
  | ok manifest =>
    unfold outstanding startDownload
    rw [hmanifest]
    dsimp only
    rw [if_neg hlookup]
    cases hex : (s.existing h).2 with
    | none => exact ⟨rfl, manifest, rfl, by simp [prepare, startFresh]⟩
    | some e =>
      rw [hex] at hall
      obtain ⟨i, o⟩ := e
      simp only [Option.all_some, decide_eq_true_eq] at hall
      refine ⟨by simp [hall.2], manifest, rfl, ?_⟩
      simp [prepare, startFresh, Option.filter, hall.1, hall.2]

/-! ## Pauses -/

lemma uneventful_updateWorker (h : String) (s : State) (w : ℕ) {f : Worker → Worker}
    (hhash : ∀ worker, (f worker).fileHash = worker.fileHash)
    (hobj : ∀ worker, (f worker).obj = worker.obj)
    (hphase : ∀ worker : Worker, s.workers[w]? = some worker → worker.fileHash = h →
      (f worker).phase.isFetching = true → (f worker).phase = worker.phase) :
    Uneventful h s (s.updateWorker w f) :=
  ⟨untouched_updateWorker h s w hhash hobj hphase, .of_eq rfl rfl rfl⟩

/-- A status is set, and the file written. -/
lemma uneventful_assign_saveResume {f : DownloadState → DownloadState} (written : Bool)
    (hhash : ∀ o, (f o).fileHash = o.fileHash)
    (hmissing : ∀ o, (f o).missingChunks = o.missingChunks)
    (hown : ∀ o : DownloadState, s.objects[i]? = some o → o.fileHash = h →
      s.downloads.get? h = some i) :
    Uneventful h s ((s.assign i f).saveResume i written) := by
  refine (uneventful_assign h s i hhash hmissing).trans
    (uneventful_saveResume written fun o ho hh => ?_)
  obtain ⟨o', ho', rfl⟩ := getElem?_modify_cases ho
  rw [if_pos rfl, hhash] at hh
  exact hown o' ho' hh

lemma uneventful_finishPause {h' : String} (hi : Inv ∅ (fun _ => 0) s)
    (htracked : s.downloads.get? h' = some i) (written : Bool) :
    Uneventful h s (finishPause s h' i written) := by
  refine (uneventful_assign_saveResume (f := fun o => { o with status := .paused }) written
    (fun _ => rfl) (fun _ => rfl) fun o ho hhash => ?_).trans (.of_eq rfl rfl rfl rfl)
  obtain ⟨o', ho', hhash'⟩ := hi.tracked h' i htracked
  obtain rfl := Option.some.inj (ho.symm.trans ho')
  obtain rfl : h' = h := hhash'.symm.trans hhash
  exact htracked

lemma uneventful_pause {h' : String} (hi : Inv ∅ (fun _ => 0) s) (written : Bool) :
    Uneventful h s (pauseDownload s h' written) := by
  unfold pauseDownload
  split
  · exact Uneventful.refl h s
  · next i htracked =>
    split
    · have hsignal : Uneventful h s (signalCancel s h') := by
        unfold signalCancel
        split
        · exact Uneventful.refl h s
        · exact uneventful_updateWorker h s _ (fun _ => rfl) (fun _ => rfl) fun _ _ _ _ => rfl
      have htracked' : (signalCancel s h').downloads.get? h' = some i := by
        rw [downloads_signalCancel]
        exact htracked
      have hfinish := uneventful_finishPause (h := h) (inv_signalCancel hi h') htracked' written
      unfold awaitTask
      split
      · exact hsignal.trans hfinish
      · split
        · exact hsignal.trans hfinish
        · exact hsignal.trans (.of_eq rfl rfl rfl rfl)
    · exact Uneventful.refl h s

end Statements

end DistriStore.DownloadManager
