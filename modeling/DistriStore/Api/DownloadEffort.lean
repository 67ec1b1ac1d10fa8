import DistriStore.Api.DownloadRecords

/-!
# What a download costs in fetches

Pausing and resuming a download, failing and restarting it, clearing it from the tracker: nothing of
this makes the workers fetch a chunk again that they have fetched.  A crash does, but it costs less
than `FLUSH_INTERVAL` fetches.  In the books of a file (`Accounted`) the chunks that have been
fetched and those that are outstanding make up the chunks of the downloads that were begun from
nothing, and what crashes have cost (`fetches_accounted`).

A fetched chunk is always one that is missing, because the file has one worker.
-/

namespace DistriStore.DownloadManager

open Lib

/-! ## The books -/

/-- What a file has been put through. -/
structure Effort where
  /-- Downloads that were begun from nothing. -/
  fresh : ℕ := 0
  /-- Chunks that were fetched. -/
  fetched : ℕ := 0
  crashes : ℕ := 0

def Effort.observe (h : String) (g : Effort) (s : State) (l : Label) (_ : State) : Effort :=
  match l with
  | .start h' d _ _ =>
    if h' = h ∧ beginsFresh s h d then { g with fresh := g.fresh + 1 } else g
  | .fetched w none _ =>
    if (s.workers[w]?).any fun worker => worker.fileHash = h then
      { g with fetched := g.fetched + 1 }
    else g
  | .crash => { g with crashes := g.crashes + 1 }
  | .crashInMerge _ _ => { g with crashes := g.crashes + 1 }
  | _ => g

/-- The manager with the effort for one file. -/
def audited (h : String) : Machine (State × Effort) Label :=
  machine.observed {} (Effort.observe h)

/-- The chunks that were fetched or are outstanding are those of the fresh downloads, and less than
`FLUSH_INTERVAL` for each crash. -/
structure Accounted (h : String) (count : ℕ) (x : State × Effort) : Prop where
  enough : count * x.2.fresh ≤ x.2.fetched + outstanding x.1 h
  notMore : x.2.fetched + outstanding x.1 h ≤
    count * x.2.fresh + (flushInterval - 1) * x.2.crashes

section Statements

variable {s t u : State} {h : String} {i w : ℕ} {o : DownloadState}

/-! ## Workers -/

section Worker

variable {worker : Worker}

/-- What a worker of the file writes is tracked. -/
lemma Paced.own (hs : Paced h s) (hw : s.workers[w]? = some worker)
    (hlive : worker.phase ≠ .finished) : ∀ o : DownloadState, s.objects[worker.obj]? = some o →
      o.fileHash = h → s.downloads.get? h = some worker.obj := by
  intro o ho hhash
  obtain ⟨o', ho', hhash'⟩ := hs.object hw
  obtain rfl := Option.some.inj (ho.symm.trans ho')
  exact hs.tracked hw (hhash'.symm.trans hhash) hlive

lemma uneventful_finish (h : String) (s : State) (w : ℕ) :
    Uneventful h s (s.setPhase w .finished) :=
  uneventful_updateWorker h s w (fun _ => rfl) (fun _ => rfl) fun _ _ _ => nofun

lemma sameRecord_workerLoop (hown : ∀ o : DownloadState, s.objects[worker.obj]? = some o →
      o.fileHash = h → s.downloads.get? h = some worker.obj) (rest : List ChunkInfo)
    (missingSet : List ℤ) (n : ℕ) (written : Bool) :
    SameRecord h s (workerLoop s w worker rest missingSet n written) := by
  unfold workerLoop
  split
  · split
    · exact .of_eq rfl rfl rfl
    · exact .of_eq rfl rfl rfl
  · exact (sameRecord_saveResume written hown).trans (.of_eq rfl rfl rfl)

lemma untouched_setPhase_other (hw : s.workers[w]? = some worker) (hother : worker.fileHash ≠ h)
    (phase : Phase) : Untouched h s (s.setPhase w phase) := by
  refine untouched_updateWorker h s w (fun _ => rfl) (fun _ => rfl) fun worker' hw' hh _ => ?_
  obtain rfl := Option.some.inj (hw.symm.trans hw')
  exact absurd hh hother

lemma untouched_workerLoop_other (hw : s.workers[w]? = some worker)
    (hother : worker.fileHash ≠ h) (rest : List ChunkInfo) (missingSet : List ℤ) (n : ℕ)
    (written : Bool) : Untouched h s (workerLoop s w worker rest missingSet n written) := by
  unfold workerLoop
  split
  · split
    · exact untouched_setPhase_other hw hother _
    · exact untouched_setPhase_other hw hother _
  · have hsaved : Untouched h s (s.saveResume worker.obj written) := .of_eq rfl rfl
    exact hsaved.trans
      (untouched_setPhase_other (s := s.saveResume worker.obj written) hw hother _)

/-- The only live worker of the file goes on to chunks that are missing. -/
lemma ahead_setPhase {phase : Phase} (hunique : AtMostOne s h)
    (hw : s.workers[w]? = some worker) (hhash : worker.fileHash = h)
    (hlive : worker.phase ≠ .finished) (ho : s.objects[worker.obj]? = some o)
    (hphase : Untaken o phase) : Ahead h (s.setPhase w phase) := by
  intro w' worker' o' hw' hh ho'
  obtain ⟨worker₀, hw₀, rfl⟩ := getElem?_modify_cases hw'
  by_cases hww : w = w'
  · subst hww
    obtain rfl := Option.some.inj (hw.symm.trans hw₀)
    rw [if_pos rfl] at ho' ⊢
    obtain rfl := Option.some.inj (ho.symm.trans ho')
    exact hphase
  · rw [if_neg hww] at hh ho' ⊢
    by_cases hfinished : worker₀.phase = .finished
    · rw [hfinished]
      trivial
    · exact absurd (hunique w w' _ _ ⟨worker, hw, hhash, rfl, hlive⟩
        ⟨worker₀, hw₀, hh, rfl, hfinished⟩) hww

lemma ahead_workerLoop (hunique : AtMostOne s h) (hw : s.workers[w]? = some worker)
    (hhash : worker.fileHash = h) (hlive : worker.phase ≠ .finished)
    (ho : s.objects[worker.obj]? = some o) {rest : List ChunkInfo} {missingSet : List ℤ}
    (hnodup : (rest.map ChunkInfo.index).Nodup)
    (hrest : ∀ c ∈ rest, c.index ∈ missingSet → c.index ∈ o.missingChunks) (n : ℕ)
    (written : Bool) : Ahead h (workerLoop s w worker rest missingSet n written) := by
  have hsuffix := List.dropWhile_suffix (l := rest) fun info => info.index ∉ missingSet
  unfold workerLoop
  split
  · next info rest' heq =>
    rw [heq] at hsuffix
    split
    · exact ahead_setPhase hunique hw hhash hlive ho trivial
    · exact ahead_setPhase hunique hw hhash hlive ho
        ⟨(hsuffix.sublist.map _).nodup hnodup, fun c hc => hrest c (hsuffix.mem hc)⟩
  · exact ahead_setPhase (s := s.saveResume worker.obj written) hunique hw hhash hlive ho trivial

/-! ### The steps of a worker -/

variable {count : String → ℕ}

lemma Paced.begin_spec (hs : Paced h s) (hi : Inv {h} count s) (written : Bool)
    (hahead : Ahead h s) (hw : s.workers[w]? = some worker) (hcreated : worker.phase = .created) :
    Ahead h (workerStart s w worker written) ∧ SameRecord h s (workerStart s w worker written) := by
  obtain ⟨o, ho, -⟩ := hs.object hw
  have hlive : worker.phase ≠ .finished := by simp [hcreated]
  rw [workerStart, ho]
  refine ⟨?_, sameRecord_workerLoop (hs.own hw hlive) ..⟩
  by_cases hhash : worker.fileHash = h
  · refine ahead_workerLoop hs.sole.unique hw hhash hlive ho ?_ (fun _ _ hmissing => hmissing) 0
      written
    have hindexed := (hi.worker w worker hw).1 hhash
    have hrange : ((List.range (count worker.fileHash)).map Int.ofNat).Nodup :=
      List.nodup_range.map fun a b hab => Int.ofNat.inj hab
    exact (((sortBy_perm _ _).map ChunkInfo.index).trans hindexed).nodup_iff.2 hrange
  · exact (untouched_workerLoop_other hw hhash ..).ahead hs.inv hahead

lemma Paced.beginRaises_spec (hs : Paced h s) (hw : s.workers[w]? = some worker)
    (hlive : worker.phase ≠ .finished) (sorted : Bool) (message : String) (written : Bool) :
    Uneventful h s (workerRaises s w worker sorted message written) := by
  unfold workerRaises
  split
  · exact (uneventful_assign_saveResume (f := fun o => { o with
      status := .error, errorMessage := message }) written (fun _ => rfl) (fun _ => rfl)
      (hs.own hw hlive)).trans (uneventful_finish ..)
  · exact uneventful_updateWorker h s w (fun _ => rfl) (fun _ => rfl) fun _ _ _ => nofun

lemma Paced.fetchFailed_spec (hs : Paced h s) (hw : s.workers[w]? = some worker)
    (hlive : worker.phase ≠ .finished) (info : ChunkInfo) (rest : List ChunkInfo)
    (missingSet : List ℤ) (n : ℕ) (message : String) (written : Bool) : Uneventful h s
      (chunkFetched s w worker info rest missingSet n (some message) written) :=
  ((uneventful_saveResume written (hs.own hw hlive)).trans (uneventful_assign h _ worker.obj
    (f := fun o => { o with status := .error, errorMessage := message })
    (fun _ => rfl) fun _ => rfl)).trans (uneventful_finish ..)

/-- A chunk of another file. -/
lemma Paced.fetchedOther_spec (hs : Paced h s) (hw : s.workers[w]? = some worker)
    (hlive : worker.phase ≠ .finished) (hother : worker.fileHash ≠ h) (info : ChunkInfo)
    (rest : List ChunkInfo) (missingSet : List ℤ) (n : ℕ) (written : Bool) :
    Uneventful h s (chunkFetched s w worker info rest missingSet n none written) := by
  obtain ⟨o, ho, hohash⟩ := hs.object hw
  have hmarked : Uneventful h s (s.markCompleted worker.obj info.index) := by
    refine ⟨untouched_assign h s _ (fun _ => rfl) fun o' ho' hh => ?_,
      sameRecord_assign_other s fun htracked => ?_⟩
    · obtain rfl := Option.some.inj (ho.symm.trans ho')
      exact absurd (hohash.symm.trans hh) hother
    · obtain ⟨o', ho', hhash'⟩ := hs.inv.tracked h _ htracked
      obtain rfl := Option.some.inj (ho.symm.trans ho')
      exact hother (hohash.symm.trans hhash')
  have hown : ∀ o' : DownloadState, (s.markCompleted worker.obj info.index).objects[worker.obj]? =
      some o' → o'.fileHash = h → s.downloads.get? h = some worker.obj := by
    intro o' ho' hh
    obtain ⟨o'', ho'', rfl⟩ := getElem?_modify_cases ho'
    rw [if_pos rfl] at hh
    exact hs.own hw hlive o'' ho'' hh
  have hsaved := hmarked.trans (uneventful_saveResume written hown)
  unfold chunkFetched
  dsimp only
  split
  · exact hsaved.trans ⟨untouched_workerLoop_other (s := (s.markCompleted worker.obj
      info.index).saveResume worker.obj written) hw hother .., sameRecord_workerLoop
        (s := (s.markCompleted worker.obj info.index).saveResume worker.obj written) hown ..⟩
  · exact hmarked.trans ⟨untouched_workerLoop_other (s := s.markCompleted worker.obj info.index)
      hw hother .., sameRecord_workerLoop hown ..⟩

/-- The fetched chunk was missing, and is not fetched again. -/
lemma Paced.fetched_spec (hs : Paced h s) (hahead : Ahead h s) (hbacked : Backed h s)
    (hw : s.workers[w]? = some worker) (hhash : worker.fileHash = h) {info : ChunkInfo}
    {rest : List ChunkInfo} {missingSet : List ℤ} {n : ℕ}
    (hphase : worker.phase = .fetching info rest missingSet n) (hinfo : info.index ∈ missingSet)
    (written : Bool) :
    Ahead h (chunkFetched s w worker info rest missingSet n none written) ∧
      Backed h (chunkFetched s w worker info rest missingSet n none written) ∧
      outstanding (chunkFetched s w worker info rest missingSet n none written) h + 1 =
        outstanding s h := by
  obtain ⟨o, ho, hohash⟩ := hs.object hw
  have hlive : worker.phase ≠ .finished := by simp [hphase]
  have htracked := hs.tracked hw hhash hlive
  obtain ⟨hnodup, hmissing⟩ : ((info :: rest).map ChunkInfo.index).Nodup ∧
      ∀ c ∈ info :: rest, c.index ∈ missingSet → c.index ∈ o.missingChunks := by
    have huntaken := hahead w worker o hw hhash ho
    rwa [hphase] at huntaken
  rw [List.map_cons, List.nodup_cons] at hnodup
  have hmem : info.index ∈ o.missingChunks := hmissing info (List.mem_cons_self ..) hinfo
  obtain ⟨o', ho', hohash', hrest⟩ : ∃ o' : DownloadState,
      (s.markCompleted worker.obj info.index).objects[worker.obj]? = some o' ∧
        o'.fileHash = o.fileHash ∧ o'.missingChunks = o.missingChunks.erase info.index :=
    ⟨_, getElem?_modify_of_some _ ho, by rw [if_pos rfl], by rw [if_pos rfl]; exact if_pos hmem⟩
  have hlater : ∀ c ∈ rest, c.index ∈ missingSet → c.index ∈ o'.missingChunks := by
    intro c hc hset
    rw [hrest]
    refine (List.mem_erase_of_ne ?_).2 (hmissing c (List.mem_cons_of_mem _ hc) hset)
    intro heq
    exact hnodup.1 (heq ▸ List.mem_map_of_mem hc)
  have hmarked : Backed h (s.markCompleted worker.obj info.index) ∧
      outstanding (s.markCompleted worker.obj info.index) h + 1 = outstanding s h := by
    refine ⟨fun i o'' hi ho'' _ => ?_, ?_⟩
    · exact hbacked worker.obj o htracked ho (List.ne_nil_of_mem hmem)
    · rw [outstanding_of_tracked (s := s.markCompleted worker.obj info.index) htracked ho',
        outstanding_of_tracked htracked ho, hrest, List.length_erase_of_mem hmem]
      exact Nat.sub_add_cancel (List.length_pos_of_mem hmem)
  have hown : ∀ o'' : DownloadState, (s.markCompleted worker.obj info.index).objects[worker.obj]? =
      some o'' → o''.fileHash = h → s.downloads.get? h = some worker.obj :=
    fun _ _ _ => htracked
  have hsaved := sameRecord_saveResume written hown
  unfold chunkFetched
  dsimp only
  split
  · have hloop := hsaved.trans (sameRecord_workerLoop (w := w)
      (s := (s.markCompleted worker.obj info.index).saveResume worker.obj written) hown rest
      missingSet 0 written)
    rw [hloop.outstanding]
    exact ⟨ahead_workerLoop (s := (s.markCompleted worker.obj info.index).saveResume worker.obj
      written) hs.sole.unique hw hhash hlive ho' hnodup.2 hlater 0 written,
      hloop.backed hmarked.1, hmarked.2⟩
  · have hloop := sameRecord_workerLoop (w := w) (s := s.markCompleted worker.obj info.index)
      hown rest missingSet (n + 1) written
    rw [hloop.outstanding]
    exact ⟨ahead_workerLoop (s := s.markCompleted worker.obj info.index) hs.sole.unique hw hhash
      hlive ho' hnodup.2 hlater (n + 1) written, hloop.backed hmarked.1, hmarked.2⟩

lemma Paced.merged_spec (hs : Paced h s) (hi : Inv {h} count s)
    (hw : s.workers[w]? = some worker) (hphase : worker.phase = .merging) (error : Option String)
    (written : Bool) : Uneventful h s (mergeDone s w worker error written) := by
  have hlive : worker.phase ≠ .finished := by simp [hphase]
  cases error with
  | some message =>
    exact (uneventful_assign_saveResume (f := fun o => { o with
      status := .error, errorMessage := "Merge failed: " ++ message }) written
      (fun _ => rfl) (fun _ => rfl) (hs.own hw hlive)).trans (uneventful_finish ..)
  | none =>
    set u := (s.setStatus worker.obj .completed).saveResume worker.obj written with hu
    have hsaved : Uneventful h s u :=
      uneventful_assign_saveResume (f := fun o => { o with status := .completed }) written
        (fun _ => rfl) (fun _ => rfl) (hs.own hw hlive)
    have hdeleted : Uneventful h u (u.deleteResume worker.fileHash) := by
      by_cases hhash : worker.fileHash = h
      · have htracked : u.downloads.get? h = some worker.obj := hs.tracked hw hhash hlive
        refine ⟨.of_eq rfl rfl, outstanding_congr rfl (fun _ _ => rfl) fun hnone => ?_, ?_⟩
        · rw [htracked] at hnone
          cases hnone
        · intro hbacked j o hj ho hmissing
          obtain rfl := Option.some.inj (htracked.symm.trans hj)
          -- the merge begins when nothing is missing
          obtain ⟨-, o', ho', hohash, hdone⟩ := hi.worker w worker hw
          rw [hphase] at hdone
          obtain ⟨o'', ho'', rfl⟩ := getElem?_modify_cases ho
          obtain rfl := Option.some.inj (ho'.symm.trans ho'')
          rw [if_pos rfl] at hmissing
          exact absurd (hdone (hohash.trans hhash)) hmissing
      · exact .of_eq rfl rfl rfl (Dict.get?_erase_ne _ (Ne.symm hhash))
    exact (hsaved.trans hdeleted).trans (uneventful_finish ..)

lemma Paced.cancelled_spec (hs : Paced h s) (hw : s.workers[w]? = some worker)
    (hlive : worker.phase ≠ .finished) (written : Bool) :
    Uneventful h s (workerCancelled s w worker written) := by
  unfold workerCancelled
  split
  · exact uneventful_finish ..
  · exact (uneventful_assign_saveResume (f := fun o => { o with status := .paused }) written
      (fun _ => rfl) (fun _ => rfl) (hs.own hw hlive)).trans (uneventful_finish ..)

end Worker

/-! ## Clearing and crashing -/

section Records

variable {count : String → ℕ}

lemma length_missing_add (ho : o.Exact) :
    o.missingChunks.length + o.completedChunks.length = o.totalChunks := by
  have hperm : (o.missingChunks ++ o.completedChunks).Perm
      ((List.range o.totalChunks).map Int.ofNat) := by
    refine (List.perm_ext_iff_of_nodup ?_ ?_).2 fun i => ?_
    · exact ho.nodup_missing.append ho.nodup_completed fun i hi hi' => ho.disjoint i hi hi'
    · exact List.nodup_range.map fun a b hab => Int.ofNat.inj hab
    · rw [List.mem_append, ho.cover, List.mem_map]
      constructor
      · rintro ⟨h0, hlt⟩
        exact ⟨i.toNat, List.mem_range.2 (by omega), Int.toNat_of_nonneg h0⟩
      · rintro ⟨n, hn, rfl⟩
        exact ⟨Int.natCast_nonneg n, Int.ofNat_lt.2 (List.mem_range.1 hn)⟩
  simpa using hperm.length_eq

/-- A file that is behind lists as many more chunks as missing. -/
lemma missing_of_behind {n : ℕ} {f : ResumeDict} (hi : Inv {h} count s)
    (hbehind : Behind s h n) (htracked : s.downloads.get? h = some i)
    (ho : s.objects[i]? = some o) (hf : s.files.get? h = some f) :
    o.missingChunks.length ≤ f.missingChunks.length ∧
      f.missingChunks.length ≤ o.missingChunks.length + n := by
  obtain ⟨extra, hextra, hlen⟩ := hbehind i o f htracked ho hf
  obtain ⟨hhash, hfile⟩ := hi.file h f hf
  obtain ⟨o', ho', hohash⟩ := hi.tracked h i htracked
  obtain rfl := Option.some.inj (ho.symm.trans ho')
  have hobject := hi.object i o ho
  have htotal : o.totalChunks = f.totalChunks := by
    rw [hobject.total hohash, hohash, ← hhash]
    exact (hfile.total hhash).symm
  have hsum := length_missing_add hobject.exact
  have hsum' : f.missingChunks.length + f.completedChunks.length = f.totalChunks :=
    length_missing_add hfile.exact
  have hcompleted := congrArg List.length hextra
  rw [List.length_append] at hcompleted
  omega

/-- What is on record of a file that is not tracked any more. -/
lemma outstanding_of_dropped {n : ℕ} (hi : Inv {h} count s) (hbacked : Backed h s)
    (hbehind : Behind s h n) : outstanding s h ≤
        ((s.files.get? h).map fun f => f.missingChunks.length).getD 0 ∧
      ((s.files.get? h).map fun f => f.missingChunks.length).getD 0 ≤ outstanding s h + n := by
  cases htracked : s.downloads.get? h with
  | none =>
    rw [outstanding_of_untracked htracked]
    exact ⟨Nat.le_refl _, Nat.le_add_right ..⟩
  | some i =>
    obtain ⟨o, ho, -⟩ := hi.tracked h i htracked
    rw [outstanding_of_tracked htracked ho]
    cases hf : s.files.get? h with
    | none =>
      have hmissing : o.missingChunks = [] := by
        by_contra hmissing
        have hsome := hbacked i o htracked ho hmissing
        rw [hf] at hsome
        cases hsome
      simp [hmissing]
    | some f => exact missing_of_behind hi hbehind htracked ho hf

lemma clear_spec (hs : Paced h s) (hi : Inv {h} count s) (hbacked : Backed h s)
    (hclosed : ∀ pause ∈ s.pauses, pause.ended = true) : Uneventful h s (clearCompleted s) := by
  obtain ⟨hobjects, hworkers, hfiles, hdict⟩ := clearCompleted_spec s h
  refine ⟨.of_eq hobjects hworkers, ?_⟩
  rcases hdict with ⟨hdownloads, -⟩ | ⟨hdropped, i, o, htracked, ho, hover⟩
  · exact .of_eq hobjects hdownloads (by rw [hfiles])
  · have hidle : ¬ Busy s h := by
      rintro ⟨w, j, hlive⟩
      obtain ⟨hj, ⟨o', ho', -, hcompleted, herror, -⟩, -⟩ := hs.sole.owned w j hlive
      obtain rfl := Option.some.inj (htracked.symm.trans hj)
      obtain rfl := Option.some.inj (ho.symm.trans ho')
      exact hover.elim hcompleted herror
    have hbehind := (hs.flushed 0 (.resting hidle (not_pauseOpen hclosed))).1
    obtain ⟨hle, hge⟩ := outstanding_of_dropped hi hbacked hbehind
    refine ⟨?_, fun _ j o' hj => ?_⟩
    · rw [outstanding_of_untracked hdropped, hfiles]
      exact Nat.le_antisymm hge hle
    · rw [hdropped] at hj
      cases hj

lemma restart_untracked {files : Dict String ResumeDict}
    (hfile : ∀ k f, files.get? k = some f → f.fileHash = k) (hf : files.get? h = none) :
    (restart files).downloads.get? h = none := by
  have hfold (fs : List ResumeDict) (s : State) (hfs : ∀ f ∈ fs, f.fileHash ≠ h)
      (hs : s.downloads.get? h = none) : (fs.foldl recoverFile s).downloads.get? h = none := by
    induction fs generalizing s with
    | nil => exact hs
    | cons f fs ih =>
      refine ih (recoverFile s f) (fun g hg => hfs g (List.mem_cons_of_mem _ hg)) ?_
      rw [recoverFile, Dict.get?_set_ne _ _ (hfs f (List.mem_cons_self ..)).symm]
      exact hs
  refine hfold files.values _ (fun f hmem hhash => ?_) (Dict.get?_empty h)
  obtain ⟨k, hk⟩ := Dict.mem_values_iff.1 hmem
  rw [← hfile k f hk, hhash, hf] at hk
  cases hk

/-- A crash costs less than `FLUSH_INTERVAL` chunks. -/
lemma restart_spec_record (hi : Inv {h} count s) (hbacked : Backed h s)
    (hbehind : Behind s h (flushInterval - 1)) : Backed h (restart s.files) ∧
      outstanding s h ≤ outstanding (restart s.files) h ∧
      outstanding (restart s.files) h ≤ outstanding s h + (flushInterval - 1) := by
  have hname : ∀ k f, s.files.get? k = some f → f.fileHash = k := fun k f hf => (hi.file k f hf).1
  obtain ⟨hle, hge⟩ := outstanding_of_dropped hi hbacked hbehind
  have hfiles := (restart_spec s.files h).2.2
  cases hf : s.files.get? h with
  | none =>
    have huntracked := restart_untracked hname hf
    rw [outstanding_of_untracked huntracked, hfiles]
    refine ⟨fun j o hj => ?_, hle, hge⟩
    rw [huntracked] at hj
    cases hj
  | some f =>
    obtain ⟨i, htracked, ho⟩ := restart_tracked hname hf
    rw [hf] at hle hge
    rw [outstanding_of_tracked htracked ho]
    refine ⟨fun j o _ _ _ => ?_, hle, hge⟩
    rw [hfiles, hf]
    rfl

/-! ## Runs -/

/-- What holds of the manager and the books of one file in every serial run. -/
structure Audited (h : String) (count : String → ℕ) (x : State × Effort) : Prop where
  paced : Paced h x.1
  inv : Inv {h} count x.1
  ahead : Ahead h x.1
  backed : Backed h x.1
  accounted : Accounted h (count h) x

variable {g : Effort} {l : Label}

/-- The chunks of the file go on as its books say. -/
structure Booked (h : String) (count : ℕ) (s t : State) (g g' : Effort) : Prop where
  ahead : Ahead h t
  backed : Backed h t
  accounted : Accounted h count (s, g) → Accounted h count (t, g')

lemma SameRecord.booked (ht : SameRecord h s t) (hahead : Ahead h t) (hbacked : Backed h s)
    (n : ℕ) : Booked h n s t g g := by
  refine ⟨hahead, ht.backed hbacked, fun ⟨henough, hmore⟩ => ⟨?_, ?_⟩⟩
  · dsimp only
    rw [ht.outstanding]
    exact henough
  · dsimp only
    rw [ht.outstanding]
    exact hmore

lemma booked_fresh {password : String} {d : ManifestDict} {n : ℕ} (hi : Inv ∅ (fun _ => 0) s)
    (hahead : Ahead h s) (hfresh : beginsFresh s h d = true)
    (hindexed : ∀ manifest, FileManifest.fromDict d = .ok manifest → Indexed n manifest) :
    Booked h n s (startDownload s h d password true).1 g { g with fresh := g.fresh + 1 } := by
  obtain ⟨hzero, manifest, hmanifest, hstart⟩ :=
    startDownload_of_beginsFresh hfresh password true
  obtain ⟨huntouched, hbacked, houtstanding⟩ := startFresh_spec (s.existing h).1 h manifest password
  have hlength : manifest.chunks.length = n := by
    simpa using (hindexed manifest hmanifest).length_eq
  rw [hlength] at houtstanding
  rw [hstart]
  refine ⟨((uneventful_existing hi h).toUntouched.trans huntouched).ahead hi hahead, hbacked,
    fun ⟨henough, hmore⟩ => ⟨?_, ?_⟩⟩
  · dsimp only at henough ⊢
    rw [Nat.mul_add, Nat.mul_one, houtstanding]
    omega
  · dsimp only at hmore ⊢
    rw [Nat.mul_add, Nat.mul_one, houtstanding]
    omega

/-- A crash of a process whose files are not far behind. -/
lemma booked_restart (hi : Inv {h} count u) (hbacked : Backed h u)
    (hbehind : Behind u h (flushInterval - 1)) (hsame : outstanding u h = outstanding s h) (n : ℕ) :
    Booked h n s (restart u.files) g { g with crashes := g.crashes + 1 } := by
  obtain ⟨hbacked', hle, hge⟩ := restart_spec_record hi hbacked hbehind
  rw [hsame] at hle hge
  refine ⟨fun w worker o hw => ?_, hbacked', fun ⟨henough, hmore⟩ => ⟨?_, ?_⟩⟩
  · rw [(restart_frame u.files).1] at hw
    cases hw
  · dsimp only at henough ⊢
    omega
  · dsimp only at hmore ⊢
    rw [Nat.mul_add, Nat.mul_one]
    omega

lemma booked_crashInMerge {worker : Worker} {written : Bool} (hs : Paced h s)
    (hi : Inv {h} count s) (hbacked : Backed h s) (hw : s.workers[w]? = some worker)
    (hphase : worker.phase = .merging) (n : ℕ) :
    Booked h n s (restart ((s.setStatus worker.obj .completed).saveResume worker.obj written).files)
      g { g with crashes := g.crashes + 1 } := by
  have hown := hs.own hw (by simp [hphase])
  have hsaved : Uneventful h s
      ((s.setStatus worker.obj .completed).saveResume worker.obj written) :=
    uneventful_assign_saveResume written (fun _ => rfl) (fun _ => rfl) hown
  refine booked_restart (inv_completed hi hw hphase written) (hsaved.backed hbacked) ?_
    hsaved.outstanding n
  have hbehind : Behind (s.setStatus worker.obj .completed) h (flushInterval - 1) :=
    (hs.flushed _ .always).1.assign fun _ => rfl
  refine hbehind.saveResume written fun o ho hhash => ?_
  obtain ⟨o', ho', rfl⟩ := getElem?_modify_cases ho
  rw [if_pos rfl] at hhash
  exact hown o' ho' hhash

/-- **What a step does to the books of a file.** -/
lemma booked_exec (hs : Paced h s) (hi : Inv {h} count s) (hahead : Ahead h s)
    (hbacked : Backed h s) (ht : exec s l = some t) (hserial : Serial s l)
    (hagreed : Agreed h (count h) l) : Booked h (count h) s t g (g.observe h s l t) := by
  have hinv := hs.inv
  have huneventful (hu : Uneventful h s t) : Booked h (count h) s t g g :=
    hu.toSameRecord.booked (hu.ahead hinv hahead) hbacked _
  have hwrites := hserial.writes
  cases l with
  | start h' d password written =>
    obtain rfl : written = true := hwrites
    obtain rfl := Option.some.inj ht
    rw [Effort.observe]
    split
    · next hfresh =>
      obtain ⟨rfl, hfresh⟩ := hfresh
      exact booked_fresh hinv hahead hfresh (hagreed rfl)
    · next hfresh => exact huneventful (uneventful_start hinv hbacked hfresh)
  | pause h' written =>
    obtain rfl := Option.some.inj ht
    exact huneventful (uneventful_pause hinv written)
  | pauseTimeout p =>
    obtain ⟨pause, -, -, rfl⟩ := exec_pauseTimeout ht
    refine huneventful (Uneventful.trans (t := s.updatePause p fun pause =>
      { pause with cancelling := true }) (.of_eq rfl rfl rfl rfl) ?_)
    exact uneventful_updateWorker h _ _ (fun _ => rfl) (fun _ => rfl) fun _ _ _ _ => rfl
  | pauseDone p written =>
    obtain ⟨pause, hp, hended, -, rfl⟩ := exec_pauseDone ht
    obtain ⟨-, htracked, -⟩ := hs.pause p pause hp hended
    refine huneventful (Uneventful.trans (t := leavePause s pause written) ?_
      (.of_eq rfl rfl rfl rfl))
    unfold leavePause
    split
    · exact Uneventful.refl h s
    · exact uneventful_finishPause hinv htracked written
  | resume h' password d =>
    obtain rfl := Option.some.inj ht
    exact huneventful (uneventful_resume hinv hbacked)
  | clear =>
    obtain rfl := Option.some.inj ht
    exact huneventful (clear_spec hs hi hbacked (hserial.request rfl))
  | begin w written =>
    obtain ⟨worker, hw, hcreated, rfl⟩ := exec_begin ht
    obtain ⟨hahead', hrecord⟩ := hs.begin_spec hi written hahead hw hcreated
    exact hrecord.booked hahead' hbacked _
  | beginRaises w sorted message written =>
    obtain ⟨worker, hw, hcreated, -, rfl⟩ := exec_beginRaises ht
    exact huneventful (hs.beginRaises_spec hw (by simp [hcreated]) sorted message written)
  | fetched w error written =>
    obtain ⟨worker, info, rest, missingSet, n, hw, hphase, rfl⟩ := exec_fetched ht
    have hlive : worker.phase ≠ .finished := by simp [hphase]
    cases error with
    | some message =>
      exact huneventful (hs.fetchFailed_spec hw hlive info rest missingSet n message written)
    | none =>
      simp only [Effort.observe, hw, Option.any_some, decide_eq_true_eq]
      split
      · next hhash =>
        obtain ⟨-, o, -, -, hfetching⟩ := hi.worker w worker hw
        rw [hphase] at hfetching
        obtain ⟨hahead', hbacked', hless⟩ :=
          hs.fetched_spec hahead hbacked hw hhash hphase hfetching.1 written
        refine ⟨hahead', hbacked', fun ⟨henough, hmore⟩ => ⟨?_, ?_⟩⟩
        · dsimp only at henough ⊢
          omega
        · dsimp only at hmore ⊢
          omega
      · next hother =>
        exact huneventful (hs.fetchedOther_spec hw hlive hother info rest missingSet n written)
  | merged w error written =>
    obtain ⟨worker, hw, hphase, rfl⟩ := exec_merged ht
    exact huneventful (hs.merged_spec hi hw hphase error written)
  | cancelled w written =>
    obtain ⟨worker, hw, -, hlive, rfl⟩ := exec_cancelled ht
    exact huneventful (hs.cancelled_spec hw hlive written)
  | crash =>
    obtain rfl := Option.some.inj ht
    exact booked_restart hi hbacked (hs.flushed _ .always).1 rfl _
  | crashInMerge w written =>
    obtain ⟨worker, hw, hphase, rfl⟩ := exec_crashInMerge ht
    exact booked_crashInMerge hs hi hbacked hw hphase _

end Records

end Statements

/-- **No chunk is fetched for nothing.**  When requests are handled one after another, writes
succeed and the manifests of the file agree on its chunk indices, then at any time the chunks that
have been fetched for it and those that are outstanding are together those of the downloads begun
from nothing; every crash adds less than `FLUSH_INTERVAL`. -/
theorem fetches_accounted (h : String) (n : ℕ) (run : List Label)
    (hrun : (audited h).Meets (fun x l => Serial x.1 l ∧ Agreed h n l) (audited h).init run) :
    (audited h).Always (Accounted h n) (audited h).init run := by
  have hinit : Audited h (fun _ => n) (audited h).init := by
    refine ⟨paced_init h, inv_init, fun w worker o hw => ?_, fun i o hi => ?_, ?_, ?_⟩
    · cases hw
    · cases hi
    · exact Nat.le_refl 0
    · exact Nat.le_refl 0
  refine (Machine.always_of_meets (fun x l y hx hy hl => ?_) hinit hrun).imp
    fun _ hx => hx.accounted
  obtain ⟨ht, hobserve⟩ := Machine.exec_observed hy
  have hbooked := booked_exec (g := x.2) hx.paced hx.inv hx.ahead hx.backed ht hl.1 hl.2
  have haccounted := hbooked.accounted hx.accounted
  rw [← hobserve] at haccounted
  exact ⟨hx.paced.step ht hl.1, inv_exec hx.inv ht fun _ hk => hk ▸ hl.2, hbooked.ahead,
    hbooked.backed, haccounted⟩

lemma audited_interrupted : (audited "h").Meets
    (fun x l => Serial x.1 l ∧ Agreed "h" 2 l) (audited "h").init interrupted := by
  refine (Machine.meets_cons rfl).2 ⟨⟨by decide, fun _ => indexed_twoChunks⟩, ?_⟩
  iterate 3 refine (Machine.meets_cons rfl).2 ⟨⟨by decide, trivial⟩, ?_⟩
  refine (Machine.meets_cons rfl).2 ⟨⟨by decide, fun _ d hd => ?_⟩, ?_⟩
  · obtain rfl := Option.some.inj hd
    exact indexed_twoChunks
  · iterate 4 refine (Machine.meets_cons rfl).2 ⟨⟨by decide, trivial⟩, ?_⟩
    trivial

theorem fetches_accounted_interrupted :
    (audited "h").Always (Accounted "h" 2) (audited "h").init interrupted :=
  fetches_accounted "h" 2 interrupted audited_interrupted

end DistriStore.DownloadManager
