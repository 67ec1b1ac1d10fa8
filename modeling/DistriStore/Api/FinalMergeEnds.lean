import DistriStore.Api.FinalMerge

/-!
# The final merge comes to an end

`FinalMerge` says what a merge that has ended looks like.  Here: it does come to an end, in whatever
order the pool, the writing thread and the loading of the next chunk take their steps, and if it is
not cancelled, its result is the one of the sequential merge (`finalMerge_ends`).  Nothing is left to
wait for: whenever the coroutine is suspended, what it waits for can still happen.
-/

namespace DistriStore.FinalMerge

open Lib

/-! ## Merges that are not cancelled -/

/-- The step is no cancellation. -/
def Label.goesOn : Label → Bool
  | .cancel _ => false
  | _ => true

/-- How the coroutine has ended, and the file it has left. -/
def result (s : State) : Option (Except PyError Unit × Option Bytes) :=
  match s.phase with
  | .completed => some (.ok (), s.file)
  | .failed e => some (.error e, s.file)
  | _ => none

/-- How the sequential merge ends, and the file that is left after `except Exception`. -/
def sequentialResult (c : Config) : Except PyError Unit × Option Bytes :=
  match (sequential c).outcome with
  | .ok _ => (.ok (), (sequential c).file)
  | .error e => (.error e, none)

variable {c : Config} {s t : State} {l : Label}

lemma Label.ne_cancel (hl : l.goesOn = true) : ∀ flushed, l ≠ .cancel flushed := by
  rintro flushed rfl
  cases hl

lemma Agrees.result_eq (hs : Agrees c s) {r : Except PyError Unit × Option Bytes}
    (hr : result s = some r) : r = sequentialResult c := by
  unfold result at hr
  unfold Agrees at hs
  split at hr
  · next hphase =>
    rw [hphase] at hs
    obtain ⟨hfile, houtcome⟩ := hs
    rw [← Option.some.inj hr, hfile, sequentialResult, houtcome]
  · next e hphase =>
    rw [hphase] at hs
    obtain ⟨hfile, houtcome⟩ := hs
    rw [← Option.some.inj hr, hfile, sequentialResult, houtcome]
  · cases hr

/-! ## What is left to do -/

/-- A bound on the steps of the coroutine itself. -/
def Phase.remaining (c : Config) : Phase → ℕ
  | .created => 4 * c.manifest.chunks.length + 1
  | .decoding _ _ rest => 4 * rest.length + 3
  | .writing _ rest => 4 * rest.length + 2
  | .awaitingPrefetch rest => 4 * rest.length + 1
  | _ => 0

/-- The load of the next chunk has still to run. -/
def toLoad : Option Prefetch → ℕ
  | some (.created _) => 1
  | _ => 0

def State.remaining (c : Config) (s : State) : ℕ := s.phase.remaining c + toLoad s.pending

section Remaining

variable {rest : List ChunkInfo}

lemma remaining_fail (e : PyError) : (fail s e).remaining c = toLoad s.pending :=
  Nat.zero_add _

lemma remaining_finish (hpending : toLoad s.pending = 0) : (finish c s).remaining c = 0 := by
  unfold finish
  dsimp only
  split
  · exact (remaining_fail _).trans hpending
  · exact (Nat.zero_add _).trans hpending

lemma remaining_decoded_le (result : Except PyError Bytes) :
    (decoded s rest result).remaining c ≤ 4 * rest.length + 2 + toLoad s.pending := by
  cases result with
  | ok plaintext => exact Nat.le_refl _
  | error e =>
    rw [decoded, remaining_fail]
    omega

lemma remaining_decodeNext_le (info : ChunkInfo) (data : Bytes) :
    (decodeNext c s info data rest).remaining c ≤ 4 * rest.length + 3 + toLoad s.pending := by
  unfold decodeNext
  split
  · exact Nat.le_refl _
  · refine (remaining_decoded_le _).trans ?_
    omega

lemma remaining_turn_le (hpending : toLoad s.pending = 0) (nextData : Option Bytes)
    (infos : List ChunkInfo) : (turn c s nextData infos).remaining c ≤ 4 * infos.length := by
  cases infos with
  | nil => exact (remaining_finish hpending).le
  | cons info rest =>
    rw [turn]
    split
    · rw [remaining_fail]
      exact hpending.trans_le (Nat.zero_le _)
    · refine (remaining_decodeNext_le info _).trans ?_
      have hload : toLoad (rest.head?.map fun next => .created next.chunkHash) ≤ 1 := by
        cases rest <;> simp [toLoad]
      dsimp only
      rw [List.length_cons]
      omega

/-- After the write the coroutine goes on at once, or waits for the load in progress. -/
lemma remaining_collect_le :
    (collect c s rest).remaining c ≤ 4 * rest.length + 1 + toLoad s.pending := by
  unfold collect
  split
  · next hpending =>
    refine (remaining_turn_le (by rw [hpending]; rfl) _ _).trans ?_
    omega
  · next data hpending =>
    refine (remaining_turn_le (by rw [hpending]; rfl) _ _).trans ?_
    omega
  · rw [remaining_fail]
    omega
  · exact Nat.le_refl _

/-- A load that has ended does not have to be waited for. -/
lemma remaining_collect_of_ended {outcome : Except PyError Bytes}
    (hpending : s.pending = some (.ended outcome)) :
    (collect c s rest).remaining c ≤ 4 * rest.length := by
  have hload : toLoad s.pending = 0 := by
    rw [hpending]
    rfl
  unfold collect
  rw [hpending]
  cases outcome with
  | ok data => exact remaining_turn_le hload _ _
  | error e => exact (remaining_fail e).trans hload |>.trans_le (Nat.zero_le _)

end Remaining

/-- No load is in progress before the coroutine begins, and it waits only for one that is. -/
def Loading (s : State) : Prop :=
  match s.phase with
  | .created => s.pending = none
  | .awaitingPrefetch _ => s.pending.isSome = true
  | _ => True

/-- **Every step leaves less to do.** -/
lemma remaining_lt (hs : Loading s) (h : exec c s l = some t) : t.remaining c < s.remaining c := by
  obtain ⟨phase, pending, loads, hashed, file⟩ := s
  cases l with
  | begin =>
    rw [exec, begin] at h
    cases phase with
    | created =>
      obtain rfl := Option.some.inj h
      obtain rfl : pending = none := hs
      refine (remaining_turn_le rfl none _).trans_lt ?_
      rw [orderInfos, length_sortBy]
      exact Nat.lt_succ_self _
    | _ => cases h
  | poolDone =>
    rw [exec, poolDone] at h
    cases phase with
    | decoding info data rest =>
      obtain rfl := Option.some.inj h
      refine (remaining_decoded_le _).trans_lt ?_
      rw [State.remaining, Phase.remaining]
      omega
    | _ => cases h
  | load =>
    rw [exec, load] at h
    dsimp only at h
    split at h
    · obtain rfl := Option.some.inj h
      exact Nat.lt_succ_self _
    · cases h
  | written =>
    rw [exec, written] at h
    cases phase with
    | writing plaintext rest =>
      obtain rfl := Option.some.inj h
      refine remaining_collect_le.trans_lt ?_
      rw [State.remaining, Phase.remaining]
      dsimp only
      omega
    | _ => cases h
  | resume =>
    rw [exec, resume] at h
    dsimp only at h
    split at h
    · obtain rfl := Option.some.inj h
      exact (remaining_collect_of_ended rfl).trans_lt (Nat.lt_succ_self _)
    · cases h
  | cancel flushed =>
    rw [exec, cancel] at h
    dsimp only at h
    split at h
    all_goals cases h
    all_goals
      simp only [State.remaining, Phase.remaining, toLoad]
      omega

/-! ## What the coroutine waits for -/

lemma loading_decoded {rest : List ChunkInfo} (result : Except PyError Bytes) :
    Loading (decoded s rest result) := by
  cases result <;> trivial

lemma loading_turn (nextData : Option Bytes) (infos : List ChunkInfo) :
    Loading (turn c s nextData infos) := by
  cases infos with
  | nil =>
    rw [turn, finish]
    split <;> trivial
  | cons info rest =>
    rw [turn]
    split
    · trivial
    · unfold decodeNext
      split
      · trivial
      · exact loading_decoded _

lemma loading_collect {rest : List ChunkInfo} : Loading (collect c s rest) := by
  unfold collect
  split
  · exact loading_turn _ _
  · exact loading_turn _ _
  · trivial
  · next hpending =>
    rw [Loading, hpending]
    rfl

lemma loading_exec (hs : Loading s) (h : exec c s l = some t) : Loading t := by
  cases l with
  | begin =>
    rw [exec, begin] at h
    split at h
    · obtain rfl := Option.some.inj h
      exact loading_turn _ _
    · cases h
  | poolDone =>
    rw [exec, poolDone] at h
    split at h
    · obtain rfl := Option.some.inj h
      exact loading_decoded _
    · cases h
  | load =>
    rw [exec, load] at h
    split at h
    · next chunkHash hpending =>
      obtain rfl := Option.some.inj h
      unfold Loading at hs ⊢
      dsimp only
      split
      · next hphase =>
        rw [hphase, hpending] at hs
        cases hs
      · rfl
      · trivial
    · cases h
  | written =>
    rw [exec, written] at h
    split at h
    · obtain rfl := Option.some.inj h
      exact loading_collect
    · cases h
  | resume =>
    rw [exec, resume] at h
    split at h
    · obtain rfl := Option.some.inj h
      exact loading_collect
    · cases h
  | cancel flushed =>
    rw [exec, cancel] at h
    split at h
    all_goals cases h
    all_goals trivial

/-- A merge that has not ended can go on. -/
lemma result_of_stuck (hs : Loading s) (hagrees : Agrees c s)
    (hstuck : ∀ l : Label, l.goesOn = true → exec c s l = none) :
    result s = some (sequentialResult c) := by
  suffices hended : ∃ r, result s = some r by
    obtain ⟨r, hr⟩ := hended
    rw [hr, hagrees.result_eq hr]
  obtain ⟨phase, pending, loads, hashed, file⟩ := s
  cases phase with
  | created => cases hstuck .begin rfl
  | decoding info data rest => cases hstuck .poolDone rfl
  | writing plaintext rest => cases hstuck .written rfl
  | awaitingPrefetch rest =>
    cases pending with
    | none => cases hs
    | some prefetch =>
      cases prefetch with
      | created chunkHash => cases hstuck .load rfl
      | ended outcome => cases hstuck .resume rfl
  | completed => exact ⟨_, rfl⟩
  | failed e => exact ⟨_, rfl⟩
  | cancelled => exact hagrees.elim

/-! ## Ends -/

/-- A merge that is not cancelled has the result of the sequential one. -/
lemma returns_of_goesOn (c : Config) :
    ((machine c).restrict (fun l => l.goesOn = true) (machine c).init).Returns result
      (sequentialResult c) := by
  have hinvariant {s : State}
      (hs : ((machine c).restrict (fun l => l.goesOn = true) (machine c).init).Reachable s) :
      Agrees c s ∧ Loading s := by
    refine hs.invariant (I := fun s => Agrees c s ∧ Loading s) ⟨agrees_init c, rfl⟩
      fun u l v hu h => ?_
    obtain ⟨hl, h⟩ := Machine.exec_restrict_eq_some.1 h
    exact ⟨agrees_exec hu.1 h (Label.ne_cancel hl), loading_exec hu.2 h⟩
  refine ⟨fun s hs r hr => (hinvariant hs).1.result_eq hr, ?_, fun s hs hstuck => ?_⟩
  · refine Machine.bounded_of_measure (I := Loading) (State.remaining c) rfl ?_ ?_
    · exact fun s l t hs h => loading_exec hs (Machine.exec_restrict_eq_some.1 h).2
    · exact fun s l t hs h => remaining_lt hs (Machine.exec_restrict_eq_some.1 h).2
  · obtain ⟨hagrees, hloading⟩ := hinvariant hs
    exact result_of_stuck hloading hagrees fun l hl => (if_pos hl).symm.trans (hstuck l)

/-- How the task has ended: cancelled, or with a result. -/
def ended (s : State) : Option (Option (Except PyError Unit × Option Bytes)) :=
  match s.phase with
  | .cancelled => some none
  | _ => (result s).map some

lemma ended_of_cancelled (hs : Cancelled s) : ended s = some none := by
  rw [ended, hs.1]

lemma ended_of_agrees (hs : Agrees c s) : ended s = (result s).map some := by
  obtain ⟨phase, pending, loads, hashed, file⟩ := s
  cases phase with
  | cancelled => exact hs.elim
  | _ => rfl

/-- **The final merge comes to an end** in every order of the steps of the pool, the writing thread,
the loads and the cancellations.  A task that is not cancelled ends as the sequential
`pipelineMergeToDisk` does, and after an exception there is no file. -/
theorem finalMerge_ends (c : Config) :
    (machine c).Ends ended (fun r => ∀ r' ∈ r, r' = sequentialResult c) ∧
      ((machine c).restrict (fun l => l.goesOn = true) (machine c).init).Returns result
        (sequentialResult c) := by
  have hinvariant {s : State} (hs : (machine c).Reachable s) :
      (Agrees c s ∨ Cancelled s) ∧ Loading s := by
    refine hs.invariant (I := fun s => (Agrees c s ∨ Cancelled s) ∧ Loading s)
      ⟨Or.inl (agrees_init c), rfl⟩ fun u l v hu h => ?_
    exact ⟨agrees_or_cancelled hu.1 h, loading_exec hu.2 h⟩
  refine ⟨⟨fun s hs r hr r' hr' => ?_, ?_, fun s hs hstuck => ?_⟩, returns_of_goesOn c⟩
  · obtain ⟨hagrees | hcancelled, -⟩ := hinvariant hs
    · rw [ended_of_agrees hagrees] at hr
      obtain ⟨r'', hr'', rfl⟩ := Option.map_eq_some_iff.1 hr
      obtain rfl := Option.some.inj hr'
      exact hagrees.result_eq hr''
    · rw [ended_of_cancelled hcancelled] at hr
      obtain rfl := Option.some.inj hr
      cases hr'
  · exact Machine.bounded_of_measure (I := Loading) (State.remaining c) rfl
      (fun s l t hs h => loading_exec hs h) fun s l t hs h => remaining_lt hs h
  · obtain ⟨hagrees | hcancelled, hloading⟩ := hinvariant hs
    · rw [ended_of_agrees hagrees, result_of_stuck hloading hagrees fun l _ => hstuck l]
      exact ⟨_, rfl⟩
    · exact ⟨none, ended_of_cancelled hcancelled⟩

end DistriStore.FinalMerge
