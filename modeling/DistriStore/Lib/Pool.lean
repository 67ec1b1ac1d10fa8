import DistriStore.Lib.Machine
import DistriStore.Lib.Table

/-!
# Batches on a worker pool

A batch submits its jobs to a pool one after the other, the pool finishes them in whatever order,
and the results are collected in the order of submission; the first failure that is collected
ends the batch.  `returns_mapM` says that a batch always comes to an end, with what the jobs
return when they are run one after the other.
-/

namespace Lib

namespace Pool

variable {α β ε : Type*}

/-- The futures that have been submitted (`none` while the job has not finished), the results
collected from them so far, and what the batch has returned or raised. -/
structure State (ε β : Type*) where
  futures : List (Option (Except ε β)) := []
  collected : List β := []
  outcome : Option (Except ε (List β)) := none

inductive Label where
  | submit
  /-- The pool finishes job `i`. -/
  | finish (i : ℕ)
  | collect
  deriving DecidableEq, Repr

section

variable (jobs : List α) (work : α → Except ε β)

def exec (s : State ε β) : Label → Option (State ε β)
  | .submit =>
    if s.futures.length < jobs.length then some { s with futures := s.futures ++ [none] }
    else none
  | .finish i =>
    match s.futures[i]?, jobs[i]? with
    | some none, some job => some { s with futures := s.futures.set i (some (work job)) }
    | _, _ => none
  | .collect =>
    if s.outcome.isSome ∨ s.futures.length < jobs.length then none
    else match s.futures[s.collected.length]? with
      | none => some { s with outcome := some (.ok s.collected) }
      | some none => none
      | some (some (.ok b)) => some { s with collected := s.collected ++ [b] }
      | some (some (.error e)) => some { s with outcome := some (.error e) }

/-- The batch of `jobs`, each of which computes `work`. -/
def machine : Machine (State ε β) Label where
  init := {}
  exec := exec jobs work

end

variable {jobs : List α} {work : α → Except ε β}

/-! ## What a step does -/

/-- The three ways in which collecting goes on. -/
inductive Collect (s : State ε β) : State ε β → Prop
  | all (h : s.futures.length ≤ s.collected.length) :
      Collect s { s with outcome := some (.ok s.collected) }
  | next {b : β} (h : s.futures[s.collected.length]? = some (some (.ok b))) :
      Collect s { s with collected := s.collected ++ [b] }
  | failed {e : ε} (h : s.futures[s.collected.length]? = some (some (.error e))) :
      Collect s { s with outcome := some (.error e) }

lemma exec_submit {s t : State ε β} (h : exec jobs work s .submit = some t) :
    s.futures.length < jobs.length ∧ t = { s with futures := s.futures ++ [none] } := by
  simp only [exec, Option.ite_none_right_eq_some, Option.some.injEq] at h
  exact ⟨h.1, h.2.symm⟩

lemma exec_finish {s t : State ε β} {i : ℕ} (h : exec jobs work s (.finish i) = some t) :
    ∃ job, s.futures[i]? = some none ∧ jobs[i]? = some job ∧
      t = { s with futures := s.futures.set i (some (work job)) } := by
  simp only [exec] at h
  split at h
  · next job hf hj => exact ⟨job, hf, hj, (Option.some.inj h).symm⟩
  · simp at h

lemma exec_collect {s t : State ε β} (h : exec jobs work s .collect = some t) :
    s.outcome = none ∧ jobs.length ≤ s.futures.length ∧ Collect s t := by
  simp only [exec, Option.ite_none_left_eq_some, not_or, Nat.not_lt, Bool.not_eq_true,
    Option.isSome_eq_false_iff, Option.isNone_iff_eq_none] at h
  obtain ⟨⟨hopen, hall⟩, h⟩ := h
  refine ⟨hopen, hall, ?_⟩
  split at h
  · next hf =>
    rw [← Option.some.inj h]
    exact .all (List.getElem?_eq_none_iff.1 hf)
  · simp at h
  · next b hf =>
    rw [← Option.some.inj h]
    exact .next hf
  · next e hf =>
    rw [← Option.some.inj h]
    exact .failed hf

/-! ## The invariant -/

/-- A finished future holds what its job computes, and what has been collected is what the first
jobs return one after the other. -/
structure Inv (jobs : List α) (work : α → Except ε β) (s : State ε β) : Prop where
  submitted : s.futures.length ≤ jobs.length
  finished : ∀ (i : ℕ) r, s.futures[i]? = some (some r) → ∃ job, jobs[i]? = some job ∧ work job = r
  inOrder : s.collected.length ≤ jobs.length
  collected : (jobs.take s.collected.length).mapM work = .ok s.collected
  outcome : ∀ r, s.outcome = some r → r = jobs.mapM work

lemma inv_init : Inv jobs work ({} : State ε β) where
  submitted := Nat.zero_le _
  finished i r h := by simp at h
  inOrder := Nat.zero_le _
  collected := rfl
  outcome r h := by simp at h

/-- The job whose result is collected next, after those that have been collected. -/
lemma mapM_take_succ {n : ℕ} {job : α} {bs : List β} (hjob : jobs[n]? = some job)
    (h : (jobs.take n).mapM work = .ok bs) :
    (jobs.take (n + 1)).mapM work = (work job).map fun b => bs ++ [b] := by
  rw [List.take_add_one, hjob, Option.toList_some, List.mapM_append, h]
  cases hw : work job <;> simp [bind, Except.bind, pure, Except.pure, Except.map, hw]

lemma mapM_of_error {n : ℕ} {e : ε} (h : (jobs.take n).mapM work = .error e) :
    jobs.mapM work = .error e := by
  rw [← List.take_append_drop n jobs, List.mapM_append, h]
  rfl

lemma Inv.collect {s t : State ε β} (h : Inv jobs work s) (hall : jobs.length ≤ s.futures.length)
    (ht : Collect s t) : Inv jobs work t := by
  cases ht with
  | all hdone =>
    refine { h with outcome := fun r hr => ?_ }
    obtain rfl : .ok s.collected = r := Option.some.inj hr
    rw [← h.collected, List.take_of_length_le (Nat.le_trans hall hdone)]
  | @next b hb =>
    obtain ⟨job, hjob, hwork⟩ := h.finished _ _ hb
    have hlt : s.collected.length < jobs.length := (List.getElem?_eq_some_iff.1 hjob).1
    refine { h with inOrder := by simp; omega, collected := ?_ }
    rw [List.length_append, List.length_singleton, mapM_take_succ hjob h.collected, hwork]
    rfl
  | @failed e he =>
    obtain ⟨job, hjob, hwork⟩ := h.finished _ _ he
    refine { h with outcome := fun r hr => ?_ }
    obtain rfl : .error e = r := Option.some.inj hr
    refine (mapM_of_error (n := s.collected.length + 1) ?_).symm
    rw [mapM_take_succ hjob h.collected, hwork]
    rfl

lemma Inv.step {s t : State ε β} {l : Label} (h : Inv jobs work s)
    (hexec : exec jobs work s l = some t) : Inv jobs work t := by
  cases l with
  | submit =>
    obtain ⟨hlt, rfl⟩ := exec_submit hexec
    refine { h with submitted := by simp; omega, finished := fun i r hi => ?_ }
    rcases getElem?_concat_cases hi with hi | ⟨-, hnone⟩
    · exact h.finished i r hi
    · simp at hnone
  | finish i =>
    obtain ⟨job, -, hjob, rfl⟩ := exec_finish hexec
    refine { h with submitted := by simpa using h.submitted, finished := fun j r hj => ?_ }
    simp only [List.getElem?_set] at hj
    split at hj
    · next hij =>
      subst hij
      exact ⟨job, hjob, by simpa using (Option.ite_none_right_eq_some.1 hj).2⟩
    · exact h.finished j r hj
  | collect =>
    obtain ⟨-, hall, ht⟩ := exec_collect hexec
    exact h.collect hall ht

/-! ## Termination -/

/-- The steps that the batch can still take. -/
def measure (jobs : List α) (s : State ε β) : ℕ :=
  2 * (jobs.length - s.futures.length) + s.futures.countP Option.isNone +
    (jobs.length - s.collected.length) + if s.outcome.isNone then 1 else 0

lemma countP_set_finished {futures : List (Option (Except ε β))} {i : ℕ} {r : Except ε β}
    (h : futures[i]? = some none) :
    (futures.set i (some r)).countP Option.isNone + 1 = futures.countP Option.isNone := by
  obtain ⟨hi, hnone⟩ := List.getElem?_eq_some_iff.1 h
  have hpos : 0 < futures.countP Option.isNone :=
    List.countP_pos_iff.2 ⟨none, hnone ▸ List.getElem_mem hi, rfl⟩
  rw [List.countP_set hi, hnone]
  simp
  omega

lemma measure_lt {s t : State ε β} {l : Label} (h : Inv jobs work s)
    (hexec : exec jobs work s l = some t) : measure jobs t < measure jobs s := by
  cases l with
  | submit =>
    obtain ⟨hlt, rfl⟩ := exec_submit hexec
    simp only [measure, List.length_append, List.length_singleton, List.countP_append,
      List.countP_singleton, Option.isNone_none, if_true]
    omega
  | finish i =>
    obtain ⟨job, hnone, -, rfl⟩ := exec_finish hexec
    have hcount := countP_set_finished (r := work job) hnone
    simp only [measure, List.length_set]
    omega
  | collect =>
    obtain ⟨hopen, hall, ht⟩ := exec_collect hexec
    cases ht with
    | all _ => simp [measure, hopen]
    | failed _ => simp [measure, hopen]
    | next hb =>
      obtain ⟨hlt, -⟩ := List.getElem?_eq_some_iff.1 hb
      have hsub := h.submitted
      simp only [measure, List.length_append, List.length_singleton]
      omega

/-- A batch that has not ended can go on. -/
lemma Inv.outcome_of_stuck {s : State ε β} (h : Inv jobs work s)
    (hstuck : (machine jobs work).Stuck s) : s.outcome = some (jobs.mapM work) := by
  cases hopen : s.outcome with
  | some r => rw [h.outcome r hopen]
  | none =>
    exfalso
    by_cases hall : s.futures.length < jobs.length
    · have := hstuck .submit
      simp [machine, exec, hall] at this
    · have hcollect := hstuck .collect
      simp only [machine, exec, hopen, Option.isSome_none, Bool.false_eq_true, hall, or_self,
        if_false] at hcollect
      split at hcollect <;> try simp at hcollect
      next hrunning =>
      -- the next future is still running, so the pool can finish it
      obtain ⟨hlt, -⟩ := List.getElem?_eq_some_iff.1 hrunning
      have hjob := List.getElem?_eq_getElem (Nat.lt_of_lt_of_le hlt h.submitted)
      have hfinish := hstuck (.finish s.collected.length)
      simp [machine, exec, hrunning, hjob] at hfinish

/-- **Batch rule.** In whatever order the pool finishes the jobs, the batch ends, with the result
of running them one after the other. -/
theorem returns_mapM (jobs : List α) (work : α → Except ε β) :
    (machine jobs work).Returns State.outcome (jobs.mapM work) where
  only s hs r hr :=
    (hs.invariant inv_init fun _ _ _ h ht => h.step ht).outcome r hr
  bounded := by
    refine ⟨measure jobs ({} : State ε β), fun ls s hs => ?_⟩
    have h := Machine.length_le_of_run (M := machine jobs work) (I := Inv jobs work)
      (fun _ _ _ h ht => h.step ht) (fun _ _ _ h ht => measure_lt h ht) ls _ s inv_init hs
    exact Nat.le_trans (Nat.le_add_right _ _) h
  stops s hs hstuck :=
    (hs.invariant inv_init fun _ _ _ h ht => h.step ht).outcome_of_stuck hstuck

end Pool

end Lib
