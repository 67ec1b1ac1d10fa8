import DistriStore.Lib.Machine
import Mathlib.Data.List.Nodup
import Mathlib.Data.List.Perm.Basic
import Mathlib.Data.List.Range

/-!
# Gathered tasks behind a semaphore

A caller creates tasks and awaits them all together; each task does its work inside a counting
semaphore.  The semaphore is fair: a task that finds it locked queues up, and a permit that is
given back is handed to the first waiter, which enters when it next runs.  A task that comes while
a woken waiter has not yet run queues up behind it, even if permits are left.

`Inv` says where every task stands.  Its consequences are that permits are conserved, that no
wake-up is lost (`Inv.noLost`), that the tasks enter in the order of their creation
(`Inv.places`), that no permit lies idle while a task waits (`running_eq`), and that the tasks all
end (`ended_of_stuck`, `measure_lt`).
-/

namespace Lib

namespace Gather

variable {ε : Type*}

structure State (ε : Type*) where
  /-- The tasks that have not taken their first step. -/
  created : List ℕ
  /-- The value of the semaphore. -/
  permits : ℕ
  /-- The tasks that wait for a permit, in the order in which they will get one. -/
  queue : List ℕ := []
  /-- The tasks that have been handed a permit and have not run since. -/
  woken : List ℕ := []
  /-- The tasks inside the semaphore. -/
  running : List ℕ := []
  /-- The tasks that are over, in the order in which they ended, with their exceptions. -/
  ended : List (ℕ × Option ε) := []

inductive Label (ε : Type*) where
  /-- The next task takes its first step. -/
  | start
  /-- A task that has been handed a permit runs. -/
  | wake (i : ℕ)
  /-- A task leaves the semaphore and is over. -/
  | finish (i : ℕ) (failure : Option ε)

/-- Hand permits to waiters, as far as there are both, at most `n`. -/
def State.handOut (s : State ε) (n : ℕ) : State ε :=
  let k := min n (min s.permits s.queue.length)
  { s with
    permits := s.permits - k
    queue := s.queue.drop k
    woken := s.woken ++ s.queue.take k }

/-- A task comes to the semaphore.  It is locked when its value is zero or somebody waits. -/
def State.acquire (s : State ε) (i : ℕ) : State ε :=
  if s.permits = 0 ∨ s.queue ≠ [] ∨ s.woken ≠ [] then { s with queue := s.queue ++ [i] }
  else { s with permits := s.permits - 1, running := s.running ++ [i] }

def exec (s : State ε) : Label ε → Option (State ε)
  | .start =>
    match s.created with
    | [] => none
    | i :: rest => some ({ s with created := rest }.acquire i)
  | .wake i =>
    if i ∈ s.woken then
      -- on entering it passes on what permits are left
      some ({ s with woken := s.woken.erase i, running := s.running ++ [i] }.handOut s.permits)
    else none
  | .finish i failure =>
    if i ∈ s.running then
      some ({ s with running := s.running.erase i, permits := s.permits + 1,
                     ended := s.ended ++ [(i, failure)] }.handOut 1)
    else none

/-- `n` tasks behind a semaphore with `limit` permits. -/
def machine (ε : Type*) (n limit : ℕ) : Machine (State ε) (Label ε) where
  init := { created := List.range n, permits := limit }
  exec := exec

/-- All tasks are over. -/
def State.AllEnded (s : State ε) : Prop :=
  s.created = [] ∧ s.queue = [] ∧ s.woken = [] ∧ s.running = []

instance (s : State ε) : Decidable s.AllEnded := inferInstanceAs (Decidable (_ ∧ _))

/-- What `gather` has raised or returned: the first exception of a task, or nothing to report once
all are over. -/
def State.outcome (s : State ε) : Option (Except ε Unit) :=
  match s.ended.findSome? Prod.snd with
  | some e => some (.error e)
  | none => if s.AllEnded then some (.ok ()) else none

/-! ## Where the tasks stand -/

/-- Every task is in one place, permits are held or counted, and somebody is about to pass on the
permits that are left when tasks wait. -/
structure Inv (n limit : ℕ) (s : State ε) : Prop where
  conserved : s.permits + s.woken.length + s.running.length = limit
  noLost : s.queue ≠ [] → s.permits = 0 ∨ s.woken ≠ []
  /-- The tasks that have been let in are the first ones. -/
  places : ∃ m ≤ n, s.queue ++ s.created = (List.range n).drop m ∧
    (s.woken ++ s.running ++ s.ended.map Prod.fst).Perm (List.range m)

variable {n limit : ℕ} {s t : State ε}

lemma inv_init : Inv n limit (machine ε n limit).init where
  conserved := by simp [machine]
  noLost h := absurd rfl h
  places := ⟨0, Nat.zero_le n, by simp [machine], by simp [machine]⟩

/-- The first waiters move up. -/
lemma places_move {l q c : List ℕ} {m k : ℕ} (hm : m ≤ n) (hk : k ≤ q.length)
    (hrest : q ++ c = (List.range n).drop m) (hl : l.Perm (List.range m)) :
    m + k ≤ n ∧ q.drop k ++ c = (List.range n).drop (m + k) ∧
      (l ++ q.take k).Perm (List.range (m + k)) := by
  have hlen : q.length + c.length = n - m := by
    simpa using congrArg List.length hrest
  have hdrop : q.drop k ++ c = (List.range n).drop (m + k) := by
    rw [← List.drop_drop, ← hrest, List.drop_append_of_le_length hk]
  have htake : q.take k = ((List.range n).drop m).take k := by
    rw [← hrest, List.take_append_of_le_length hk]
  have hrange : List.range (m + k) = List.range m ++ ((List.range n).drop m).take k := by
    have hsplit := List.take_add (l := List.range n) (i := m) (j := k)
    rwa [List.take_range, List.take_range, Nat.min_eq_left (by omega), Nat.min_eq_left hm]
      at hsplit
  refine ⟨by omega, hdrop, ?_⟩
  rw [htake, hrange]
  exact hl.append_right _

/-- Handing out permits moves waiters up and keeps the number of permits. -/
lemma Inv.handOut {j : ℕ} (hcons : s.permits + s.woken.length + s.running.length = limit)
    (hplaces : ∃ m ≤ n, s.queue ++ s.created = (List.range n).drop m ∧
      (s.woken ++ s.running ++ s.ended.map Prod.fst).Perm (List.range m))
    (hj : s.permits ≤ j ∨ 1 ≤ j ∧ 1 ≤ s.permits) : Inv n limit (s.handOut j) := by
  have hk : min j (min s.permits s.queue.length) ≤ s.queue.length := by omega
  refine ⟨?_, ?_, ?_⟩
  · simp only [State.handOut, List.length_append, List.length_take]
    omega
  · intro hq
    have hlt : min j (min s.permits s.queue.length) < s.queue.length := by
      simp only [State.handOut, ne_eq, List.drop_eq_nil_iff] at hq
      exact not_le.1 hq
    rcases hj with hj | ⟨hj, hpos⟩
    · left
      simp only [State.handOut]
      omega
    · right
      simp only [State.handOut, ne_eq, List.append_eq_nil_iff, List.take_eq_nil_iff, not_and]
      rintro - (hzero | hnil)
      · omega
      · rw [hnil, List.length_nil] at hlt
        omega
  · obtain ⟨m, hm, hrest, hperm⟩ := hplaces
    obtain ⟨hle, hdrop, hmoved⟩ := places_move hm hk hrest hperm
    refine ⟨_, hle, hdrop, ?_⟩
    refine List.Perm.trans ?_ hmoved
    simp only [State.handOut, List.append_assoc]
    refine List.Perm.append_left _ ?_
    exact (List.perm_append_comm).trans (by simp [List.append_assoc])

lemma Inv.start {i : ℕ} {rest : List ℕ} (h : Inv n limit s) (hcreated : s.created = i :: rest) :
    Inv n limit ({ s with created := rest }.acquire i) := by
  obtain ⟨m, hm, hrest, hperm⟩ := h.places
  unfold State.acquire
  split
  · next hlocked =>
    refine ⟨h.conserved, fun _ => ?_, m, hm, ?_, hperm⟩
    · rcases hlocked with hzero | hqueue | hwoken
      · exact Or.inl hzero
      · exact h.noLost hqueue
      · exact Or.inr hwoken
    · rw [← hrest, hcreated]
      simp
  · next hfree =>
    simp only [not_or, ne_eq, not_not] at hfree
    obtain ⟨hpos, hqueue, hwoken⟩ := hfree
    have hcons := h.conserved
    -- nobody waits, so the task is the first of those that are not in
    rw [hqueue, hcreated, List.nil_append] at hrest
    obtain ⟨hle, hdrop, hmoved⟩ :=
      places_move (q := [i]) (c := rest) (k := 1) hm (by simp) (by simpa using hrest) hperm
    refine ⟨?_, fun hq => absurd hqueue hq, m + 1, hle, ?_, ?_⟩
    · simp only [List.length_append, List.length_singleton]
      omega
    · rw [hqueue]
      simpa using hdrop
    · refine List.Perm.trans ?_ hmoved
      simp only [List.append_assoc, List.take_succ_cons, List.take_zero]
      refine List.Perm.append_left _ (List.Perm.append_left _ ?_)
      exact List.perm_append_comm

lemma Inv.wake {i : ℕ} (h : Inv n limit s) (hi : i ∈ s.woken) :
    Inv n limit
      ({ s with woken := s.woken.erase i, running := s.running ++ [i] }.handOut s.permits) := by
  obtain ⟨m, hm, hrest, hperm⟩ := h.places
  have hcons := h.conserved
  refine Inv.handOut ?_ ⟨m, hm, hrest, ?_⟩ (Or.inl (Nat.le_refl _))
  · have hpos := List.length_pos_of_mem hi
    simp only [List.length_erase_of_mem hi, List.length_append, List.length_singleton]
    omega
  · refine List.Perm.trans ?_ hperm
    refine List.Perm.append_right _ ?_
    rw [← List.append_assoc]
    refine (List.perm_append_singleton i _).trans ?_
    exact (List.perm_cons_erase hi).symm.append_right s.running

lemma Inv.finish {i : ℕ} {failure : Option ε} (h : Inv n limit s) (hi : i ∈ s.running) :
    Inv n limit ({ s with running := s.running.erase i, permits := s.permits + 1,
                          ended := s.ended ++ [(i, failure)] }.handOut 1) := by
  obtain ⟨m, hm, hrest, hperm⟩ := h.places
  have hcons := h.conserved
  refine Inv.handOut ?_ ⟨m, hm, hrest, ?_⟩ (Or.inr ⟨Nat.le_refl 1, by simp⟩)
  · have hpos := List.length_pos_of_mem hi
    simp only [List.length_erase_of_mem hi]
    omega
  · refine List.Perm.trans ?_ hperm
    simp only [List.append_assoc, List.map_append, List.map_cons, List.map_nil]
    refine List.Perm.append_left _ ?_
    rw [← List.append_assoc]
    refine (List.perm_append_singleton i _).trans ?_
    exact (List.perm_cons_erase hi).symm.append_right (s.ended.map Prod.fst)

lemma Inv.step {l : Label ε} (h : Inv n limit s) (hexec : exec s l = some t) :
    Inv n limit t := by
  cases l with
  | start =>
    simp only [exec] at hexec
    split at hexec
    · simp at hexec
    · next i rest hcreated =>
      rw [← Option.some.inj hexec]
      exact h.start hcreated
  | wake i =>
    simp only [exec, Option.ite_none_right_eq_some, Option.some.injEq] at hexec
    obtain ⟨hi, rfl⟩ := hexec
    exact h.wake hi
  | finish i failure =>
    simp only [exec, Option.ite_none_right_eq_some, Option.some.injEq] at hexec
    obtain ⟨hi, rfl⟩ := hexec
    exact h.finish hi

/-! ## Who has ended -/

lemma ended_of_start (hexec : exec s .start = some t) : t.ended = s.ended := by
  simp only [exec] at hexec
  split at hexec
  · simp at hexec
  · rw [← Option.some.inj hexec]
    unfold State.acquire
    split <;> rfl

lemma ended_of_wake {i : ℕ} (hexec : exec s (.wake i) = some t) : t.ended = s.ended := by
  simp only [exec, Option.ite_none_right_eq_some, Option.some.injEq] at hexec
  rw [← hexec.2]
  rfl

lemma ended_of_finish {i : ℕ} {failure : Option ε} (hexec : exec s (.finish i failure) = some t) :
    i ∈ s.running ∧ t.ended = s.ended ++ [(i, failure)] := by
  simp only [exec, Option.ite_none_right_eq_some, Option.some.injEq] at hexec
  obtain ⟨hi, rfl⟩ := hexec
  exact ⟨hi, rfl⟩

/-- `gather` returns when all tasks are over and none has raised. -/
lemma outcome_eq_ok_iff : s.outcome = some (.ok ()) ↔
    s.AllEnded ∧ ∀ i f, (i, f) ∈ s.ended → f = none := by
  unfold State.outcome
  cases hfail : s.ended.findSome? Prod.snd with
  | some e =>
    obtain ⟨⟨i, f⟩, hmem, hf⟩ := List.exists_of_findSome?_eq_some hfail
    simp only [Option.some.injEq, reduceCtorEq, false_iff, not_and]
    intro _ hall
    have hnone : f = none := hall i f hmem
    rw [hnone] at hf
    cases hf
  | none =>
    rw [List.findSome?_eq_none_iff] at hfail
    have hall : ∀ i f, (i, f) ∈ s.ended → f = none := fun i f hmem => hfail (i, f) hmem
    by_cases hended : s.AllEnded
    · simp only [if_pos hended, true_iff]
      exact ⟨hended, hall⟩
    · simp [hended]

/-- The exception that `gather` raises is that of a task. -/
lemma mem_ended_of_outcome {e : ε} (h : s.outcome = some (.error e)) :
    ∃ i, (i, some e) ∈ s.ended := by
  unfold State.outcome at h
  cases hfail : s.ended.findSome? Prod.snd with
  | some e' =>
    simp only [hfail, Option.some.injEq, Except.error.injEq] at h
    subst h
    obtain ⟨⟨i, f⟩, hmem, hf⟩ := List.exists_of_findSome?_eq_some hfail
    obtain rfl : f = some e' := hf
    exact ⟨i, hmem⟩
  | none =>
    simp only [hfail] at h
    split at h <;> simp at h

lemma exists_outcome_of_allEnded (h : s.AllEnded) : ∃ r, s.outcome = some r := by
  unfold State.outcome
  split
  · exact ⟨_, rfl⟩
  · exact ⟨_, if_pos h⟩

/-! ## How many tasks run -/

lemma Inv.length_running_le (h : Inv n limit s) : s.running.length ≤ limit := by
  have := h.conserved
  omega

lemma Inv.lengths (h : Inv n limit s) : s.created.length + s.queue.length + s.woken.length +
    s.running.length + s.ended.length = n := by
  obtain ⟨m, hm, hrest, hperm⟩ := h.places
  have hwaiting := congrArg List.length hrest
  have hin := hperm.length_eq
  simp only [List.length_append, List.length_drop, List.length_range, List.length_map]
    at hwaiting hin
  omega

/-- **No permit lies idle.** Once all tasks have come to the semaphore and every woken one has
run, as many tasks are inside as there are permits, or all that are left. -/
theorem Inv.length_running_eq (h : Inv n limit s) (hcreated : s.created = [])
    (hwoken : s.woken = []) : s.running.length = min limit (n - s.ended.length) := by
  have hcons := h.conserved
  have hlen := h.lengths
  rw [hcreated, hwoken] at hlen
  rw [hwoken] at hcons
  simp only [List.length_nil] at hlen hcons
  by_cases hqueue : s.queue = []
  · rw [hqueue, List.length_nil] at hlen
    omega
  · rcases h.noLost hqueue with hzero | hwoken'
    · omega
    · exact absurd hwoken hwoken'

/-- No two tasks are the same, and a task is in one place only. -/
lemma Inv.nodup (h : Inv n limit s) :
    (s.woken ++ s.running ++ s.ended.map Prod.fst).Nodup := by
  obtain ⟨m, -, -, hperm⟩ := h.places
  exact hperm.nodup_iff.2 List.nodup_range

/-- A task that is inside has not ended. -/
lemma Inv.not_ended {i : ℕ} (h : Inv n limit s) (hi : i ∈ s.running) :
    i ∉ s.ended.map Prod.fst := by
  intro hended
  exact h.nodup.disjoint (List.mem_append_right _ hi) hended

lemma Inv.lt_of_running {i : ℕ} (h : Inv n limit s) (hi : i ∈ s.running) : i < n := by
  obtain ⟨m, hm, -, hperm⟩ := h.places
  have hmem : i ∈ List.range m :=
    hperm.subset (List.mem_append_left _ (List.mem_append_right _ hi))
  exact Nat.lt_of_lt_of_le (List.mem_range.1 hmem) hm

/-- A task that waits was created after every task that has been let in. -/
lemma Inv.fifo {i j : ℕ} (h : Inv n limit s) (hi : i ∈ s.queue ++ s.created)
    (hj : j ∈ s.woken ++ s.running ++ s.ended.map Prod.fst) : j < i := by
  obtain ⟨m, hm, hrest, hperm⟩ := h.places
  have hjm : j < m := List.mem_range.1 (hperm.subset hj)
  rw [hrest, List.range_eq_range', List.drop_range', List.mem_range'_1] at hi
  omega

/-! ## How the tasks end -/

/-- When all tasks are over, each has ended exactly once. -/
lemma Inv.ended_perm (h : Inv n limit s) (hall : s.AllEnded) :
    (s.ended.map Prod.fst).Perm (List.range n) := by
  obtain ⟨m, hm, hrest, hperm⟩ := h.places
  obtain ⟨hc, hq, hw, hr⟩ := hall
  rw [hw, hr, List.nil_append, List.nil_append] at hperm
  have hmn : m = n := by
    have hlen := congrArg List.length hrest
    simp only [hq, hc, List.append_nil, List.length_nil, List.length_drop,
      List.length_range] at hlen
    omega
  exact hmn ▸ hperm

/-- With at least one permit, tasks that can go no further are over. -/
theorem Inv.allEnded_of_stuck (h : Inv n limit s) (hlimit : 0 < limit)
    (hstuck : (machine ε n limit).Stuck s) : s.AllEnded := by
  have hcreated : s.created = [] := by
    cases hc : s.created with
    | nil => rfl
    | cons i rest => simpa [machine, exec, hc] using hstuck .start
  have hwoken : s.woken = [] := by
    rw [List.eq_nil_iff_forall_not_mem]
    intro i hi
    simpa [machine, exec, hi] using hstuck (.wake i)
  have hrunning : s.running = [] := by
    rw [List.eq_nil_iff_forall_not_mem]
    intro i hi
    simpa [machine, exec, hi] using hstuck (.finish i none)
  refine ⟨hcreated, ?_, hwoken, hrunning⟩
  by_contra hqueue
  have hcons := h.conserved
  rw [hwoken, hrunning] at hcons
  simp only [List.length_nil] at hcons
  rcases h.noLost hqueue with hzero | hw
  · omega
  · exact hw hwoken

/-- The steps that the tasks can still take. -/
def measure (s : State ε) : ℕ :=
  3 * s.created.length + 2 * s.queue.length + 2 * s.woken.length + s.running.length

lemma measure_handOut (s : State ε) (j : ℕ) : measure (s.handOut j) = measure s := by
  simp only [measure, State.handOut, List.length_drop, List.length_append, List.length_take]
  omega

lemma measure_lt {l : Label ε} (hexec : exec s l = some t) : measure t < measure s := by
  cases l with
  | start =>
    simp only [exec] at hexec
    split at hexec
    · simp at hexec
    · next i rest hcreated =>
      rw [← Option.some.inj hexec]
      unfold State.acquire
      split <;> simp only [measure, hcreated, List.length_append, List.length_cons,
        List.length_nil] <;> omega
  | wake i =>
    simp only [exec, Option.ite_none_right_eq_some, Option.some.injEq] at hexec
    obtain ⟨hi, rfl⟩ := hexec
    have hpos := List.length_pos_of_mem hi
    rw [measure_handOut]
    simp only [measure, List.length_erase_of_mem hi, List.length_append, List.length_singleton]
    omega
  | finish i failure =>
    simp only [exec, Option.ite_none_right_eq_some, Option.some.injEq] at hexec
    obtain ⟨hi, rfl⟩ := hexec
    have hpos := List.length_pos_of_mem hi
    rw [measure_handOut]
    simp only [measure, List.length_erase_of_mem hi]
    omega

end Gather

end Lib
