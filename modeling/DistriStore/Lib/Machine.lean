import Mathlib.Data.List.Basic
import Mathlib.Tactic.Lemma

/-!
# Labelled machines and their runs

A machine is an initial state and a partial step function: a label names everything that is
chosen from outside (which task moves, what arrives, whether an operation fails), and `none`
says that the label is not enabled.  Runs are therefore computed from lists of labels, and a
particular run can be replayed by evaluation.

Four rules carry all arguments about runs.  `Reachable.invariant` is the induction behind a
property of every reachable state.  `always_iff_meets` is its sharp form for a property that
holds only under a condition on the steps taken: if one step preserves the property exactly
when it meets the condition, then the property holds throughout a run exactly when all of
its steps meet the condition; `run_iff_meets` is the form for the end of a run, when a violation is
never made good.  `ReachableBy.progress` builds runs: a goal is reachable when
every state short of it has a step that lowers a measure.
-/

namespace Lib

universe u v

/-- An initial state and a partial step function on labels. -/
structure Machine (σ : Type u) (ℓ : Type v) where
  init : σ
  /-- The state after a step with this label; `none` when the label is not enabled. -/
  exec : σ → ℓ → Option σ

namespace Machine

variable {σ : Type u} {ℓ : Type v} (M : Machine σ ℓ)

/-! ## Runs -/

/-- Execute a list of labels from a state. -/
def run : σ → List ℓ → Option σ
  | s, [] => some s
  | s, l :: ls => (M.exec s l).bind fun t => run t ls

/-- The states that some run from the initial state ends in. -/
def Reachable (s : σ) : Prop := ∃ ls, M.run M.init ls = some s

@[simp] lemma run_nil (s : σ) : M.run s [] = some s := rfl

lemma run_cons (s : σ) (l : ℓ) (ls : List ℓ) :
    M.run s (l :: ls) = (M.exec s l).bind fun t => M.run t ls := rfl

lemma run_append (s : σ) (ls ls' : List ℓ) :
    M.run s (ls ++ ls') = (M.run s ls).bind fun t => M.run t ls' := by
  induction ls generalizing s with
  | nil => rfl
  | cons l ls ih =>
    rw [List.cons_append, run_cons, run_cons]
    cases M.exec s l with
    | none => rfl
    | some t => exact ih t

variable {M}

lemma Reachable.init : M.Reachable M.init := ⟨[], rfl⟩

lemma Reachable.step {s t : σ} {l : ℓ} (hs : M.Reachable s) (h : M.exec s l = some t) :
    M.Reachable t := by
  obtain ⟨ls, hls⟩ := hs
  exact ⟨ls ++ [l], by rw [run_append, hls]; simp [run_cons, h]⟩

/-- What holds of a state and is preserved by every step holds after every run from it. -/
lemma run_invariant {I : σ → Prop} (hstep : ∀ s l t, I s → M.exec s l = some t → I t) :
    ∀ (ls : List ℓ) (s t : σ), I s → M.run s ls = some t → I t
  | [], s, t, hs, h => by
    rw [run_nil, Option.some.injEq] at h
    exact h ▸ hs
  | l :: ls, s, t, hs, h => by
    rw [run_cons, Option.bind_eq_some_iff] at h
    obtain ⟨s', hs', h⟩ := h
    exact run_invariant hstep ls s' t (hstep s l s' hs hs') h

/-- **Invariant rule.** What holds initially and is preserved by every step holds of every
reachable state. -/
theorem Reachable.invariant {I : σ → Prop} {s : σ} (hs : M.Reachable s) (hinit : I M.init)
    (hstep : ∀ s l t, I s → M.exec s l = some t → I t) : I s := by
  obtain ⟨ls, hls⟩ := hs
  exact run_invariant hstep ls _ _ hinit hls

/-- No step is enabled. -/
def Stuck (M : Machine σ ℓ) (s : σ) : Prop := ∀ l, M.exec s l = none

/-- A measure that every step lowers bounds the length of the runs. -/
theorem length_le_of_run {I : σ → Prop} {measure : σ → ℕ}
    (hI : ∀ s l t, I s → M.exec s l = some t → I t)
    (hlt : ∀ s l t, I s → M.exec s l = some t → measure t < measure s) :
    ∀ (ls : List ℓ) (s t : σ), I s → M.run s ls = some t → ls.length + measure t ≤ measure s
  | [], s, t, _, h => by
    rw [run_nil, Option.some.injEq] at h
    simp [h]
  | l :: ls, s, t, hs, h => by
    rw [run_cons, Option.bind_eq_some_iff] at h
    obtain ⟨s', hs', h⟩ := h
    have hrest := length_le_of_run hI hlt ls s' t (hI s l s' hs hs') h
    have hstep := hlt s l s' hs hs'
    rw [List.length_cons]
    omega

/-- A measure that every step lowers bounds the runs of the machine. -/
theorem bounded_of_measure {I : σ → Prop} (measure : σ → ℕ) (hinit : I M.init)
    (hI : ∀ s l t, I s → M.exec s l = some t → I t)
    (hlt : ∀ s l t, I s → M.exec s l = some t → measure t < measure s) :
    ∃ n, ∀ ls s, M.run M.init ls = some s → ls.length ≤ n := by
  refine ⟨measure M.init, fun ls s hs => ?_⟩
  have h := length_le_of_run hI hlt ls M.init s hinit hs
  exact Nat.le_trans (Nat.le_add_right _ _) h

/-- However the steps are chosen, the machine comes to a stop, with result `r`, and it never has
another result. -/
structure Returns {ρ : Type*} (M : Machine σ ℓ) (result : σ → Option ρ) (r : ρ) : Prop where
  only : ∀ s, M.Reachable s → ∀ r', result s = some r' → r' = r
  bounded : ∃ n, ∀ ls s, M.run M.init ls = some s → ls.length ≤ n
  stops : ∀ s, M.Reachable s → M.Stuck s → result s = some r

/-- However the steps are chosen, the machine comes to a stop with a result, and whatever result it
has on the way or then is an allowed one. -/
structure Ends {ρ : Type*} (M : Machine σ ℓ) (result : σ → Option ρ) (allowed : ρ → Prop) :
    Prop where
  sound : ∀ s, M.Reachable s → ∀ r, result s = some r → allowed r
  bounded : ∃ n, ∀ ls s, M.run M.init ls = some s → ls.length ≤ n
  stops : ∀ s, M.Reachable s → M.Stuck s → ∃ r, result s = some r

lemma Ends.imp {ρ : Type*} {result : σ → Option ρ} {allowed allowed' : ρ → Prop}
    (h : M.Ends result allowed) (himp : ∀ r, allowed r → allowed' r) : M.Ends result allowed' :=
  ⟨fun s hs r hr => himp r (h.sound s hs r hr), h.bounded, h.stops⟩

/-! ## Properties along a run -/

variable (M)

/-- `P` holds of every state that the run visits, the first one included. -/
def Always (P : σ → Prop) : σ → List ℓ → Prop
  | s, [] => P s
  | s, l :: ls => P s ∧ ∀ t, M.exec s l = some t → Always P t ls

/-- Every step that the run takes satisfies `C` in the state it is taken in. -/
def Meets (C : σ → ℓ → Prop) : σ → List ℓ → Prop
  | _, [] => True
  | s, l :: ls => ∀ t, M.exec s l = some t → C s l ∧ Meets C t ls

variable {M}

lemma Always.head {P : σ → Prop} {s : σ} {ls : List ℓ} (h : M.Always P s ls) : P s := by
  cases ls with
  | nil => exact h
  | cons l ls => exact h.1

lemma meets_cons {C : σ → ℓ → Prop} {s t : σ} {l : ℓ} {ls : List ℓ} (h : M.exec s l = some t) :
    M.Meets C s (l :: ls) ↔ C s l ∧ M.Meets C t ls := by
  constructor
  · intro hC
    exact hC t h
  · intro hC t' ht'
    rw [h, Option.some.injEq] at ht'
    exact ht' ▸ hC

/-- A condition that holds of all steps. -/
lemma meets_of_forall {C : σ → ℓ → Prop} (h : ∀ s l, C s l) :
    ∀ (s : σ) (ls : List ℓ), M.Meets C s ls
  | _, [] => trivial
  | s, l :: ls => fun t _ => ⟨h s l, meets_of_forall h t ls⟩

/-- A condition on steps that can be decided is decided along a run by running it. -/
instance decidableMeets {C : σ → ℓ → Prop} [∀ s l, Decidable (C s l)] :
    ∀ (s : σ) (ls : List ℓ), Decidable (M.Meets C s ls)
  | _, [] => .isTrue trivial
  | s, l :: ls =>
    match h : M.exec s l with
    | none => .isTrue fun t ht => by simp [h] at ht
    | some t =>
      have := decidableMeets (C := C) t ls
      decidable_of_iff (C s l ∧ M.Meets C t ls) (meets_cons h).symm

lemma meets_append {C : σ → ℓ → Prop} (ls ls' : List ℓ) (s : σ) :
    M.Meets C s (ls ++ ls') ↔ M.Meets C s ls ∧ ∀ t, M.run s ls = some t → M.Meets C t ls' := by
  induction ls generalizing s with
  | nil => simp [Meets]
  | cons l ls ih =>
    cases h : M.exec s l with
    | none => simp [Meets, run_cons, h]
    | some t => rw [List.cons_append, meets_cons h, meets_cons h, ih, run_cons, h, and_assoc]; rfl

/-- A condition on the labels alone. -/
lemma meets_of_forall_mem {C : ℓ → Prop} {ls : List ℓ} (h : ∀ l ∈ ls, C l) (s : σ) :
    M.Meets (fun _ l => C l) s ls := by
  induction ls generalizing s with
  | nil => trivial
  | cons l ls ih =>
    rw [List.forall_mem_cons] at h
    exact fun t _ => ⟨h.1, ih h.2 t⟩

lemma Always.imp {P Q : σ → Prop} (hPQ : ∀ s, P s → Q s) :
    ∀ {s : σ} {ls : List ℓ}, M.Always P s ls → M.Always Q s ls
  | s, [], h => hPQ s h
  | s, _ :: _, h => ⟨hPQ s h.1, fun t ht => Always.imp hPQ (h.2 t ht)⟩

lemma always_and {P Q : σ → Prop} {s : σ} {ls : List ℓ} :
    M.Always (fun s => P s ∧ Q s) s ls ↔ M.Always P s ls ∧ M.Always Q s ls := by
  induction ls generalizing s with
  | nil => exact Iff.rfl
  | cons l ls ih =>
    constructor
    · rintro ⟨hs, h⟩
      exact ⟨⟨hs.1, fun t ht => (ih.1 (h t ht)).1⟩, hs.2, fun t ht => (ih.1 (h t ht)).2⟩
    · rintro ⟨⟨hP, h⟩, hQ, h'⟩
      exact ⟨⟨hP, hQ⟩, fun t ht => ih.2 ⟨h t ht, h' t ht⟩⟩

/-- What is the same in all states of a run is the same throughout it. -/
lemma Always.congr {I P Q : σ → Prop} {s : σ} {ls : List ℓ} (hI : M.Always I s ls)
    (hPQ : ∀ s, I s → (P s ↔ Q s)) : M.Always P s ls ↔ M.Always Q s ls := by
  constructor
  · exact fun h => (always_and.2 ⟨hI, h⟩).imp fun s hs => (hPQ s hs.1).1 hs.2
  · exact fun h => (always_and.2 ⟨hI, h⟩).imp fun s hs => (hPQ s hs.1).2 hs.2

/-- What holds throughout a run holds of the state the run ends in. -/
lemma Always.last {P : σ → Prop} :
    ∀ {s t : σ} {ls : List ℓ}, M.Always P s ls → M.run s ls = some t → P t
  | s, t, [], h, hrun => by
    rw [run_nil, Option.some.injEq] at hrun
    exact hrun ▸ h
  | s, t, l :: ls, h, hrun => by
    rw [run_cons, Option.bind_eq_some_iff] at hrun
    obtain ⟨s', hs', hrun⟩ := hrun
    exact Always.last (h.2 s' hs') hrun

/-- **Conditional invariant rule.** An invariant that steps preserve when they meet `C` holds
throughout every run whose steps all meet `C`. -/
theorem always_of_meets {I : σ → Prop} {C : σ → ℓ → Prop}
    (hstep : ∀ s l t, I s → M.exec s l = some t → C s l → I t) :
    ∀ {s : σ} {ls : List ℓ}, I s → M.Meets C s ls → M.Always I s ls
  | _, [], hs, _ => hs
  | s, l :: _, hs, hC =>
    ⟨hs, fun t ht => always_of_meets hstep (hstep s l t hs ht (hC t ht).1) (hC t ht).2⟩

/-- **Exact conditional rule.** In a run whose steps all meet `Q`: if a step from a state with `P`
keeps `P` exactly when it meets `C`, then `P` holds throughout exactly when all steps meet `C`.  `I`
is an invariant of these steps that the step lemma may use. -/
theorem always_iff_meets_of {I P : σ → Prop} {Q C : σ → ℓ → Prop}
    (hI : ∀ s l t, I s → M.exec s l = some t → Q s l → I t)
    (hstep : ∀ s l t, I s → P s → M.exec s l = some t → Q s l → (P t ↔ C s l)) :
    ∀ {s : σ} {ls : List ℓ}, I s → P s → M.Meets Q s ls → (M.Always P s ls ↔ M.Meets C s ls)
  | _, [], _, hP, _ => ⟨fun _ => trivial, fun _ => hP⟩
  | s, l :: ls, hs, hP, hQ => by
    constructor
    · rintro ⟨-, h⟩ t ht
      have hPt : P t := (h t ht).head
      exact ⟨(hstep s l t hs hP ht (hQ t ht).1).1 hPt,
        (always_iff_meets_of hI hstep (hI s l t hs ht (hQ t ht).1) hPt (hQ t ht).2).1 (h t ht)⟩
    · intro h
      refine ⟨hP, fun t ht => ?_⟩
      have hPt : P t := (hstep s l t hs hP ht (hQ t ht).1).2 (h t ht).1
      exact (always_iff_meets_of hI hstep (hI s l t hs ht (hQ t ht).1) hPt (hQ t ht).2).2 (h t ht).2

/-- The same for all runs. -/
theorem always_iff_meets {I P : σ → Prop} {C : σ → ℓ → Prop}
    (hI : ∀ s l t, I s → M.exec s l = some t → I t)
    (hstep : ∀ s l t, I s → P s → M.exec s l = some t → (P t ↔ C s l)) {s : σ} {ls : List ℓ}
    (hs : I s) (hP : P s) : M.Always P s ls ↔ M.Meets C s ls :=
  always_iff_meets_of (Q := fun _ _ => True) (fun s l t hs ht _ => hI s l t hs ht)
    (fun s l t hs hP ht _ => hstep s l t hs hP ht) hs hP (meets_of_forall (fun _ _ => trivial) s ls)

/-- **Exact rule for what cannot be made good.** If a step that satisfies `Q` keeps `I`, and leads to
a state with `P` exactly when it starts in one and meets `C`, then a run of such steps ends in a
state with `P` exactly when it starts in one and all its steps meet `C`. -/
theorem run_iff_meets {I P : σ → Prop} {Q C : σ → ℓ → Prop}
    (hstep : ∀ s l t, I s → M.exec s l = some t → Q s l → I t ∧ (P t ↔ P s ∧ C s l)) :
    ∀ {ls : List ℓ} {s t : σ}, I s → M.Meets Q s ls → M.run s ls = some t →
      I t ∧ (P t ↔ P s ∧ M.Meets C s ls)
  | [], s, t, hs, _, hrun => by
    rw [run_nil, Option.some.injEq] at hrun
    subst hrun
    exact ⟨hs, by simp [Meets]⟩
  | l :: ls, s, t, hs, hQ, hrun => by
    rw [run_cons, Option.bind_eq_some_iff] at hrun
    obtain ⟨s', hs', hrun⟩ := hrun
    rw [meets_cons hs'] at hQ
    obtain ⟨hI, hP⟩ := hstep s l s' hs hs' hQ.1
    obtain ⟨ht, hiff⟩ := run_iff_meets hstep hI hQ.2 hrun
    exact ⟨ht, by rw [hiff, hP, meets_cons hs', and_assoc]⟩

/-! ## Reachability under a condition -/

section ReachableBy

variable (M)

/-- The states that some run whose steps all satisfy `C` ends in. -/
def ReachableBy (C : σ → ℓ → Prop) (s : σ) : Prop :=
  ∃ ls, M.Meets C M.init ls ∧ M.run M.init ls = some s

variable {M} {C : σ → ℓ → Prop}

lemma ReachableBy.init : M.ReachableBy C M.init := ⟨[], trivial, rfl⟩

lemma ReachableBy.step {s t : σ} {l : ℓ} (hs : M.ReachableBy C s) (h : M.exec s l = some t)
    (hC : C s l) : M.ReachableBy C t := by
  obtain ⟨ls, hmeets, hls⟩ := hs
  refine ⟨ls ++ [l], ?_, by rw [run_append, hls]; simp [run_cons, h]⟩
  rw [meets_append]
  refine ⟨hmeets, fun s' hs' => ?_⟩
  rw [hls, Option.some.injEq] at hs'
  exact hs' ▸ (meets_cons h).2 ⟨hC, trivial⟩

lemma ReachableBy.reachable {s : σ} (hs : M.ReachableBy C s) : M.Reachable s := by
  obtain ⟨ls, -, hls⟩ := hs
  exact ⟨ls, hls⟩

/-- What holds initially and is preserved by the steps with `C` holds of every state that a run
of such steps reaches. -/
theorem ReachableBy.invariant {I : σ → Prop} {s : σ} (hs : M.ReachableBy C s) (hinit : I M.init)
    (hstep : ∀ s l t, I s → M.exec s l = some t → C s l → I t) : I s := by
  obtain ⟨ls, hmeets, hls⟩ := hs
  exact (always_of_meets hstep hinit hmeets).last hls

/-- **Progress rule.** If from every state with `I` short of the goal some step with `C` keeps
`I` and lowers the measure, then from each of them the goal can be reached. -/
theorem ReachableBy.progress {I G : σ → Prop} (measure : σ → ℕ)
    (hstep : ∀ s, I s → ¬ G s →
      ∃ l t, C s l ∧ M.exec s l = some t ∧ I t ∧ measure t < measure s)
    {s : σ} (hs : M.ReachableBy C s) (hI : I s) : ∃ t, M.ReachableBy C t ∧ I t ∧ G t := by
  induction hn : measure s using Nat.strongRecOn generalizing s with
  | ind n ih =>
    by_cases hG : G s
    · exact ⟨s, hs, hI, hG⟩
    · obtain ⟨l, t, hC, ht, hIt, hlt⟩ := hstep s hI hG
      exact ih (measure t) (hn ▸ hlt) (hs.step ht hC) hIt rfl

end ReachableBy

/-! ## Runs that go on from a state -/

section Restricted

/-- The runs from a state that have only labels with `C`. -/
def restrict (M : Machine σ ℓ) (C : ℓ → Prop) [DecidablePred C] (s : σ) : Machine σ ℓ where
  init := s
  exec t l := if C l then M.exec t l else none

variable {C : ℓ → Prop} [DecidablePred C] {s t u : σ} {l : ℓ}

lemma exec_restrict_eq_some : (M.restrict C s).exec t l = some u ↔ C l ∧ M.exec t l = some u :=
  Option.ite_none_right_eq_some

/-- What such a run reaches from a reachable state is reachable. -/
lemma Reachable.of_restrict (hs : M.Reachable s) (ht : (M.restrict C s).Reachable t) :
    M.Reachable t :=
  ht.invariant hs fun _ _ _ hu h => hu.step (exec_restrict_eq_some.1 h).2

end Restricted

/-! ## Observers -/

section Observed

variable {γ : Type*}

/-- The machine with a history variable: an observer sees every step and has no influence on
it. -/
def observed (M : Machine σ ℓ) (g : γ) (observe : γ → σ → ℓ → σ → γ) : Machine (σ × γ) ℓ where
  init := (M.init, g)
  exec x l := (M.exec x.1 l).map fun t => (t, observe x.2 x.1 l t)

variable {g : γ} {observe : γ → σ → ℓ → σ → γ}

lemma exec_observed {x y : σ × γ} {l : ℓ} (h : (M.observed g observe).exec x l = some y) :
    M.exec x.1 l = some y.1 ∧ y.2 = observe x.2 x.1 l y.1 := by
  obtain ⟨t, ht, rfl⟩ := Option.map_eq_some_iff.1 h
  exact ⟨ht, rfl⟩

end Observed

end Machine

end Lib
