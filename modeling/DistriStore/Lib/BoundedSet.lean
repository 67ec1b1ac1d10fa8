import Mathlib.Data.Finset.Card
import Mathlib.Tactic.Lemma

/-!
# A set of bounded size that forgets

A set that takes every element, and pops one when it has grown beyond its capacity.  Which one is
not specified: the choice is an argument, and it may be the element that has just been added.  The
set has what was added and not popped since (`mem_addBounded`), and it pops nothing as long as it
fits (`popped_eq_none`).
-/

namespace Lib

variable {α : Type*} [DecidableEq α]

/-- The set after `add`, with one element popped if it is larger than the capacity then; `none` if
`popped` is not such a choice. -/
def addBounded (capacity : ℕ) (seen : Finset α) (a : α) (popped : Option α) :
    Option (Finset α) :=
  match popped with
  | none => if (insert a seen).card ≤ capacity then some (insert a seen) else none
  | some b =>
    if capacity < (insert a seen).card ∧ b ∈ insert a seen then some ((insert a seen).erase b)
    else none

variable {capacity : ℕ} {seen seen' : Finset α} {a b : α} {popped : Option α}

/-- What the set has, and which elements can be popped. -/
lemma mem_addBounded (h : addBounded capacity seen a popped = some seen') :
    (∀ x, x ∈ seen' ↔ (x = a ∨ x ∈ seen) ∧ x ∉ popped) ∧ ∀ x ∈ popped, x = a ∨ x ∈ seen := by
  cases popped with
  | none =>
    obtain ⟨-, h⟩ := Option.ite_none_right_eq_some.1 h
    cases h
    exact ⟨fun x => by simp, fun x hx => by cases hx⟩
  | some b =>
    obtain ⟨⟨-, hb⟩, h⟩ := Option.ite_none_right_eq_some.1 h
    cases h
    refine ⟨fun x => ?_, fun x hx => ?_⟩
    · rw [Finset.mem_erase, Finset.mem_insert, Option.mem_some_iff, and_comm, ne_comm]
    · rw [← Option.mem_some_iff.1 hx]
      exact Finset.mem_insert.1 hb

/-- It stays within its capacity. -/
lemma card_addBounded_le (hseen : seen.card ≤ capacity)
    (h : addBounded capacity seen a popped = some seen') : seen'.card ≤ capacity := by
  cases popped with
  | none =>
    obtain ⟨hle, h⟩ := Option.ite_none_right_eq_some.1 h
    cases h
    exact hle
  | some b =>
    obtain ⟨⟨-, hb⟩, h⟩ := Option.ite_none_right_eq_some.1 h
    cases h
    have hinsert : (insert a seen).card ≤ seen.card + 1 := Finset.card_insert_le a seen
    rw [Finset.card_erase_of_mem hb]
    omega

/-- Within the capacity nothing is popped. -/
lemma popped_eq_none (hcard : (insert a seen).card ≤ capacity)
    (h : addBounded capacity seen a popped = some seen') : popped = none := by
  cases popped with
  | none => rfl
  | some b =>
    obtain ⟨⟨hlt, -⟩, -⟩ := Option.ite_none_right_eq_some.1 h
    omega

lemma addBounded_of_card_lt (h : seen.card < capacity) :
    addBounded capacity seen a none = some (insert a seen) :=
  if_pos ((Finset.card_insert_le a seen).trans h)

/-- There is always a choice. -/
lemma exists_addBounded (capacity : ℕ) (seen : Finset α) (a : α) :
    ∃ popped seen', addBounded capacity seen a popped = some seen' := by
  by_cases hle : (insert a seen).card ≤ capacity
  · exact ⟨none, _, if_pos hle⟩
  · exact ⟨some a, _, if_pos ⟨not_le.1 hle, Finset.mem_insert_self a seen⟩⟩

/-- A full set may pop the very element that it has just taken. -/
lemma addBounded_self (hcard : seen.card = capacity) (ha : a ∉ seen) :
    addBounded capacity seen a (some a) = some seen := by
  have hgrown : (insert a seen).card = seen.card + 1 := Finset.card_insert_of_notMem ha
  rw [addBounded, if_pos ⟨by omega, Finset.mem_insert_self a seen⟩, Finset.erase_insert ha]

end Lib
