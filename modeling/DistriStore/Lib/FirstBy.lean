import Mathlib.Data.List.Basic
import Mathlib.Tactic.Lemma

/-!
# First come, first kept

Out of a list whose elements have keys, `firstBy` keeps for each key the first element that has it,
except for the keys that have been seen before.  What is left under a key is therefore what a search
for the key finds (`filter_firstBy`).
-/

namespace Lib

variable {α κ : Type*} [DecidableEq κ] {key : α → κ} {seen : List κ} {l : List α}

/-- The elements whose keys have neither been seen nor come with an earlier element. -/
def firstBy (key : α → κ) : List κ → List α → List α
  | _, [] => []
  | seen, a :: l => if key a ∈ seen then firstBy key seen l else a :: firstBy key (key a :: seen) l

lemma firstBy_cons_of_mem {a : α} (h : key a ∈ seen) :
    firstBy key seen (a :: l) = firstBy key seen l := if_pos h

lemma firstBy_cons_of_not_mem {a : α} (h : key a ∉ seen) :
    firstBy key seen (a :: l) = a :: firstBy key (key a :: seen) l := if_neg h

lemma firstBy_subset (key : α → κ) (seen : List κ) (l : List α) : firstBy key seen l ⊆ l := by
  induction l generalizing seen with
  | nil => exact List.Subset.refl _
  | cons a l ih =>
    by_cases h : key a ∈ seen
    · rw [firstBy_cons_of_mem h]
      exact List.subset_cons_of_subset a (ih seen)
    · rw [firstBy_cons_of_not_mem h]
      exact List.cons_subset_cons a (ih _)

/-- Under a key that has not been seen stands the first element that has it, and nothing else. -/
theorem filter_firstBy (key : α → κ) (seen : List κ) (l : List α) (k : κ) :
    (firstBy key seen l).filter (fun a => key a = k) =
      if k ∈ seen then [] else (l.find? fun a => key a = k).toList := by
  induction l generalizing seen with
  | nil => simp [firstBy]
  | cons a l ih =>
    by_cases h : key a ∈ seen
    · rw [firstBy_cons_of_mem h, ih]
      by_cases hk : k ∈ seen
      · rw [if_pos hk, if_pos hk]
      · have hne : key a ≠ k := fun heq => hk (heq ▸ h)
        rw [if_neg hk, if_neg hk, List.find?_cons_of_neg (by simpa using hne)]
    · rw [firstBy_cons_of_not_mem h]
      by_cases heq : key a = k
      · subst heq
        rw [List.filter_cons_of_pos (by simp), ih, if_pos (List.mem_cons_self ..), if_neg h,
          List.find?_cons_of_pos (by simp)]
        rfl
      · rw [List.filter_cons_of_neg (by simpa using heq), ih,
          List.find?_cons_of_neg (by simpa using heq)]
        simp only [List.mem_cons, Ne.symm heq, false_or]

end Lib
