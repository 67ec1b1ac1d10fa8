import Mathlib.Data.List.Nodup
import Mathlib.Data.List.Range
import Mathlib.Tactic.Lemma

/-!
# Work that is split into what is missing and what is done

Two lists split a collection when they list its members once, each in exactly one of the two.
Progress moves one member from the first list to the second (`Splits.move`); the move may be
repeated, and it may come late, after somebody else has made it.
-/

namespace Lib

universe u

variable {α : Type u}

/-- `missing` and `completed` together list the members of `S`, each once. -/
structure Splits (S : α → Prop) (missing completed : List α) : Prop where
  nodup_missing : missing.Nodup
  nodup_completed : completed.Nodup
  disjoint : ∀ a ∈ missing, a ∉ completed
  cover : ∀ a, a ∈ missing ∨ a ∈ completed ↔ S a

namespace Splits

variable {S : α → Prop} {missing completed : List α}

lemma of_missing (h : missing.Nodup) (hS : ∀ a, a ∈ missing ↔ S a) : Splits S missing [] where
  nodup_missing := h
  nodup_completed := List.nodup_nil
  disjoint a _ := List.not_mem_nil
  cover a := by simpa using hS a

/-- Every member may be reported as done, whether or not it was before. -/
lemma move [DecidableEq α] (h : Splits S missing completed) {a : α} (ha : S a) :
    Splits S (if a ∈ missing then missing.erase a else missing)
      (if a ∈ completed then completed else completed ++ [a]) := by
  by_cases hm : a ∈ missing
  · have hc : a ∉ completed := h.disjoint a hm
    rw [if_pos hm, if_neg hc]
    refine ⟨h.nodup_missing.erase a, ?_, fun b hb => ?_, fun b => ?_⟩
    · exact h.nodup_completed.append (List.nodup_singleton a) (by simpa using hc)
    · have hne : b ≠ a := ((h.nodup_missing.mem_erase_iff).1 hb).1
      simpa [hne] using h.disjoint b (List.mem_of_mem_erase hb)
    · rw [h.nodup_missing.mem_erase_iff, List.mem_append, List.mem_singleton, ← h.cover]
      by_cases hba : b = a
      · simp [hba, hm]
      · simp [hba]
  · have hc : a ∈ completed := ((h.cover a).2 ha).resolve_left hm
    rw [if_neg hm, if_pos hc]
    exact h

end Splits

end Lib
