import Mathlib.Algebra.GroupWithZero.Nat
import Mathlib.Data.List.Basic
import Mathlib.Tactic.Lemma

/-!
# Lists as tables of objects

Objects that are made one after another and never forgotten stand in a list, and are named by
their places in it.  A new object goes to the end, and an assignment to an object modifies one
place.  The inversions, `getElem?_concat_cases`, `getElem?_modify_cases` and `getElem?_set_cases`,
are what a proof about all objects of a new table needs; `eq_or_mem_set` finds an old object in it.
A table in which no key occurs twice is one whose keys are a list without duplicates
(`nodup_map_filter`).
-/

namespace Lib

variable {α : Type*} {l : List α} {a b : α} {i j : ℕ}

/-- Additions leave the objects where they are. -/
lemma getElem?_append_of_some (h : l[i]? = some a) (l' : List α) : (l ++ l')[i]? = some a := by
  have hi : i < l.length := (List.getElem?_eq_some_iff.1 h).1
  rw [List.getElem?_append_left hi, h]

/-- An object of the longer table is an old one, or the new one at the end. -/
lemma getElem?_concat_cases (h : (l ++ [b])[i]? = some a) :
    l[i]? = some a ∨ i = l.length ∧ a = b := by
  have hi : i < l.length + 1 := by
    simpa using (List.getElem?_eq_some_iff.1 h).1
  by_cases hlast : i = l.length
  · subst hlast
    rw [List.getElem?_concat_length, Option.some.injEq] at h
    exact Or.inr ⟨rfl, h.symm⟩
  · rw [List.getElem?_append_left (by omega)] at h
    exact Or.inl h

/-- An object of the new table is an old one, after the assignment if it was to this place. -/
lemma getElem?_modify_cases {f : α → α} (h : (l.modify i f)[j]? = some b) :
    ∃ a, l[j]? = some a ∧ b = if i = j then f a else a := by
  rw [List.getElem?_modify] at h
  obtain ⟨a, ha, rfl⟩ := Option.map_eq_some_iff.1 h
  exact ⟨a, ha, rfl⟩

/-- What an assignment leaves at a place. -/
lemma getElem?_modify_of_some (f : α → α) (h : l[j]? = some a) :
    (l.modify i f)[j]? = some (if i = j then f a else a) := by
  rw [List.getElem?_modify, h]
  rfl

/-- An object of the new table is the one that was put at the place, or an old one elsewhere. -/
lemma getElem?_set_cases (h : (l.set i b)[j]? = some a) :
    i = j ∧ a = b ∨ i ≠ j ∧ l[j]? = some a := by
  by_cases hij : i = j
  · subst hij
    have hlt : i < l.length := by simpa using (List.getElem?_eq_some_iff.1 h).1
    rw [List.getElem?_set_self hlt, Option.some.injEq] at h
    exact Or.inl ⟨rfl, h.symm⟩
  · rw [List.getElem?_set_ne hij] at h
    exact Or.inr ⟨hij, h⟩

/-- What stands at a place after an object was put somewhere. -/
lemma getElem?_set_of_some (b : α) (h : l[j]? = some a) :
    (l.set i b)[j]? = some (if i = j then b else a) := by
  by_cases hij : i = j
  · subst hij
    rw [List.getElem?_set_self (List.getElem?_eq_some_iff.1 h).1, if_pos rfl]
  · rw [List.getElem?_set_ne hij, h, if_neg hij]

/-- What is not assigned to stays the same in the whole table. -/
lemma map_set_of_eq {β : Type*} {f : α → β} (h : l[i]? = some a) (hf : f b = f a) :
    (l.set i b).map f = l.map f := by
  refine List.ext_getElem? fun j => ?_
  by_cases hij : i = j
  · have hlt : i < l.length := (List.getElem?_eq_some_iff.1 h).1
    rw [List.getElem?_map, List.getElem?_map, ← hij, List.getElem?_set_self hlt, h,
      Option.map_some, Option.map_some, hf]
  · rw [List.getElem?_map, List.getElem?_map, List.getElem?_set_ne hij]

/-- What an assignment adds to a sum over the table. -/
lemma sum_map_set (h : l[i]? = some a) (f : α → ℕ) (b : α) :
    ((l.set i b).map f).sum + f a = (l.map f).sum + f b := by
  induction l generalizing i with
  | nil => cases h
  | cons c l ih =>
    cases i with
    | zero =>
      rw [List.getElem?_cons_zero, Option.some.injEq] at h
      rw [List.set_cons_zero, List.map_cons, List.map_cons, List.sum_cons, List.sum_cons, h]
      omega
    | succ i =>
      rw [List.set_cons_succ, List.map_cons, List.map_cons, List.sum_cons, List.sum_cons,
        Nat.add_assoc, ih (by simpa using h), Nat.add_assoc]

lemma sum_map_modify (h : l[i]? = some a) (f : α → ℕ) (g : α → α) :
    ((l.modify i g).map f).sum + f a = (l.map f).sum + f (g a) := by
  have hset : l.modify i g = l.set i (g a) := by
    refine List.ext_getElem? fun j => ?_
    by_cases hij : i = j
    · subst hij
      rw [getElem?_modify_of_some g h, getElem?_set_of_some (g a) h]
    · rw [List.getElem?_modify_ne _ _ hij, List.getElem?_set_ne hij]
  rw [hset, sum_map_set h]

/-- In a part of a table that has no key twice, whatever determines the key occurs once. -/
lemma nodup_map_filter {β γ : Type*} {key : α → γ} (h : (l.map key).Nodup) {p : α → Bool}
    {f : α → β} (hf : ∀ a b, p a = true → p b = true → f a = f b → key a = key b) :
    ((l.filter p).map f).Nodup := by
  rw [List.Nodup, List.pairwise_map] at h ⊢
  rw [List.pairwise_filter]
  exact h.imp fun hab ha hb heq => hab (hf _ _ ha hb heq)

/-- The part of such a table with a key that occurs is one object. -/
lemma filter_key_eq {γ : Type*} [DecidableEq γ] {key : α → γ} (h : (l.map key).Nodup)
    (ha : a ∈ l) : l.filter (fun b => key b = key a) = [a] := by
  induction l with
  | nil => cases ha
  | cons c l ih =>
    rw [List.map_cons, List.nodup_cons] at h
    have hkey : ∀ b ∈ l, key b ≠ key c := fun b hb heq => h.1 (heq ▸ List.mem_map_of_mem hb)
    rcases List.mem_cons.1 ha with rfl | ha
    · rw [List.filter_cons_of_pos (by simp)]
      exact congrArg _ (List.filter_eq_nil_iff.2 fun b hb => by simpa using hkey b hb)
    · rw [List.filter_cons_of_neg (by simpa using (hkey a ha).symm), ih h.2 ha]

/-- After an assignment to a place, every other object is still there. -/
lemma eq_or_mem_set (h : l[i]? = some a) (hb : b ∈ l) (c : α) : b = a ∨ b ∈ l.set i c := by
  obtain ⟨j, hj⟩ := List.mem_iff_getElem?.1 hb
  by_cases hij : i = j
  · rw [← hij, h, Option.some.injEq] at hj
    exact Or.inl hj.symm
  · have hset : (l.set i c)[j]? = some b := by rw [List.getElem?_set_ne hij, hj]
    exact Or.inr (List.mem_of_getElem? hset)

end Lib
