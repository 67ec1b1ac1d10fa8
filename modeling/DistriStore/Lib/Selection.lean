import DistriStore.Lib.Dict
import DistriStore.Lib.Table

/-!
# A table without some of its objects

Objects are named by their places in a table.  In the table of only those with a property an object
has another place, the number of such objects before it (`rank`).  Assignments and additions to the
table are assignments and additions to the smaller one, or are not seen there
(`filter_modify_rank`, `filter_modify_of_not`).

A dictionary of which only one key is left is `Dict.single`.
-/

namespace Lib

section Table

variable {α β : Type*} {p : α → Bool} {l : List α} {a : α} {i j : ℕ} {f : α → α}

/-- How many objects with the property stand before this place. -/
def rank (p : α → Bool) (l : List α) (i : ℕ) : ℕ := (l.take i).countP p

@[simp] lemma rank_zero (p : α → Bool) (l : List α) : rank p l 0 = 0 := rfl

lemma rank_cons_succ (p : α → Bool) (b : α) (l : List α) (i : ℕ) :
    rank p (b :: l) (i + 1) = rank p l i + if p b then 1 else 0 := by
  rw [rank, List.take_succ_cons, List.countP_cons]
  rfl

lemma rank_length (p : α → Bool) (l : List α) : rank p l l.length = (l.filter p).length := by
  rw [rank, List.take_length, List.countP_eq_length_filter]

lemma rank_append (p : α → Bool) (l' : List α) (hi : i ≤ l.length) :
    rank p (l ++ l') i = rank p l i := by
  rw [rank, List.take_append_of_le_length hi, rank]

/-- Assignments that keep the property keep the places. -/
lemma rank_modify (hf : ∀ b, l[j]? = some b → p (f b) = p b) :
    rank p (l.modify j f) i = rank p l i := by
  induction l generalizing i j with
  | nil => rw [List.modify_nil]
  | cons b l ih =>
    cases i with
    | zero => rfl
    | succ i =>
      cases j with
      | zero => rw [List.modify_zero_cons, rank_cons_succ, rank_cons_succ, hf b rfl]
      | succ j => rw [List.modify_succ_cons, rank_cons_succ, rank_cons_succ, ih hf]

/-- An object with the property is found at its new place. -/
lemma getElem?_filter_rank (h : l[i]? = some a) (ha : p a = true) :
    (l.filter p)[rank p l i]? = some a := by
  induction l generalizing i with
  | nil => cases h
  | cons b l ih =>
    cases i with
    | zero =>
      obtain rfl : b = a := Option.some.inj h
      rw [List.filter_cons_of_pos ha]
      rfl
    | succ i =>
      rw [rank_cons_succ]
      by_cases hb : p b = true
      · rw [List.filter_cons_of_pos hb, if_pos hb, List.getElem?_cons_succ]
        exact ih h
      · rw [List.filter_cons_of_neg hb, if_neg hb]
        exact ih h

/-- Every object of the smaller table has its place in the table. -/
lemma exists_rank_eq (h : (l.filter p)[j]? = some a) :
    ∃ i, l[i]? = some a ∧ p a = true ∧ rank p l i = j := by
  induction l generalizing j with
  | nil => cases h
  | cons b l ih =>
    by_cases hb : p b = true
    · rw [List.filter_cons_of_pos hb] at h
      cases j with
      | zero =>
        obtain rfl : b = a := Option.some.inj h
        exact ⟨0, rfl, hb, rfl⟩
      | succ j =>
        obtain ⟨i, hi, ha, hrank⟩ := ih h
        exact ⟨i + 1, hi, ha, by rw [rank_cons_succ, if_pos hb, hrank]⟩
    · rw [List.filter_cons_of_neg hb] at h
      obtain ⟨i, hi, ha, hrank⟩ := ih h
      exact ⟨i + 1, hi, ha, by rw [rank_cons_succ, if_neg hb, hrank, Nat.add_zero]⟩

/-- An assignment to an object with the property. -/
lemma filter_modify_rank (h : l[i]? = some a) (ha : p a = true) (hf : p (f a) = true) :
    (l.modify i f).filter p = (l.filter p).modify (rank p l i) f := by
  induction l generalizing i with
  | nil => cases h
  | cons b l ih =>
    cases i with
    | zero =>
      obtain rfl : b = a := Option.some.inj h
      rw [List.modify_zero_cons, List.filter_cons_of_pos hf, List.filter_cons_of_pos ha, rank_zero,
        List.modify_zero_cons]
    | succ i =>
      rw [List.modify_succ_cons, rank_cons_succ]
      by_cases hb : p b = true
      · rw [List.filter_cons_of_pos hb, List.filter_cons_of_pos hb, if_pos hb,
          List.modify_succ_cons, ih h]
      · rw [List.filter_cons_of_neg hb, List.filter_cons_of_neg hb, if_neg hb]
        exact ih h

/-- An assignment to an object without it. -/
lemma filter_modify_of_not (h : ∀ b, l[i]? = some b → p b = false ∧ p (f b) = false) :
    (l.modify i f).filter p = l.filter p := by
  induction l generalizing i with
  | nil => rw [List.modify_nil]
  | cons b l ih =>
    cases i with
    | zero =>
      obtain ⟨hb, hfb⟩ := h b rfl
      rw [List.modify_zero_cons, List.filter_cons_of_neg (by simp [hfb]),
        List.filter_cons_of_neg (by simp [hb])]
    | succ i => rw [List.modify_succ_cons, List.filter_cons, List.filter_cons, ih h]

lemma filter_concat_of_pos (ha : p a = true) : (l ++ [a]).filter p = l.filter p ++ [a] := by
  rw [List.filter_append, List.filter_cons_of_pos ha, List.filter_nil]

lemma filter_concat_of_not (ha : p a = false) : (l ++ [a]).filter p = l.filter p := by
  rw [List.filter_append, List.filter_cons_of_neg (by simp [ha]), List.filter_nil,
    List.append_nil]

/-- An assignment is seen through a map that it commutes with. -/
lemma map_modify_comm {g : α → β} {f' : β → β} (h : ∀ a, g (f a) = f' (g a)) :
    (l.modify i f).map g = (l.map g).modify i f' := by
  induction l generalizing i with
  | nil => rw [List.modify_nil, List.map_nil, List.modify_nil]
  | cons b l ih =>
    cases i with
    | zero => rw [List.modify_zero_cons, List.map_cons, h, List.map_cons, List.modify_zero_cons]
    | succ i => rw [List.modify_succ_cons, List.map_cons, ih, List.map_cons, List.modify_succ_cons]

end Table

namespace Dict

variable {κ υ : Type*} [DecidableEq κ]

/-- A dictionary with one key at most. -/
def single (k : κ) : Option υ → Dict κ υ
  | none => ∅
  | some v => (∅ : Dict κ υ).set k v

@[simp] lemma get?_single (k : κ) (o : Option υ) : (single k o).get? k = o := by
  cases o with
  | none => rfl
  | some v => exact get?_set_self _ k v

@[simp] lemma set_single (k : κ) (o : Option υ) (v : υ) :
    (single k o).set k v = single k (some v) := by
  cases o with
  | none => rfl
  | some w => simp [single, set, setEntries, EmptyCollection.emptyCollection, empty]

@[simp] lemma erase_single (k : κ) (o : Option υ) : (single k o).erase k = single k none := by
  cases o with
  | none => rfl
  | some v => simp [single, set, erase, setEntries, EmptyCollection.emptyCollection, empty]

lemma values_single (k : κ) (o : Option υ) : (single k o).values = o.toList := by
  cases o <;> rfl

/-- The entries with this key are one or none. -/
lemma filter_entries_eq (d : Dict κ υ) (k : κ) :
    d.entries.filter (fun e => e.1 = k) = (d.get? k).toList.map fun v => (k, v) := by
  cases hget : d.get? k with
  | none =>
    refine List.filter_eq_nil_iff.2 fun e he => ?_
    have hne : e.1 ≠ k := by
      rintro rfl
      have hsome : d.get? e.1 = some e.2 := get?_of_mem_entries he
      rw [hget] at hsome
      cases hsome
    simpa using hne
  | some v =>
    have hmem : (k, v) ∈ d.entries := mem_entries_of_get? hget
    have hnodup : (d.entries.map Prod.fst).Nodup := d.nodupKeys
    exact filter_key_eq hnodup hmem

end Dict

end Lib
