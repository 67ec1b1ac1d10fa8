import Mathlib.Data.List.Sort
import Mathlib.Tactic.Lemma

/-!
# Stable sorting by a key

`sortBy key l` orders a list by a key and keeps elements with equal keys in the order they had.
Its result is a permutation of the input in non-decreasing key order.  When the keys of some
arrangement are strictly increasing, every permutation of it sorts back to that arrangement
(`sortBy_eq_of_perm`), which is how a shuffled sequence of numbered pieces is put together again.
With distinct keys the result does not depend on the order of the input (`sortBy_congr_of_perm`),
and the first elements of the result are the least ones (`le_of_mem_take_of_mem_drop`), so that
bounds on them can be read off the unsorted list (`forall_mem_take_lt_iff`,
`forall_mem_take_gt_iff`).
-/

namespace Lib

universe u v

variable {α : Type u} {κ : Type v} [LinearOrder κ]

/-- Sort by a key; elements with equal keys keep their order. -/
def sortBy (key : α → κ) (l : List α) : List α :=
  l.insertionSort fun a b => key a ≤ key b

section

variable (key : α → κ)

@[simp] lemma sortBy_nil : sortBy key [] = [] := rfl

lemma sortBy_perm (l : List α) : (sortBy key l).Perm l := List.perm_insertionSort _ l

@[simp] lemma mem_sortBy {l : List α} {a : α} : a ∈ sortBy key l ↔ a ∈ l :=
  (sortBy_perm key l).mem_iff

@[simp] lemma length_sortBy (l : List α) : (sortBy key l).length = l.length :=
  (sortBy_perm key l).length_eq

lemma pairwise_sortBy (l : List α) : (sortBy key l).Pairwise fun a b => key a ≤ key b := by
  have : Std.Total fun a b : α => key a ≤ key b := ⟨fun a b => le_total (key a) (key b)⟩
  have : IsTrans α fun a b : α => key a ≤ key b := ⟨fun _ _ _ => le_trans⟩
  exact List.pairwise_insertionSort _ l

/-- Sorting commutes with a map that keeps the keys. -/
lemma map_sortBy {β : Type*} (f : α → β) (key' : β → κ) (hf : ∀ a, key' (f a) = key a)
    (l : List α) : (sortBy key l).map f = sortBy key' (l.map f) :=
  List.map_insertionSort _ _ f l fun a _ b _ => by rw [hf, hf]

/-- A list in strictly increasing key order is what every permutation of it sorts to. -/
lemma sortBy_eq_of_perm {l l' : List α} (h : l.Perm l')
    (hl' : l'.Pairwise fun a b => key a < key b) : sortBy key l = l' := by
  have hle : l'.Pairwise fun a b => key a ≤ key b := hl'.imp fun h => h.le
  refine List.Perm.eq_of_pairwise ?_ (pairwise_sortBy key l) hle ((sortBy_perm key l).trans h)
  intro a b ha hb hab hba
  have ha' : a ∈ l' := h.mem_iff.1 ((mem_sortBy key).1 ha)
  have hinj := List.pairwise_iff_getElem.1 hl'
  obtain ⟨i, hi, rfl⟩ := List.getElem_of_mem ha'
  obtain ⟨j, hj, rfl⟩ := List.getElem_of_mem hb
  rcases lt_trichotomy i j with hij | hij | hij
  · exact absurd (hinj i j hi hj hij) (not_lt.2 hba)
  · simp only [hij]
  · exact absurd (hinj j i hj hi hij) (not_lt.2 hab)

/-- Distinct keys sort to the same list from every order. -/
lemma sortBy_congr_of_perm {l l' : List α} (h : l.Perm l') (hl' : (l'.map key).Nodup) :
    sortBy key l = sortBy key l' := by
  refine sortBy_eq_of_perm key (h.trans (sortBy_perm key l').symm) ?_
  have hne : (sortBy key l').Pairwise fun a b => key a ≠ key b :=
    List.pairwise_map.1 (((sortBy_perm key l').map key).nodup_iff.2 hl')
  exact ((pairwise_sortBy key l').and hne).imp fun hab => lt_of_le_of_ne hab.1 hab.2

/-- What a sorted list is cut off after is not greater than what is cut off. -/
lemma le_of_mem_take_of_mem_drop {l : List α} {k : ℕ} {a b : α} (ha : a ∈ (sortBy key l).take k)
    (hb : b ∈ (sortBy key l).drop k) : key a ≤ key b := by
  have hsorted := pairwise_sortBy key l
  rw [← List.take_append_drop k (sortBy key l), List.pairwise_append] at hsorted
  exact hsorted.2.2 a ha b hb

private lemma forall_mem_take_lt_iff_of_pairwise {l : List α} (k : ℕ) {b : κ}
    (h : l.Pairwise fun a b => key a ≤ key b) :
    (∀ a ∈ l.take k, key a < b) ↔ min k l.length ≤ (l.filter fun a => key a < b).length := by
  induction l generalizing k with
  | nil => simp
  | cons a l ih =>
    obtain ⟨ha, hl⟩ := List.pairwise_cons.1 h
    cases k with
    | zero => simp
    | succ k =>
      rw [List.take_succ_cons, List.forall_mem_cons, ih k hl, List.length_cons, Nat.succ_min_succ]
      by_cases hb : key a < b
      · rw [List.filter_cons_of_pos (by simpa using hb), List.length_cons, Nat.succ_le_succ_iff]
        exact and_iff_right hb
      · have hnone : (l.filter fun a => key a < b) = [] :=
          List.filter_eq_nil_iff.2 fun a' ha' => by
            simpa using (not_lt.1 hb).trans (ha a' ha')
        rw [List.filter_cons_of_neg (by simpa using hb), hnone]
        simp [hb]

/-- The first elements of the result are below a bound when that many elements of the input are. -/
lemma forall_mem_take_lt_iff {l : List α} {k : ℕ} {b : κ} :
    (∀ a ∈ (sortBy key l).take k, key a < b) ↔
      min k l.length ≤ (l.filter fun a => key a < b).length := by
  rw [forall_mem_take_lt_iff_of_pairwise key k (pairwise_sortBy key l), length_sortBy,
    ((sortBy_perm key l).filter _).length_eq]

/-- The first elements of the result are above a bound when all elements of the input are. -/
lemma forall_mem_take_gt_iff {l : List α} {k : ℕ} {b : κ} (hk : k ≠ 0) :
    (∀ a ∈ (sortBy key l).take k, b < key a) ↔ ∀ a ∈ l, b < key a := by
  constructor
  · intro h a ha
    rw [← mem_sortBy key, ← List.take_append_drop k (sortBy key l), List.mem_append] at ha
    rcases ha with ha | ha
    · exact h a ha
    · -- the first element is among them and not greater
      cases hs : sortBy key l with
      | nil => simp [hs] at ha
      | cons a₀ rest =>
        have ha₀ : a₀ ∈ (sortBy key l).take k := by
          obtain ⟨k, rfl⟩ := Nat.exists_eq_succ_of_ne_zero hk
          simp [hs]
        exact (h a₀ ha₀).trans_le (le_of_mem_take_of_mem_drop key ha₀ ha)
  · exact fun h a ha => h a ((mem_sortBy key).1 (List.mem_of_mem_take ha))

end

end Lib
