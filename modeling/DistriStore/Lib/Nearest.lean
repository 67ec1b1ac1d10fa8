import Mathlib.Data.Finset.Card
import Mathlib.Data.Finset.Max
import Mathlib.Tactic.Lemma
import DistriStore.Lib.SortBy

/-!
# The nearest members of a set

`nearest k key s` are the members of a finite set that fewer than `k` members precede in the order
of a key.  With distinct keys it is what is left of a sorted list when it is cut off after `k`
entries (`mem_take_sortBy_iff`).

The nearest members change little when the set does: members that leave displace nobody else, and
those that come at most as many as they are (`card_displaced_le`).
-/

namespace Lib

variable {α κ : Type*} [DecidableEq α] [LinearOrder κ] {key : α → κ} {k k' : ℕ} {s t : Finset α}
  {a b : α}

/-- The members that precede `a`. -/
def before (key : α → κ) (s : Finset α) (a : α) : Finset α := s.filter fun b => key b < key a

/-- The members that fewer than `k` members precede. -/
def nearest (k : ℕ) (key : α → κ) (s : Finset α) : Finset α :=
  s.filter fun a => (before key s a).card < k

omit [DecidableEq α] in
lemma mem_before : b ∈ before key s a ↔ b ∈ s ∧ key b < key a := Finset.mem_filter

omit [DecidableEq α] in
lemma mem_nearest : a ∈ nearest k key s ↔ a ∈ s ∧ (before key s a).card < k := Finset.mem_filter

omit [DecidableEq α] in
lemma nearest_subset : nearest k key s ⊆ s := Finset.filter_subset _ _

omit [DecidableEq α] in
lemma nearest_mono (h : k ≤ k') : nearest k key s ⊆ nearest k' key s := by
  intro a ha
  rw [mem_nearest] at ha ⊢
  exact ⟨ha.1, Nat.lt_of_lt_of_le ha.2 h⟩

omit [DecidableEq α] in
/-- What precedes one of the nearest is one of them. -/
lemma mem_nearest_of_lt (ha : a ∈ nearest k key s) (hb : b ∈ s) (h : key b < key a) :
    b ∈ nearest k key s := by
  rw [mem_nearest] at ha ⊢
  refine ⟨hb, Nat.lt_of_le_of_lt (Finset.card_le_card fun c hc => ?_) ha.2⟩
  rw [mem_before] at hc ⊢
  exact ⟨hc.1, hc.2.trans h⟩

/-- There are at most `k` nearest members when the keys are distinct. -/
lemma card_nearest_le (hkey : Set.InjOn key s) : (nearest k key s).card ≤ k := by
  by_cases hempty : (nearest k key s).Nonempty
  · -- the last of them is preceded by all the others
    obtain ⟨a, ha, hmax⟩ := Finset.exists_max_image (nearest k key s) key hempty
    have hsub : (nearest k key s).erase a ⊆ before key s a := by
      intro b hb
      obtain ⟨hne, hb⟩ := Finset.mem_erase.1 hb
      refine mem_before.2 ⟨nearest_subset hb, lt_of_le_of_ne (hmax b hb) fun heq => hne ?_⟩
      exact hkey (nearest_subset hb) (nearest_subset ha) heq
    have hcard := Finset.card_le_card hsub
    rw [Finset.card_erase_of_mem ha] at hcard
    have hlt := (mem_nearest.1 ha).2
    omega
  · rw [Finset.not_nonempty_iff_eq_empty.1 hempty]
    exact Nat.zero_le k

/-- **Who comes displaces at most one.** Of the nearest members of `s` that are still there in
`t`, at most as many are no longer among the nearest as there are new members. -/
theorem card_displaced_le (hkey : Set.InjOn key s) :
    ((nearest k key s ∩ t) \ nearest k key t).card ≤ (t \ s).card := by
  set displaced := (nearest k key s ∩ t) \ nearest k key t with hdisplaced
  by_cases hempty : displaced.Nonempty
  · -- the first one that is displaced has `k` members of `t` before it
    obtain ⟨a, ha, hmin⟩ := Finset.exists_min_image displaced key hempty
    have hnear : ∀ b ∈ displaced, b ∈ nearest k key s := fun b hb =>
      (Finset.mem_inter.1 (Finset.mem_sdiff.1 hb).1).1
    have hat : a ∈ t := (Finset.mem_inter.1 (Finset.mem_sdiff.1 ha).1).2
    have hfar : k ≤ (before key t a).card := by
      by_contra hlt
      exact (Finset.mem_sdiff.1 ha).2 (mem_nearest.2 ⟨hat, Nat.lt_of_not_le hlt⟩)
    -- those of them that were there are nearest members of `s`, and none is displaced
    have hsub : before key t a ⊆ (nearest k key s \ displaced) ∪ (t \ s) := by
      intro b hb
      obtain ⟨hbt, hlt⟩ := mem_before.1 hb
      by_cases hbs : b ∈ s
      · refine Finset.mem_union_left _ (Finset.mem_sdiff.2 ⟨?_, fun hb' => ?_⟩)
        · exact mem_nearest_of_lt (hnear a ha) hbs hlt
        · exact absurd hlt (not_lt.2 (hmin b hb'))
      · exact Finset.mem_union_right _ (Finset.mem_sdiff.2 ⟨hbt, hbs⟩)
    have hcard := (Finset.card_le_card hsub).trans (Finset.card_union_le _ _)
    rw [Finset.card_sdiff_of_subset hnear] at hcard
    have hle := card_nearest_le (k := k) hkey
    have hdle := Finset.card_le_card hnear
    omega
  · rw [Finset.not_nonempty_iff_eq_empty.1 hempty]
    exact Nat.zero_le _

/-! ## The first entries of a sorted list -/

/-- With distinct keys the sorted list is strictly increasing. -/
lemma pairwise_lt_sortBy {l : List α} (hl : l.Nodup) (hkey : Set.InjOn key l.toFinset) :
    (sortBy key l).Pairwise fun a b => key a < key b := by
  have hne : (sortBy key l).Nodup := (sortBy_perm key l).nodup_iff.2 hl
  refine ((pairwise_sortBy key l).and hne).imp_of_mem fun ha hb hab => ?_
  refine lt_of_le_of_ne hab.1 fun heq => hab.2 (hkey ?_ ?_ heq)
  · simpa using ha
  · simpa using hb

/-- As many members precede an entry of the sorted list as stand in front of it. -/
lemma card_before_getElem {l : List α} (hl : l.Nodup) (hkey : Set.InjOn key l.toFinset) {i : ℕ}
    (hi : i < (sortBy key l).length) : (before key l.toFinset (sortBy key l)[i]).card = i := by
  have hlt := List.pairwise_iff_getElem.1 (pairwise_lt_sortBy hl hkey)
  have hbefore : before key l.toFinset (sortBy key l)[i] = ((sortBy key l).take i).toFinset := by
    ext b
    rw [mem_before, List.mem_toFinset, List.mem_toFinset, List.mem_take_iff_getElem]
    constructor
    · rintro ⟨hb, hbi⟩
      obtain ⟨j, hj, rfl⟩ := List.getElem_of_mem ((mem_sortBy key).2 hb)
      refine ⟨j, Nat.lt_min.2 ⟨?_, hj⟩, rfl⟩
      by_contra hij
      rcases Nat.lt_or_eq_of_le (Nat.le_of_not_lt hij) with hij | rfl
      · exact lt_asymm hbi (hlt i j hi hj hij)
      · exact lt_irrefl _ hbi
    · rintro ⟨j, hj, rfl⟩
      obtain ⟨hji, hj⟩ := Nat.lt_min.1 hj
      exact ⟨(mem_sortBy key).1 (List.getElem_mem hj), hlt j i hj hi hji⟩
  have hnodup : ((sortBy key l).take i).Nodup :=
    ((sortBy_perm key l).nodup_iff.2 hl).sublist (List.take_sublist _ _)
  rw [hbefore, List.toFinset_card_of_nodup hnodup, List.length_take]
  omega

/-- The nearest members of a list with distinct keys are the first entries of the sorted list. -/
theorem mem_take_sortBy_iff {l : List α} (hl : l.Nodup) (hkey : Set.InjOn key l.toFinset) :
    a ∈ (sortBy key l).take k ↔ a ∈ nearest k key l.toFinset := by
  have hnodup : (sortBy key l).Nodup := (sortBy_perm key l).nodup_iff.2 hl
  rw [mem_nearest, List.mem_toFinset, List.mem_take_iff_getElem]
  constructor
  · rintro ⟨i, hi, rfl⟩
    obtain ⟨hik, hi⟩ := Nat.lt_min.1 hi
    refine ⟨(mem_sortBy key).1 (List.getElem_mem hi), ?_⟩
    rwa [card_before_getElem hl hkey hi]
  · rintro ⟨ha, hlt⟩
    obtain ⟨i, hi, rfl⟩ := List.getElem_of_mem ((mem_sortBy key).2 ha)
    rw [card_before_getElem hl hkey hi] at hlt
    exact ⟨i, Nat.lt_min.2 ⟨hlt, hi⟩, rfl⟩

end Lib
