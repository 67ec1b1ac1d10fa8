import DistriStore.Lib.Dict
import Mathlib.Algebra.Order.Ring.Int

/-!
# Freeing space in a store

A store is a dictionary whose entries take up space, and a queue is a list of entries in the order
in which they may go.  `evict` removes entries from the front of the queue until enough has been
freed; an entry that cannot be removed is passed over.

Only entries of the queue go (`get?_evict_of_not_mem`, `get?_of_get?_evict`), an entry goes
exactly when it can be removed and those before it do not free enough (`get?_evict_append`), what is
counted as freed is what the total has lost (`totalBy_evict`), and the loop stops early only because
enough has been freed (`evict_stops`).  The entries the loop tries are a prefix of the queue
(`attempted`); it removes the removable ones among them, and no more of them than are needed
(`freed_before_last_lt`).
-/

namespace Lib

universe u v

variable {κ : Type u} {υ : Type v} [DecidableEq κ]

/-! ## Totals -/

namespace Dict

/-- The sum of a weight over all entries. -/
def totalBy (w : κ → υ → ℕ) (d : Dict κ υ) : ℕ :=
  d.entries.foldr (fun e total => w e.1 e.2 + total) 0

/-- Deleting an entry takes its weight away. -/
lemma totalBy_erase (w : κ → υ → ℕ) (d : Dict κ υ) {k : κ} {v : υ} (h : d.get? k = some v) :
    (d.erase k).totalBy w + w k v = d.totalBy w := by
  obtain ⟨es, hes⟩ := d
  simp only [get?, totalBy, erase] at h ⊢
  induction es with
  | nil => simp at h
  | cons e es ih =>
    rw [List.map_cons, List.nodup_cons] at hes
    rw [lookup_cons_ite] at h
    split at h
    · next hk =>
      -- the key does not occur again, so the rest stays as it is
      have hrest : es.filter (fun e => e.1 ≠ k) = es := by
        refine List.filter_eq_self.2 fun e' he' => ?_
        have hne : e'.1 ≠ k := fun hk' =>
          hes.1 (hk ▸ hk' ▸ List.mem_map_of_mem (f := Prod.fst) he')
        simpa using hne
      rw [List.filter_cons_of_neg (by simpa using hk.symm), hrest, List.foldr_cons, hk,
        Option.some.inj h]
      omega
    · next hk =>
      rw [List.filter_cons_of_pos (by simpa using Ne.symm hk), List.foldr_cons, List.foldr_cons]
      have := ih hes.2 h
      omega

/-- Deleting an entry without weight changes no total. -/
lemma totalBy_erase_of_zero (w : κ → υ → ℕ) (d : Dict κ υ) {k : κ} (h : ∀ v, w k v = 0) :
    (d.erase k).totalBy w = d.totalBy w := by
  obtain ⟨es, hes⟩ := d
  simp only [totalBy, erase]
  clear hes
  induction es with
  | nil => rfl
  | cons e es ih =>
    by_cases hk : e.1 = k
    · rw [List.filter_cons_of_neg (by simpa using hk), ih, List.foldr_cons, hk, h, Nat.zero_add]
    · rw [List.filter_cons_of_pos (by simpa using hk), List.foldr_cons, List.foldr_cons, ih]

/-- Weights that agree on the entries have the same total. -/
lemma totalBy_congr {w w' : κ → υ → ℕ} (d : Dict κ υ)
    (h : ∀ k v, d.get? k = some v → w k v = w' k v) : d.totalBy w = d.totalBy w' := by
  have hes : ∀ e ∈ d.entries, w e.1 e.2 = w' e.1 e.2 := fun e he =>
    h e.1 e.2 (get?_of_mem_entries he)
  unfold totalBy
  generalize d.entries = es at hes
  induction es with
  | nil => rfl
  | cons e es ih =>
    rw [List.forall_mem_cons] at hes
    rw [List.foldr_cons, List.foldr_cons, hes.1, ih hes.2]

end Dict

/-! ## Eviction -/

variable (size : υ → ℕ) (removable : κ → υ → Bool) (target : ℤ)

/-- Remove entries of the queue until `target` is freed; `freed` has been freed so far. -/
def evict : List (κ × υ) → Dict κ υ → ℕ → Dict κ υ × ℕ
  | [], d, freed => (d, freed)
  | (k, v) :: rest, d, freed =>
    if target ≤ freed then (d, freed)
    else if removable k v then evict rest (d.erase k) (freed + size v)
    else evict rest d freed

variable {size removable target}

lemma get?_evict_of_not_mem (q : List (κ × υ)) (d : Dict κ υ) (freed : ℕ) {k : κ}
    (h : k ∉ q.map Prod.fst) : (evict size removable target q d freed).1.get? k = d.get? k := by
  induction q generalizing d freed with
  | nil => rfl
  | cons e q ih =>
    rw [List.map_cons, List.mem_cons, not_or] at h
    unfold evict
    split
    · rfl
    · split
      · rw [ih _ _ h.2, Dict.get?_erase_ne d h.1]
      · exact ih _ _ h.2

/-- What is still there was there before. -/
lemma get?_of_get?_evict (q : List (κ × υ)) (d : Dict κ υ) (freed : ℕ) {k : κ} {v : υ}
    (h : (evict size removable target q d freed).1.get? k = some v) : d.get? k = some v := by
  induction q generalizing d freed with
  | nil => exact h
  | cons e q ih =>
    unfold evict at h
    split at h
    · exact h
    · split at h
      · have hget := ih _ _ h
        rw [Dict.get?_erase] at hget
        split at hget
        · cases hget
        · exact hget
      · exact ih _ _ h

variable (size removable) in
/-- What can be freed by removing the entries of a queue. -/
def freeable (q : List (κ × υ)) : ℕ :=
  q.foldr (fun e total => if removable e.1 e.2 then size e.2 + total else total) 0

/-- **Which entries go.** -/
theorem get?_evict_append (pre post : List (κ × υ)) (d : Dict κ υ) (freed : ℕ) {k : κ} {v : υ}
    (hq : ((pre ++ (k, v) :: post).map Prod.fst).Nodup) (hd : d.get? k = some v) :
    (evict size removable target (pre ++ (k, v) :: post) d freed).1.get? k =
      if removable k v = true ∧ ((freed + freeable size removable pre : ℕ) : ℤ) < target then none
      else some v := by
  induction pre generalizing d freed with
  | nil =>
    rw [List.nil_append, List.map_cons, List.nodup_cons] at hq
    rw [List.nil_append, freeable, List.foldr_nil, Nat.add_zero]
    unfold evict
    split
    · next hle => rw [if_neg fun h => by omega, hd]
    · next hlt =>
      split
      · next hrem =>
        rw [get?_evict_of_not_mem post _ _ hq.1, Dict.get?_erase_self, if_pos ⟨hrem, by omega⟩]
      · next hrem =>
        rw [get?_evict_of_not_mem post _ _ hq.1, if_neg fun h => hrem h.1, hd]
  | cons e pre ih =>
    rw [List.cons_append, List.map_cons, List.nodup_cons] at hq
    have hmem : k ∈ (pre ++ (k, v) :: post).map Prod.fst :=
      List.mem_map.2 ⟨(k, v), List.mem_append_right _ (List.mem_cons_self ..), rfl⟩
    have hne : k ≠ e.1 := fun h => hq.1 (h ▸ hmem)
    rw [List.cons_append, freeable, List.foldr_cons, ← freeable]
    unfold evict
    split
    · next hle => rw [if_neg fun h => by omega, hd]
    · split
      · rw [ih _ _ hq.2 (by rw [Dict.get?_erase_ne d hne, hd]), Nat.add_assoc]
      · exact ih _ _ hq.2 hd

/-- Nothing goes when nothing is asked for, or nothing can be removed. -/
lemma evict_keeps_iff (q : List (κ × υ)) (d : Dict κ υ) (freed : ℕ)
    (hq : (q.map Prod.fst).Nodup) (hd : ∀ e ∈ q, d.get? e.1 = some e.2) :
    (∀ e ∈ q, (evict size removable target q d freed).1.get? e.1 = some e.2) ↔
      target ≤ freed ∨ ∀ e ∈ q, removable e.1 e.2 = false := by
  induction q with
  | nil => simp [evict]
  | cons e q ih =>
    obtain ⟨k, v⟩ := e
    rw [List.map_cons, List.nodup_cons] at hq
    rw [List.forall_mem_cons] at hd
    unfold evict
    split
    · next hle => exact iff_of_true (List.forall_mem_cons.2 hd) (Or.inl hle)
    · next hlt =>
      rw [List.forall_mem_cons, List.forall_mem_cons]
      split
      · next hrem =>
        rw [get?_evict_of_not_mem q _ _ hq.1, Dict.get?_erase_self]
        refine iff_of_false (fun h => by cases h.1) ?_
        rintro (hle | ⟨hkeep, -⟩)
        · exact hlt hle
        · rw [hrem] at hkeep
          cases hkeep
      · next hrem =>
        rw [get?_evict_of_not_mem q _ _ hq.1, and_iff_right hd.1, ih hq.2 hd.2,
          and_iff_right (Bool.not_eq_true _ ▸ hrem)]

/-- **What is counted as freed is what the total has lost**, for entries that weigh what they
count for. -/
theorem totalBy_evict {w : κ → υ → ℕ} (q : List (κ × υ)) (d : Dict κ υ) (freed : ℕ)
    (hq : (q.map Prod.fst).Nodup) (hd : ∀ e ∈ q, d.get? e.1 = some e.2)
    (hw : ∀ e ∈ q, removable e.1 e.2 = true → w e.1 e.2 = size e.2) :
    (evict size removable target q d freed).1.totalBy w +
      (evict size removable target q d freed).2 = d.totalBy w + freed := by
  induction q generalizing d freed with
  | nil => rfl
  | cons e q ih =>
    obtain ⟨k, v⟩ := e
    rw [List.map_cons, List.nodup_cons] at hq
    rw [List.forall_mem_cons] at hd hw
    unfold evict
    split
    · rfl
    · split
      · next hrem =>
        have hkeep : ∀ e ∈ q, (d.erase k).get? e.1 = some e.2 := by
          intro e he
          have hmem : e.1 ∈ q.map Prod.fst := List.mem_map_of_mem he
          have hne : e.1 ≠ k := by
            rintro hk
            exact hq.1 (hk ▸ hmem)
          rw [Dict.get?_erase_ne d hne, hd.2 e he]
        have hget : d.get? k = some v := hd.1
        have hweight : w k v = size v := hw.1 hrem
        have hstep := Dict.totalBy_erase w d hget
        rw [ih _ _ hq.2 hkeep hw.2]
        omega
      · exact ih _ _ hq.2 hd.2 hw.2

/-- A weight that the queue does not carry keeps its total. -/
lemma totalBy_evict_of_zero {w : κ → υ → ℕ} (q : List (κ × υ)) (d : Dict κ υ) (freed : ℕ)
    (hw : ∀ e ∈ q, ∀ v, w e.1 v = 0) :
    (evict size removable target q d freed).1.totalBy w = d.totalBy w := by
  induction q generalizing d freed with
  | nil => rfl
  | cons e q ih =>
    rw [List.forall_mem_cons] at hw
    unfold evict
    split
    · rfl
    · split
      · rw [ih _ _ hw.2, Dict.totalBy_erase_of_zero w d hw.1]
      · exact ih _ _ hw.2

/-- **The loop stops early only because enough has been freed**; otherwise the whole queue is
gone. -/
theorem evict_stops (q : List (κ × υ)) (d : Dict κ υ) (freed : ℕ) (hq : (q.map Prod.fst).Nodup)
    (hrem : ∀ e ∈ q, removable e.1 e.2 = true) :
    target ≤ (evict size removable target q d freed).2 ∨
      ∀ e ∈ q, (evict size removable target q d freed).1.get? e.1 = none := by
  induction q generalizing d freed with
  | nil => exact Or.inr fun e he => absurd he List.not_mem_nil
  | cons e q ih =>
    obtain ⟨k, v⟩ := e
    rw [List.map_cons, List.nodup_cons] at hq
    rw [List.forall_mem_cons] at hrem
    unfold evict
    split
    · next hle => exact Or.inl hle
    · rw [if_pos hrem.1]
      refine (ih (d.erase k) (freed + size v) hq.2 hrem.2).imp_right fun hgone => ?_
      rw [List.forall_mem_cons]
      refine ⟨?_, hgone⟩
      rw [get?_evict_of_not_mem q _ _ hq.1, Dict.get?_erase_self]

/-! ## The entries that are tried -/

variable (size removable target) in
/-- The entries that the loop comes to, in order. -/
def attempted : List (κ × υ) → ℕ → List (κ × υ)
  | [], _ => []
  | (k, v) :: rest, freed =>
    if target ≤ freed then []
    else (k, v) :: attempted rest (if removable k v then freed + size v else freed)

variable (size removable target) in
/-- The entries that the loop removes, in order. -/
def removed (q : List (κ × υ)) (freed : ℕ) : List (κ × υ) :=
  (attempted size removable target q freed).filter fun e => removable e.1 e.2

/-- The sizes of a list of entries. -/
def sizes (size : υ → ℕ) (es : List (κ × υ)) : ℕ := (es.map fun e => size e.2).sum

section

omit [DecidableEq κ]

variable {k : κ} {v : υ} {q : List (κ × υ)} {freed : ℕ}

lemma sizes_cons : sizes size ((k, v) :: q) = size v + sizes size q := by
  rw [sizes, List.map_cons, List.sum_cons, sizes]

lemma attempted_prefix (q : List (κ × υ)) (freed : ℕ) :
    attempted size removable target q freed <+: q := by
  induction q generalizing freed with
  | nil => exact List.prefix_refl []
  | cons e q ih =>
    unfold attempted
    split
    · exact List.nil_prefix
    · exact (List.prefix_cons_inj e).2 (ih _)

lemma removed_of_le (h : target ≤ freed) : removed size removable target q freed = [] := by
  cases q with
  | nil => rfl
  | cons e q => rw [removed, attempted, if_pos h, List.filter_nil]

lemma removed_cons_of_removable (h : ¬ target ≤ freed) (hrem : removable k v = true) :
    removed size removable target ((k, v) :: q) freed =
      (k, v) :: removed size removable target q (freed + size v) := by
  simp only [removed, attempted, if_neg h, List.filter_cons, hrem, if_true]

lemma removed_cons_of_not (h : ¬ target ≤ freed) (hrem : ¬ removable k v = true) :
    removed size removable target ((k, v) :: q) freed =
      removed size removable target q freed := by
  simp only [removed, attempted, if_neg h, if_neg hrem, List.filter_cons]

/-- The loop leaves entries of the queue untried only because enough has been freed. -/
theorem le_freed_of_attempted_ne (q : List (κ × υ)) (freed : ℕ)
    (h : attempted size removable target q freed ≠ q) :
    target ≤ (freed + sizes size (removed size removable target q freed) : ℕ) := by
  induction q generalizing freed with
  | nil => exact absurd rfl h
  | cons e q ih =>
    obtain ⟨k, v⟩ := e
    by_cases hle : target ≤ freed
    · rw [removed_of_le hle]
      exact hle
    · rw [attempted, if_neg hle] at h
      have hrest := ih _ (mt (congrArg (List.cons (k, v))) h)
      by_cases hrem : removable k v = true
      · rw [if_pos hrem, Nat.add_assoc] at hrest
        rwa [removed_cons_of_removable hle hrem, sizes_cons]
      · rw [if_neg hrem] at hrest
        rwa [removed_cons_of_not hle hrem]

/-- Before its last removal the loop had not freed enough. -/
theorem freed_before_last_lt (q : List (κ × υ)) (freed : ℕ) {init : List (κ × υ)} {last : κ × υ}
    (h : removed size removable target q freed = init ++ [last]) :
    ((freed + sizes size init : ℕ) : ℤ) < target := by
  induction q generalizing freed init with
  | nil => simp [removed, attempted] at h
  | cons e q ih =>
    obtain ⟨k, v⟩ := e
    by_cases hle : target ≤ freed
    · rw [removed_of_le hle] at h
      simp at h
    · by_cases hrem : removable k v = true
      · rw [removed_cons_of_removable hle hrem] at h
        cases init with
        | nil => exact not_le.1 hle
        | cons e' init =>
          rw [List.cons_append, List.cons.injEq] at h
          obtain ⟨rfl, h⟩ := h
          rw [sizes_cons, ← Nat.add_assoc]
          exact ih _ h
      · rw [removed_cons_of_not hle hrem] at h
        exact ih _ h

end

/-- The loop removes exactly these entries and counts their sizes. -/
theorem evict_eq_eraseAll (q : List (κ × υ)) (d : Dict κ υ) (freed : ℕ) :
    evict size removable target q d freed =
      (d.eraseAll ((removed size removable target q freed).map Prod.fst),
        freed + sizes size (removed size removable target q freed)) := by
  induction q generalizing d freed with
  | nil => rfl
  | cons e q ih =>
    obtain ⟨k, v⟩ := e
    by_cases hle : target ≤ freed
    · rw [evict, if_pos hle, removed_of_le hle]
      rfl
    · by_cases hrem : removable k v = true
      · rw [evict, if_neg hle, if_pos hrem, ih, removed_cons_of_removable hle hrem, sizes_cons,
          Nat.add_assoc]
        rfl
      · rw [evict, if_neg hle, if_neg hrem, ih, removed_cons_of_not hle hrem]

end Lib
