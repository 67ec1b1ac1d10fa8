import Mathlib.Data.List.Nodup
import Mathlib.Tactic.Lemma

/-!
# Insertion-ordered dictionaries

A finite map kept as a list of entries in the order in which the keys were first written.
Overwriting a key keeps its place, a new key goes to the end, and deleting a key closes the
gap.  Distinctness of the keys is a field of the structure, so a dictionary with two entries
for one key cannot be built.

The operations are `get?`, `set`, `erase` and `setAll`; `keys` and `values` list the entries in
order.  Each operation has one lemma that says what a later `get?` sees (`get?_set`,
`get?_erase`), and these are the interface the rest of a development works through: no client
unfolds the list.
-/

namespace Lib

universe u v

/-- A finite map that remembers insertion order. -/
structure Dict (κ : Type u) (υ : Type v) where
  entries : List (κ × υ)
  /-- No key occurs twice. -/
  nodupKeys : (entries.map Prod.fst).Nodup

namespace Dict

variable {κ : Type u} {υ : Type v}

/-! ## Entry lists -/

section Entries

variable [DecidableEq κ]

/-- Write `v` under `k` in place, or append a new entry. -/
def setEntries (k : κ) (v : υ) : List (κ × υ) → List (κ × υ)
  | [] => [(k, v)]
  | e :: es => if e.1 = k then (k, v) :: es else e :: setEntries k v es

lemma lookup_cons_ite (e : κ × υ) (es : List (κ × υ)) (k : κ) :
    (e :: es).lookup k = if k = e.1 then some e.2 else es.lookup k := by
  obtain ⟨ke, ve⟩ := e
  by_cases h : k = ke
  · simp [h]
  · have hb : (k == ke) = false := beq_false_of_ne h
    simp [List.lookup_cons, hb, h]

lemma mem_keys_setEntries (k : κ) (v : υ) (es : List (κ × υ)) (k' : κ) :
    k' ∈ (setEntries k v es).map Prod.fst ↔ k' = k ∨ k' ∈ es.map Prod.fst := by
  induction es with
  | nil => simp [setEntries]
  | cons e es ih =>
    by_cases h : e.1 = k
    · simp [setEntries, h]
    · simp only [setEntries, if_neg h, List.map_cons, List.mem_cons, ih]
      tauto

lemma nodupKeys_setEntries (k : κ) (v : υ) (es : List (κ × υ))
    (h : (es.map Prod.fst).Nodup) : ((setEntries k v es).map Prod.fst).Nodup := by
  induction es with
  | nil => simp [setEntries]
  | cons e es ih =>
    rw [List.map_cons, List.nodup_cons] at h
    by_cases he : e.1 = k
    · rw [setEntries, if_pos he, List.map_cons, List.nodup_cons]
      exact he ▸ h
    · rw [setEntries, if_neg he, List.map_cons, List.nodup_cons, mem_keys_setEntries]
      exact ⟨by rintro (h' | h'); exacts [he h', h.1 h'], ih h.2⟩

lemma lookup_setEntries (k : κ) (v : υ) (es : List (κ × υ)) (k' : κ) :
    (setEntries k v es).lookup k' = if k' = k then some v else es.lookup k' := by
  induction es with
  | nil => rw [setEntries, lookup_cons_ite]
  | cons e es ih =>
    by_cases he : e.1 = k
    · rw [setEntries, if_pos he, lookup_cons_ite, lookup_cons_ite, he]
      split <;> rfl
    · rw [setEntries, if_neg he, lookup_cons_ite, lookup_cons_ite, ih]
      by_cases h : k' = e.1
      · simp [h, he]
      · simp [h]

lemma lookup_filter_ne (k : κ) (es : List (κ × υ)) (k' : κ) :
    (es.filter fun e => e.1 ≠ k).lookup k' = if k' = k then none else es.lookup k' := by
  induction es with
  | nil => simp
  | cons e es ih =>
    by_cases he : e.1 = k
    · rw [List.filter_cons_of_neg (by simpa using he), ih, lookup_cons_ite, he]
      split <;> rfl
    · rw [List.filter_cons_of_pos (by simpa using he), lookup_cons_ite, lookup_cons_ite, ih]
      by_cases h : k' = e.1
      · simp [h, he]
      · simp [h]

end Entries

/-! ## Operations -/

/-- The dictionary without entries. -/
def empty : Dict κ υ := ⟨[], List.nodup_nil⟩

instance : EmptyCollection (Dict κ υ) := ⟨empty⟩

instance : Inhabited (Dict κ υ) := ⟨empty⟩

/-- The keys, in insertion order. -/
def keys (d : Dict κ υ) : List κ := d.entries.map Prod.fst

/-- The values, in insertion order of their keys. -/
def values (d : Dict κ υ) : List υ := d.entries.map Prod.snd

@[simp] lemma keys_empty : (∅ : Dict κ υ).keys = [] := rfl

section

variable [DecidableEq κ]

/-- The value under `k`, if any. -/
def get? (d : Dict κ υ) (k : κ) : Option υ := d.entries.lookup k

/-- Write `v` under `k`: in place when `k` is present, at the end otherwise. -/
def set (d : Dict κ υ) (k : κ) (v : υ) : Dict κ υ :=
  ⟨setEntries k v d.entries, nodupKeys_setEntries k v d.entries d.nodupKeys⟩

/-- Remove the entry of `k`, if there is one. -/
def erase (d : Dict κ υ) (k : κ) : Dict κ υ :=
  ⟨d.entries.filter fun e => e.1 ≠ k, d.nodupKeys.sublist (List.filter_sublist.map _)⟩

/-- Write a list of entries one after the other, the later ones winning. -/
def setAll (d : Dict κ υ) (es : List (κ × υ)) : Dict κ υ :=
  es.foldl (fun d e => d.set e.1 e.2) d

/-- Remove the entries of several keys. -/
def eraseAll (d : Dict κ υ) (ks : List κ) : Dict κ υ := ks.foldl erase d

/-- Change every value, in place. -/
def mapValues {υ' : Type*} (f : υ → υ') (d : Dict κ υ) : Dict κ υ' :=
  ⟨d.entries.map fun e => (e.1, f e.2), by rw [List.map_map]; exact d.nodupKeys⟩

@[simp] lemma get?_empty (k : κ) : (∅ : Dict κ υ).get? k = none := rfl

lemma get?_set (d : Dict κ υ) (k : κ) (v : υ) (k' : κ) :
    (d.set k v).get? k' = if k' = k then some v else d.get? k' :=
  lookup_setEntries k v d.entries k'

@[simp] lemma get?_set_self (d : Dict κ υ) (k : κ) (v : υ) : (d.set k v).get? k = some v := by
  simp [get?_set]

lemma get?_set_ne (d : Dict κ υ) {k k' : κ} (v : υ) (h : k' ≠ k) :
    (d.set k v).get? k' = d.get? k' := by
  simp [get?_set, h]

lemma get?_erase (d : Dict κ υ) (k k' : κ) :
    (d.erase k).get? k' = if k' = k then none else d.get? k' :=
  lookup_filter_ne k d.entries k'

@[simp] lemma get?_erase_self (d : Dict κ υ) (k : κ) : (d.erase k).get? k = none := by
  simp [get?_erase]

lemma get?_erase_ne (d : Dict κ υ) {k k' : κ} (h : k' ≠ k) :
    (d.erase k).get? k' = d.get? k' := by
  simp [get?_erase, h]

lemma get?_eraseAll_of_not_mem (d : Dict κ υ) {ks : List κ} {k : κ} (h : k ∉ ks) :
    (d.eraseAll ks).get? k = d.get? k := by
  induction ks generalizing d with
  | nil => rfl
  | cons k' ks ih =>
    rw [List.mem_cons, not_or] at h
    exact (ih (d.erase k') h.2).trans (get?_erase_ne d h.1)

lemma get?_eraseAll_of_mem (d : Dict κ υ) {ks : List κ} {k : κ} (h : k ∈ ks) :
    (d.eraseAll ks).get? k = none := by
  induction ks generalizing d with
  | nil => exact absurd h List.not_mem_nil
  | cons k' ks ih =>
    by_cases hmem : k ∈ ks
    · exact ih (d.erase k') hmem
    · obtain rfl : k = k' := (List.mem_cons.1 h).resolve_right hmem
      exact (get?_eraseAll_of_not_mem (d.erase k) hmem).trans (get?_erase_self d k)

lemma mem_keys_set (d : Dict κ υ) (k : κ) (v : υ) (k' : κ) :
    k' ∈ (d.set k v).keys ↔ k' = k ∨ k' ∈ d.keys :=
  mem_keys_setEntries k v d.entries k'

lemma mem_keys_of_mem_keys_erase {d : Dict κ υ} {k k' : κ} (h : k' ∈ (d.erase k).keys) :
    k' ∈ d.keys :=
  (List.filter_sublist.map Prod.fst).subset h

lemma length_keys_set_of_not_mem {d : Dict κ υ} {k : κ} (v : υ) (h : k ∉ d.keys) :
    (d.set k v).keys.length = d.keys.length + 1 := by
  have hset (es : List (κ × υ)) (hk : k ∉ es.map Prod.fst) :
      (setEntries k v es).length = es.length + 1 := by
    induction es with
    | nil => rfl
    | cons e es ih =>
      rw [List.map_cons, List.mem_cons, not_or] at hk
      rw [setEntries, if_neg (Ne.symm hk.1), List.length_cons, ih hk.2, List.length_cons]
  rw [keys, keys, List.length_map, List.length_map]
  exact hset d.entries h

/-- A write to a key that is present keeps the keys in their order. -/
lemma keys_set_of_mem (d : Dict κ υ) {k : κ} (v : υ) (h : k ∈ d.keys) :
    (d.set k v).keys = d.keys := by
  have hset (es : List (κ × υ)) (hk : k ∈ es.map Prod.fst) :
      (setEntries k v es).map Prod.fst = es.map Prod.fst := by
    induction es with
    | nil => simp at hk
    | cons e es ih =>
      by_cases he : e.1 = k
      · rw [setEntries, if_pos he, List.map_cons, List.map_cons, he]
      · rw [List.map_cons, List.mem_cons] at hk
        rw [setEntries, if_neg he, List.map_cons, List.map_cons, ih (hk.resolve_left (Ne.symm he))]
  exact hset d.entries h

/-- A write adds at most one key. -/
lemma length_keys_set_le (d : Dict κ υ) (k : κ) (v : υ) :
    (d.set k v).keys.length ≤ d.keys.length + 1 := by
  have hsub : (d.set k v).keys ⊆ k :: d.keys := fun k' hk' =>
    List.mem_cons.2 ((mem_keys_set d k v k').1 hk')
  exact List.Nodup.length_le_of_subset (d.set k v).nodupKeys hsub

lemma length_keys_erase_le (d : Dict κ υ) (k : κ) : (d.erase k).keys.length ≤ d.keys.length :=
  (List.filter_sublist.map Prod.fst).length_le

lemma get?_of_mem_entries {d : Dict κ υ} {k : κ} {v : υ} (h : (k, v) ∈ d.entries) :
    d.get? k = some v := by
  obtain ⟨es, hes⟩ := d
  simp only [get?] at h ⊢
  induction es with
  | nil => simp at h
  | cons e es ih =>
    rw [List.map_cons, List.nodup_cons] at hes
    rw [lookup_cons_ite]
    rcases List.mem_cons.1 h with rfl | h
    · rw [if_pos rfl]
    · have hne : k ≠ e.1 := fun hk => hes.1 (hk ▸ List.mem_map_of_mem (f := Prod.fst) h)
      rw [if_neg hne]
      exact ih hes.2 h

lemma mem_entries_of_get? {d : Dict κ υ} {k : κ} {v : υ} (h : d.get? k = some v) :
    (k, v) ∈ d.entries := by
  obtain ⟨es, hes⟩ := d
  simp only [get?] at h ⊢
  induction es with
  | nil => simp at h
  | cons e es ih =>
    rw [List.map_cons, List.nodup_cons] at hes
    rw [lookup_cons_ite] at h
    split at h
    · next hk =>
      rw [hk, ← Option.some.inj h]
      exact List.mem_cons_self ..
    · exact List.mem_cons_of_mem _ (ih hes.2 h)

lemma mem_keys_iff {d : Dict κ υ} {k : κ} : k ∈ d.keys ↔ ∃ v, d.get? k = some v := by
  constructor
  · intro h
    obtain ⟨e, he, rfl⟩ := List.mem_map.1 h
    exact ⟨e.2, get?_of_mem_entries he⟩
  · rintro ⟨v, h⟩
    exact List.mem_map.2 ⟨(k, v), mem_entries_of_get? h, rfl⟩

lemma mem_values_iff {d : Dict κ υ} {v : υ} : v ∈ d.values ↔ ∃ k, d.get? k = some v := by
  constructor
  · intro h
    obtain ⟨e, he, rfl⟩ := List.mem_map.1 h
    exact ⟨e.1, get?_of_mem_entries he⟩
  · rintro ⟨k, h⟩
    exact List.mem_map.2 ⟨(k, v), mem_entries_of_get? h, rfl⟩

lemma get?_mapValues {υ' : Type*} (f : υ → υ') (d : Dict κ υ) (k : κ) :
    (d.mapValues f).get? k = (d.get? k).map f := by
  obtain ⟨es, hes⟩ := d
  simp only [get?, mapValues]
  induction es with
  | nil => rfl
  | cons e es ih =>
    rw [List.map_cons, List.nodup_cons] at hes
    rw [List.map_cons, lookup_cons_ite, lookup_cons_ite, ih hes.2]
    split <;> rfl

lemma setAll_cons (d : Dict κ υ) (e : κ × υ) (es : List (κ × υ)) :
    d.setAll (e :: es) = (d.set e.1 e.2).setAll es := rfl

/-- A key outside the written entries keeps its value. -/
lemma get?_setAll_of_not_mem (es : List (κ × υ)) (d : Dict κ υ) (k : κ)
    (h : k ∉ es.map Prod.fst) : (d.setAll es).get? k = d.get? k := by
  induction es generalizing d with
  | nil => rfl
  | cons e es ih =>
    simp only [List.map_cons, List.mem_cons, not_or] at h
    rw [setAll_cons, ih _ h.2, get?_set_ne _ _ h.1]

/-- Under a written key a bulk write leaves one of the values written under it. -/
lemma exists_get?_setAll (es : List (κ × υ)) (d : Dict κ υ) (k : κ) (h : k ∈ es.map Prod.fst) :
    ∃ v, (k, v) ∈ es ∧ (d.setAll es).get? k = some v := by
  induction es generalizing d with
  | nil => simp at h
  | cons e es ih =>
    rw [setAll_cons]
    by_cases hk : k ∈ es.map Prod.fst
    · obtain ⟨v, hmem, hget⟩ := ih (d.set e.1 e.2) hk
      exact ⟨v, List.mem_cons_of_mem _ hmem, hget⟩
    · have hke : k = e.1 := by simpa [hk] using h
      refine ⟨e.2, hke ▸ List.mem_cons_self .., ?_⟩
      rw [get?_setAll_of_not_mem _ _ _ hk, hke, get?_set_self]

/-- What a bulk write leaves under a key: one of the written values, or the old one. -/
lemma get?_setAll_cases (es : List (κ × υ)) (d : Dict κ υ) (k : κ) (v : υ)
    (h : (d.setAll es).get? k = some v) : (k, v) ∈ es ∨ d.get? k = some v := by
  induction es generalizing d with
  | nil => exact Or.inr h
  | cons e es ih =>
    rw [setAll_cons] at h
    rcases ih _ h with hmem | hget
    · exact Or.inl (List.mem_cons_of_mem _ hmem)
    · rw [get?_set] at hget
      split at hget
      · next hk =>
        obtain ⟨ke, ve⟩ := e
        simp_all
      · exact Or.inr hget

end

end Dict

end Lib
