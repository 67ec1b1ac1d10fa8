import DistriStore.Dht.Routing
import Mathlib.Data.Nat.Bitwise

/-!
# The nearest peers (`find_closest_peers`)

The peers returned are the nearest ones among the valid ids, whatever comes in between in the list.
The exclusive or with the target is injective, so ids that are different numbers are at different
distances, and then the order of the list does not matter either.

The log line about the result writes the distances in decimal, which Python does up to 4300 digits
only; ids come from other nodes and can be longer (`findsNearest_iff`).
-/

namespace DistriStore

open Lib

/-! ## Distances determine ids -/

lemma xor_right_injective (t : ℤ) : Function.Injective (Int.xor t) := by
  intro a b h
  cases t <;> cases a <;> cases b <;>
    simp only [Int.xor, Int.natCast_inj, Int.negSucc.injEq, reduceCtorEq] at h
  all_goals rw [Nat.xor_right_injective h]

/-! ## The entries that are sorted -/

section

/-- The ids with their distances; other ids are skipped. -/
def distances (targetHash : String) (peerIds : List String) : List (String × ℤ) :=
  peerIds.filterMap fun pid => (xorDistance targetHash pid).map fun d => (pid, d)

variable {targetHash : String} {t : ℤ} {peerIds : List String} {k : ℕ}

lemma closestEntries_eq (targetHash : String) (peerIds : List String) (k : ℕ) :
    closestEntries targetHash peerIds k =
      (sortBy Prod.snd (distances targetHash peerIds)).take k := rfl

lemma map_fst_distances (targetHash : String) (peerIds : List String) :
    (distances targetHash peerIds).map Prod.fst =
      peerIds.filter fun pid => (xorDistance targetHash pid).isSome := by
  induction peerIds with
  | nil => rfl
  | cons pid peerIds ih =>
    unfold distances at ih ⊢
    cases hd : xorDistance targetHash pid with
    | none => simp [hd, ih]
    | some d => simp [hd, ih]

lemma length_closestEntries : (closestEntries targetHash peerIds k).length =
    min k (peerIds.filter fun pid => (xorDistance targetHash pid).isSome).length := by
  rw [closestEntries_eq, List.length_take, length_sortBy, ← map_fst_distances, List.length_map]

lemma nodup_closestEntries (h : peerIds.Nodup) :
    ((closestEntries targetHash peerIds k).map Prod.fst).Nodup := by
  have hall : ((sortBy Prod.snd (distances targetHash peerIds)).map Prod.fst).Nodup := by
    rw [((sortBy_perm _ _).map Prod.fst).nodup_iff, map_fst_distances]
    exact h.filter _
  exact hall.sublist ((List.take_sublist _ _).map Prod.fst)

lemma isSome_xorDistance_of_mem {pid : String}
    (h : pid ∈ (closestEntries targetHash peerIds k).map Prod.fst) :
    (xorDistance targetHash pid).isSome = true := by
  obtain ⟨e, he, rfl⟩ := List.mem_map.1 h
  have hmem : e.1 ∈ (distances targetHash peerIds).map Prod.fst :=
    List.mem_map_of_mem ((mem_sortBy Prod.snd).1 (List.mem_of_mem_take he))
  rw [map_fst_distances] at hmem
  exact (List.mem_filter.1 hmem).2

/-- When fewer ids are found than asked for, no id with a distance is left out. -/
lemma mem_closestEntries_of_length_lt {pid : String}
    (hlt : (closestEntries targetHash peerIds k).length < k) (hmem : pid ∈ peerIds)
    (hd : (xorDistance targetHash pid).isSome = true) :
    pid ∈ (closestEntries targetHash peerIds k).map Prod.fst := by
  rw [closestEntries_eq, List.length_take] at hlt
  have hall : (sortBy Prod.snd (distances targetHash peerIds)).length ≤ k := by omega
  rw [closestEntries_eq, List.take_of_length_le hall,
    ((sortBy_perm Prod.snd _).map Prod.fst).mem_iff, map_fst_distances]
  exact List.mem_filter.2 ⟨hmem, hd⟩

/-- For a target that is a number, an id has a distance when it is one. -/
lemma xorDistance_eq (ht : parseInt16 targetHash = some t) (pid : String) :
    xorDistance targetHash pid = (parseInt16 pid).map (Int.xor t) := by
  cases hv : parseInt16 pid with
  | none => simp [xorDistance, hv]
  | some v => simp [xorDistance, ht, hv]

lemma isSome_xorDistance (ht : parseInt16 targetHash = some t) (pid : String) :
    (xorDistance targetHash pid).isSome = (parseInt16 pid).isSome := by
  rw [xorDistance_eq ht, Option.isSome_map]

lemma mem_distances (ht : parseInt16 targetHash = some t) {e : String × ℤ} :
    e ∈ distances targetHash peerIds ↔
      e.1 ∈ peerIds ∧ ∃ v, parseInt16 e.1 = some v ∧ e.2 = Int.xor t v := by
  rw [distances, List.mem_filterMap]
  simp only [xorDistance_eq ht]
  constructor
  · rintro ⟨pid, hpid, he⟩
    obtain ⟨d, hd, rfl⟩ := Option.map_eq_some_iff.1 he
    obtain ⟨v, hv, rfl⟩ := Option.map_eq_some_iff.1 hd
    exact ⟨hpid, v, hv, rfl⟩
  · rintro ⟨hpid, v, hv, hd⟩
    exact ⟨e.1, hpid, by rw [hv, Option.map_some, Option.map_some, ← hd]⟩

/-- The distances are those of the numbers among the ids. -/
lemma map_snd_distances (ht : parseInt16 targetHash = some t) (peerIds : List String) :
    (distances targetHash peerIds).map Prod.snd =
      (peerIds.filterMap parseInt16).map (Int.xor t) := by
  rw [distances, List.map_filterMap, List.map_filterMap]
  refine congrFun (congrArg List.filterMap (funext fun pid => ?_)) peerIds
  rw [xorDistance_eq ht, Option.map_map, Option.map_map]
  rfl

end

/-! ## Distances that can be written -/

section

variable {targetHash : String} {peerIds : List String} {k : ℕ}

/-- The distances of the `k` nearest ids can be written in decimal: no id is at `-10 ^ 4300` or
below, and of the ids with a distance enough are below `10 ^ 4300`. -/
def WritableDistances (targetHash : String) (peerIds : List String) (k : ℕ) : Prop :=
  let ds := peerIds.filterMap (xorDistance targetHash)
  k = 0 ∨ (∀ d ∈ ds, -10 ^ maxStrDigits < d) ∧
    min k ds.length ≤ (ds.filter fun d => d < 10 ^ maxStrDigits).length

instance : Decidable (WritableDistances targetHash peerIds k) := instDecidableOr

lemma printable_iff {d : ℤ} : Printable d ↔ -10 ^ maxStrDigits < d ∧ d < 10 ^ maxStrDigits := by
  have hcast : ((10 ^ maxStrDigits : ℕ) : ℤ) = 10 ^ maxStrDigits := by
    rw [Nat.cast_pow]
    rfl
  rw [Printable, ← hcast]
  generalize 10 ^ maxStrDigits = limit
  omega

lemma writableDistances_iff : WritableDistances targetHash peerIds k ↔
    ∀ e ∈ closestEntries targetHash peerIds k, Printable e.2 := by
  have hds : peerIds.filterMap (xorDistance targetHash) =
      (distances targetHash peerIds).map Prod.snd := by
    rw [distances, List.map_filterMap]
    refine congrFun (congrArg List.filterMap (funext fun pid => ?_)) peerIds
    cases xorDistance targetHash pid <;> rfl
  have hfilter : (((distances targetHash peerIds).map Prod.snd).filter fun d =>
      d < 10 ^ maxStrDigits).length =
        ((distances targetHash peerIds).filter fun e => e.2 < 10 ^ maxStrDigits).length := by
    rw [List.filter_map, List.length_map]
    rfl
  unfold WritableDistances
  simp only [hds, hfilter, List.length_map, List.forall_mem_map, printable_iff]
  rw [closestEntries_eq]
  by_cases hk : k = 0
  · simp [hk]
  · rw [or_iff_right hk, ← forall_mem_take_gt_iff Prod.snd hk, ← forall_mem_take_lt_iff Prod.snd]
    exact ⟨fun h e he => ⟨h.1 e he, h.2 e he⟩,
      fun h => ⟨fun e he => (h e he).1, fun e he => (h e he).2⟩⟩

lemma findClosestPeers_of_writable (h : WritableDistances targetHash peerIds k) :
    findClosestPeers targetHash peerIds k = .ok (closestEntries targetHash peerIds k) :=
  findClosestPeers_eq_ok.2 ⟨rfl, writableDistances_iff.1 h⟩

/-- `find_closest_peers` returns just when the distances can be written. -/
lemma writable_of_findClosestPeers {es : List (String × ℤ)}
    (h : findClosestPeers targetHash peerIds k = .ok es) :
    WritableDistances targetHash peerIds k ∧ es = closestEntries targetHash peerIds k :=
  ⟨writableDistances_iff.2 (findClosestPeers_eq_ok.1 h).2, (findClosestPeers_eq_ok.1 h).1⟩

lemma WritableDistances.perm {peerIds' : List String} (hperm : peerIds'.Perm peerIds)
    (h : WritableDistances targetHash peerIds k) : WritableDistances targetHash peerIds' k := by
  have hds := hperm.filterMap (xorDistance targetHash)
  refine h.imp id fun ⟨hlow, henough⟩ => ⟨fun d hd => hlow d (hds.mem_iff.1 hd), ?_⟩
  rwa [hds.length_eq, (hds.filter _).length_eq]

/-- Where no distance is found, there is nothing to write. -/
lemma writableDistances_of_closestEntries_eq_nil (h : closestEntries targetHash peerIds k = []) :
    WritableDistances targetHash peerIds k :=
  writableDistances_iff.2 fun e he => by simp [h] at he

end

/-! ## The nearest ids -/

/-- `es` are the nearest valid ids: ids of the list with their distances, as many as there are up to
`k`, in the order of the distances, and no valid id that is left out is nearer than one of them. -/
structure AreNearest (t : ℤ) (peerIds : List String) (k : ℕ) (es : List (String × ℤ)) : Prop where
  entries : ∀ e ∈ es, e.1 ∈ peerIds ∧ ∃ v, parseInt16 e.1 = some v ∧ e.2 = Int.xor t v
  length : es.length = min k (peerIds.filter fun pid => (parseInt16 pid).isSome).length
  sorted : es.Pairwise fun a b => a.2 ≤ b.2
  optimal : ∃ left, (es.map Prod.fst ++ left).Perm
      (peerIds.filter fun pid => (parseInt16 pid).isSome) ∧
    ∀ pid ∈ left, ∀ v, parseInt16 pid = some v → ∀ e ∈ es, e.2 ≤ Int.xor t v

lemma areNearest_closestEntries {targetHash : String} {t : ℤ}
    (ht : parseInt16 targetHash = some t) (peerIds : List String) (k : ℕ) :
    AreNearest t peerIds k (closestEntries targetHash peerIds k) := by
  set ds := distances targetHash peerIds with hds
  have hvalid : (peerIds.filter fun pid => (parseInt16 pid).isSome) = ds.map Prod.fst := by
    rw [hds, map_fst_distances]
    simp only [isSome_xorDistance ht]
  rw [closestEntries_eq, ← hds]
  refine ⟨fun e he => ?_, ?_, ?_, ((sortBy Prod.snd ds).drop k).map Prod.fst, ?_, ?_⟩
  · exact (mem_distances ht).1 ((mem_sortBy Prod.snd).1 (List.mem_of_mem_take he))
  · rw [hvalid, List.length_take, length_sortBy, List.length_map]
  · exact (pairwise_sortBy Prod.snd ds).sublist (List.take_sublist _ _)
  · rw [hvalid, ← List.map_append, List.take_append_drop]
    exact (sortBy_perm Prod.snd ds).map Prod.fst
  · intro pid hpid v hv e he
    obtain ⟨e', he', rfl⟩ := List.mem_map.1 hpid
    obtain ⟨-, v', hv', hd⟩ :=
      (mem_distances ht).1 ((mem_sortBy Prod.snd).1 (List.mem_of_mem_drop he'))
    obtain rfl : v' = v := Option.some.inj (hv'.symm.trans hv)
    rw [← hd]
    exact le_of_mem_take_of_mem_drop Prod.snd he he'

/-- Ids that are different numbers give the same result in any order. -/
lemma closestEntries_perm {targetHash : String} {t : ℤ} (ht : parseInt16 targetHash = some t)
    {peerIds peerIds' : List String} (hnodup : (peerIds.filterMap parseInt16).Nodup)
    (hperm : peerIds'.Perm peerIds) (k : ℕ) :
    closestEntries targetHash peerIds' k = closestEntries targetHash peerIds k := by
  have hkeys : ((distances targetHash peerIds).map Prod.snd).Nodup := by
    rw [map_snd_distances ht]
    exact hnodup.map (xor_right_injective t)
  have hdistances : (distances targetHash peerIds').Perm (distances targetHash peerIds) :=
    hperm.filterMap _
  rw [closestEntries_eq, closestEntries_eq, sortBy_congr_of_perm Prod.snd hdistances hkeys]

/-- `find_closest_peers` returns the nearest valid ids, whatever the order of the list. -/
def FindsNearest (targetHash : String) (t : ℤ) (peerIds : List String) (k : ℕ) : Prop :=
  ∃ es, findClosestPeers targetHash peerIds k = .ok es ∧ AreNearest t peerIds k es ∧
    ((peerIds.filterMap parseInt16).Nodup → ∀ peerIds', peerIds'.Perm peerIds →
      findClosestPeers targetHash peerIds' k = .ok es)

/-- **`find_closest_peers` returns the nearest valid ids exactly when their distances can be
written**: the log line about the result needs them in decimal. -/
theorem findsNearest_iff (targetHash : String) (t : ℤ) (ht : parseInt16 targetHash = some t)
    (peerIds : List String) (k : ℕ) :
    FindsNearest targetHash t peerIds k ↔ WritableDistances targetHash peerIds k := by
  constructor
  · rintro ⟨es, hes, -⟩
    exact (writable_of_findClosestPeers hes).1
  · intro h
    refine ⟨_, findClosestPeers_of_writable h, areNearest_closestEntries ht peerIds k,
      fun hnodup peerIds' hperm => ?_⟩
    rw [findClosestPeers_of_writable (h.perm hperm), closestEntries_perm ht hnodup hperm]

/-- The two nearest of three valid ids, from two orders. -/
theorem findsNearest_iff_two : FindsNearest "f0" 240 ["ff", "f1", "xyz", "0f"] 2 :=
  (findsNearest_iff "f0" 240 (by decide +kernel) ["ff", "f1", "xyz", "0f"] 2).2 (by decide +kernel)

lemma parseMoreDigits_replicate (acc n : ℕ) :
    parseMoreDigits acc (List.replicate n 'f') = some ((acc + 1) * 16 ^ n - 1) := by
  induction n generalizing acc with
  | zero => simp [parseMoreDigits]
  | succ n ih =>
    have hf : hexDigitValue 'f' = some 15 := by decide
    rw [List.replicate_succ, parseMoreDigits, hf, Option.bind_some, ih, pow_succ', ← Nat.mul_assoc]
    · congr 3
      omega
    · intro c rest h
      cases h

/-- An id of `n + 1` digits `f`. -/
def longId (n : ℕ) : String := String.ofList (List.replicate (n + 1) 'f')

lemma parseInt16_longId (n : ℕ) : parseInt16 (longId n) = some ((16 ^ (n + 1) - 1 : ℕ) : ℤ) := by
  have hdigit : asciiDigit 'f' = 'f' := by decide
  have hspace : isPySpace 'f' = false := by decide
  have hparse : parseUnsigned (List.replicate (n + 1) 'f') = some (16 ^ (n + 1) - 1) := by
    have hf : hexDigitValue 'f' = some 15 := by decide
    rw [List.replicate_succ, parseUnsigned, parseDigits, hf, Option.bind_some,
      parseMoreDigits_replicate, pow_succ']
    all_goals simp
  unfold parseInt16 longId
  simp only [String.toList_ofList, List.map_replicate, hdigit, List.dropWhile_replicate, hspace,
    List.reverse_replicate, Bool.false_eq_true, if_false]
  rw [List.replicate_succ] at hparse ⊢
  simp [hparse]

lemma not_writable_longId : ¬ WritableDistances "f0" [longId 3999] 1 := by
  have hd : xorDistance "f0" (longId 3999) =
      some (Int.xor 240 ((16 ^ (3999 + 1) - 1 : ℕ) : ℤ)) := by
    rw [xorDistance_eq (t := 240) (by decide +kernel), parseInt16_longId, Option.map_some]
  have hentry : ∀ d, xorDistance "f0" (longId 3999) = some d →
      (longId 3999, d) ∈ closestEntries "f0" [longId 3999] 1 := fun d hd => by
    simp [closestEntries, hd, sortBy]
  intro h
  have hprintable : Printable (Int.xor 240 ((16 ^ (3999 + 1) - 1 : ℕ) : ℤ)) :=
    writableDistances_iff.1 h _ (hentry _ hd)
  revert hprintable
  decide +kernel

/-- **The log line can raise**: an id of 4000 digits is at a distance that cannot be written. -/
theorem findsNearest_fails : ¬ FindsNearest "f0" 240 [longId 3999] 1 := by
  rintro ⟨es, hes, -⟩
  exact not_writable_longId (writable_of_findClosestPeers hes).1

end DistriStore
