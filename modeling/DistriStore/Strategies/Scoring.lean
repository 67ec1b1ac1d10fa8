import DistriStore.Strategies.Selector
import Mathlib.Algebra.Order.Field.Basic
import Mathlib.Tactic.Linarith
import Mathlib.Tactic.FieldSimp
import Mathlib.Tactic.NormNum

/-!
# What the scores say (`score_peers`)

Within one call, normalising is a monotone function of the value that does not notice a change of
unit or of origin (`normalizeAt`), and rounding keeps the order.  So a peer that is not worse in any
of the three metrics does not score less, and a metric can be rescaled without any effect.
-/

namespace DistriStore

open Lib

/-! ## Least and greatest values -/

lemma foldl_min_le {v : ℚ} {vs : List ℚ} : ∀ x ∈ v :: vs, vs.foldl min v ≤ x := by
  induction vs generalizing v with
  | nil => simp
  | cons w vs ih =>
    have hmin := ih (v := min v w) (min v w) (List.mem_cons_self ..)
    intro x hx
    rcases List.mem_cons.1 hx with rfl | hx
    · exact hmin.trans (min_le_left x w)
    · rcases List.mem_cons.1 hx with rfl | hx
      · exact hmin.trans (min_le_right v x)
      · exact ih x (List.mem_cons_of_mem _ hx)

lemma le_foldl_max {v : ℚ} {vs : List ℚ} : ∀ x ∈ v :: vs, x ≤ vs.foldl max v := by
  induction vs generalizing v with
  | nil => simp
  | cons w vs ih =>
    have hmax := ih (v := max v w) (max v w) (List.mem_cons_self ..)
    intro x hx
    rcases List.mem_cons.1 hx with rfl | hx
    · exact (le_max_left x w).trans hmax
    · rcases List.mem_cons.1 hx with rfl | hx
      · exact (le_max_right v x).trans hmax
      · exact ih x (List.mem_cons_of_mem _ hx)

lemma foldl_min_map {f : ℚ → ℚ} (hf : Monotone f) (v : ℚ) (vs : List ℚ) :
    (vs.map f).foldl min (f v) = f (vs.foldl min v) := by
  induction vs generalizing v with
  | nil => rfl
  | cons w vs ih => rw [List.map_cons, List.foldl_cons, List.foldl_cons, ← hf.map_min, ih]

lemma foldl_max_map {f : ℚ → ℚ} (hf : Monotone f) (v : ℚ) (vs : List ℚ) :
    (vs.map f).foldl max (f v) = f (vs.foldl max v) := by
  induction vs generalizing v with
  | nil => rfl
  | cons w vs ih => rw [List.map_cons, List.foldl_cons, List.foldl_cons, ← hf.map_max, ih]

/-! ## Normalising -/

/-- `a / b`; `none` is a `ZeroDivisionError`. -/
def divide (a b : ℚ) : Option ℚ := if b = 0 then none else some (a / b)

/-- `_normalize` with divisions that can raise. -/
def normalizeDividing (values : List ℚ) : Option (List ℚ) :=
  match values with
  | [] => some []
  | v :: vs =>
    let mn := vs.foldl min v
    let mx := vs.foldl max v
    if mx = mn then some (values.map fun _ => 0.5)
    else values.mapM fun v => divide (v - mn) (mx - mn)

/-- No division by zero is reached. -/
lemma normalizeDividing_eq (values : List ℚ) :
    normalizeDividing values = some (normalize values) := by
  unfold normalizeDividing normalize
  split
  · rfl
  · next v vs =>
    dsimp only
    split
    · rfl
    · next hne =>
      have hdivide : ∀ x, divide (x - vs.foldl min v) (vs.foldl max v - vs.foldl min v) =
          some ((x - vs.foldl min v) / (vs.foldl max v - vs.foldl min v)) :=
        fun x => if_neg (sub_ne_zero.2 hne)
      simp only [hdivide]
      exact List.mapM_pure

/-- `score_peers` with divisions that can raise. -/
def scorePeersDividing (peers : Dict String PeerInfo) :
    Option (List (String × ℚ × ScoreDetails)) := do
  let fsNorm ← normalizeDividing (peers.values.map fun p => (p.freeSpace : ℚ))
  let upNorm ← normalizeDividing (peers.values.map PeerInfo.uptime)
  let latNorm ← normalizeDividing (peers.values.map PeerInfo.latency)
  return scoresWith peers fsNorm upNorm latNorm

lemma scorePeersDividing_eq (peers : Dict String PeerInfo) :
    scorePeersDividing peers = some (scorePeers peers) := by
  simp only [scorePeersDividing, normalizeDividing_eq]
  rfl

/-- What a value of the list is normalised to. -/
def normalizeAt (values : List ℚ) (x : ℚ) : ℚ :=
  match values with
  | [] => 0.5
  | v :: vs =>
    if vs.foldl max v = vs.foldl min v then 0.5
    else (x - vs.foldl min v) / (vs.foldl max v - vs.foldl min v)

lemma normalize_eq_map (values : List ℚ) : normalize values = values.map (normalizeAt values) := by
  unfold normalize normalizeAt
  split
  · rfl
  · next v vs =>
    dsimp only
    split <;> rfl

lemma foldl_min_le_foldl_max (v : ℚ) (vs : List ℚ) : vs.foldl min v ≤ vs.foldl max v :=
  (foldl_min_le v (List.mem_cons_self ..)).trans (le_foldl_max v (List.mem_cons_self ..))

lemma monotone_normalizeAt (values : List ℚ) : Monotone (normalizeAt values) := by
  intro x y hxy
  unfold normalizeAt
  split
  · exact le_rfl
  · next v vs =>
    split
    · exact le_rfl
    · exact div_le_div_of_nonneg_right (sub_le_sub_right hxy _)
        (sub_nonneg.2 (foldl_min_le_foldl_max v vs))

lemma normalizeAt_mem_Icc {values : List ℚ} {x : ℚ} (hx : x ∈ values) :
    0 ≤ normalizeAt values x ∧ normalizeAt values x ≤ 1 := by
  unfold normalizeAt
  split
  · norm_num
  · next v vs =>
    split
    · norm_num
    · have hmin := foldl_min_le x hx
      have hmax := le_foldl_max x hx
      exact ⟨div_nonneg (sub_nonneg.2 hmin) (sub_nonneg.2 (foldl_min_le_foldl_max v vs)),
        div_le_one_of_le₀ (sub_le_sub_right hmax _)
          (sub_nonneg.2 (foldl_min_le_foldl_max v vs))⟩

/-- A change of unit and of origin makes no difference. -/
lemma normalizeAt_affine {a : ℚ} (ha : 0 < a) (b : ℚ) (values : List ℚ) (x : ℚ) :
    normalizeAt (values.map fun v => a * v + b) (a * x + b) = normalizeAt values x := by
  have hf : Monotone fun v : ℚ => a * v + b := fun v w hvw => by
    have := mul_le_mul_of_nonneg_left hvw ha.le
    dsimp only
    linarith
  cases values with
  | nil => rfl
  | cons v vs =>
    simp only [normalizeAt, List.map_cons, foldl_min_map hf, foldl_max_map hf]
    have hsub : ∀ y z : ℚ, a * y + b - (a * z + b) = a * (y - z) := fun y z => by ring
    rw [hsub, hsub, mul_div_mul_left _ _ ha.ne']
    refine if_congr ?_ rfl rfl
    constructor
    · intro h
      exact mul_left_cancel₀ ha.ne' (add_right_cancel h)
    · intro h
      rw [h]

/-! ## Rounding -/

lemma roundHalfEven_intCast (n : ℤ) : roundHalfEven n = n := by
  simp [roundHalfEven]

lemma floor_le_roundHalfEven (q : ℚ) : ⌊q⌋ ≤ roundHalfEven q := by
  unfold roundHalfEven
  dsimp only
  split_ifs <;> omega

lemma roundHalfEven_le_floor_add_one (q : ℚ) : roundHalfEven q ≤ ⌊q⌋ + 1 := by
  unfold roundHalfEven
  dsimp only
  split_ifs <;> omega

lemma roundHalfEven_mono {p q : ℚ} (hpq : p ≤ q) : roundHalfEven p ≤ roundHalfEven q := by
  rcases (Int.floor_mono hpq).lt_or_eq with hlt | heq
  · have hp := roundHalfEven_le_floor_add_one p
    have hq := floor_le_roundHalfEven q
    omega
  · have hsub : p - ⌊q⌋ ≤ q - ⌊q⌋ := sub_le_sub_right hpq _
    unfold roundHalfEven
    dsimp only
    rw [heq]
    by_cases hlow : q - ⌊q⌋ < 1 / 2
    · rw [if_pos (hsub.trans_lt hlow), if_pos hlow]
    · by_cases hhigh : 1 / 2 < p - (⌊q⌋ : ℚ)
      · rw [if_neg hlow, if_pos (hhigh.trans_le hsub), if_neg hhigh.le.not_gt, if_pos hhigh]
      · split_ifs <;> omega

lemma monotone_pyRound (n : ℕ) : Monotone (pyRound n) := by
  intro p q hpq
  unfold pyRound
  have hpow : (0 : ℚ) < 10 ^ n := by positivity
  refine div_le_div_of_nonneg_right ?_ hpow.le
  exact_mod_cast roundHalfEven_mono (mul_le_mul_of_nonneg_right hpq hpow.le)

lemma pyRound_intCast (n : ℕ) (m : ℤ) : pyRound n m = m := by
  have hpow : (10 : ℚ) ^ n ≠ 0 := by positivity
  have hcast : (m : ℚ) * 10 ^ n = ((m * 10 ^ n : ℤ) : ℚ) := by push_cast; ring
  rw [pyRound, hcast, roundHalfEven_intCast, ← hcast, mul_div_cancel_right₀ _ hpow]

/-! ## Scores -/

/-- The score of a peer among the peers at hand. -/
def peerScore (peers : Dict String PeerInfo) (p : PeerInfo) : ℚ :=
  pyRound 4 (normalizeAt (peers.values.map fun p => (p.freeSpace : ℚ)) p.freeSpace +
    normalizeAt (peers.values.map PeerInfo.uptime) p.uptime -
    normalizeAt (peers.values.map PeerInfo.latency) p.latency)

/-- The peers with their scores. -/
lemma scores_eq (peers : Dict String PeerInfo) :
    (scorePeers peers).map (fun r => (r.1, r.2.1)) =
      sortBy (fun r => -r.2) (peers.entries.map fun e => (e.1, peerScore peers e.2)) := by
  unfold scorePeers scoresWith
  dsimp only
  rw [map_sortBy (fun r : String × ℚ × ScoreDetails => -r.2.1) (fun r => (r.1, r.2.1))
    (fun r : String × ℚ => -r.2) fun _ => rfl]
  refine congrArg _ (List.ext_getElem (by simp [Dict.keys]) fun i h₁ h₂ => ?_)
  have hi : i < peers.entries.length := by simpa using h₂
  simp [normalize_eq_map, Dict.keys, Dict.values, peerScore, hi, Function.comp_def]

lemma mem_scores {peers : Dict String PeerInfo} {r : String × ℚ × ScoreDetails}
    (h : r ∈ scorePeers peers) :
    ∃ p, peers.get? r.1 = some p ∧ r.2.1 = peerScore peers p := by
  have hmem : (r.1, r.2.1) ∈ (scorePeers peers).map fun r => (r.1, r.2.1) :=
    List.mem_map_of_mem (f := fun r : String × ℚ × ScoreDetails => (r.1, r.2.1)) h
  rw [scores_eq, mem_sortBy] at hmem
  obtain ⟨e, he, heq⟩ := List.mem_map.1 hmem
  obtain ⟨hid, hscore⟩ := Prod.mk.inj heq
  exact ⟨e.2, hid ▸ Dict.get?_of_mem_entries he, hscore.symm⟩

lemma monotone_peerScore (peers : Dict String PeerInfo) {a b : PeerInfo}
    (hspace : b.freeSpace ≤ a.freeSpace) (huptime : b.uptime ≤ a.uptime)
    (hlatency : a.latency ≤ b.latency) : peerScore peers b ≤ peerScore peers a := by
  refine monotone_pyRound 4 (sub_le_sub (add_le_add ?_ ?_) ?_)
  · exact monotone_normalizeAt _ (by exact_mod_cast hspace)
  · exact monotone_normalizeAt _ huptime
  · exact monotone_normalizeAt _ hlatency

lemma peerScore_mem_Icc {peers : Dict String PeerInfo} {p : PeerInfo} (hp : p ∈ peers.values) :
    -1 ≤ peerScore peers p ∧ peerScore peers p ≤ 2 := by
  have hspace := normalizeAt_mem_Icc
    (List.mem_map_of_mem (f := fun p : PeerInfo => (p.freeSpace : ℚ)) hp)
  have huptime := normalizeAt_mem_Icc (List.mem_map_of_mem (f := PeerInfo.uptime) hp)
  have hlatency := normalizeAt_mem_Icc (List.mem_map_of_mem (f := PeerInfo.latency) hp)
  have hlow := pyRound_intCast 4 (-1)
  have hhigh := pyRound_intCast 4 2
  push_cast at hlow hhigh
  constructor
  · rw [← hlow]
    exact monotone_pyRound 4 (by linarith)
  · rw [← hhigh]
    exact monotone_pyRound 4 (by linarith)

/-- A metric of all peers in another unit and with another origin. -/
def Rescaled (metric : PeerInfo → ℚ) (a b : ℚ) (peers peers' : Dict String PeerInfo) : Prop :=
  peers'.values.map metric = peers.values.map fun p => a * metric p + b

lemma Rescaled.normalizeAt_eq {metric : PeerInfo → ℚ} {a b : ℚ}
    {peers peers' : Dict String PeerInfo} (h : Rescaled metric a b peers peers') (ha : 0 < a)
    {i : ℕ} (hi : i < peers.values.length) (hi' : i < peers'.values.length) :
    normalizeAt (peers'.values.map metric) (metric peers'.values[i]) =
      normalizeAt (peers.values.map metric) (metric peers.values[i]) := by
  have hat : metric peers'.values[i] = a * metric peers.values[i] + b := by
    have := congrArg (fun l => l[i]?) h
    simpa [hi, hi'] using this
  have hall : peers'.values.map metric = (peers.values.map metric).map fun v => a * v + b := by
    rw [h, List.map_map]
    rfl
  rw [hat, hall, normalizeAt_affine ha]

/-- Metrics that are rescaled give the same scores. -/
lemma scores_of_rescaled {peers peers' : Dict String PeerInfo} (hkeys : peers'.keys = peers.keys)
    {a₁ b₁ a₂ b₂ a₃ b₃ : ℚ} (h₁ : 0 < a₁) (h₂ : 0 < a₂) (h₃ : 0 < a₃)
    (hspace : Rescaled (fun p => (p.freeSpace : ℚ)) a₁ b₁ peers peers')
    (huptime : Rescaled PeerInfo.uptime a₂ b₂ peers peers')
    (hlatency : Rescaled PeerInfo.latency a₃ b₃ peers peers') :
    (scorePeers peers').map (fun r => (r.1, r.2.1)) =
      (scorePeers peers).map (fun r => (r.1, r.2.1)) := by
  have hvalues : peers'.values.map (peerScore peers') = peers.values.map (peerScore peers) := by
    have hlength : peers'.values.length = peers.values.length := by
      simpa using congrArg List.length huptime
    refine List.ext_getElem (by simp [hlength]) fun i h h' => ?_
    have hi' : i < peers'.values.length := by simpa using h
    have hi : i < peers.values.length := by simpa using h'
    rw [List.getElem_map, List.getElem_map, peerScore, peerScore, hspace.normalizeAt_eq h₁ hi hi',
      huptime.normalizeAt_eq h₂ hi hi', hlatency.normalizeAt_eq h₃ hi hi']
  have hzip : ∀ d : Dict String PeerInfo, d.entries.map (fun e => (e.1, peerScore d e.2)) =
      d.keys.zip (d.values.map (peerScore d)) := fun d => by
    rw [Dict.keys, Dict.values, List.map_map, List.zip_map']
    rfl
  rw [scores_eq, scores_eq, hzip, hzip, hkeys, hvalues]

/-- The best peers are as many as there are up to `k`, and no peer that is left out scores higher
than one of them. -/
lemma selectBestPeers_best (peers : Dict String PeerInfo) (k : ℕ) :
    (selectBestPeers peers k).length = min k peers.keys.length ∧ (selectBestPeers peers k).Nodup ∧
    (∀ pid ∈ selectBestPeers peers k, pid ∈ peers.keys) ∧
    ∀ r ∈ scorePeers peers, r.1 ∉ selectBestPeers peers k → ∀ best ∈ (scorePeers peers).take k,
      r.2.1 ≤ best.2.1 := by
  have hkeys := map_fst_scorePeers_perm peers
  have hsub : (selectBestPeers peers k).Sublist ((scorePeers peers).map Prod.fst) :=
    (List.take_sublist _ _).map Prod.fst
  refine ⟨?_, (hkeys.nodup_iff.2 peers.nodupKeys).sublist hsub,
    fun pid hpid => hkeys.mem_iff.1 (hsub.subset hpid), fun r hr hleft best hbest => ?_⟩
  · rw [selectBestPeers, List.length_map, List.length_take, length_scorePeers]
  · rw [← List.take_append_drop k (scorePeers peers), List.mem_append] at hr
    have hdrop := hr.resolve_left fun hmem => hleft (List.mem_map_of_mem hmem)
    exact neg_le_neg_iff.1 (le_of_mem_take_of_mem_drop
      (fun r : String × ℚ × ScoreDetails => -r.2.1) hbest hdrop)

/-- **Scores respect dominance.**  No division by zero is reached; every peer is scored once, the
scores do not increase along the list and lie between -1 and 2, a peer that is not worse than
another in any metric does not score less, and rescaling the metrics changes no score.  Of the peers
that are selected, none scores less than one that is not. -/
theorem scorePeers_respects_dominance (peers : Dict String PeerInfo) :
    ((normalizeDividing (peers.values.map fun p => (p.freeSpace : ℚ)) =
        some (normalize (peers.values.map fun p => (p.freeSpace : ℚ))) ∧
      normalizeDividing (peers.values.map PeerInfo.uptime) =
        some (normalize (peers.values.map PeerInfo.uptime)) ∧
      normalizeDividing (peers.values.map PeerInfo.latency) =
        some (normalize (peers.values.map PeerInfo.latency))) ∧
      scorePeersDividing peers = some (scorePeers peers)) ∧
    ((scorePeers peers).map Prod.fst).Perm peers.keys ∧ peers.keys.Nodup ∧
    (scorePeers peers).Pairwise (fun r r' => r'.2.1 ≤ r.2.1) ∧
    (∀ r ∈ scorePeers peers, -1 ≤ r.2.1 ∧ r.2.1 ≤ 2) ∧
    (∀ ra ∈ scorePeers peers, ∀ rb ∈ scorePeers peers, ∀ a b,
      peers.get? ra.1 = some a → peers.get? rb.1 = some b →
      b.freeSpace ≤ a.freeSpace → b.uptime ≤ a.uptime → a.latency ≤ b.latency →
        rb.2.1 ≤ ra.2.1) ∧
    (∀ peers', peers'.keys = peers.keys → ∀ a₁ b₁ a₂ b₂ a₃ b₃ : ℚ, 0 < a₁ → 0 < a₂ → 0 < a₃ →
      Rescaled (fun p => (p.freeSpace : ℚ)) a₁ b₁ peers peers' →
      Rescaled PeerInfo.uptime a₂ b₂ peers peers' →
      Rescaled PeerInfo.latency a₃ b₃ peers peers' →
        (scorePeers peers').map (fun r => (r.1, r.2.1)) =
          (scorePeers peers).map (fun r => (r.1, r.2.1))) ∧
    ∀ k, (selectBestPeers peers k).length = min k peers.keys.length ∧
      (selectBestPeers peers k).Nodup ∧ (∀ pid ∈ selectBestPeers peers k, pid ∈ peers.keys) ∧
      ∀ r ∈ scorePeers peers, r.1 ∉ selectBestPeers peers k → ∀ best ∈ (scorePeers peers).take k,
        r.2.1 ≤ best.2.1 := by
  refine ⟨⟨⟨normalizeDividing_eq _, normalizeDividing_eq _, normalizeDividing_eq _⟩,
    scorePeersDividing_eq peers⟩, map_fst_scorePeers_perm peers, peers.nodupKeys, ?_,
    fun r hr => ?_, ?_, ?_, selectBestPeers_best peers⟩
  · exact (pairwise_sortBy _ _).imp fun h => neg_le_neg_iff.1 h
  · obtain ⟨p, hp, hscore⟩ := mem_scores hr
    rw [hscore]
    exact peerScore_mem_Icc (List.mem_map_of_mem (f := Prod.snd) (Dict.mem_entries_of_get? hp))
  · intro ra hra rb hrb a b ha hb hspace huptime hlatency
    obtain ⟨a', ha', hscore⟩ := mem_scores hra
    obtain ⟨b', hb', hscore'⟩ := mem_scores hrb
    obtain rfl : a' = a := Option.some.inj (ha'.symm.trans ha)
    obtain rfl : b' = b := Option.some.inj (hb'.symm.trans hb)
    rw [hscore, hscore']
    exact monotone_peerScore peers hspace huptime hlatency
  · intro peers' hkeys a₁ b₁ a₂ b₂ a₃ b₃ h₁ h₂ h₃ hspace huptime hlatency
    exact scores_of_rescaled hkeys h₁ h₂ h₃ hspace huptime hlatency

end DistriStore
