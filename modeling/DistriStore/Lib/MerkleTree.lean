import Mathlib.Data.List.Basic
import Mathlib.Data.Nat.Log
import Mathlib.Data.Set.Function
import Mathlib.Tactic.Lemma

/-!
# Merkle trees with a duplicated last node

A tree over a list is built level by level: neighbours are combined by `node`, and a last element
without a neighbour is combined with itself.  The path of a leaf holds its sibling on each level;
climbing from the leaf along its path leads to the root (`climb_path`).

What a root says about its leaves rests on `node` being injective, which a hash can only be on the
pairs that were combined (`treePairs`, `climbPairs`): no two different pairs among them may be
combined to the same value.  Then two trees over lists of one length with the same root have the
same leaves (`eq_of_root_eq`), and two climbs along one path that meet at the top started from the
same leaf (`climb_injOn`).

A path that is made up need not be as long as the tree is high.  A climb along any path that ends
at the root either starts at a node of the tree, on whatever level, or comes from below through a
leaf (`leads_of_climb_eq_root`); only the length of the path tells which (`length_of_leads`).
-/

namespace Lib.MerkleTree

universe u

variable {α : Type u}

/-- Neighbours; a last element without a neighbour is its own. -/
def pairs : List α → List (α × α)
  | [] => []
  | [x] => [(x, x)]
  | x :: y :: rest => (x, y) :: pairs rest

lemma length_pairs : ∀ l : List α, (pairs l).length = (l.length + 1) / 2
  | [] => by simp [pairs]
  | [_] => by simp [pairs]
  | _ :: _ :: rest => by
    rw [pairs, List.length_cons, length_pairs rest, List.length_cons, List.length_cons]
    omega

lemma getElem?_pairs : ∀ (l : List α) (i : ℕ),
    (pairs l)[i]? = l[2 * i]?.map fun x => (x, l[2 * i + 1]?.getD x)
  | [], i => by simp [pairs]
  | [_], 0 => by simp [pairs]
  | [_], i + 1 => by simp [pairs]
  | _ :: _ :: _, 0 => by simp [pairs]
  | _ :: _ :: rest, i + 1 => by
    rw [pairs, List.getElem?_cons_succ, getElem?_pairs rest i,
      show 2 * (i + 1) = 2 * i + 2 by omega,
      show 2 * i + 2 + 1 = 2 * i + 1 + 2 by omega]
    simp

/-- The two components of a pair come from the list. -/
lemma mem_of_mem_pairs : ∀ {l : List α} {p : α × α}, p ∈ pairs l → p.1 ∈ l ∧ p.2 ∈ l
  | [], p, h => by simp [pairs] at h
  | [x], p, h => by
    rw [pairs, List.mem_singleton] at h
    simp [h]
  | x :: y :: rest, p, h => by
    rw [pairs, List.mem_cons] at h
    rcases h with rfl | h
    · simp
    · have hrest := mem_of_mem_pairs h
      simp [hrest]

/-- Lists of one length with the same neighbours are the same. -/
lemma eq_of_pairs_eq : ∀ {l l' : List α}, l.length = l'.length → pairs l = pairs l' → l = l'
  | [], l', hlen, _ => (List.eq_nil_of_length_eq_zero hlen.symm).symm
  | [x], l', hlen, h => by
    obtain ⟨x', rfl⟩ := List.length_eq_one_iff.1 hlen.symm
    simpa [pairs] using h
  | x :: y :: rest, [], hlen, _ => by simp at hlen
  | x :: y :: rest, [_], hlen, _ => by simp at hlen
  | x :: y :: rest, x' :: y' :: rest', hlen, h => by
    simp only [pairs, List.cons.injEq, Prod.mk.injEq] at h
    obtain ⟨⟨rfl, rfl⟩, h⟩ := h
    have hrest : rest.length = rest'.length := by simpa using hlen
    rw [eq_of_pairs_eq hrest h]

variable (node : α → α → α)

/-- The level above. -/
def level (l : List α) : List α := (pairs l).map fun p => node p.1 p.2

lemma length_level (l : List α) : (level node l).length = (l.length + 1) / 2 := by
  rw [level, List.length_map, length_pairs]

/-- The element at the top; an empty list has none. -/
def root (l : List α) : Option α :=
  if 1 < l.length then root (level node l) else l.head?
termination_by l.length
decreasing_by
  rw [length_level]
  omega

lemma root_of_lt {l : List α} (h : 1 < l.length) : root node l = root node (level node l) := by
  rw [root, if_pos h]

/-- The pairs that are combined on the way to the root. -/
def treePairs (l : List α) : List (α × α) :=
  if 1 < l.length then pairs l ++ treePairs (level node l) else []
termination_by l.length
decreasing_by
  rw [length_level]
  omega

/-! ## Paths -/

/-- On which side of the climbing element its sibling is. -/
inductive Side where
  | left
  | right
  deriving DecidableEq, Repr

/-- The sibling of the element at place `i`, which is the element itself when it has no
neighbour. -/
def sibling (l : List α) (i : ℕ) : Option (Side × α) :=
  (pairs l)[i / 2]?.map fun p => if i % 2 = 0 then (.right, p.2) else (.left, p.1)

/-- The siblings on the way from the leaf at place `i` to the root. -/
def path (l : List α) (i : ℕ) : List (Side × α) :=
  if 1 < l.length then (sibling l i).toList ++ path (level node l) (i / 2) else []
termination_by l.length
decreasing_by
  rw [length_level]
  omega

/-- The pair that a climbing element and its sibling make. -/
def join (x : α) : Side × α → α × α
  | (.right, y) => (x, y)
  | (.left, y) => (y, x)

/-- Climb along a path. -/
def climb : α → List (Side × α) → α
  | x, [] => x
  | x, s :: p => climb (node (join x s).1 (join x s).2) p

/-- The pairs that are combined in a climb. -/
def climbPairs : α → List (Side × α) → List (α × α)
  | _, [] => []
  | x, s :: p => join x s :: climbPairs (node (join x s).1 (join x s).2) p

/-- A leaf and its sibling make the pair that the level above was built from. -/
lemma sibling_spec {l : List α} {i : ℕ} {x : α} (hx : l[i]? = some x) :
    ∃ s p, sibling l i = some s ∧ join x s = p ∧ p ∈ pairs l ∧
      (level node l)[i / 2]? = some (node p.1 p.2) := by
  obtain ⟨hi, rfl⟩ := List.getElem?_eq_some_iff.1 hx
  have hlt : i / 2 < (pairs l).length := by
    rw [length_pairs]
    omega
  have hp := getElem?_pairs l (i / 2)
  rw [List.getElem?_eq_getElem hlt, List.getElem?_eq_getElem (show 2 * (i / 2) < l.length by omega),
    Option.map_some, Option.some.injEq] at hp
  refine ⟨_, (pairs l)[i / 2], by rw [sibling, List.getElem?_eq_getElem hlt, Option.map_some], ?_,
    List.getElem_mem hlt, by rw [level, List.getElem?_map, List.getElem?_eq_getElem hlt]; rfl⟩
  split
  · next heven =>
    have heq : 2 * (i / 2) = i := by omega
    simp only [join, hp, heq]
  · next hodd =>
    have heq : 2 * (i / 2) + 1 = i := by omega
    have hlast : l[2 * (i / 2) + 1]? = some l[i] := by rw [heq, hx]
    simp only [join, hp, hlast, Option.getD_some]

/-- **Completeness**: climbing from a leaf along its path leads to the root. -/
theorem climb_path (l : List α) (i : ℕ) (x : α) (hx : l[i]? = some x) :
    root node l = some (climb node x (path node l i)) := by
  induction l using root.induct node generalizing i x with
  | case1 l hlen ih =>
    obtain ⟨s, p, hs, hjoin, -, hup⟩ := sibling_spec node hx
    rw [root_of_lt node hlen, path, if_pos hlen, hs, ih _ _ hup]
    simp only [Option.toList_some, List.singleton_append, climb, hjoin]
  | case2 l hlen =>
    obtain ⟨hi, rfl⟩ := List.getElem?_eq_some_iff.1 hx
    obtain ⟨y, rfl⟩ := List.length_eq_one_iff.1 (show l.length = 1 by omega)
    obtain rfl : i = 0 := by simpa using hi
    simp [root, path, climb]

/-- A path has one step for each level. -/
theorem length_path (l : List α) (i : ℕ) (hi : i < l.length) :
    (path node l i).length = Nat.clog 2 l.length := by
  induction l using root.induct node generalizing i with
  | case1 l hlen ih =>
    obtain ⟨s, p, hs, -⟩ := sibling_spec node (List.getElem?_eq_getElem hi)
    have hup : i / 2 < (level node l).length := by
      rw [length_level]
      omega
    rw [path, if_pos hlen, hs, List.length_append, ih _ hup, length_level,
      Nat.clog_of_two_le (by decide) hlen, Nat.add_comm]
    rfl
  | case2 l hlen =>
    rw [path, if_neg hlen, Nat.clog_of_right_le_one (by omega), List.length_nil]

/-! ## The pairs of a tree and of a climb -/

/-- A property of the leaves and of every combination holds of everything that is combined. -/
lemma forall_treePairs {P : α → Prop} (hnode : ∀ x y, P (node x y)) (l : List α)
    (hl : ∀ x ∈ l, P x) : ∀ p ∈ treePairs node l, P p.1 ∧ P p.2 := by
  induction l using root.induct node with
  | case1 l hlen ih =>
    intro p hp
    rw [treePairs, if_pos hlen, List.mem_append] at hp
    rcases hp with hp | hp
    · exact ⟨hl _ (mem_of_mem_pairs hp).1, hl _ (mem_of_mem_pairs hp).2⟩
    · refine ih (fun x hx => ?_) p hp
      obtain ⟨q, -, rfl⟩ := List.mem_map.1 hx
      exact hnode _ _
  | case2 l hlen =>
    intro p hp
    rw [treePairs, if_neg hlen] at hp
    exact absurd hp List.not_mem_nil

/-- The climb of a leaf along its path combines pairs of the tree only. -/
lemma mem_treePairs_of_climb (l : List α) (i : ℕ) (x : α) (hx : l[i]? = some x) :
    ∀ p ∈ climbPairs node x (path node l i), p ∈ treePairs node l := by
  induction l using root.induct node generalizing i x with
  | case1 l hlen ih =>
    intro p hp
    obtain ⟨s, q, hs, hjoin, hq, hup⟩ := sibling_spec node hx
    rw [path, if_pos hlen, hs] at hp
    simp only [Option.toList_some, List.singleton_append, climbPairs, hjoin, List.mem_cons] at hp
    rw [treePairs, if_pos hlen, List.mem_append]
    rcases hp with rfl | hp
    · exact Or.inl hq
    · exact Or.inr (ih _ _ hup p hp)
  | case2 l hlen =>
    intro p hp
    rw [path, if_neg hlen] at hp
    exact absurd hp List.not_mem_nil

/-- The siblings on a path come from the leaves or are combinations. -/
lemma forall_path {P : α → Prop} (hnode : ∀ x y, P (node x y)) (l : List α) (i : ℕ)
    (hl : ∀ x ∈ l, P x) : ∀ s ∈ path node l i, P s.2 := by
  induction l using root.induct node generalizing i with
  | case1 l hlen ih =>
    intro s hs
    rw [path, if_pos hlen, List.mem_append, Option.mem_toList] at hs
    rcases hs with hs | hs
    · obtain ⟨p, hp, rfl⟩ := Option.map_eq_some_iff.1 hs
      have hmem := mem_of_mem_pairs (List.mem_of_getElem? hp)
      split
      · exact hl _ hmem.2
      · exact hl _ hmem.1
    · refine ih _ (fun x hx => ?_) s hs
      obtain ⟨q, -, rfl⟩ := List.mem_map.1 hx
      exact hnode _ _
  | case2 l hlen =>
    intro s hs
    rw [path, if_neg hlen] at hs
    exact absurd hs List.not_mem_nil

lemma forall_climbPairs {P : α → Prop} (hnode : ∀ x y, P (node x y)) (p : List (Side × α))
    (hp : ∀ s ∈ p, P s.2) (x : α) (hx : P x) : ∀ q ∈ climbPairs node x p, P q.1 ∧ P q.2 := by
  induction p generalizing x with
  | nil =>
    intro q hq
    exact absurd hq List.not_mem_nil
  | cons s p ih =>
    rw [List.forall_mem_cons] at hp
    rw [climbPairs, List.forall_mem_cons]
    refine ⟨?_, ih hp.2 _ (hnode _ _)⟩
    obtain ⟨side, y⟩ := s
    cases side with
    | left => exact ⟨hp.1, hx⟩
    | right => exact ⟨hx, hp.1⟩

/-! ## Binding -/

variable {node}

/-- Where a function is injective, equal images of lists come from equal lists. -/
lemma eq_of_map_eq {β γ : Type*} {f : β → γ} {S : Set β} (hf : Set.InjOn f S) :
    ∀ {l l' : List β}, (∀ x ∈ l, x ∈ S) → (∀ x ∈ l', x ∈ S) → l.map f = l'.map f → l = l'
  | [], l', _, _, h => (List.map_eq_nil_iff.1 h.symm).symm
  | x :: l, [], _, _, h => by simp at h
  | x :: l, x' :: l', hl, hl', h => by
    rw [List.map_cons, List.map_cons, List.cons.injEq] at h
    rw [List.forall_mem_cons] at hl hl'
    rw [hf hl.1 hl'.1 h.1, eq_of_map_eq hf hl.2 hl'.2 h.2]

/-- **Binding**: without collisions among the pairs combined in two trees, lists of one length
with the same root are the same. -/
theorem eq_of_root_eq {S : Set (α × α)} (hS : Set.InjOn (fun p => node p.1 p.2) S)
    (l l' : List α) (hlen : l.length = l'.length) (hl : ∀ p ∈ treePairs node l, p ∈ S)
    (hl' : ∀ p ∈ treePairs node l', p ∈ S) (h : root node l = root node l') : l = l' := by
  induction l using root.induct node generalizing l' with
  | case1 l hlong ih =>
    have hlong' : 1 < l'.length := hlen ▸ hlong
    rw [treePairs, if_pos hlong] at hl
    rw [treePairs, if_pos hlong'] at hl'
    rw [root_of_lt node hlong, root_of_lt node hlong'] at h
    have hup : level node l = level node l' := by
      refine ih _ ?_ (fun p hp => hl p (List.mem_append_right _ hp))
        (fun p hp => hl' p (List.mem_append_right _ hp)) h
      rw [length_level, length_level, hlen]
    exact eq_of_pairs_eq hlen (eq_of_map_eq hS (fun p hp => hl p (List.mem_append_left _ hp))
      (fun p hp => hl' p (List.mem_append_left _ hp)) hup)
  | case2 l hshort =>
    have hshort' : ¬ 1 < l'.length := hlen ▸ hshort
    rw [root, if_neg hshort, root, if_neg hshort'] at h
    rcases Nat.lt_or_ge 0 l.length with hpos | hzero
    · obtain ⟨x, rfl⟩ := List.length_eq_one_iff.1 (show l.length = 1 by omega)
      obtain ⟨x', rfl⟩ := List.length_eq_one_iff.1 (show l'.length = 1 by omega)
      simpa using h
    · rw [List.eq_nil_of_length_eq_zero (show l.length = 0 by omega),
        List.eq_nil_of_length_eq_zero (show l'.length = 0 by omega)]

lemma join_injective {x x' : α} {s : Side × α} (h : join x s = join x' s) : x = x' := by
  obtain ⟨side, y⟩ := s
  cases side with
  | left => exact (Prod.mk.inj h).2
  | right => exact (Prod.mk.inj h).1

/-- **Rejection**: without collisions among the pairs combined, two climbs along one path that
meet at the top started from the same element. -/
theorem climb_injOn {S : Set (α × α)} (hS : Set.InjOn (fun p => node p.1 p.2) S)
    (p : List (Side × α)) (x x' : α) (hx : ∀ q ∈ climbPairs node x p, q ∈ S)
    (hx' : ∀ q ∈ climbPairs node x' p, q ∈ S) (h : climb node x p = climb node x' p) : x = x' := by
  induction p generalizing x x' with
  | nil => exact h
  | cons s p ih =>
    rw [climbPairs, List.forall_mem_cons] at hx hx'
    exact join_injective (hS hx.1 hx'.1 (ih _ _ hx.2 hx'.2 h))

/-! ## Climbs of any length -/

variable (node)

lemma climb_append (p₁ p₂ : List (Side × α)) (x : α) :
    climb node x (p₁ ++ p₂) = climb node (climb node x p₁) p₂ := by
  induction p₁ generalizing x with
  | nil => rfl
  | cons s p₁ ih => exact ih _

lemma climbPairs_append (p₁ p₂ : List (Side × α)) (x : α) :
    climbPairs node x (p₁ ++ p₂) =
      climbPairs node x p₁ ++ climbPairs node (climb node x p₁) p₂ := by
  induction p₁ generalizing x with
  | nil => rfl
  | cons s p₁ ih => rw [List.cons_append, climbPairs, ih, climbPairs, climb, List.cons_append]

/-- The path leads from the node `x` of a level to the root: each step joins the node with its
neighbour.  A node that is its own neighbour can be joined with itself on either side. -/
def Leads : List α → α → List (Side × α) → Prop
  | l, x, [] => l = [x]
  | l, x, s :: p =>
    1 < l.length ∧ join x s ∈ pairs l ∧ Leads (level node l) (node (join x s).1 (join x s).2) p

lemma mem_of_join_mem_pairs {l : List α} {x : α} {s : Side × α} (h : join x s ∈ pairs l) :
    x ∈ l := by
  obtain ⟨side, y⟩ := s
  cases side with
  | left => exact (mem_of_mem_pairs h).2
  | right => exact (mem_of_mem_pairs h).1

variable {node}

lemma Leads.mem {l : List α} {x : α} {p : List (Side × α)} (h : Leads node l x p) : x ∈ l := by
  cases p with
  | nil =>
    have hl : l = [x] := h
    exact hl ▸ List.mem_singleton_self x
  | cons s p => exact mem_of_join_mem_pairs h.2.1

lemma Leads.root_eq {l : List α} {x : α} {p : List (Side × α)} (h : Leads node l x p) :
    root node l = some (climb node x p) := by
  induction p generalizing l x with
  | nil =>
    have hl : l = [x] := h
    simp [hl, root, climb]
  | cons s p ih =>
    obtain ⟨hlen, -, hrest⟩ := h
    rw [root_of_lt node hlen, ih hrest]
    rfl

/-- A path from a level to the root has one step for each level above. -/
theorem length_of_leads {l : List α} {x : α} {p : List (Side × α)} (h : Leads node l x p) :
    p.length = Nat.clog 2 l.length := by
  induction p generalizing l x with
  | nil =>
    have hl : l = [x] := h
    rw [hl, List.length_singleton, Nat.clog_one_right, List.length_nil]
  | cons s p ih =>
    obtain ⟨hlen, -, hrest⟩ := h
    rw [List.length_cons, ih hrest, length_level, Nat.clog_of_two_le (by decide) hlen]
    rfl

/-! ## Levels -/

variable (node) in
/-- A level is not longer than the list it is built from. -/
lemma length_level_iterate_le (l : List α) (j : ℕ) :
    ((level node)^[j] l).length ≤ l.length := by
  induction j generalizing l with
  | zero => exact le_rfl
  | succ j ih =>
    have h := ih (level node l)
    rw [length_level] at h
    rw [Function.iterate_succ_apply]
    rcases Nat.eq_zero_or_pos l.length with hzero | hpos
    · omega
    · omega

/-- Above a level with two nodes the tree goes on to the same root. -/
lemma root_level_iterate {l : List α} {j : ℕ} (hlen : 1 < ((level node)^[j] l).length) :
    root node ((level node)^[j + 1] l) = root node l := by
  induction j generalizing l with
  | zero => exact (root_of_lt node hlen).symm
  | succ j ih =>
    have hl := hlen.trans_le (length_level_iterate_le node l (j + 1))
    rw [root_of_lt node hl]
    exact ih hlen

/-- Each level takes one step off the height. -/
lemma clog_length_level_iterate {l : List α} {j : ℕ}
    (hlong : ∀ i < j, 1 < ((level node)^[i] l).length) :
    Nat.clog 2 ((level node)^[j] l).length + j = Nat.clog 2 l.length := by
  induction j generalizing l with
  | zero => rfl
  | succ j ih =>
    have hl : 1 < l.length := hlong 0 (Nat.succ_pos j)
    have hup := ih (l := level node l) fun i hi => hlong (i + 1) (Nat.succ_lt_succ hi)
    rw [length_level] at hup
    rw [Function.iterate_succ_apply, Nat.clog_of_two_le (by decide) hl, ← Nat.add_assoc, hup]
    rfl

/-- The pairs of every level are pairs of the tree. -/
lemma mem_treePairs_of_level {l : List α} {j : ℕ} (hlen : 1 < ((level node)^[j] l).length) :
    ∀ q ∈ pairs ((level node)^[j] l), q ∈ treePairs node l := by
  induction j generalizing l with
  | zero =>
    have hl : 1 < l.length := hlen
    intro q hq
    rw [treePairs, if_pos hl]
    exact List.mem_append_left _ hq
  | succ j ih =>
    intro q hq
    have hl := hlen.trans_le (length_level_iterate_le node l (j + 1))
    rw [treePairs, if_pos hl]
    exact List.mem_append_right _ (ih (l := level node l) hlen q hq)

/-- **Where a climb to the root can start.**  When no pair of the climb collides with a pair of the
tree, a climb that ends at the root starts at a node of some level and goes along its neighbours,
or it passes through a leaf. -/
theorem leads_of_climb_eq_root (l : List α) (x : α) (p : List (Side × α))
    (hfree : ∀ q ∈ climbPairs node x p, ∀ q' ∈ treePairs node l,
      node q.1 q.2 = node q'.1 q'.2 → q = q')
    (h : root node l = some (climb node x p)) :
    (∃ j, (∀ i < j, 1 < ((level node)^[i] l).length) ∧ Leads node ((level node)^[j] l) x p) ∨
      ∃ p₁ p₂, p = p₁ ++ p₂ ∧ p₁ ≠ [] ∧ Leads node l (climb node x p₁) p₂ := by
  induction l using root.induct node with
  | case1 l hlen ih =>
    rw [root_of_lt node hlen] at h
    have hup : ∀ q' ∈ treePairs node (level node l), q' ∈ treePairs node l := by
      intro q' hq'
      rw [treePairs, if_pos hlen]
      exact List.mem_append_right _ hq'
    rcases ih (fun q hq q' hq' => hfree q hq q' (hup q' hq')) h with
      ⟨j, hlong, hj⟩ | ⟨p₁, p₂, hp, hne, hleads⟩
    · refine Or.inl ⟨j + 1, fun i hi => ?_, hj⟩
      cases i with
      | zero => exact hlen
      | succ i => exact hlong i (Nat.lt_of_succ_lt_succ hi)
    · -- the step by which the climb enters the level above is a pair of this level
      obtain ⟨p₀, s, rfl⟩ : ∃ p₀ s, p₁ = p₀ ++ [s] :=
        ⟨_, _, (List.dropLast_append_getLast hne).symm⟩
      have hstep : climb node x (p₀ ++ [s]) =
          node (join (climb node x p₀) s).1 (join (climb node x p₀) s).2 :=
        climb_append node p₀ [s] x
      obtain ⟨q, hq, hnode⟩ := List.mem_map.1 hleads.mem
      have hmem : join (climb node x p₀) s ∈ climbPairs node x p := by
        rw [hp, climbPairs_append, climbPairs_append]
        simp [climbPairs]
      have htree : q ∈ treePairs node l := by
        rw [treePairs, if_pos hlen]
        exact List.mem_append_left _ hq
      have hjoin : join (climb node x p₀) s = q :=
        hfree _ hmem q htree (hstep.symm.trans hnode.symm)
      have hthis : Leads node l (climb node x p₀) (s :: p₂) :=
        ⟨hlen, hjoin ▸ hq, hstep ▸ hleads⟩
      rw [List.append_assoc, List.singleton_append] at hp
      by_cases hnil : p₀ = []
      · subst hnil
        exact Or.inl ⟨0, fun i hi => absurd hi (Nat.not_lt_zero i), hp ▸ hthis⟩
      · exact Or.inr ⟨p₀, s :: p₂, hp, hnil, hthis⟩
  | case2 l hlen =>
    have hl : l = [climb node x p] := by
      rw [root, if_neg hlen] at h
      cases l with
      | nil => cases h
      | cons y l =>
        obtain rfl : l = [] := List.length_eq_zero_iff.1 (by rw [List.length_cons] at hlen; omega)
        rw [List.head?_cons, Option.some.injEq] at h
        rw [h]
    by_cases hnil : p = []
    · subst hnil
      exact Or.inl ⟨0, fun i hi => absurd hi (Nat.not_lt_zero i), hl⟩
    · exact Or.inr ⟨p, [], (List.append_nil p).symm, hnil, hl⟩

end Lib.MerkleTree
