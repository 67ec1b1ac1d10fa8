import DistriStore.Dht.Nearest
import DistriStore.Strategies.Replication

/-!
# The targets of a replication (`ReplicationEngine._select_targets`)

The targets are the nearest peers first, and then as many of the best scored ones as are missing up
to `k`.  Since `2 * k` peers are taken from the scores, there are always enough of them; and where
all ids are numbers the nearest peers are `k` already, so that the scores have no say.  All of this
is lost when a distance cannot be written into the log.
-/

namespace DistriStore

open Lib

/-! ## Merging two rankings -/

section

variable {combined pids : List String}

lemma prefix_appendNew (combined pids : List String) : combined <+: appendNew combined pids := by
  induction pids generalizing combined with
  | nil => exact List.prefix_refl combined
  | cons p pids ih =>
    rw [appendNew, List.foldl_cons]
    split
    · exact ih combined
    · exact (List.prefix_append combined [p]).trans (ih (combined ++ [p]))

lemma nodup_appendNew (h : combined.Nodup) (pids : List String) :
    (appendNew combined pids).Nodup := by
  induction pids generalizing combined with
  | nil => exact h
  | cons p pids ih =>
    rw [appendNew, List.foldl_cons]
    split
    · exact ih h
    · next hp =>
      refine ih (List.nodup_append.2 ⟨h, List.nodup_singleton p, fun a ha b hb hab => ?_⟩)
      rw [List.mem_singleton.1 hb] at hab
      exact hp (hab ▸ ha)

/-- Distinct new ids are appended as they are. -/
lemma appendNew_of_nodup (h : (combined ++ pids).Nodup) :
    appendNew combined pids = combined ++ pids := by
  induction pids generalizing combined with
  | nil => exact (List.append_nil combined).symm
  | cons p pids ih =>
    have hp : p ∉ combined := fun hmem =>
      (List.nodup_append.1 h).2.2 p hmem p (List.mem_cons_self ..) rfl
    have hassoc : combined ++ p :: pids = (combined ++ [p]) ++ pids := by simp
    rw [appendNew, List.foldl_cons, if_neg hp, hassoc]
    exact ih (hassoc ▸ h)

end

/-! ## The targets -/

section

variable {k : ℕ} {peers : Dict String PeerInfo} {chunkHash : String}

/-- The ids of the nearest peers. -/
def xorTop (k : ℕ) (peers : Dict String PeerInfo) (chunkHash : String) : List String :=
  (closestEntries chunkHash peers.keys k).map Prod.fst

/-- The ids of the best scored peers that are taken into account. -/
def heuristicTop (k : ℕ) (peers : Dict String PeerInfo) : List String :=
  ((scorePeers peers).take (k * 2)).map Prod.fst

lemma nodup_xorTop : (xorTop k peers chunkHash).Nodup := nodup_closestEntries peers.nodupKeys

lemma length_xorTop_le : (xorTop k peers chunkHash).length ≤ k := by
  rw [xorTop, List.length_map, length_closestEntries]
  exact Nat.min_le_left ..

lemma nodup_heuristicTop : (heuristicTop k peers).Nodup :=
  ((map_fst_scorePeers_perm peers).nodup_iff.2 peers.nodupKeys).sublist
    ((List.take_sublist _ _).map Prod.fst)

lemma length_heuristicTop : (heuristicTop k peers).length = min (k * 2) peers.keys.length := by
  rw [heuristicTop, List.length_map, List.length_take, length_scorePeers]

lemma mergedTargets_eq (k : ℕ) (peers : Dict String PeerInfo) (chunkHash : String) :
    mergedTargets k peers chunkHash =
      (appendNew (xorTop k peers chunkHash) (heuristicTop k peers)).take k := by
  have hxor : appendNew [] (xorTop k peers chunkHash) = xorTop k peers chunkHash :=
    appendNew_of_nodup nodup_xorTop
  conv_rhs => rw [← hxor]
  rfl

/-- All peers that are merged are alive, so there are no more than that; and all of the best scored
ones are among them. -/
lemma length_merged (k : ℕ) (peers : Dict String PeerInfo) (chunkHash : String) :
    min (k * 2) peers.keys.length ≤
      (appendNew (xorTop k peers chunkHash) (heuristicTop k peers)).length ∧
    (appendNew (xorTop k peers chunkHash) (heuristicTop k peers)).length ≤ peers.keys.length := by
  constructor
  · rw [← length_heuristicTop]
    exact (List.subperm_of_subset nodup_heuristicTop fun pid hpid =>
      mem_appendNew_of_mem hpid).length_le
  · refine (List.subperm_of_subset (nodup_appendNew nodup_xorTop _) fun pid hpid => ?_).length_le
    rcases mem_appendNew hpid with hpid | hpid
    · obtain ⟨p, hp, rfl⟩ := List.mem_map.1 hpid
      exact mem_closestEntries hp
    · obtain ⟨r, hr, rfl⟩ := List.mem_map.1 hpid
      exact mem_scorePeers (List.mem_of_mem_take hr)

lemma length_mergedTargets (k : ℕ) (peers : Dict String PeerInfo) (chunkHash : String) :
    (mergedTargets k peers chunkHash).length = min k peers.keys.length := by
  obtain ⟨hmin, hmax⟩ := length_merged k peers chunkHash
  rw [mergedTargets_eq, List.length_take]
  omega

lemma nodup_mergedTargets (k : ℕ) (peers : Dict String PeerInfo) (chunkHash : String) :
    (mergedTargets k peers chunkHash).Nodup := by
  rw [mergedTargets_eq]
  exact (nodup_appendNew nodup_xorTop _).sublist (List.take_sublist _ _)

lemma xorTop_prefix_mergedTargets (k : ℕ) (peers : Dict String PeerInfo) (chunkHash : String) :
    xorTop k peers chunkHash <+: mergedTargets k peers chunkHash := by
  rw [mergedTargets_eq]
  exact List.prefix_take_iff.2 ⟨prefix_appendNew _ _, length_xorTop_le⟩

/-- Where all ids are numbers, the nearest peers are all the targets. -/
lemma mergedTargets_eq_xorTop (hhash : (parseInt16 chunkHash).isSome = true)
    (hids : ∀ pid ∈ peers.keys, (parseInt16 pid).isSome = true) :
    mergedTargets k peers chunkHash = xorTop k peers chunkHash := by
  obtain ⟨t, ht⟩ := Option.isSome_iff_exists.1 hhash
  have hall : (peers.keys.filter fun pid => (xorDistance chunkHash pid).isSome) = peers.keys :=
    List.filter_eq_self.2 fun pid hpid => by rw [isSome_xorDistance ht, hids pid hpid]
  refine ((xorTop_prefix_mergedTargets k peers chunkHash).eq_of_length ?_).symm
  rw [length_mergedTargets, xorTop, List.length_map, length_closestEntries, hall]

lemma selectTargets_of_writable (h : WritableDistances chunkHash peers.keys k) :
    selectTargets k peers chunkHash = .ok (mergedTargets k peers chunkHash) :=
  selectTargets_eq_ok.2 ⟨rfl, _, findClosestPeers_of_writable h⟩

end

/-- The targets are as many as peers are alive, up to `k`, all different, and begin with the nearest
ones; where the chunk hash and all ids are numbers, they are exactly the nearest ones, whatever the
scores of the peers are. -/
structure Determined (k : ℕ) (peers : Dict String PeerInfo) (chunkHash : String)
    (targets closest : List String) : Prop where
  length : targets.length = min k peers.keys.length
  nodup : targets.Nodup
  alive : ∀ pid ∈ targets, pid ∈ peers.keys
  nearest : closest <+: targets
  exact : (parseInt16 chunkHash).isSome = true →
    (∀ pid ∈ peers.keys, (parseInt16 pid).isSome = true) →
      targets = closest ∧ ∀ peers' : Dict String PeerInfo, peers'.keys = peers.keys →
        selectTargets k peers' chunkHash = .ok targets

/-- `_select_targets` returns the targets that are determined in this way. -/
def TargetsDetermined (k : ℕ) (peers : Dict String PeerInfo) (chunkHash : String) : Prop :=
  ∃ targets es, selectTargets k peers chunkHash = .ok targets ∧
    findClosestPeers chunkHash peers.keys k = .ok es ∧
    Determined k peers chunkHash targets (es.map Prod.fst)

/-- Two peers with the given free space. -/
def twoPeers (freeSpace freeSpace' : ℤ) : Dict String PeerInfo :=
  (∅ : Dict String PeerInfo).setAll
    [("0f", { nodeId := "0f", ip := "10.0.0.1", tcpPort := 50001, freeSpace }),
      ("f1", { nodeId := "f1", ip := "10.0.0.2", tcpPort := 50001, freeSpace := freeSpace' })]

-- the nearer one is chosen, however much space the other one has
example : selectTargets 1 (twoPeers 9 0) "f0" = .ok ["f1"] := by decide +kernel

end DistriStore
