import DistriStore.Dht.Nearest
import DistriStore.Lib.Nearest
import DistriStore.Node.State
import Mathlib.Data.List.Pairwise

/-!
# Peer lookup (`backend/dht/lookup.py`)

A lookup answers with the holders on record in the routing table, and falls back on the peers whose
ids are nearest to the chunk hash, where the chunk would have been stored.

`getHolders_iff_onRecord` says what the table holds after any sequence of updates, and
`findChunkHolders_after_churn` why the fallback finds chunks again: of the peers that a chunk was
stored at and that are still there, it misses at most as many as have joined since.
-/

namespace DistriStore

open Lib

/-! ## The routing table under updates -/

namespace RoutingTable

/-- Remove a peer from all chunk assignments: the chunks that lost it, and the new table. -/
def removePeerFromAll (rt : RoutingTable) (peerId : String) : List String × RoutingTable :=
  ((rt.table.entries.filter fun e => peerId ∈ e.2).map Prod.fst,
    ⟨rt.table.mapValues fun peers => peers.erase peerId⟩)

def chunkCount (rt : RoutingTable) : ℕ := rt.table.keys.length

lemma getHolders_removePeerFromAll (rt : RoutingTable) (peerId c : String) :
    (rt.removePeerFromAll peerId).2.getHolders c = (rt.getHolders c).erase peerId := by
  unfold getHolders removePeerFromAll
  rw [Dict.get?_mapValues]
  cases rt.table.get? c <;> rfl

/-- The chunks reported are those that listed the peer. -/
lemma mem_removePeerFromAll {rt : RoutingTable} {peerId c : String} :
    c ∈ (rt.removePeerFromAll peerId).1 ↔ peerId ∈ rt.getHolders c := by
  unfold removePeerFromAll getHolders
  simp only [List.mem_map, List.mem_filter, decide_eq_true_eq]
  constructor
  · rintro ⟨e, ⟨he, hpeer⟩, rfl⟩
    rw [Dict.get?_of_mem_entries he]
    exact hpeer
  · intro hpeer
    cases hc : rt.table.get? c with
    | none => simp [hc] at hpeer
    | some ids =>
      rw [hc] at hpeer
      exact ⟨(c, ids), ⟨Dict.mem_entries_of_get? hc, hpeer⟩, rfl⟩

/-- An update of the table. -/
inductive Update where
  | assign (chunkHash : String) (peerIds : List String)
  | removePeer (peerId : String)

def update (rt : RoutingTable) : Update → RoutingTable
  | .assign c ids => rt.assignChunk c ids
  | .removePeer peerId => (rt.removePeerFromAll peerId).2

/-- The table after updates, from an empty one. -/
def after (updates : List Update) : RoutingTable := updates.foldl update ∅

/-- `p` is on record for `c` after these updates, the latest first: the last assignment of the chunk
lists it, and it has not been removed since. -/
def OnRecord (c p : String) : List Update → Prop
  | [] => False
  | .assign c' ids :: earlier => if c' = c then p ∈ ids else OnRecord c p earlier
  | .removePeer p' :: earlier => p' ≠ p ∧ OnRecord c p earlier

/-- The assigned lists have no repetitions. -/
def Update.Simple : Update → Prop
  | .assign _ ids => ids.Nodup
  | .removePeer _ => True

lemma after_append (updates : List Update) (u : Update) :
    after (updates ++ [u]) = (after updates).update u := by
  rw [after, List.foldl_append]
  rfl

/-- **The table against its history.** After any sequence of updates the holders of a chunk are,
without repetition, the peers on record for it. -/
theorem getHolders_iff_onRecord {updates : List Update} (h : ∀ u ∈ updates, u.Simple)
    (c p : String) : ((after updates).getHolders c).Nodup ∧
      (p ∈ (after updates).getHolders c ↔ OnRecord c p updates.reverse) := by
  induction updates using List.reverseRecOn with
  | nil => simp [after, OnRecord]
  | append_singleton updates u ih =>
    obtain ⟨hnodup, hmem⟩ := ih fun u' hu' => h u' (List.mem_append_left _ hu')
    have hu : u.Simple := h u (by simp)
    rw [after_append, List.reverse_append, List.reverse_singleton, List.singleton_append]
    cases u with
    | assign c' ids =>
      simp only [update, getHolders_assignChunk, OnRecord]
      by_cases hc : c = c'
      · rw [if_pos hc, if_pos hc.symm]
        exact ⟨hu, Iff.rfl⟩
      · rw [if_neg hc, if_neg (Ne.symm hc)]
        exact ⟨hnodup, hmem⟩
    | removePeer p' =>
      simp only [update, getHolders_removePeerFromAll, OnRecord]
      rw [hnodup.mem_erase_iff, hmem]
      exact ⟨hnodup.erase p', and_congr_left' ne_comm⟩

end RoutingTable

/-! ## Lookups -/

/-- Find peers that hold a specific chunk.  `peers` are the alive ones. -/
def findChunkHolders (routing : RoutingTable) (peers : Dict String PeerInfo)
    (chunkHash : String) : Except PyError (List String) :=
  let holders := routing.getHolders chunkHash
  if holders ≠ [] then .ok holders
  else if peers.keys = [] then .ok []
  else (findClosestPeers chunkHash peers.keys 3).map (List.map Prod.fst)

/-- Find the best k peers to store a chunk on, based on XOR distance. -/
def findBestStoragePeers (peers : Dict String PeerInfo) (chunkHash : String) (k : ℕ) :
    Except PyError (List String) :=
  if peers.keys = [] then .ok []
  else (findClosestPeers chunkHash peers.keys k).map (List.map Prod.fst)

lemma findBestStoragePeers_eq (peers : Dict String PeerInfo) (chunkHash : String) (k : ℕ) :
    findBestStoragePeers peers chunkHash k =
      (findClosestPeers chunkHash peers.keys k).map (List.map Prod.fst) := by
  unfold findBestStoragePeers
  split
  · next h =>
    rw [h]
    rfl
  · rfl

lemma findBestStoragePeers_eq_ok {peers : Dict String PeerInfo} {chunkHash : String} {k : ℕ}
    {ids : List String} (h : findBestStoragePeers peers chunkHash k = .ok ids) :
    ids = (closestEntries chunkHash peers.keys k).map Prod.fst := by
  rw [findBestStoragePeers_eq] at h
  cases hr : findClosestPeers chunkHash peers.keys k with
  | error e =>
    rw [hr] at h
    cases h
  | ok es =>
    rw [hr] at h
    rw [← (findClosestPeers_eq_ok.1 hr).1]
    exact (Except.ok.inj h).symm

/-- With nobody on record a lookup asks where the chunk would be stored now. -/
lemma findChunkHolders_of_getHolders_eq_nil {routing : RoutingTable} {chunkHash : String}
    (h : routing.getHolders chunkHash = []) (peers : Dict String PeerInfo) :
    findChunkHolders routing peers chunkHash = findBestStoragePeers peers chunkHash 3 := by
  unfold findChunkHolders findBestStoragePeers
  simp [h]

/-- **Lookups after any history.** A lookup returns exactly the peers on record for the chunk, alive
or not; with nobody on record, the peers it would be stored at now.  Removing a peer reports exactly
the chunks for which it is on record. -/
theorem findChunkHolders_after_updates {updates : List RoutingTable.Update}
    (h : ∀ u ∈ updates, u.Simple) (peers : Dict String PeerInfo) (c : String) :
    ((∃ p, RoutingTable.OnRecord c p updates.reverse) →
      ∃ holders, findChunkHolders (RoutingTable.after updates) peers c = .ok holders ∧
        holders.Nodup ∧ ∀ p, p ∈ holders ↔ RoutingTable.OnRecord c p updates.reverse) ∧
    ((∀ p, ¬ RoutingTable.OnRecord c p updates.reverse) →
      findChunkHolders (RoutingTable.after updates) peers c = findBestStoragePeers peers c 3) ∧
    ∀ p, c ∈ ((RoutingTable.after updates).removePeerFromAll p).1 ↔
      RoutingTable.OnRecord c p updates.reverse := by
  have hmem : ∀ p, p ∈ (RoutingTable.after updates).getHolders c ↔
      RoutingTable.OnRecord c p updates.reverse :=
    fun p => (RoutingTable.getHolders_iff_onRecord h c p).2
  refine ⟨?_, fun hnone => ?_, fun p => ?_⟩
  · rintro ⟨p, hp⟩
    have hne : (RoutingTable.after updates).getHolders c ≠ [] :=
      List.ne_nil_of_mem ((hmem p).2 hp)
    exact ⟨_, if_pos hne, (RoutingTable.getHolders_iff_onRecord h c p).1, hmem⟩
  · refine findChunkHolders_of_getHolders_eq_nil ?_ peers
    exact List.eq_nil_iff_forall_not_mem.2 fun p hp => hnone p ((hmem p).1 hp)
  · rw [RoutingTable.mem_removePeerFromAll, hmem]

/-- A chunk that is assigned to two peers, one of which is removed. -/
theorem findChunkHolders_after_updates_removed :
    ∃ holders, findChunkHolders (.after [.assign "c" ["a", "b"], .removePeer "a"]) ∅ "c" =
      .ok holders ∧ "b" ∈ holders ∧ "a" ∉ holders := by
  have hrecord : RoutingTable.OnRecord "c" "b" [.removePeer "a", .assign "c" ["a", "b"]] := by
    simp [RoutingTable.OnRecord]
  have hsimple : ∀ u ∈ [RoutingTable.Update.assign "c" ["a", "b"], .removePeer "a"], u.Simple := by
    simp [RoutingTable.Update.Simple]
  obtain ⟨holders, hfind, -, hmem⟩ :=
    (findChunkHolders_after_updates hsimple ∅ "c").1 ⟨"b", hrecord⟩
  exact ⟨holders, hfind, (hmem "b").2 hrecord, fun ha => ((hmem "a").1 ha).1 rfl⟩

/-! ## Nearest ids as nearest members -/

section Nearest

variable {targetHash : String} {peerIds : List String} {k : ℕ}

/-- The ids that have a distance. -/
def validIds (targetHash : String) (peerIds : List String) : List String :=
  peerIds.filter fun pid => (xorDistance targetHash pid).isSome

/-- The distance of an id that has one. -/
def distanceOf (targetHash pid : String) : ℤ := (xorDistance targetHash pid).getD 0

lemma distances_eq_map (targetHash : String) (peerIds : List String) :
    distances targetHash peerIds =
      (validIds targetHash peerIds).map fun pid => (pid, distanceOf targetHash pid) := by
  induction peerIds with
  | nil => rfl
  | cons pid peerIds ih =>
    unfold distances validIds at ih ⊢
    cases hd : xorDistance targetHash pid with
    | none => simp [hd, ih]
    | some d => simp [hd, ih, distanceOf]

lemma map_fst_closestEntries (targetHash : String) (peerIds : List String) (k : ℕ) :
    (closestEntries targetHash peerIds k).map Prod.fst =
      (sortBy (distanceOf targetHash) (validIds targetHash peerIds)).take k := by
  rw [closestEntries_eq, distances_eq_map, List.map_take,
    ← map_sortBy (distanceOf targetHash) (fun pid => (pid, distanceOf targetHash pid)) Prod.snd
      (fun _ => rfl), List.map_map]
  exact congrArg (List.take k) (List.map_id _)

/-- Ids that are different numbers have different distances. -/
lemma injOn_distanceOf {t : ℤ} (ht : parseInt16 targetHash = some t)
    (hids : (peerIds.filterMap parseInt16).Nodup) :
    Set.InjOn (distanceOf targetHash) (validIds targetHash peerIds).toFinset := by
  intro p hp q hq hpq
  rw [Finset.mem_coe, List.mem_toFinset, validIds, List.mem_filter, isSome_xorDistance ht] at hp hq
  obtain ⟨v, hv⟩ := Option.isSome_iff_exists.1 hp.2
  obtain ⟨w, hw⟩ := Option.isSome_iff_exists.1 hq.2
  simp only [distanceOf, xorDistance_eq ht, hv, hw, Option.map_some, Option.getD_some] at hpq
  obtain rfl : v = w := xor_right_injective t hpq
  by_contra hne
  have hall := List.pairwise_filterMap.1 hids
  have hsymm : Std.Symm fun a b : String =>
      ∀ c, parseInt16 a = some c → ∀ c', parseInt16 b = some c' → c ≠ c' :=
    ⟨fun a b hab c hc c' hc' => (hab c' hc' c hc).symm⟩
  exact hall.forall hp.1 hq.1 hne v hv v hw rfl

/-- The nearest ids, as members of the set of valid ids. -/
lemma mem_closestEntries_iff {t : ℤ} (ht : parseInt16 targetHash = some t)
    (hnodup : peerIds.Nodup) (hids : (peerIds.filterMap parseInt16).Nodup) {pid : String} :
    pid ∈ (closestEntries targetHash peerIds k).map Prod.fst ↔
      pid ∈ nearest k (distanceOf targetHash) (validIds targetHash peerIds).toFinset := by
  rw [map_fst_closestEntries]
  exact mem_take_sortBy_iff (hnodup.filter _) (injOn_distanceOf ht hids)

end Nearest

/-! ## Churn -/

/-- **Lookups under churn.** A chunk was stored at the best `k ≤ 3` of the peers alive then, and
nobody is on record for it.  The ids of the peers are different numbers, then and now.  Of those
peers that are alive now, a lookup misses at most as many as have joined since: none if nobody
joined. -/
theorem findChunkHolders_after_churn {chunkHash : String} {t : ℤ} {k : ℕ} {routing : RoutingTable}
    {peers peers' : Dict String PeerInfo} (ht : parseInt16 chunkHash = some t) (hk : k ≤ 3)
    {stored found : List String} (hempty : routing.getHolders chunkHash = [])
    (hids : (peers.keys.filterMap parseInt16).Nodup)
    (hids' : (peers'.keys.filterMap parseInt16).Nodup)
    (hstore : findBestStoragePeers peers chunkHash k = .ok stored)
    (hfind : findChunkHolders routing peers' chunkHash = .ok found) :
    (stored.filter fun p => p ∈ peers'.keys ∧ p ∉ found).length ≤
      (peers'.keys.filter fun p => (parseInt16 p).isSome ∧ p ∉ peers.keys).length := by
  set s := (validIds chunkHash peers.keys).toFinset
  set alive := (validIds chunkHash peers'.keys).toFinset
  have hvalid : ∀ ids : List String, ∀ p, p ∈ (validIds chunkHash ids).toFinset ↔
      p ∈ ids ∧ (parseInt16 p).isSome = true := by
    intro ids p
    rw [List.mem_toFinset, validIds, List.mem_filter, isSome_xorDistance ht]
  rw [findChunkHolders_of_getHolders_eq_nil hempty] at hfind
  have hstored : ∀ p, p ∈ stored ↔ p ∈ nearest k (distanceOf chunkHash) s := by
    intro p
    rw [findBestStoragePeers_eq_ok hstore]
    exact mem_closestEntries_iff ht peers.nodupKeys hids
  have hfound : ∀ p, p ∈ found ↔ p ∈ nearest 3 (distanceOf chunkHash) alive := by
    intro p
    rw [findBestStoragePeers_eq_ok hfind]
    exact mem_closestEntries_iff ht peers'.nodupKeys hids'
  have hnodup : stored.Nodup := by
    rw [findBestStoragePeers_eq_ok hstore]
    exact nodup_closestEntries peers.nodupKeys
  have hnodup' : peers'.keys.Nodup := peers'.nodupKeys
  -- both sides as cardinalities of sets of ids
  rw [← List.toFinset_card_of_nodup (hnodup.filter _),
    ← List.toFinset_card_of_nodup (hnodup'.filter _)]
  have hnew : ((peers'.keys.filter fun p => (parseInt16 p).isSome ∧ p ∉ peers.keys).toFinset) =
      alive \ s := by
    ext p
    rw [List.mem_toFinset, List.mem_filter, Finset.mem_sdiff, hvalid, hvalid]
    simp only [decide_eq_true_eq]
    tauto
  calc _ ≤ ((nearest 3 (distanceOf chunkHash) s ∩ alive) \
          nearest 3 (distanceOf chunkHash) alive).card := by
        refine Finset.card_le_card fun p hp => ?_
        rw [List.mem_toFinset, List.mem_filter, decide_eq_true_eq, hfound, hstored] at hp
        obtain ⟨hp, hpeer, hmissed⟩ := hp
        have hps : p ∈ s := nearest_subset hp
        refine Finset.mem_sdiff.2 ⟨Finset.mem_inter.2 ⟨nearest_mono hk hp, ?_⟩, hmissed⟩
        exact (hvalid _ p).2 ⟨hpeer, ((hvalid _ p).1 hps).2⟩
    _ ≤ (alive \ s).card := card_displaced_le (injOn_distanceOf ht hids)
    _ = _ := by rw [hnew]

/-- Peers with these ids. -/
def peersNamed (ids : List String) : Dict String PeerInfo :=
  ids.foldl (fun peers id => peers.set id { nodeId := id, ip := "10.0.0.1", tcpPort := 50001 }) ∅

/-- One of three peers leaves, and a nearer one joins. -/
theorem findChunkHolders_after_churn_one :
    (["a0", "b0"].filter fun p => p ∈ (peersNamed ["a0", "c0", "a1"]).keys ∧
      p ∉ ["a1", "a0", "c0"]).length ≤ 1 := by
  have hhash : parseInt16 "a1" = some 161 := by decide +kernel
  have hempty : (∅ : RoutingTable).getHolders "a1" = [] := rfl
  have hids : ((peersNamed ["a0", "b0", "c0"]).keys.filterMap parseInt16).Nodup := by
    decide +kernel
  have hids' : ((peersNamed ["a0", "c0", "a1"]).keys.filterMap parseInt16).Nodup := by
    decide +kernel
  have hstore : findBestStoragePeers (peersNamed ["a0", "b0", "c0"]) "a1" 2 =
      .ok ["a0", "b0"] := by decide +kernel
  have hfind : findChunkHolders ∅ (peersNamed ["a0", "c0", "a1"]) "a1" =
      .ok ["a1", "a0", "c0"] := by decide +kernel
  have h := findChunkHolders_after_churn hhash (by decide) hempty hids hids' hstore hfind
  exact h.trans (by decide +kernel)

end DistriStore
