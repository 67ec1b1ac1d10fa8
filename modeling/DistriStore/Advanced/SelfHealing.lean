import DistriStore.Dht.Routing
import DistriStore.Node.State
import DistriStore.Storage.LocalStore

/-!
# Self-healing (`backend/advanced/self_healing.py`)

A cycle of `_check_and_heal` drops the holders that are not alive from the routing table, for
the chunks that have fewer than `k` holders left, and then sends each of these chunks to further
peers.  Between the sends other tasks run, so only the parts without an await are functions
here: the pass over the routing table, and the choice of data and targets for one chunk.
-/

namespace DistriStore

open Lib

/-- `under_replicated`: the chunks with fewer than `k` alive holders, with these holders. -/
def underReplicated (k : ℕ) (aliveIds : List String) (table : List (String × List String)) :
    List (String × List String) :=
  (table.map fun e => (e.1, e.2.filter (· ∈ aliveIds))).filter fun e => e.2.length < k

/-- Update routing table with only alive holders. -/
def RoutingTable.assignAll (rt : RoutingTable) (es : List (String × List String)) : RoutingTable :=
  es.foldl (fun rt e => rt.assignChunk e.1 e.2) rt

/-- The data of an under-replicated chunk and the peers that it is sent to; `none` when the
cycle goes on to the next chunk. -/
def healTargets (k : ℕ) (alivePeers : Dict String PeerInfo) (store : LocalStore)
    (chunkHash : String) (aliveHolders : List String) :
    Except PyError (Option (Bytes × List String)) :=
  let needed := k - aliveHolders.length
  if needed = 0 then .ok none
  else
    match store.loadChunk chunkHash with
    | none => .ok none
    | some chunkData =>
      let candidates := alivePeers.keys.filter (· ∉ aliveHolders)
      if candidates = [] then .ok none
      else do
        let closest ← findClosestPeers chunkHash candidates needed
        return some (chunkData, closest.map Prod.fst)

/-! ## The pass over the table only drops dead holders -/

lemma mem_of_mem_underReplicated {k : ℕ} {aliveIds : List String} {rt : RoutingTable}
    {c p : String} {holders : List String} (h : (c, holders) ∈ underReplicated k aliveIds rt.getAll)
    (hp : p ∈ holders) : p ∈ rt.getHolders c := by
  obtain ⟨⟨c', ids⟩, hmem, heq⟩ := List.mem_map.1 (List.mem_of_mem_filter h)
  obtain ⟨rfl, rfl⟩ := Prod.mk.inj heq
  rw [RoutingTable.getHolders_of_mem_getAll hmem]
  exact List.mem_of_mem_filter hp

/-- After a bulk assignment a chunk has the holders of one of its entries, or the old ones. -/
lemma getHolders_assignAll_cases (rt : RoutingTable) (es : List (String × List String))
    (c : String) :
    (∃ holders, (c, holders) ∈ es ∧ (rt.assignAll es).getHolders c = holders) ∨
      (rt.assignAll es).getHolders c = rt.getHolders c := by
  induction es generalizing rt with
  | nil => exact Or.inr rfl
  | cons e es ih =>
    rcases ih (rt.assignChunk e.1 e.2) with ⟨holders, hmem, heq⟩ | heq
    · exact Or.inl ⟨holders, List.mem_cons_of_mem _ hmem, heq⟩
    · have hstep : ((rt.assignAll (e :: es)).getHolders c) =
          (rt.assignChunk e.1 e.2).getHolders c := heq
      rw [RoutingTable.getHolders_assignChunk] at hstep
      by_cases hc : c = e.1
      · rw [if_pos hc] at hstep
        exact Or.inl ⟨e.2, hc ▸ List.mem_cons_self .., hstep⟩
      · rw [if_neg hc] at hstep
        exact Or.inr hstep

/-- The pass over the routing table only removes holders. -/
lemma mem_getHolders_of_pass {k : ℕ} {aliveIds : List String} {rt : RoutingTable} {c p : String}
    (h : p ∈ (rt.assignAll (underReplicated k aliveIds rt.getAll)).getHolders c) :
    p ∈ rt.getHolders c := by
  rcases getHolders_assignAll_cases rt (underReplicated k aliveIds rt.getAll) c with
    ⟨holders, hmem, heq⟩ | heq
  · exact mem_of_mem_underReplicated hmem (heq ▸ h)
  · exact heq ▸ h

/-- The pass over the routing table keeps the holders that are alive. -/
lemma mem_getHolders_pass {k : ℕ} {aliveIds : List String} {rt : RoutingTable} {c p : String}
    (h : p ∈ rt.getHolders c) (halive : p ∈ aliveIds) :
    p ∈ (rt.assignAll (underReplicated k aliveIds rt.getAll)).getHolders c := by
  rcases getHolders_assignAll_cases rt (underReplicated k aliveIds rt.getAll) c with
    ⟨holders, hmem, heq⟩ | heq
  · obtain ⟨⟨c', ids⟩, hentry, hpair⟩ := List.mem_map.1 (List.mem_of_mem_filter hmem)
    obtain ⟨rfl, rfl⟩ := Prod.mk.inj hpair
    rw [RoutingTable.getHolders_of_mem_getAll hentry] at h
    rw [heq]
    exact List.mem_filter.2 ⟨h, decide_eq_true halive⟩
  · exact heq ▸ h

end DistriStore
