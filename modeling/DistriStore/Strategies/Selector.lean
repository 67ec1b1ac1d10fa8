import DistriStore.Lib.SortBy
import DistriStore.Node.State
import Mathlib.Data.Rat.Floor

/-!
# Heuristic peer scoring (`backend/strategies/selector.py`)

Free space, uptime and latency are brought to the range from 0 to 1 over the peers at hand, and
a peer scores free space plus uptime minus latency.  Numbers are exact rationals.
-/

namespace DistriStore

open Lib

/-- Min-max normalize a list of values. -/
def normalize (values : List ℚ) : List ℚ :=
  match values with
  | [] => []
  | v :: vs =>
    let mn := vs.foldl min v
    let mx := vs.foldl max v
    if mx = mn then values.map fun _ => 0.5
    else values.map fun v => (v - mn) / (mx - mn)

/-- Rounding to an integer, ties to the even one. -/
def roundHalfEven (q : ℚ) : ℤ :=
  let f := ⌊q⌋
  if q - f < 1 / 2 then f
  else if 1 / 2 < q - f then f + 1
  else if f % 2 = 0 then f else f + 1

/-- `round(q, n)`. -/
def pyRound (n : ℕ) (q : ℚ) : ℚ := roundHalfEven (q * 10 ^ n) / 10 ^ n

/-- What `score_peers` reports about a peer beside its score. -/
structure ScoreDetails where
  freeSpace : ℤ
  uptime : ℚ
  latency : ℚ
  fsNorm : ℚ
  upNorm : ℚ
  latNorm : ℚ
  deriving DecidableEq, Repr

/-- `score_peers` with the normalized metrics. -/
def scoresWith (peers : Dict String PeerInfo) (fsNorm upNorm latNorm : List ℚ) :
    List (String × ℚ × ScoreDetails) :=
  let freeSpaces := peers.values.map PeerInfo.freeSpace
  let uptimes := peers.values.map PeerInfo.uptime
  let latencies := peers.values.map PeerInfo.latency
  let results := peers.keys.mapIdx fun i pid =>
    (pid, pyRound 4 (fsNorm.getD i 0 + upNorm.getD i 0 - latNorm.getD i 0),
      { freeSpace := freeSpaces.getD i 0
        uptime := uptimes.getD i 0
        latency := latencies.getD i 0
        fsNorm := pyRound 3 (fsNorm.getD i 0)
        upNorm := pyRound 3 (upNorm.getD i 0)
        latNorm := pyRound 3 (latNorm.getD i 0) })
  sortBy (fun r => -r.2.1) results

/-- Score peers, highest score first. -/
def scorePeers (peers : Dict String PeerInfo) : List (String × ℚ × ScoreDetails) :=
  scoresWith peers (normalize (peers.values.map fun p => (p.freeSpace : ℚ)))
    (normalize (peers.values.map PeerInfo.uptime)) (normalize (peers.values.map PeerInfo.latency))

/-- The top `k` peers by heuristic score. -/
def selectBestPeers (peers : Dict String PeerInfo) (k : ℕ) : List String :=
  ((scorePeers peers).take k).map Prod.fst

/-- Every peer is scored once. -/
lemma map_fst_scorePeers_perm (peers : Dict String PeerInfo) :
    ((scorePeers peers).map Prod.fst).Perm peers.keys := by
  refine ((sortBy_perm _ _).map Prod.fst).trans (List.Perm.of_eq ?_)
  refine List.ext_getElem (by simp) fun i h₁ h₂ => ?_
  simp

lemma mem_scorePeers {peers : Dict String PeerInfo} {r : String × ℚ × ScoreDetails}
    (h : r ∈ scorePeers peers) : r.1 ∈ peers.keys :=
  (map_fst_scorePeers_perm peers).mem_iff.1 (List.mem_map_of_mem h)

lemma length_scorePeers (peers : Dict String PeerInfo) :
    (scorePeers peers).length = peers.keys.length := by
  rw [← (map_fst_scorePeers_perm peers).length_eq, List.length_map]

end DistriStore
