import DistriStore.FileEngine.Chunker
import DistriStore.Lib.MerkleTree
import Mathlib.Data.Int.Init

/-!
# Merkle proofs (`backend/file_engine/chunker.py`)

`compute_merkle_proof` walks up the same levels as `compute_merkle_root` and keeps the sibling of
one node on each; `verify_merkle_proof` hashes a chunk hash up along such a proof.  Root, proof and
verification are the tree, the path and the climb of `Lib.MerkleTree` for the hash of two
concatenated digests, a last node of an odd level being its own neighbour.

Concatenated digests of 64 characters split in one way only, so a collision between two combined
pairs is a collision of SHA-256 on the strings hashed, which `rootInputs` and `verifyInputs` list.
-/

namespace DistriStore

open Lib Lib.MerkleTree

/-! ## Proof and verification -/

/-- One step of a proof, `{"hash": …, "position": …}`. -/
structure MerkleStep where
  hash : String
  position : Side
  deriving DecidableEq, Repr

/-- The body of the inner loop of `compute_merkle_proof`: what the node pair at `i` adds. -/
def merkleStep (idx i : ℤ) (left right : String) : List MerkleStep :=
  if i = idx ∨ i + 1 = idx then
    if idx = i then [⟨right, .right⟩] else [⟨left, .left⟩]
  else []

/-- The inner loop of `compute_merkle_proof` from place `i` on. -/
def merkleSteps (idx : ℤ) : ℤ → List String → List MerkleStep
  | _, [] => []
  | i, [left] => merkleStep idx i left left
  | i, left :: right :: rest => merkleStep idx i left right ++ merkleSteps idx (i + 2) rest

/-- `while len(level) > 1`. -/
def merkleProofLoop (level : List String) (idx : ℤ) : List MerkleStep :=
  if 1 < level.length then merkleSteps idx 0 level ++ merkleProofLoop (merkleLevel level) (idx / 2)
  else []
termination_by level.length
decreasing_by
  rw [length_merkleLevel]
  omega

/-- The siblings on the way from the hash at `index` to the root. -/
def computeMerkleProof (hashes : List String) (index : ℤ) : List MerkleStep :=
  if hashes.length ≤ 1 then [] else merkleProofLoop hashes index

/-- The string hashed at one step of a verification. -/
def stepInput (current : String) (step : MerkleStep) : Bytes :=
  if step.position = .right then encodeUtf8 (current ++ step.hash)
  else encodeUtf8 (step.hash ++ current)

/-- Hash a chunk hash up along a proof and compare with the root. -/
def verifyMerkleProof (chunkHash : String) (proof : List MerkleStep) (merkleRoot : String) : Bool :=
  proof.foldl (fun current step => sha256Hash (stepInput current step)) chunkHash == merkleRoot

/-- The proof of the chunk at `index`. -/
def FileManifest.getMerkleProof (manifest : FileManifest) (index : ℤ) : List MerkleStep :=
  computeMerkleProof (manifest.chunks.map ChunkInfo.chunkHash) index

/-! ## The strings hashed -/

/-- The strings hashed to get from a level to the next one. -/
def levelInputs (level : List String) : List Bytes :=
  (pairs level).map fun p => encodeUtf8 (p.1 ++ p.2)

/-- The strings hashed on all levels. -/
def loopInputs (level : List String) : List Bytes :=
  if 1 < level.length then levelInputs level ++ loopInputs (merkleLevel level) else []
termination_by level.length
decreasing_by
  rw [length_merkleLevel]
  omega

/-- The strings that `compute_merkle_root` hashes.  `compute_merkle_proof` hashes the same ones,
but none for an empty list. -/
def rootInputs (hashes : List String) : List Bytes :=
  if hashes = [] then [[]] else loopInputs hashes

/-- The strings that `verify_merkle_proof` hashes. -/
def verifyInputs : String → List MerkleStep → List Bytes
  | _, [] => []
  | current, step :: proof =>
    stepInput current step :: verifyInputs (sha256Hash (stepInput current step)) proof

/-! ## The tree behind the loops -/

/-- The hash of two nodes. -/
def merkleNode (left right : String) : String := sha256Hash (encodeUtf8 (left ++ right))

/-- The step as the library has it. -/
def MerkleStep.side (step : MerkleStep) : Side × String := (step.position, step.hash)

lemma merkleLevel_eq : ∀ l : List String, merkleLevel l = level merkleNode l
  | [] => rfl
  | [_] => rfl
  | _ :: _ :: rest => by
    rw [merkleLevel, merkleLevel_eq rest]
    rfl

lemma root_merkleNode (l : List String) (hl : l ≠ []) :
    root merkleNode l = some (merkleLoop l) := by
  induction l using merkleLoop.induct with
  | case1 l hlen ih =>
    have hup : merkleLevel l ≠ [] := by
      intro hnil
      have := length_merkleLevel l
      rw [hnil, List.length_nil] at this
      omega
    rw [root_of_lt merkleNode hlen, ← merkleLevel_eq, ih hup]
    conv_rhs => rw [merkleLoop, if_pos hlen]
  | case2 l hlen =>
    obtain ⟨x, l', rfl⟩ := List.exists_cons_of_ne_nil hl
    rw [root, if_neg hlen, merkleLoop, if_neg hlen]
    rfl

lemma root_computeMerkleRoot (hashes : List String) (h : hashes ≠ []) :
    root merkleNode hashes = some (computeMerkleRoot hashes) := by
  unfold computeMerkleRoot
  split
  · exact absurd rfl h
  · next x => simp [root]
  · exact root_merkleNode hashes h

lemma merkleSteps_of_lt (idx : ℤ) : ∀ (l : List String) (i : ℤ), idx < i → merkleSteps idx i l = []
  | [], _, _ => rfl
  | [_], i, h => by
    rw [merkleSteps, merkleStep, if_neg (by omega)]
  | _ :: _ :: rest, i, h => by
    rw [merkleSteps, merkleStep, if_neg (by omega), merkleSteps_of_lt idx rest (i + 2) (by omega)]
    rfl

/-- The inner loop finds the sibling of the node it looks for. -/
lemma merkleSteps_eq : ∀ (l : List String) (i : ℤ) (j : ℕ), j < l.length →
    (merkleSteps (i + j) i l).map MerkleStep.side = (sibling l j).toList
  | [], _, _, h => absurd h (Nat.not_lt_zero _)
  | [x], i, j, h => by
    obtain rfl : j = 0 := by simpa using h
    simp [merkleSteps, merkleStep, sibling, pairs, MerkleStep.side]
  | x :: y :: rest, i, 0, _ => by
    rw [merkleSteps, merkleSteps_of_lt _ _ _ (by omega)]
    simp [merkleStep, sibling, pairs, MerkleStep.side]
  | x :: y :: rest, i, 1, _ => by
    rw [merkleSteps, merkleSteps_of_lt _ _ _ (by omega)]
    simp [merkleStep, sibling, pairs, MerkleStep.side]
  | x :: y :: rest, i, j + 2, h => by
    have hrest : j < rest.length := by simpa using h
    have hidx : i + ((j + 2 : ℕ) : ℤ) = i + 2 + j := by push_cast; omega
    have hsib : sibling (x :: y :: rest) (j + 2) = sibling rest j := by
      rw [sibling, sibling, show (j + 2) / 2 = j / 2 + 1 by omega, pairs, List.getElem?_cons_succ,
        show (j + 2) % 2 = j % 2 by omega]
    rw [merkleSteps, merkleStep, if_neg (by omega), List.nil_append, hidx,
      merkleSteps_eq rest (i + 2) j hrest, hsib]

lemma merkleProofLoop_eq (l : List String) (i : ℕ) (hi : i < l.length) :
    (merkleProofLoop l i).map MerkleStep.side = path merkleNode l i := by
  induction l using merkleLoop.induct generalizing i with
  | case1 l hlen ih =>
    have hsteps := merkleSteps_eq l 0 i hi
    have hup : i / 2 < (merkleLevel l).length := by
      rw [length_merkleLevel]
      omega
    have hhalf : (i : ℤ) / 2 = ((i / 2 : ℕ) : ℤ) := by omega
    rw [Int.zero_add] at hsteps
    rw [merkleProofLoop, if_pos hlen, path, if_pos hlen, List.map_append, hsteps, ← merkleLevel_eq,
      hhalf, ih _ hup]
  | case2 l hlen =>
    rw [merkleProofLoop, if_neg hlen, path, if_neg hlen, List.map_nil]

lemma computeMerkleProof_eq (hashes : List String) (i : ℕ) (hi : i < hashes.length) :
    (computeMerkleProof hashes i).map MerkleStep.side = path merkleNode hashes i := by
  unfold computeMerkleProof
  split
  · next hlen =>
    rw [path, if_neg (by omega), List.map_nil]
  · exact merkleProofLoop_eq hashes i hi

lemma stepInput_eq (x : String) (step : MerkleStep) :
    stepInput x step = encodeUtf8 ((join x step.side).1 ++ (join x step.side).2) := by
  obtain ⟨hash, position⟩ := step
  cases position with
  | left => rfl
  | right => rfl

lemma foldl_eq_climb (proof : List MerkleStep) (x : String) :
    proof.foldl (fun current step => sha256Hash (stepInput current step)) x =
      climb merkleNode x (proof.map MerkleStep.side) := by
  induction proof generalizing x with
  | nil => rfl
  | cons step proof ih =>
    rw [List.foldl_cons, List.map_cons, climb, ih, stepInput_eq]
    rfl

lemma verifyMerkleProof_eq_true_iff (hashes : List String) (i : ℕ) (hi : i < hashes.length)
    (c : String) :
    verifyMerkleProof c (computeMerkleProof hashes i) (computeMerkleRoot hashes) = true ↔
      climb merkleNode c (path merkleNode hashes i) =
        climb merkleNode hashes[i] (path merkleNode hashes i) := by
  have hne : hashes ≠ [] := List.ne_nil_of_length_pos (by omega)
  have hroot := climb_path merkleNode hashes i _ (List.getElem?_eq_getElem hi)
  rw [root_computeMerkleRoot hashes hne, Option.some.injEq] at hroot
  rw [verifyMerkleProof, beq_iff_eq, foldl_eq_climb, computeMerkleProof_eq hashes i hi, hroot]

/-! ## Completeness -/

lemma verifyMerkleProof_leaf (hashes : List String) (i : ℕ) (hi : i < hashes.length) :
    verifyMerkleProof hashes[i] (computeMerkleProof hashes i) (computeMerkleRoot hashes) = true :=
  (verifyMerkleProof_eq_true_iff hashes i hi _).2 rfl

/-- **Merkle proofs are complete**: the proof of every leaf verifies against the root, and it has
one step for each level of the tree. -/
theorem verifyMerkleProof_computeMerkleProof (hashes : List String) (i : ℕ)
    (hi : i < hashes.length) :
    verifyMerkleProof hashes[i] (computeMerkleProof hashes i) (computeMerkleRoot hashes) = true ∧
      (computeMerkleProof hashes i).length = Nat.clog 2 hashes.length := by
  refine ⟨verifyMerkleProof_leaf hashes i hi, ?_⟩
  rw [← length_path merkleNode hashes i hi, ← computeMerkleProof_eq hashes i hi,
    List.length_map]

/-- The last of five leaves, which is alone on two levels. -/
theorem verifyMerkleProof_fifth :
    verifyMerkleProof "e" (computeMerkleProof ["a", "b", "c", "d", "e"] 4)
      (computeMerkleRoot ["a", "b", "c", "d", "e"]) = true ∧
    (computeMerkleProof ["a", "b", "c", "d", "e"] 4).length = Nat.clog 2 5 :=
  verifyMerkleProof_computeMerkleProof ["a", "b", "c", "d", "e"] 4 (by decide)

/-- Every chunk of a file that was just chunked can be verified against the manifest's root. -/
theorem verifyMerkleProof_of_chunkFile {P : Packages} {filePath : String} {file : Option SourceFile}
    {chunkSize : ℕ} {password : Option String} {salt : Salt} {nonces : ℕ → Nonce}
    {manifest : FileManifest} {chunks : List Bytes}
    (h : chunkFile P filePath file chunkSize password salt nonces = .ok (manifest, chunks)) (i : ℕ)
    (hi : i < manifest.chunks.length) :
    verifyMerkleProof manifest.chunks[i].chunkHash (manifest.getMerkleProof i)
      manifest.merkleRoot = true := by
  have hroot : manifest.merkleRoot =
      computeMerkleRoot (manifest.chunks.map ChunkInfo.chunkHash) := by
    cases file with
    | none => simp [chunkFile] at h
    | some file =>
      simp only [chunkFile, Except.ok.injEq, Prod.mk.injEq] at h
      rw [← h.1]
  have hleaf :=
    verifyMerkleProof_leaf (manifest.chunks.map ChunkInfo.chunkHash) i (by simpa using hi)
  rwa [List.getElem_map, ← hroot] at hleaf

/-! ## Binding -/

/-- The string that is hashed for a pair of nodes. -/
def pairInput (p : String × String) : Bytes := encodeUtf8 (p.1 ++ p.2)

lemma loopInputs_eq (l : List String) : loopInputs l = (treePairs merkleNode l).map pairInput := by
  induction l using merkleLoop.induct with
  | case1 l hlen ih =>
    rw [loopInputs, if_pos hlen, treePairs, if_pos hlen, ih, List.map_append, merkleLevel_eq]
    rfl
  | case2 l hlen => rw [loopInputs, if_neg hlen, treePairs, if_neg hlen, List.map_nil]

lemma mem_rootInputs {hashes : List String} {p : String × String}
    (hp : p ∈ treePairs merkleNode hashes) : pairInput p ∈ rootInputs hashes := by
  unfold rootInputs
  split
  · next hnil =>
    rw [hnil] at hp
    simp [treePairs] at hp
  · rw [loopInputs_eq]
    exact List.mem_map_of_mem hp

lemma verifyInputs_eq (proof : List MerkleStep) (x : String) :
    verifyInputs x proof =
      (climbPairs merkleNode x (proof.map MerkleStep.side)).map pairInput := by
  induction proof generalizing x with
  | nil => rfl
  | cons step proof ih =>
    rw [verifyInputs, List.map_cons, climbPairs, List.map_cons, ih, stepInput_eq]
    rfl

lemma encodeUtf8_injective : Function.Injective encodeUtf8 := by
  intro s t h
  exact String.toByteArray_inj.1 (ByteArray.ext (Array.toList_inj.1 h))

/-- Two digests of 64 characters can be told apart in their concatenation. -/
lemma pairInput_inj {p q : String × String} (hp : p.1.length = 64) (hq : q.1.length = 64)
    (h : pairInput p = pairInput q) : p = q := by
  have hchars : p.1.toList ++ p.2.toList = q.1.toList ++ q.2.toList := by
    rw [← String.toList_append, ← String.toList_append]
    exact congrArg String.toList (encodeUtf8_injective h)
  obtain ⟨hleft, hright⟩ := List.append_inj hchars
    (by rw [String.length_toList, String.length_toList, hp, hq])
  exact Prod.ext (String.toList_inj.1 hleft) (String.toList_inj.1 hright)

/-- Pairs of digests whose concatenations are in `T`. -/
def digestPairs (T : Bytes → Prop) : Set (String × String) :=
  {p | p.1.length = 64 ∧ p.2.length = 64 ∧ T (pairInput p)}

lemma injOn_merkleNode {T : Bytes → Prop} (hT : CollisionFree sha256Hash T) :
    Set.InjOn (fun p => merkleNode p.1 p.2) (digestPairs T) :=
  fun _ hp _ hq h => pairInput_inj hp.1 hq.1 (hT _ _ hp.2.2 hq.2.2 h)

lemma length_merkleNode (x y : String) : (merkleNode x y).length = 64 := length_sha256Hash _

/-- The pairs of a tree over digests are pairs of digests. -/
lemma mem_digestPairs_of_tree {T : Bytes → Prop} {hashes : List String}
    (hlen : ∀ h ∈ hashes, h.length = 64) (hT : ∀ x ∈ rootInputs hashes, T x) :
    ∀ p ∈ treePairs merkleNode hashes, p ∈ digestPairs T := by
  intro p hp
  have h64 :=
    forall_treePairs merkleNode (P := fun x => x.length = 64) length_merkleNode hashes hlen p hp
  exact ⟨h64.1, h64.2, hT _ (mem_rootInputs hp)⟩

/-- So are the pairs of a climb along an honest proof. -/
lemma mem_digestPairs_of_climb {T : Bytes → Prop} {hashes : List String} {i : ℕ}
    (hi : i < hashes.length) {c : String} (hlen : ∀ h ∈ hashes, h.length = 64)
    (hc : c.length = 64) (hT : ∀ x ∈ verifyInputs c (computeMerkleProof hashes i), T x) :
    ∀ p ∈ climbPairs merkleNode c (path merkleNode hashes i), p ∈ digestPairs T := by
  intro p hp
  have hsteps :=
    forall_path merkleNode (P := fun x => x.length = 64) length_merkleNode hashes i hlen
  have h64 :=
    forall_climbPairs merkleNode (P := fun x => x.length = 64) length_merkleNode _ hsteps c
    hc p hp
  refine ⟨h64.1, h64.2, hT _ ?_⟩
  rw [verifyInputs_eq, computeMerkleProof_eq hashes i hi]
  exact List.mem_map_of_mem hp

/-- **The root binds the list of digests**, and an honest proof rejects every other digest, unless
two of the strings hashed collide. -/
theorem merkle_binding :
    (∀ hs hs' : List String, (∀ h ∈ hs, h.length = 64) → (∀ h ∈ hs', h.length = 64) →
      hs.length = hs'.length →
      CollisionFree sha256Hash (· ∈ rootInputs hs ++ rootInputs hs') →
      computeMerkleRoot hs = computeMerkleRoot hs' → hs = hs') ∧
    ∀ (hs : List String) (i : ℕ) (hi : i < hs.length) (c : String),
      (∀ h ∈ hs, h.length = 64) → c.length = 64 → c ≠ hs[i] →
      CollisionFree sha256Hash
        (· ∈ rootInputs hs ++ verifyInputs c (computeMerkleProof hs i)) →
      verifyMerkleProof c (computeMerkleProof hs i) (computeMerkleRoot hs) = false := by
  constructor
  · intro hs hs' h64 h64' hlen hfree hroot
    rcases eq_or_ne hs [] with rfl | hne
    · exact (List.eq_nil_of_length_eq_zero hlen.symm).symm
    have hne' : hs' ≠ [] := by
      rintro rfl
      exact hne (List.eq_nil_of_length_eq_zero hlen)
    refine eq_of_root_eq (injOn_merkleNode hfree) hs hs' hlen ?_ ?_ ?_
    · exact mem_digestPairs_of_tree h64 fun x hx => List.mem_append_left _ hx
    · exact mem_digestPairs_of_tree h64' fun x hx => List.mem_append_right _ hx
    · rw [root_computeMerkleRoot hs hne, root_computeMerkleRoot hs' hne', hroot]
  · intro hs i hi c h64 hc hne hfree
    rw [← Bool.not_eq_true, verifyMerkleProof_eq_true_iff hs i hi]
    intro hmeet
    refine hne (climb_injOn (injOn_merkleNode hfree) _ c hs[i] ?_ ?_ hmeet)
    · exact mem_digestPairs_of_climb hi h64 hc fun x hx => List.mem_append_right _ hx
    · intro p hp
      refine mem_digestPairs_of_tree h64 (fun x hx => List.mem_append_left _ hx) p ?_
      exact mem_treePairs_of_climb merkleNode hs i _ (List.getElem?_eq_getElem hi) p hp

/-- A string of 64 equal digits. -/
def digits64 (c : Char) : String := String.ofList (List.replicate 64 c)

lemma length_digits64 (c : Char) : (digits64 c).length = 64 := by simp [digits64]

lemma rootInputs_two (a b : String) : rootInputs [a, b] = [pairInput (a, b)] := by
  simp [rootInputs, loopInputs, levelInputs, pairs, merkleLevel, pairInput]

lemma computeMerkleProof_two (a b : String) : computeMerkleProof [a, b] 0 = [⟨b, .right⟩] := by
  simp [computeMerkleProof, merkleProofLoop, merkleSteps, merkleStep, merkleLevel]

/-- Two leaves of equal digits, and a third one in the place of the first. -/
theorem merkle_binding_two :
    [digits64 '0', digits64 '1'] = [digits64 '0', digits64 '1'] ∧
    verifyMerkleProof (digits64 '2') (computeMerkleProof [digits64 '0', digits64 '1'] (0 : ℕ))
      (computeMerkleRoot [digits64 '0', digits64 '1']) = false := by
  have h64 : ∀ h ∈ [digits64 '0', digits64 '1'], h.length = 64 := by
    simp [length_digits64]
  refine ⟨merkle_binding.1 _ _ h64 h64 rfl ?_ rfl,
    merkle_binding.2 [digits64 '0', digits64 '1'] 0 (by decide) (digits64 '2') h64
      (length_digits64 _) ?_ ?_⟩
  · rw [rootInputs_two]
    intro x y hx hy _
    simp only [List.mem_append, List.mem_singleton, or_self] at hx hy
    rw [hx, hy]
  · show digits64 '2' ≠ digits64 '0'
    decide +kernel
  · rw [rootInputs_two, Int.natCast_zero, computeMerkleProof_two]
    have hne : sha256 (pairInput (digits64 '0', digits64 '1')) ≠
        sha256 (pairInput (digits64 '2', digits64 '1')) := by
      decide +kernel
    exact collisionFree_pair (mt sha256Hash_inj.1 hne)

end DistriStore
