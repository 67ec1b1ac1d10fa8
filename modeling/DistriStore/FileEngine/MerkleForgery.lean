import DistriStore.FileEngine.Merkle

/-!
# Made-up Merkle proofs (`verify_merkle_proof`)

`verify_merkle_proof` accepts proofs of any length, and it hashes the 128 characters of two
neighbouring digests in the same way as `sha256_hash` hashes a chunk.  So two things can go wrong
for a chunk that is not in the file: its bytes are the characters hashed for an inner node, and the
proof leads on from there (`NodePasses`); or the proof leads from it up to one of the chunk hashes,
which then is the hash of such characters itself, and on to the root (`LeafPasses`).

Without a collision these are the only ways (`verifyMerkleProof_sound_iff`), and neither is open to
a proof with one step for each level of the tree (`verifyMerkleProof_sound_of_length`).
-/

namespace DistriStore

open Lib Lib.MerkleTree

/-- An inner node passes for a chunk: the bytes are what is hashed for a node above the chunk
hashes, and the proof leads from this node to the root. -/
def NodePasses (hashes : List String) (d : Bytes) (proof : List MerkleStep) : Prop :=
  ∃ j, 1 < (merkleLevel^[j] hashes).length ∧ ∃ q ∈ pairs (merkleLevel^[j] hashes),
    d = pairInput q ∧
      Leads merkleNode (merkleLevel^[j + 1] hashes) (merkleNode q.1 q.2)
        (proof.map MerkleStep.side)

/-- A chunk passes for an inner node: one or more steps of the proof lead from `chunkHash` to one of
the chunk hashes, and the remaining ones from there to the root. -/
def LeafPasses (hashes : List String) (chunkHash : String) (proof : List MerkleStep) : Prop :=
  ∃ below above, proof = below ++ above ∧ below ≠ [] ∧
    Leads merkleNode hashes (climb merkleNode chunkHash (below.map MerkleStep.side))
      (above.map MerkleStep.side)

section

variable {hashes : List String} {d : Bytes} {c : String} {proof : List MerkleStep}

lemma merkleLevel_iterate (j : ℕ) (l : List String) :
    merkleLevel^[j] l = (level merkleNode)^[j] l := by
  rw [funext merkleLevel_eq]

lemma verifyMerkleProof_iff_climb (h : hashes ≠ []) :
    verifyMerkleProof c proof (computeMerkleRoot hashes) = true ↔
      root merkleNode hashes = some (climb merkleNode c (proof.map MerkleStep.side)) := by
  rw [verifyMerkleProof, beq_iff_eq, foldl_eq_climb, root_computeMerkleRoot hashes h,
    Option.some.injEq, eq_comm]

lemma sha256Hash_pairInput (q : String × String) : sha256Hash (pairInput q) = merkleNode q.1 q.2 :=
  rfl

lemma NodePasses.verify (hne : hashes ≠ []) (h : NodePasses hashes d proof) :
    verifyMerkleProof (sha256Hash d) proof (computeMerkleRoot hashes) = true := by
  obtain ⟨j, hlen, q, -, rfl, hleads⟩ := h
  rw [merkleLevel_iterate] at hlen hleads
  rw [verifyMerkleProof_iff_climb hne, ← root_level_iterate hlen, hleads.root_eq,
    sha256Hash_pairInput]

lemma LeafPasses.verify (hne : hashes ≠ []) (h : LeafPasses hashes c proof) :
    verifyMerkleProof c proof (computeMerkleRoot hashes) = true := by
  obtain ⟨below, above, rfl, -, hleads⟩ := h
  rw [verifyMerkleProof_iff_climb hne, hleads.root_eq, List.map_append, climb_append]

/-- All that a verification hashes with its siblings are digests, on one side of the pair. -/
lemma length_of_mem_climbPairs (p : List (Side × String)) (hc : c.length = 64) :
    ∀ q ∈ climbPairs merkleNode c p, q.1.length = 64 ∨ q.2.length = 64 := by
  induction p generalizing c with
  | nil =>
    intro q hq
    exact absurd hq List.not_mem_nil
  | cons s p ih =>
    rw [climbPairs, List.forall_mem_cons]
    refine ⟨?_, ih (length_merkleNode _ _)⟩
    obtain ⟨side, y⟩ := s
    cases side with
    | left => exact Or.inr hc
    | right => exact Or.inl hc

/-- Two pairs with the same 128 characters are the same when one of them is a pair of digests and
the other has a digest on one side. -/
lemma eq_of_pairInput_eq {q q' : String × String} (hq : q.1.length = 64 ∨ q.2.length = 64)
    (hleft : q'.1.length = 64) (hright : q'.2.length = 64) (h : pairInput q = pairInput q') :
    q = q' := by
  have hlen := congrArg String.length (encodeUtf8_injective h)
  rw [String.length_append, String.length_append] at hlen
  exact pairInput_inj (by omega) hleft h

/-- Without a collision a verification that succeeds has climbed from a node of the tree, or through
a chunk hash. -/
lemma leads_of_verify (hne : hashes ≠ []) (h64 : ∀ h ∈ hashes, h.length = 64)
    (hc : c.length = 64)
    (hfree : CollisionFree sha256Hash (· ∈ verifyInputs c proof ++ rootInputs hashes))
    (h : verifyMerkleProof c proof (computeMerkleRoot hashes) = true) :
    (∃ j, (∀ i < j, 1 < (merkleLevel^[i] hashes).length) ∧
      Leads merkleNode (merkleLevel^[j] hashes) c (proof.map MerkleStep.side)) ∨
      LeafPasses hashes c proof := by
  have hpairs : ∀ q ∈ climbPairs merkleNode c (proof.map MerkleStep.side),
      ∀ q' ∈ treePairs merkleNode hashes, merkleNode q.1 q.2 = merkleNode q'.1 q'.2 → q = q' := by
    intro q hq q' hq' hnode
    have hdigests := forall_treePairs merkleNode (P := fun x => x.length = 64) length_merkleNode
      hashes h64 q' hq'
    refine eq_of_pairInput_eq (length_of_mem_climbPairs _ hc q hq) hdigests.1 hdigests.2 ?_
    refine hfree _ _ (List.mem_append_left _ ?_) (List.mem_append_right _ (mem_rootInputs hq'))
      hnode
    rw [verifyInputs_eq]
    exact List.mem_map_of_mem hq
  rcases leads_of_climb_eq_root hashes c _ hpairs ((verifyMerkleProof_iff_climb hne).1 h) with
    hnode | ⟨p₁, p₂, hp, hnil, hleads⟩
  · simp only [← merkleLevel_iterate] at hnode
    exact Or.inl hnode
  · obtain ⟨below, above, rfl, rfl, rfl⟩ := List.map_eq_append_iff.1 hp
    exact Or.inr ⟨below, above, rfl, mt (congrArg (List.map MerkleStep.side)) hnil, hleads⟩

end

/-! ## When proofs are sound -/

/-- **When Merkle proofs are sound for a chunk.**  Without a collision among the strings hashed, a
verification of the bytes `d` that succeeds shows that their hash is one of the chunk hashes exactly
when it is one, or neither an inner node passes for the chunk nor a chunk for an inner node. -/
theorem verifyMerkleProof_sound_iff (hashes : List String) (hne : hashes ≠ [])
    (h64 : ∀ h ∈ hashes, h.length = 64) (d : Bytes) (proof : List MerkleStep)
    (hfree : CollisionFree sha256Hash
      (· ∈ d :: verifyInputs (sha256Hash d) proof ++ rootInputs hashes)) :
    (verifyMerkleProof (sha256Hash d) proof (computeMerkleRoot hashes) = true →
      sha256Hash d ∈ hashes) ↔
    sha256Hash d ∈ hashes ∨
      ¬ (NodePasses hashes d proof ∨ LeafPasses hashes (sha256Hash d) proof) := by
  constructor
  · intro hsound
    refine or_iff_not_imp_left.2 fun hnew hpasses => hnew (hsound ?_)
    rcases hpasses with hnode | hleaf
    · exact hnode.verify hne
    · exact hleaf.verify hne
  · rintro (hmem | hnot) hverify
    · exact hmem
    have hfree' : CollisionFree sha256Hash
        (· ∈ verifyInputs (sha256Hash d) proof ++ rootInputs hashes) :=
      hfree.mono fun _ hx => List.mem_cons_of_mem _ hx
    rcases leads_of_verify hne h64 (length_sha256Hash d) hfree' hverify with
      ⟨j, hlong, hj⟩ | hleaf
    · cases j with
      | zero => exact hj.mem
      | succ j =>
        -- the hash is that of an inner node, so the bytes are what was hashed for it
        have hlen := hlong j (Nat.lt_succ_self j)
        have hmem := hj.mem
        rw [Function.iterate_succ_apply', merkleLevel_eq] at hmem
        obtain ⟨q, hq, hnode⟩ := List.mem_map.1 hmem
        have htree : q ∈ treePairs merkleNode hashes := by
          rw [merkleLevel_iterate] at hlen hq
          exact mem_treePairs_of_level hlen q hq
        have hd : d = pairInput q :=
          hfree _ _ (List.mem_cons_self ..)
            (List.mem_cons_of_mem _ (List.mem_append_right _ (mem_rootInputs htree))) hnode.symm
        exact absurd (Or.inl ⟨j, hlen, q, hq, hd, hnode ▸ hj⟩) hnot
    · exact absurd (Or.inr hleaf) hnot

/-! ### The characters of the root as a chunk -/

/-- Two chunk hashes. -/
def twoHashes : List String := [digits64 '0', digits64 '1']

/-- What is hashed for the node above them. -/
def rootCharacters : Bytes := pairInput (digits64 '0', digits64 '1')

lemma length_of_mem_twoHashes : ∀ h ∈ twoHashes, h.length = 64 := by
  simp [twoHashes, length_digits64]

lemma collisionFree_rootCharacters : CollisionFree sha256Hash
    (· ∈ rootCharacters ::
      verifyInputs (sha256Hash rootCharacters) [] ++ rootInputs twoHashes) := by
  have hroot : rootInputs twoHashes = [rootCharacters] := rootInputs_two _ _
  rw [hroot, verifyInputs]
  intro x y hx hy _
  simp only [List.mem_append, List.mem_singleton, or_self] at hx hy
  rw [hx, hy]

lemma verifyMerkleProof_rootCharacters :
    verifyMerkleProof (sha256Hash rootCharacters) [] (computeMerkleRoot twoHashes) = true := by
  refine (verifyMerkleProof_iff_climb (by simp [twoHashes])).2 ?_
  have hup : level merkleNode twoHashes = [sha256Hash rootCharacters] := rfl
  rw [root_of_lt merkleNode (by decide), hup]
  simp [root, climb]

lemma rootCharacters_not_mem : sha256Hash rootCharacters ∉ twoHashes := by decide +kernel

/-- Without any collision, the 128 characters of the two chunk hashes are accepted as a chunk, with
an empty proof. -/
theorem innerNode_accepted :
    (∀ h ∈ twoHashes, h.length = 64) ∧
    CollisionFree sha256Hash (· ∈ rootCharacters ::
      verifyInputs (sha256Hash rootCharacters) [] ++ rootInputs twoHashes) ∧
    verifyMerkleProof (sha256Hash rootCharacters) [] (computeMerkleRoot twoHashes) = true ∧
    sha256Hash rootCharacters ∉ twoHashes :=
  ⟨length_of_mem_twoHashes, collisionFree_rootCharacters, verifyMerkleProof_rootCharacters,
    rootCharacters_not_mem⟩

theorem verifyMerkleProof_sound_iff_rootCharacters :
    NodePasses twoHashes rootCharacters [] ∨
      LeafPasses twoHashes (sha256Hash rootCharacters) [] := by
  by_contra hnot
  have hsound := (verifyMerkleProof_sound_iff twoHashes (by simp [twoHashes])
    length_of_mem_twoHashes rootCharacters [] collisionFree_rootCharacters).2 (Or.inr hnot)
  exact rootCharacters_not_mem (hsound verifyMerkleProof_rootCharacters)

/-! ## Proofs of the right length -/

/-- A proof with one step for each level of the tree is sound. -/
theorem verifyMerkleProof_sound_of_length (hashes : List String) (hne : hashes ≠ [])
    (h64 : ∀ h ∈ hashes, h.length = 64) (c : String) (hc : c.length = 64)
    (proof : List MerkleStep) (hlen : proof.length = Nat.clog 2 hashes.length)
    (hfree : CollisionFree sha256Hash (· ∈ verifyInputs c proof ++ rootInputs hashes))
    (hverify : verifyMerkleProof c proof (computeMerkleRoot hashes) = true) : c ∈ hashes := by
  rcases leads_of_verify hne h64 hc hfree hverify with
    ⟨j, hlong, hj⟩ | ⟨below, above, rfl, hnil, hleads⟩
  · have hrest := length_of_leads hj
    simp only [merkleLevel_iterate] at hlong hrest
    have htree := clog_length_level_iterate hlong
    rw [List.length_map] at hrest
    obtain rfl : j = 0 := by omega
    exact hj.mem
  · have habove := length_of_leads hleads
    have hpos := List.length_pos_of_ne_nil hnil
    rw [List.length_append] at hlen
    rw [List.length_map] at habove
    omega

end DistriStore
