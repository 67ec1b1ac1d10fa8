import DistriStore.FileEngine.Pipeline
import Mathlib.Data.List.Forall2

/-!
# What the readers do on chunks that open

`Opens P q pairs raws` says that a numbered sequence of chunks decodes to the pieces `raws` under
the password `q`: the indices increase, all chunks carry the same encryption flag and, where they
are decrypted, the same salt.  Each reader has one lemma: given chunks that open, in whatever
order they are handed over, it delivers exactly the pieces, provided their hash is the one the
manifest states.  The two readers that load chunks one by one take them from a `load_fn` that
serves them in order (`ServesFrom`).
-/

namespace DistriStore

open Lib

/-! ## Chunks that open -/

/-- The key under which chunks with flag `enc` and salt `salt` are decoded by a reader with
password `q`. -/
def readKey (enc : Bool) (salt : Bytes) (q : Option String) : Option Bytes :=
  if enc && truthy q then some (deriveKey (q.getD "") salt).1 else none

/-- One chunk decodes to `raw`. -/
structure OpensTo (P : Packages) (q : Option String) (enc : Bool) (salt : Bytes)
    (p : ChunkInfo × Bytes) (raw : Bytes) : Prop where
  flag : p.1.encrypted = enc
  salted : (enc && truthy q) = true → slice p.2 1 (1 + saltSize) = salt
  decodes : workerDecode P true (readKey enc salt q) p.2 = .ok raw

/-- A numbered sequence of chunks decodes to the pieces `raws` under the password `q`. -/
structure Opens (P : Packages) (q : Option String) (pairs : List (ChunkInfo × Bytes))
    (raws : List Bytes) : Prop where
  increasing : pairs.Pairwise fun a b => a.1.index < b.1.index
  opensTo : ∃ enc salt, List.Forall₂ (OpensTo P q enc salt) pairs raws

/-! ## The order in which chunks are handed over does not matter -/

lemma zip_map_fst_map_snd {α β : Type*} (l : List (α × β)) :
    (l.map Prod.fst).zip (l.map Prod.snd) = l := by
  induction l with
  | nil => rfl
  | cons p l ih => simp [ih]

lemma orderChunks_of_perm {pairs shuffled : List (ChunkInfo × Bytes)}
    (hp : pairs.Pairwise fun a b => a.1.index < b.1.index) (h : shuffled.Perm pairs) :
    orderChunks (shuffled.map Prod.fst) (shuffled.map Prod.snd) = pairs := by
  rw [orderChunks, zip_map_fst_map_snd]
  exact sortBy_eq_of_perm _ h hp

lemma orderInfos_of_perm {pairs shuffled : List (ChunkInfo × Bytes)}
    (hp : pairs.Pairwise fun a b => a.1.index < b.1.index) (h : shuffled.Perm pairs) :
    orderInfos (shuffled.map Prod.fst) = pairs.map Prod.fst := by
  rw [orderInfos, ← map_sortBy (fun p : ChunkInfo × Bytes => p.1.index) Prod.fst ChunkInfo.index
    (fun _ => rfl), sortBy_eq_of_perm _ h hp]

/-! ## Decoding -/

/-- The key that a reader derives from the salt in the header of a chunk. -/
def chunkKey (q : Option String) (data : Bytes) : Bytes :=
  (deriveKey (q.getD "") (slice data 1 (1 + saltSize))).1

/-- All encrypted chunks give the reader the same key. -/
def SameKey (q : Option String) (pairs : List (ChunkInfo × Bytes)) : Prop :=
  truthy q = true → ∀ p ∈ pairs, ∀ p' ∈ pairs, p.1.encrypted = true → p'.1.encrypted = true →
    chunkKey q p.2 = chunkKey q p'.2

section Decode

variable {P : Packages} {q : Option String} {useZstd : Bool} {pairs : List (ChunkInfo × Bytes)}
  {p : ChunkInfo × Bytes} {raws : List Bytes}

lemma SameKey.tail (h : SameKey q (p :: pairs)) : SameKey q pairs := fun hq a ha b hb =>
  h hq a (List.mem_cons_of_mem _ ha) b (List.mem_cons_of_mem _ hb)

/-- `decrypt` is `decrypt_with_key` under the key of the chunk's own salt. -/
lemma decrypt_eq_decryptWithKey (P : Packages) (data : Bytes) (password : String) :
    decrypt P data password =
      decryptWithKey P data (deriveKey password (slice data 1 (1 + saltSize))).1 := by
  rw [decrypt, decryptWithKey]
  cases checkHeader data <;> rfl

/-- Without a key, and with the key of the chunk's own salt, the sequential mergers decode a chunk
as the pipelined one does. -/
lemma decodeChunk_eq_pipelineDecode {decKey : Option Bytes}
    (h : p.1.encrypted = true → truthy q = true → decKey = none ∨ decKey = some (chunkKey q p.2)) :
    decodeChunk P q decKey useZstd p.1 p.2 = pipelineDecode P useZstd q p.1 p.2 := by
  unfold decodeChunk pipelineDecode
  by_cases hk : (p.1.encrypted && truthy q) = true
  · obtain ⟨henc, hq⟩ := Bool.and_eq_true_iff.1 hk
    rw [if_pos hk, if_pos hk]
    rcases h henc hq with rfl | rfl
    · dsimp only
      rw [decrypt_eq_decryptWithKey]
      cases useZstd with
      | true => rfl
      | false => exact bind_pure _
    · cases useZstd with
      | true => rfl
      | false => exact bind_pure _
  · rw [if_neg hk, if_neg hk]
    rfl

/-- The key of the mergers is none, or that of every encrypted chunk. -/
lemma mergeKey_cases (hkeys : SameKey q pairs) (hp : p ∈ pairs) (henc : p.1.encrypted = true)
    (hq : truthy q = true) :
    mergeKey q pairs = none ∨ mergeKey q pairs = some (chunkKey q p.2) := by
  cases pairs with
  | nil => exact Or.inl rfl
  | cons first rest =>
    by_cases hfirst : first.1.encrypted = true
    · have heq := hkeys hq first (List.mem_cons_self ..) p hp hfirst henc
      right
      rw [← heq, mergeKey, if_pos (by rw [hq, hfirst]; rfl)]
      rfl
    · exact Or.inl (by simp [mergeKey, hfirst])

/-- With one key for all chunks all readers decode a chunk alike. -/
lemma decodeChunk_mergeKey (hkeys : SameKey q pairs) (hp : p ∈ pairs) :
    decodeChunk P q (mergeKey q pairs) useZstd p.1 p.2 = pipelineDecode P useZstd q p.1 p.2 :=
  decodeChunk_eq_pipelineDecode fun henc hq => mergeKey_cases hkeys hp henc hq

lemma decodeChunk_of_pipelineDecode (hkeys : SameKey q pairs)
    (h : List.Forall₂ (fun p raw => pipelineDecode P useZstd q p.1 p.2 = .ok raw) pairs raws) :
    List.Forall₂ (fun p raw => decodeChunk P q (mergeKey q pairs) useZstd p.1 p.2 = .ok raw)
      pairs raws := by
  refine List.forall₂_iff_get.2 ⟨h.length_eq, fun i hi hi' => ?_⟩
  exact (decodeChunk_mergeKey hkeys (List.get_mem ..)).trans (h.get hi hi')

/-- The pipelined merger derives the key from each chunk's own salt. -/
lemma OpensTo.pipelineDecode_eq {enc : Bool} {salt raw : Bytes} (h : OpensTo P q enc salt p raw) :
    pipelineDecode P true q p.1 p.2 = .ok raw := by
  have hd := h.decodes
  unfold pipelineDecode
  unfold readKey at hd
  rw [h.flag]
  by_cases hk : (enc && truthy q) = true
  · rw [if_pos hk, h.salted hk]
    rwa [if_pos hk] at hd
  · rw [if_neg hk]
    rwa [if_neg hk] at hd

lemma Opens.pipelineDecode (h : Opens P q pairs raws) :
    List.Forall₂ (fun p raw => pipelineDecode P true q p.1 p.2 = .ok raw) pairs raws := by
  obtain ⟨enc, salt, hall⟩ := h.opensTo
  exact hall.imp fun _ _ hp => hp.pipelineDecode_eq

lemma Opens.sameKey (h : Opens P q pairs raws) : SameKey q pairs := by
  obtain ⟨enc, salt, hall⟩ := h.opensTo
  intro hq p hp p' hp' henc henc'
  obtain ⟨i, hi, rfl⟩ := List.getElem_of_mem hp
  obtain ⟨j, hj, rfl⟩ := List.getElem_of_mem hp'
  have hopens := hall.get hi (hall.length_eq ▸ hi)
  have hopens' := hall.get hj (hall.length_eq ▸ hj)
  have hk : (enc && truthy q) = true := by
    rw [hq, ← hopens.flag]
    exact Bool.and_eq_true_iff.2 ⟨henc, rfl⟩
  exact congrArg (fun salt => (deriveKey (q.getD "") salt).1)
    ((hopens.salted hk).trans (hopens'.salted hk).symm)

end Decode

/-! ## The sequential loops -/

section Loops

variable {decode : ChunkInfo → Bytes → Except PyError Bytes}
  {pairs : List (ChunkInfo × Bytes)} {raws : List Bytes}

lemma writeLoop_of_decodes
    (h : List.Forall₂ (fun p raw => decode p.1 p.2 = .ok raw) pairs raws) (written : Bytes) :
    writeLoop decode pairs written = (written ++ raws.flatten, .ok ()) := by
  induction h generalizing written with
  | nil => simp [writeLoop]
  | cons hp _ ih =>
    rw [writeLoop]
    simp only [hp]
    rw [ih, List.flatten_cons, List.append_assoc]

lemma take_assignSlice (buffer : Bytes) (offset : ℕ) (data : Bytes) (h : offset ≤ buffer.length) :
    (assignSlice buffer offset data).take (offset + data.length) = buffer.take offset ++ data := by
  have hl : (buffer.take offset ++ data).length = offset + data.length := by
    rw [List.length_append, List.length_take, Nat.min_eq_left h]
  rw [assignSlice, ← hl, List.take_left]

lemma le_length_assignSlice (buffer : Bytes) (offset : ℕ) (data : Bytes)
    (h : offset ≤ buffer.length) :
    offset + data.length ≤ (assignSlice buffer offset data).length := by
  rw [assignSlice, List.length_append, List.length_append, List.length_take, Nat.min_eq_left h]
  omega

/-- The buffer holds what has been decoded so far up to the offset, whatever its pre-allocated
length was. -/
lemma mergeLoop_of_decodes
    (h : List.Forall₂ (fun p raw => decode p.1 p.2 = .ok raw) pairs raws) (buffer : Bytes)
    (offset : ℕ) (ho : offset ≤ buffer.length) :
    ∃ final, mergeLoop decode pairs buffer offset = .ok (final, offset + raws.flatten.length) ∧
      final.take (offset + raws.flatten.length) = buffer.take offset ++ raws.flatten := by
  induction h generalizing buffer offset with
  | nil => exact ⟨buffer, rfl, by simp⟩
  | @cons p raw pairs raws hp _ ih =>
    obtain ⟨final, hrun, htake⟩ := ih (assignSlice buffer offset raw) (offset + raw.length)
      (le_length_assignSlice buffer offset raw ho)
    have hlen : offset + raw.length + raws.flatten.length =
        offset + (raw :: raws).flatten.length := by
      rw [List.flatten_cons, List.length_append, Nat.add_assoc]
    refine ⟨final, ?_, ?_⟩
    · rw [mergeLoop, hp, ← hlen]
      exact hrun
    · rw [← hlen, htake, take_assignSlice buffer offset raw ho, List.flatten_cons,
        List.append_assoc]

end Loops

/-! ## The readers that take all chunks at once -/

section Sequential

variable {P : Packages} {q : Option String} {m : FileManifest}
  {pairs shuffled : List (ChunkInfo × Bytes)} {raws : List Bytes}

lemma verifyReceived_mapM (h : ∀ p ∈ pairs, sha256Hash p.2 = p.1.chunkHash) :
    (pairs.mapM fun p => verifyReceived p.1 p.2) =
      .ok (pairs.map fun p => p.1.chunkHash) := by
  refine mapM_of_forall₂ (List.forall₂_map_right_iff.2 (List.forall₂_same.2 fun p hp => ?_))
  simp [verifyReceived, h p hp]

theorem mergeChunks_of_decodes {data : List Bytes} (hord : orderChunks m.chunks data = pairs)
    (hkeys : SameKey q pairs)
    (h : List.Forall₂ (fun p raw =>
      pipelineDecode P (decide (m.compression = "zstd")) q p.1 p.2 = .ok raw) pairs raws)
    (hhash : ∀ p ∈ pairs, sha256Hash p.2 = p.1.chunkHash)
    (hroot : m.merkleRoot = computeMerkleRoot (pairs.map fun p => p.1.chunkHash))
    (hsize : 0 ≤ m.originalSize) (hfile : sha256Hash raws.flatten = m.fileHash) :
    mergeChunks P m data q = .ok raws.flatten := by
  obtain ⟨final, hrun, htake⟩ := mergeLoop_of_decodes (decodeChunk_of_pipelineDecode hkeys h)
    (List.replicate m.originalSize.toNat 0) 0 (Nat.zero_le _)
  rw [Nat.zero_add] at hrun htake
  have hresult : final.take raws.flatten.length = raws.flatten := by simpa using htake
  have hneg : ¬ m.originalSize < 0 := not_lt.2 hsize
  simp only [mergeChunks, hord, verifyReceived_mapM hhash, hneg]
  simp only [bind, Except.bind, ← hroot, ne_eq, not_true_eq_false, and_false, if_false, hrun,
    hresult, hfile, pure, Except.pure]

theorem mergeChunksToDisk_of_decodes {data : List Bytes} (hord : orderChunks m.chunks data = pairs)
    (hkeys : SameKey q pairs)
    (h : List.Forall₂ (fun p raw =>
      pipelineDecode P (decide (m.compression = "zstd")) q p.1 p.2 = .ok raw) pairs raws)
    (hfile : sha256Hash raws.flatten = m.fileHash) :
    mergeChunksToDisk P m data q = ⟨.ok (), some raws.flatten⟩ := by
  simp only [mergeChunksToDisk, hord,
    writeLoop_of_decodes (decodeChunk_of_pipelineDecode hkeys h)]
  simp [finishOnDisk, hfile]

theorem mergeChunksToDisk_of_opens (h : Opens P q pairs raws) (hshuffle : shuffled.Perm pairs)
    (hzstd : m.compression = "zstd") (hfile : sha256Hash raws.flatten = m.fileHash) :
    mergeChunksToDisk P { m with chunks := shuffled.map Prod.fst } (shuffled.map Prod.snd) q =
      ⟨.ok (), some raws.flatten⟩ := by
  refine mergeChunksToDisk_of_decodes (orderChunks_of_perm h.increasing hshuffle) h.sameKey ?_ hfile
  simpa only [hzstd, decide_true] using h.pipelineDecode

end Sequential

/-! ## The readers that load chunk by chunk -/

section Loading

variable {σ : Type} {loadFn : LoadFn σ}

/-- `load_fn` delivers these chunks, asked for once each and in this order. -/
def ServesFrom (loadFn : LoadFn σ) : List (ChunkInfo × Bytes) → σ → σ → Prop
  | [], s, t => s = t
  | p :: ps, s, t => ∃ s', loadFn p.1.chunkHash s = (.ok p.2, s') ∧ ServesFrom loadFn ps s' t

/-- With the current chunk prefetched, the loop loads exactly the chunks after it. -/
lemma pipelineMergeLoop_prefetched {decode : ChunkInfo → Bytes → Except PyError Bytes}
    {pairs : List (ChunkInfo × Bytes)} {raws : List Bytes} {p : ChunkInfo × Bytes} {raw : Bytes}
    (hp : decode p.1 p.2 = .ok raw)
    (h : List.Forall₂ (fun p raw => decode p.1 p.2 = .ok raw) pairs raws) (written : Bytes)
    {s t : σ} (hs : ServesFrom loadFn pairs s t) :
    pipelineMergeLoop loadFn decode (p.1 :: pairs.map Prod.fst) (some p.2) written s =
      ((written ++ (raw ++ raws.flatten), .ok ()), t) := by
  induction h generalizing p raw written s with
  | nil =>
    have hst : s = t := hs
    subst hst
    simp [pipelineMergeLoop, takeOrLoad, prefetchNext, hp]
  | @cons p' raw' pairs raws hp' hall ih =>
    obtain ⟨s', hload, hrest⟩ := hs
    rw [List.map_cons, pipelineMergeLoop]
    simp only [takeOrLoad, prefetchNext, hload, hp]
    rw [ih hp' _ hrest, List.flatten_cons, List.append_assoc]

lemma pipelineMergeLoop_of_decodes {decode : ChunkInfo → Bytes → Except PyError Bytes}
    {pairs : List (ChunkInfo × Bytes)} {raws : List Bytes}
    (h : List.Forall₂ (fun p raw => decode p.1 p.2 = .ok raw) pairs raws) {s t : σ}
    (hs : ServesFrom loadFn pairs s t) :
    pipelineMergeLoop loadFn decode (pairs.map Prod.fst) none [] s =
      ((raws.flatten, .ok ()), t) := by
  cases h with
  | nil =>
    have hst : s = t := hs
    subst hst
    rfl
  | @cons p raw pairs raws hp hall =>
    obtain ⟨s', hload, hrest⟩ := hs
    -- after its load the first chunk is in the position of a prefetched one
    have hfirst : pipelineMergeLoop loadFn decode (p.1 :: pairs.map Prod.fst) none [] s =
        pipelineMergeLoop loadFn decode (p.1 :: pairs.map Prod.fst) (some p.2) [] s' := by
      rw [pipelineMergeLoop, pipelineMergeLoop]
      simp only [takeOrLoad, hload]
    rw [List.map_cons, hfirst, pipelineMergeLoop_prefetched hp hall [] hrest, List.flatten_cons,
      List.nil_append]

variable {P : Packages} {q : Option String} {useZstd : Bool} {m : FileManifest}
  {pairs shuffled : List (ChunkInfo × Bytes)} {raws : List Bytes}

/-- The key of the generator: none yet, or that of every encrypted chunk to come. -/
def StreamKey (q : Option String) (decKey : Option Bytes) (pairs : List (ChunkInfo × Bytes)) :
    Prop :=
  decKey = none ∨ ∀ p ∈ pairs, p.1.encrypted = true →
    decKey = some (deriveKey (q.getD "") (slice p.2 1 (1 + saltSize))).1

/-- Deriving its key once, the generator yields what the pipeline decodes. -/
lemma pipelineStreamLoop_of_decodes
    (h : List.Forall₂ (fun p raw => pipelineDecode P useZstd q p.1 p.2 = .ok raw) pairs raws)
    (hkeys : SameKey q pairs) {decKey : Option Bytes} (hkey : StreamKey q decKey pairs) {s t : σ}
    (hs : ServesFrom loadFn pairs s t) :
    pipelineStreamLoop P useZstd q loadFn (pairs.map Prod.fst) decKey s = ((raws, .ok ()), t) := by
  induction h generalizing decKey s with
  | nil =>
    have hst : s = t := hs
    subst hst
    rfl
  | @cons p raw pairs raws hp _ ih =>
    obtain ⟨s', hload, hrest⟩ := hs
    rw [List.map_cons, pipelineStreamLoop]
    simp only [hload]
    unfold pipelineDecode at hp
    by_cases hk : (p.1.encrypted && truthy q) = true
    · obtain ⟨henc, hq⟩ := Bool.and_eq_true_iff.1 hk
      have hnext : (if (p.1.encrypted && truthy q && decKey.isNone) = true then
          some (deriveKey (q.getD "") (slice p.2 1 (1 + saltSize))).1 else decKey) =
          some (chunkKey q p.2) := by
        rcases hkey with rfl | hkey
        · rw [if_pos (by simp [hk])]
          rfl
        · rw [hkey p (List.mem_cons_self ..) henc]
          exact ite_self _
      have htail : StreamKey q (some (chunkKey q p.2)) pairs := by
        refine Or.inr fun p' hp' henc' => congrArg some ?_
        exact hkeys hq p (List.mem_cons_self ..) p' (List.mem_cons_of_mem _ hp') henc henc'
      rw [if_pos hk] at hp
      rw [hnext, if_pos hk, chunkKey, hp]
      simp only
      rw [← chunkKey, ih hkeys.tail htail hrest]
    · have hnext : ¬ (p.1.encrypted && truthy q && decKey.isNone) = true := by simp [hk]
      have htail : StreamKey q decKey pairs :=
        hkey.imp_right fun h p' hp' => h p' (List.mem_cons_of_mem _ hp')
      rw [if_neg hk] at hp
      rw [if_neg hnext, if_neg hk, hp]
      simp only
      rw [ih hkeys.tail htail hrest]

theorem pipelineMergeToDisk_of_decodes (hord : orderInfos m.chunks = pairs.map Prod.fst)
    (h : List.Forall₂ (fun p raw =>
      pipelineDecode P (decide (m.compression = "zstd")) q p.1 p.2 = .ok raw) pairs raws)
    (hfile : sha256Hash raws.flatten = m.fileHash) {s t : σ} (hs : ServesFrom loadFn pairs s t) :
    pipelineMergeToDisk P m loadFn q s = (⟨.ok (), some raws.flatten⟩, t) := by
  simp only [pipelineMergeToDisk, hord, pipelineMergeLoop_of_decodes h hs]
  simp [finishOnDisk, hfile]

theorem pipelineStreamFile_of_decodes (hord : orderInfos m.chunks = pairs.map Prod.fst)
    (hkeys : SameKey q pairs)
    (h : List.Forall₂ (fun p raw =>
      pipelineDecode P (decide (m.compression = "zstd")) q p.1 p.2 = .ok raw) pairs raws)
    {s t : σ} (hs : ServesFrom loadFn pairs s t) :
    pipelineStreamFile P m loadFn q s = ((raws, .ok ()), t) := by
  rw [pipelineStreamFile, hord]
  exact pipelineStreamLoop_of_decodes h hkeys (Or.inl rfl) hs

end Loading

end DistriStore
