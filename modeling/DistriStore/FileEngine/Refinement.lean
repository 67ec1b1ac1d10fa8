import DistriStore.FileEngine.Roundtrip

/-!
# The readers agree on every input

`merge_chunks` checks every chunk hash, the Merkle root and the hash of the whole file, and
assembles the file in a buffer whose length comes from the manifest.  Whenever it returns, on
whatever manifest and chunks, the other three readers deliver the same bytes
(`readers_refine_mergeChunks`).

Nothing is assumed about the chunks here: indices may repeat, encryption flags may be mixed, and
the packages may decode what they like.  So the lemmas start from the success of `merge_chunks`
and read off what each chunk was decoded to (`mergeChunks_ok`).
-/

namespace DistriStore

open Lib

/-- All encrypted chunks carry the same salt. -/
def SameSalt (pairs : List (ChunkInfo × Bytes)) : Prop :=
  ∀ p ∈ pairs, ∀ p' ∈ pairs, p.1.encrypted = true → p'.1.encrypted = true →
    slice p.2 1 (1 + saltSize) = slice p'.2 1 (1 + saltSize)

/-- `load_fn` with a record of the names it has been asked for. -/
def recording {σ : Type} (loadFn : LoadFn σ) : LoadFn (σ × List String) := fun chunkHash s =>
  ((loadFn chunkHash s.1).1, ((loadFn chunkHash s.1).2, s.2 ++ [chunkHash]))

/-! ## What a successful `merge_chunks` has done -/

lemma mapM_verifyReceived_ok {pairs : List (ChunkInfo × Bytes)} {hashes : List String}
    (h : (pairs.mapM fun p => verifyReceived p.1 p.2) = .ok hashes) :
    ∀ p ∈ pairs, sha256Hash p.2 = p.1.chunkHash := by
  induction pairs generalizing hashes with
  | nil => simp
  | cons p pairs ih =>
    rw [List.mapM_cons] at h
    obtain ⟨hash, hp, h⟩ := bind_eq_ok.1 h
    obtain ⟨rest, hrest, -⟩ := bind_eq_ok.1 h
    intro p' hp'
    rcases List.mem_cons.1 hp' with rfl | hp'
    · by_contra hne
      simp [verifyReceived, hne] at hp
    · exact ih hrest p' hp'

lemma mergeLoop_ok {decode : ChunkInfo → Bytes → Except PyError Bytes}
    {pairs : List (ChunkInfo × Bytes)} {buffer : Bytes} {offset : ℕ} {r : Bytes × ℕ}
    (h : mergeLoop decode pairs buffer offset = .ok r) :
    ∃ raws, List.Forall₂ (fun p raw => decode p.1 p.2 = .ok raw) pairs raws := by
  induction pairs generalizing buffer offset with
  | nil => exact ⟨[], .nil⟩
  | cons p pairs ih =>
    rw [mergeLoop] at h
    obtain ⟨raw, hraw, h⟩ := bind_eq_ok.1 h
    obtain ⟨raws, hraws⟩ := ih h
    exact ⟨raw :: raws, .cons hraw hraws⟩

/-- The parts of a `merge_chunks` that returns `r`. -/
structure Merged (P : Packages) (m : FileManifest) (data : List Bytes) (q : Option String)
    (raws : List Bytes) (r : Bytes) : Prop where
  verified : ∀ p ∈ orderChunks m.chunks data, sha256Hash p.2 = p.1.chunkHash
  decoded : List.Forall₂
    (fun p raw => decodeChunk P q (mergeKey q (orderChunks m.chunks data))
      (decide (m.compression = "zstd")) p.1 p.2 = .ok raw) (orderChunks m.chunks data) raws
  result : r = raws.flatten
  hash : sha256Hash r = m.fileHash

lemma mergeChunks_ok {P : Packages} {m : FileManifest} {data : List Bytes} {q : Option String}
    {r : Bytes} (h : mergeChunks P m data q = .ok r) : ∃ raws, Merged P m data q raws r := by
  unfold mergeChunks at h
  dsimp only at h
  obtain ⟨hashes, hverify, h⟩ := bind_eq_ok.1 h
  obtain ⟨-, h⟩ := raise_eq_ok.1 h
  obtain ⟨-, h⟩ := raise_eq_ok.1 h
  obtain ⟨⟨buffer, offset⟩, hloop, h⟩ := bind_eq_ok.1 h
  obtain ⟨hhash, h⟩ := raise_eq_ok.1 h
  obtain ⟨raws, hraws⟩ := mergeLoop_ok hloop
  -- the buffer holds the decoded chunks, whatever its length was
  obtain ⟨final, hrun, htake⟩ := mergeLoop_of_decodes hraws
    (List.replicate m.originalSize.toNat 0) 0 (Nat.zero_le _)
  obtain ⟨rfl, rfl⟩ := Prod.mk.inj (Except.ok.inj (hloop.symm.trans hrun))
  rw [htake, List.take_zero, List.nil_append] at h hhash
  obtain rfl : raws.flatten = r := Except.ok.inj h
  exact ⟨raws, mapM_verifyReceived_ok hverify, hraws, rfl, not_not.1 hhash⟩

/-! ## One salt, one key -/

lemma SameSalt.sameKey {pairs : List (ChunkInfo × Bytes)} (h : SameSalt pairs)
    (q : Option String) : SameKey q pairs := fun _ p hp p' hp' henc henc' =>
  congrArg (fun salt => (deriveKey (q.getD "") salt).1) (h p hp p' hp' henc henc')

/-- What the mergers have decoded the pipeline decodes to the same bytes. -/
lemma Merged.pipelineDecode {P : Packages} {q : Option String} {m : FileManifest}
    {data raws : List Bytes} {r : Bytes} (h : Merged P m data q raws r)
    (hkeys : SameKey q (orderChunks m.chunks data)) :
    List.Forall₂ (fun p raw => pipelineDecode P (decide (m.compression = "zstd")) q p.1 p.2 =
      .ok raw) (orderChunks m.chunks data) raws := by
  refine List.forall₂_iff_get.2 ⟨h.decoded.length_eq, fun i hi hi' => ?_⟩
  exact (decodeChunk_mergeKey hkeys (List.get_mem ..)).symm.trans (h.decoded.get hi hi')

/-! ## The readers that load -/

section Loading

variable {σ : Type} {loadFn : LoadFn σ} {pairs : List (ChunkInfo × Bytes)}

/-- When the chunks are served, the record lists their names in order, each once. -/
lemma servesFrom_recording {s t : σ} (h : ServesFrom loadFn pairs s t) (log : List String) :
    ServesFrom (recording loadFn) pairs (s, log)
      (t, log ++ pairs.map fun p => p.1.chunkHash) := by
  induction pairs generalizing s log with
  | nil =>
    have hst : s = t := h
    simp [ServesFrom, hst]
  | cons p pairs ih =>
    obtain ⟨s', hload, hrest⟩ := h
    refine ⟨(s', log ++ [p.1.chunkHash]), by simp [recording, hload], ?_⟩
    have htail := ih hrest (log ++ [p.1.chunkHash])
    rwa [List.append_assoc, List.singleton_append] at htail

lemma ServesByHash.congr {pairs' : List (ChunkInfo × Bytes)} {s : σ}
    (h : ServesByHash loadFn pairs s) (hmem : ∀ p, p ∈ pairs' ↔ p ∈ pairs) :
    ServesByHash loadFn pairs' s := by
  simpa only [ServesByHash, hmem] using h

lemma map_fst_orderChunks {chunks : List ChunkInfo} {data : List Bytes}
    (hlen : data.length = chunks.length) :
    (orderChunks chunks data).map Prod.fst = orderInfos chunks := by
  rw [orderChunks, orderInfos, map_sortBy (fun p : ChunkInfo × Bytes => p.1.index) Prod.fst
    ChunkInfo.index (fun _ => rfl), List.map_fst_zip hlen.ge]

end Loading

/-! ## The refinement -/

/-- Whenever `merge_chunks` returns, it returns the decoded chunks in index order; the merger to
disk writes the same, and so do the two readers that load, when one salt is used and each name is
answered with its chunk.  These load every chunk once, in index order. -/
theorem readers_refine_mergeChunks {σ : Type} {P : Packages} {m : FileManifest}
    {data : List Bytes} {q : Option String} {r : Bytes} (hlen : data.length = m.chunks.length)
    (h : mergeChunks P m data q = .ok r) :
    (∃ raws, List.Forall₂ (fun p raw => decodeChunk P q (mergeKey q (orderChunks m.chunks data))
        (decide (m.compression = "zstd")) p.1 p.2 = .ok raw) (orderChunks m.chunks data) raws ∧
      r = raws.flatten ∧ sha256Hash r = m.fileHash) ∧
    mergeChunksToDisk P m data q = ⟨.ok (), some r⟩ ∧
    ∀ (loadFn : LoadFn σ) (s : σ), SameSalt (m.chunks.zip data) →
      CollisionFree sha256 (· ∈ data) → ServesByHash loadFn (m.chunks.zip data) s →
      ∃ t pieces, pieces.flatten = r ∧
        pipelineMergeToDisk P m (recording loadFn) q (s, []) =
          (⟨.ok (), some r⟩, (t, (orderInfos m.chunks).map ChunkInfo.chunkHash)) ∧
        pipelineStreamFile P m (recording loadFn) q (s, []) =
          ((pieces, .ok ()), (t, (orderInfos m.chunks).map ChunkInfo.chunkHash)) := by
  obtain ⟨raws, hm⟩ := mergeChunks_ok h
  have hr := hm.result
  have hord : (orderChunks m.chunks data).map Prod.fst = orderInfos m.chunks :=
    map_fst_orderChunks hlen
  have hmem : ∀ p, p ∈ orderChunks m.chunks data ↔ p ∈ m.chunks.zip data := fun p =>
    mem_sortBy _
  refine ⟨⟨raws, hm.decoded, hr, hm.hash⟩, ?_, fun loadFn s hsalt hcf hserves => ?_⟩
  · have hhash : sha256Hash raws.flatten = m.fileHash := hr ▸ hm.hash
    simp only [mergeChunksToDisk, writeLoop_of_decodes hm.decoded]
    simp [finishOnDisk, hhash, hr]
  · have hsalt' : SameSalt (orderChunks m.chunks data) := fun p hp p' hp' =>
      hsalt p ((hmem p).1 hp) p' ((hmem p').1 hp')
    have hcf' : CollisionFree sha256 (· ∈ (orderChunks m.chunks data).map Prod.snd) := by
      refine hcf.mono fun d hd => ?_
      obtain ⟨p, hp, rfl⟩ := List.mem_map.1 hd
      exact (List.of_mem_zip ((hmem p).1 hp)).2
    obtain ⟨t, ht⟩ := (hserves.congr hmem).servesFrom hm.verified hcf'
    have hrec := servesFrom_recording ht []
    have hnames : (orderChunks m.chunks data).map (fun p => p.1.chunkHash) =
        (orderInfos m.chunks).map ChunkInfo.chunkHash := by
      rw [← hord, List.map_map]
      rfl
    rw [List.nil_append, hnames] at hrec
    have hkeys := hsalt'.sameKey q
    have hdecode := hm.pipelineDecode hkeys
    have hhash : sha256Hash raws.flatten = m.fileHash := hr ▸ hm.hash
    refine ⟨t, raws, hr.symm, ?_, pipelineStreamFile_of_decodes hord.symm hkeys hdecode hrec⟩
    rw [hr]
    exact pipelineMergeToDisk_of_decodes hord.symm hdecode hhash hrec

/-- Two chunks in reverse order, under a manifest with a wrong size. -/
def reversedManifest : FileManifest where
  originalFilename := "ab.txt"
  originalSize := 5
  fileHash := sha256Hash [0x61, 0x62]
  chunkSize := 1
  chunks := [{ index := 1, chunkHash := sha256Hash [0x62], size := 1 },
    { index := 0, chunkHash := sha256Hash [0x61], size := 1 }]

theorem readers_refine_mergeChunks_reversed :
    ∃ t pieces, pieces.flatten = [0x61, 0x62] ∧
      mergeChunksToDisk rawPackages reversedManifest [[0x62], [0x61]] none =
        ⟨.ok (), some [0x61, 0x62]⟩ ∧
      pipelineStreamFile rawPackages reversedManifest (recording storeLoader) none
          ((∅ : LocalStore).saveChunks
            [(sha256Hash [0x62], [0x62]), (sha256Hash [0x61], [0x61])], []) =
        ((pieces, .ok ()), (t, [sha256Hash [0x61], sha256Hash [0x62]])) := by
  have hmerge : mergeChunks rawPackages reversedManifest [[0x62], [0x61]] none =
      .ok [0x61, 0x62] := by decide +kernel
  have hcf : CollisionFree sha256 (· ∈ [[0x62], [(0x61 : UInt8)]]) :=
    collisionFree_pair (by decide +kernel)
  have hsalt : SameSalt (reversedManifest.chunks.zip [[0x62], [0x61]]) := by
    intro p hp p' _ henc
    simp only [reversedManifest, List.zip_cons_cons, List.zip_nil_left, List.mem_cons,
      List.not_mem_nil, or_false] at hp
    rcases hp with rfl | rfl <;> simp at henc
  obtain ⟨-, hdisk, hload⟩ := readers_refine_mergeChunks (σ := LocalStore) rfl hmerge
  obtain ⟨t, pieces, hpieces, -, hstream⟩ := hload storeLoader _ hsalt hcf
    (servesByHash_storeLoader ∅ _)
  exact ⟨t, pieces, hpieces, hdisk, hstream⟩

end DistriStore
