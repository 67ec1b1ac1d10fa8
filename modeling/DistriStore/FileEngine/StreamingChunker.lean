import DistriStore.FileEngine.Refinement

/-!
# The streaming chunker (`chunk_file_streaming`)

The third writer yields one chunk at a time.  It does not compress, and it encrypts each chunk with
`encrypt`, which draws a salt of its own; the other two writers derive one key for all chunks.
Three of the readers derive their key once, from the salt of the first chunk, so they get the file
back exactly when all chunks turn out to have the key of the first one
(`chunkFileStreaming_readable_iff`).  The pipelined merger derives the key from the salt of each
chunk and always gets it back.
-/

namespace DistriStore

open Lib

/-! ## The writer -/

/-- The body of the loop of `chunk_file_streaming`: `salts i` and `nonces i` are what `encrypt`
draws for chunk `i`. -/
def streamingChunk (P : Packages) (password : Option String) (salts : ℕ → Salt)
    (nonces : ℕ → Nonce) (piece : ℕ × Bytes) : ChunkInfo × Bytes :=
  let chunkBytes :=
    if truthy password then
      encrypt P piece.2 (password.getD "") (salts piece.1) (nonces piece.1)
    else piece.2
  ({ index := piece.1
     chunkHash := sha256Hash chunkBytes
     size := chunkBytes.length
     encrypted := truthy password }, chunkBytes)

/-- The loop of `chunk_file_streaming`: what is yielded, and the manifest and `chunk_hashes` at the
end. -/
def streamingLoop (encode : ℕ × Bytes → ChunkInfo × Bytes) :
    List (ℕ × Bytes) → FileManifest → List String →
      List (FileManifest × ℕ × Bytes) × FileManifest × List String
  | [], manifest, chunkHashes => ([], manifest, chunkHashes)
  | piece :: pieces, manifest, chunkHashes =>
    let (info, chunkBytes) := encode piece
    let manifest := { manifest with chunks := manifest.chunks ++ [info] }
    let (yielded, final) := streamingLoop encode pieces manifest (chunkHashes ++ [info.chunkHash])
    ((manifest, piece.1, chunkBytes) :: yielded, final)

/-- The manifest before the first chunk. -/
def startedManifest (file : SourceFile) (chunkSize : ℕ) : FileManifest where
  originalFilename := file.name
  originalSize := file.content.length
  fileHash := streamingFileHash file.content
  chunkSize := chunkSize

/-- Yields (partial manifest, index, chunk data) one at a time; with the manifest after the last
one. -/
def chunkFileStreaming (P : Packages) (filePath : String) (file : Option SourceFile)
    (chunkSize : ℕ) (password : Option String) (salts : ℕ → Salt) (nonces : ℕ → Nonce) :
    Except PyError (List (FileManifest × ℕ × Bytes) × FileManifest) :=
  match file with
  | none => .error (.fileNotFoundError ("File not found: " ++ filePath))
  | some file =>
    let (yielded, manifest, chunkHashes) := streamingLoop
      (streamingChunk P password salts nonces) (streamChunks file.content chunkSize)
      (startedManifest file chunkSize) []
    .ok (yielded, { manifest with merkleRoot := computeMerkleRoot chunkHashes })

/-- The chunk data that was yielded. -/
def yieldedData (yielded : List (FileManifest × ℕ × Bytes)) : List Bytes := yielded.map (·.2.2)

/-! ## What it produces -/

section Written

variable {P : Packages} {password : Option String} {salts : ℕ → Salt} {nonces : ℕ → Nonce}

lemma streamingLoop_final (encode : ℕ × Bytes → ChunkInfo × Bytes) (pieces : List (ℕ × Bytes))
    (m : FileManifest) (hashes : List String) :
    (streamingLoop encode pieces m hashes).2 =
      ({ m with chunks := m.chunks ++ (pieces.map encode).map Prod.fst },
        hashes ++ (pieces.map encode).map fun p => p.1.chunkHash) := by
  induction pieces generalizing m hashes with
  | nil => simp [streamingLoop]
  | cons piece pieces ih => simp [streamingLoop, ih]

lemma yieldedData_streamingLoop (encode : ℕ × Bytes → ChunkInfo × Bytes)
    (pieces : List (ℕ × Bytes)) (m : FileManifest) (hashes : List String) :
    yieldedData (streamingLoop encode pieces m hashes).1 = (pieces.map encode).map Prod.snd := by
  induction pieces generalizing m hashes with
  | nil => rfl
  | cons piece pieces ih => exact congrArg _ (ih _ _)

variable (P password salts nonces) in
/-- The manifest entries and the bytes of the chunks of a file. -/
def streamedChunks (content : Bytes) (chunkSize : ℕ) : List (ChunkInfo × Bytes) :=
  (streamChunks content chunkSize).map (streamingChunk P password salts nonces)

/-- The manifest after the last chunk. -/
def streamedManifest (file : SourceFile) (chunkSize : ℕ) (pairs : List (ChunkInfo × Bytes)) :
    FileManifest :=
  { writtenManifest file chunkSize pairs with compression := "" }

variable (P password salts nonces) in
lemma chunkFileStreaming_eq (filePath : String) (file : SourceFile) (n : ℕ) :
    ∃ yielded, chunkFileStreaming P filePath (some file) n password salts nonces =
        .ok (yielded, streamedManifest file n
          (streamedChunks P password salts nonces file.content n)) ∧
      yieldedData yielded =
        (streamedChunks P password salts nonces file.content n).map Prod.snd := by
  have hdata := yieldedData_streamingLoop (streamingChunk P password salts nonces)
    (streamChunks file.content n) (startedManifest file n) []
  have hfinal := streamingLoop_final (streamingChunk P password salts nonces)
    (streamChunks file.content n) (startedManifest file n) []
  rw [chunkFileStreaming]
  cases hrun : streamingLoop (streamingChunk P password salts nonces)
    (streamChunks file.content n) (startedManifest file n) [] with
  | mk yielded final =>
    rw [hrun] at hdata hfinal
    obtain rfl := hfinal
    refine ⟨yielded, ?_, hdata⟩
    simp only [startedManifest, streamingFileHash_eq, List.nil_append]
    rfl

/-- The key of chunk `i`. -/
def saltKey (password : Option String) (salts : ℕ → Salt) (i : ℕ) : Bytes :=
  (deriveKey (password.getD "") (salts i)).1

lemma length_saltKey (password : Option String) (salts : ℕ → Salt) (i : ℕ) :
    (saltKey password salts i).length = keySize := length_deriveKey _ _

lemma streamingChunk_data (hpw : truthy password = true) (piece : ℕ × Bytes) :
    (streamingChunk P password salts nonces piece).2 =
      encryptWithKey P piece.2 (saltKey password salts piece.1) (salts piece.1)
        (nonces piece.1) := by
  rw [streamingChunk]
  exact if_pos hpw

lemma chunkKey_streamingChunk (hpw : truthy password = true) (piece : ℕ × Bytes) :
    chunkKey password (streamingChunk P password salts nonces piece).2 =
      saltKey password salts piece.1 := by
  rw [chunkKey, streamingChunk_data hpw, slice_salt_encryptWithKey, saltKey]

lemma pairwise_streamedChunks (content : Bytes) (n : ℕ) :
    (streamedChunks P password salts nonces content n).Pairwise
      fun a b => a.1.index < b.1.index :=
  pairwise_map_streamChunks (fun _ => rfl) content n

lemma hash_of_mem_streamedChunks {content : Bytes} {n : ℕ} {p : ChunkInfo × Bytes}
    (hp : p ∈ streamedChunks P password salts nonces content n) :
    sha256Hash p.2 = p.1.chunkHash := by
  obtain ⟨piece, -, rfl⟩ := List.mem_map.1 hp
  rfl

/-- Under the key of its own salt each chunk decodes to the block it was made from. -/
lemma pipelineDecode_streamedChunks (hP : P.Lawful) (content : Bytes) (n : ℕ) :
    List.Forall₂ (fun p raw => pipelineDecode P false password p.1 p.2 = .ok raw)
      (streamedChunks P password salts nonces content n) (readBlocks n content) := by
  rw [streamedChunks, ← map_snd_streamChunks, List.forall₂_map_left_iff,
    List.forall₂_map_right_iff, List.forall₂_same]
  intro piece _
  unfold pipelineDecode
  by_cases hpw : truthy password = true
  · have hkey : chunkKey password (streamingChunk P password salts nonces piece).2 =
        saltKey password salts piece.1 := chunkKey_streamingChunk hpw piece
    have hflag : (streamingChunk P password salts nonces piece).1.encrypted = true := hpw
    rw [if_pos (Bool.and_eq_true_iff.2 ⟨hflag, hpw⟩), ← chunkKey, hkey, streamingChunk_data hpw]
    exact decryptWithKey_encryptWithKey hP _ _ _ _ (length_saltKey ..)
  · have hplain : (streamingChunk P password salts nonces piece).2 = piece.2 := by
      rw [streamingChunk]
      exact if_neg hpw
    rw [if_neg (by simp [hpw]), hplain]
    rfl

end Written

/-! ## Reading it back -/

/-- Data encrypted under the key of one piece does not decrypt under the key of another. -/
def SeparateKeys (P : Packages) (password : Option String) (salts : ℕ → Salt) (nonces : ℕ → Nonce)
    (pieces : List (ℕ × Bytes)) : Prop :=
  ∀ a ∈ pieces, ∀ b ∈ pieces, saltKey password salts b.1 ≠ saltKey password salts a.1 → ∀ data,
    P.gcmDecrypt (saltKey password salts b.1) (nonces a.1)
      (P.gcmEncrypt (saltKey password salts a.1) (nonces a.1) a.2).1
      (P.gcmEncrypt (saltKey password salts a.1) (nonces a.1) a.2).2 ≠ .ok data

/-- All pieces have the key of the first one. -/
def OneKey (password : Option String) (salts : ℕ → Salt) (pieces : List (ℕ × Bytes)) : Prop :=
  truthy password = true → ∀ piece ∈ pieces,
    saltKey password salts piece.1 = saltKey password salts 0

section Keys

variable {P : Packages} {password : Option String} {salts : ℕ → Salt} {nonces : ℕ → Nonce}
  {content : Bytes} {n : ℕ}

lemma OneKey.sameKey (h : OneKey password salts (streamChunks content n)) :
    SameKey password (streamedChunks P password salts nonces content n) := by
  intro hpw p hp p' hp' _ _
  obtain ⟨piece, hpiece, rfl⟩ := List.mem_map.1 hp
  obtain ⟨piece', hpiece', rfl⟩ := List.mem_map.1 hp'
  rw [chunkKey_streamingChunk hpw, chunkKey_streamingChunk hpw, h hpw piece hpiece,
    h hpw piece' hpiece']

variable (P salts nonces) in
lemma mergeKey_streamedChunks (hpw : truthy password = true) (hne : streamChunks content n ≠ []) :
    mergeKey password (streamedChunks P password salts nonces content n) =
        some (saltKey password salts 0) ∧
      ∃ piece ∈ streamChunks content n, piece.1 = 0 := by
  unfold streamedChunks
  cases hpieces : streamChunks content n with
  | nil => exact absurd hpieces hne
  | cons piece pieces =>
    have hfirst : piece.1 = 0 := by
      have h := congrArg (fun l => (l.head?).map Prod.fst) hpieces
      unfold streamChunks at h
      cases hblocks : readBlocks n content with
      | nil => simp [hblocks] at h
      | cons block blocks =>
        rw [hblocks, List.mapIdx_cons] at h
        exact (Option.some.inj h).symm
    have hflag : (streamingChunk P password salts nonces piece).1.encrypted = true := hpw
    refine ⟨?_, piece, List.mem_cons_self .., hfirst⟩
    rw [List.map_cons, mergeKey, if_pos (by rw [hpw, hflag]; rfl), ← chunkKey,
      chunkKey_streamingChunk hpw, hfirst]

lemma gcmDecrypt_of_gcmOutcome_ok {key nonce ciphertext tag plain : Bytes}
    (h : gcmOutcome P key nonce ciphertext tag = .ok plain) :
    ∃ data, P.gcmDecrypt key nonce ciphertext tag = .ok data := by
  unfold gcmOutcome at h
  cases hgcm : P.gcmDecrypt key nonce ciphertext tag with
  | ok data => exact ⟨data, rfl⟩
  | error e =>
    rw [hgcm] at h
    cases h

/-- When `merge_chunks` returns, every chunk was decoded under the key of the first one. -/
lemma oneKey_of_mergeChunks_ok (hP : P.Lawful)
    (hsep : SeparateKeys P password salts nonces (streamChunks content n)) {m : FileManifest}
    (hchunks : m.chunks = (streamedChunks P password salts nonces content n).map Prod.fst)
    {r : Bytes} (h : mergeChunks P m
      ((streamedChunks P password salts nonces content n).map Prod.snd) password = .ok r) :
    OneKey password salts (streamChunks content n) := by
  intro hpw piece hpiece
  by_contra hne
  obtain ⟨hkey, first, hfirst, hzero⟩ :=
    mergeKey_streamedChunks P salts nonces hpw (List.ne_nil_of_mem hpiece)
  obtain ⟨raws, hm⟩ := mergeChunks_ok h
  have hdecoded := hm.decoded
  rw [hchunks, orderChunks_of_perm (pairwise_streamedChunks content n) (List.Perm.refl _), hkey]
    at hdecoded
  have hmem : streamingChunk P password salts nonces piece ∈
      streamedChunks P password salts nonces content n := List.mem_map_of_mem hpiece
  obtain ⟨i, hi, hget⟩ := List.getElem_of_mem hmem
  have hraw := hdecoded.get hi (hdecoded.length_eq ▸ hi)
  simp only [List.get_eq_getElem, hget, decodeChunk] at hraw
  have hflag : (streamingChunk P password salts nonces piece).1.encrypted = true := hpw
  rw [if_pos (Bool.and_eq_true_iff.2 ⟨hflag, hpw⟩)] at hraw
  obtain ⟨plain, hplain, -⟩ := bind_eq_ok.1 hraw
  rw [streamingChunk_data hpw,
    decryptWithKey_encryptWithKey_key hP _ _ _ _ _ (length_saltKey ..)] at hplain
  have hfail := hsep piece hpiece first hfirst (by rw [hzero]; exact Ne.symm hne)
  rw [hzero] at hfail
  obtain ⟨data, hgcm⟩ := gcmDecrypt_of_gcmOutcome_ok hplain
  exact hfail data hgcm

end Keys

/-! ## Ciphertexts that show their keys -/

/-- Packages for which a ciphertext shows the key that it was made with. -/
def sealedPackages : Packages where
  gcmEncrypt key _ data := (key ++ data, List.replicate tagSize 0)
  gcmDecrypt key _ ciphertext _ :=
    if ciphertext.take key.length = key then .ok (ciphertext.drop key.length)
    else .error "MAC check failed"
  zstdCompress := rawPackages.zstdCompress
  zstdDecompress := rawPackages.zstdDecompress

lemma sealedPackages_lawful : sealedPackages.Lawful where
  gcm_roundTrip key nonce data _ _ := by simp [sealedPackages]
  gcm_tag_length key nonce data _ _ := List.length_replicate ..
  zstd_roundTrip := rawPackages_lawful.zstd_roundTrip

lemma separateKeys_sealedPackages (password : Option String) (salts : ℕ → Salt)
    (nonces : ℕ → Nonce) (pieces : List (ℕ × Bytes)) :
    SeparateKeys sealedPackages password salts nonces pieces := by
  intro a _ b _ hne data h
  have hlength : (saltKey password salts b.1).length = (saltKey password salts a.1).length :=
    (length_saltKey ..).trans (length_saltKey ..).symm
  have hfail : ¬ (saltKey password salts a.1 ++ a.2).take (saltKey password salts b.1).length =
      saltKey password salts b.1 := by
    rw [List.take_left' hlength.symm]
    exact Ne.symm hne
  simp only [sealedPackages, if_neg hfail] at h
  cases h

/-- The salt of chunk `i` is 16 bytes `i`. -/
def twoSalts (i : ℕ) : Salt := ⟨List.replicate saltSize (UInt8.ofNat i), List.length_replicate ..⟩

/-- A store that has the chunks of a manifest. -/
def storeOf (m : FileManifest) (datas : List Bytes) : LocalStore :=
  (∅ : LocalStore).saveChunks ((m.chunks.zip datas).map fun p => (p.1.chunkHash, p.2))

/-! ## What the readers read -/

/-- **A streamed file can be read back by all readers exactly when its chunks have one key.**  The
pipelined merger reads it back in any case. -/
theorem chunkFileStreaming_readable_iff {σ : Type} {P : Packages} (hP : P.Lawful)
    (filePath : String) (file : SourceFile) (chunkSize : ℕ) (hc : 1 ≤ chunkSize)
    (password : Option String) (salts : ℕ → Salt) (nonces : ℕ → Nonce)
    (hsep : SeparateKeys P password salts nonces (streamChunks file.content chunkSize)) :
    ∃ yielded m,
      chunkFileStreaming P filePath (some file) chunkSize password salts nonces =
        .ok (yielded, m) ∧
      ∀ (loadFn : LoadFn σ) (s : σ), CollisionFree sha256 (· ∈ yieldedData yielded) →
        ServesByHash loadFn (m.chunks.zip (yieldedData yielded)) s →
        ((∀ r, runReader P r m (yieldedData yielded) loadFn password s = .ok file.content) ↔
          OneKey password salts (streamChunks file.content chunkSize)) ∧
        runReader P .pipelineMergeToDisk m (yieldedData yielded) loadFn password s =
          .ok file.content := by
  obtain ⟨yielded, hrun, hdata⟩ :=
    chunkFileStreaming_eq P password salts nonces filePath file chunkSize
  refine ⟨yielded, _, hrun, fun loadFn s hcf hserves => ?_⟩
  rw [hdata] at hcf hserves ⊢
  set pairs := streamedChunks P password salts nonces file.content chunkSize
  set m := streamedManifest file chunkSize pairs with hm
  have hchunks : m.chunks = pairs.map Prod.fst := rfl
  have hzip : m.chunks.zip (pairs.map Prod.snd) = pairs := zip_map_fst_map_snd pairs
  rw [hzip] at hserves
  have hhash : ∀ p ∈ pairs, sha256Hash p.2 = p.1.chunkHash := fun p hp =>
    hash_of_mem_streamedChunks hp
  have hcontent : (readBlocks chunkSize file.content).flatten = file.content :=
    flatten_readBlocks hc file.content
  have hord : orderChunks m.chunks (pairs.map Prod.snd) = pairs :=
    orderChunks_of_perm (pairwise_streamedChunks _ _) (List.Perm.refl pairs)
  have hinfos : orderInfos m.chunks = pairs.map Prod.fst :=
    orderInfos_of_perm (pairwise_streamedChunks _ _) (List.Perm.refl pairs)
  obtain ⟨t, ht⟩ := hserves.servesFrom hhash hcf
  have hread : ∀ r, SameKey password pairs ∨ r = .pipelineMergeToDisk →
      runReader P r m (pairs.map Prod.snd) loadFn password s = .ok file.content := by
    intro r hkeys
    have hr := runReader_of_decodes r hord hinfos hkeys
      (pipelineDecode_streamedChunks hP file.content chunkSize) hhash rfl (Int.natCast_nonneg _)
      (congrArg sha256Hash hcontent) ht
    rwa [hcontent] at hr
  refine ⟨⟨fun hall => ?_, fun hkeys r => hread r (Or.inl hkeys.sameKey)⟩, hread _ (Or.inr rfl)⟩
  exact oneKey_of_mergeChunks_ok hP hsep hchunks (hall .mergeChunks)

/-- A file of two chunks: with equal chunks under one salt all readers read it, and with chunks under
two salts all of them do exactly when the salts give one key. -/
theorem chunkFileStreaming_readable_iff_two :
    (∃ yielded m,
      chunkFileStreaming sealedPackages "aa.txt" (some ⟨"aa.txt", [0x61, 0x61]⟩) 1 (some "pw")
        (fun _ => twoSalts 1) (fun _ => default) = .ok (yielded, m) ∧
      ∀ r, runReader sealedPackages r m (yieldedData yielded) storeLoader (some "pw")
        (storeOf m (yieldedData yielded)) = .ok [0x61, 0x61]) ∧
    ∃ yielded m,
      chunkFileStreaming sealedPackages "ab.txt" (some ⟨"ab.txt", [0x61, 0x62]⟩) 1 (some "pw")
        twoSalts (fun _ => default) = .ok (yielded, m) ∧
      (CollisionFree sha256 (· ∈ yieldedData yielded) →
        ((∀ r, runReader sealedPackages r m (yieldedData yielded) storeLoader (some "pw")
          (storeOf m (yieldedData yielded)) = .ok [0x61, 0x62]) ↔
            OneKey (some "pw") twoSalts [(0, [0x61]), (1, [0x62])]) ∧
        runReader sealedPackages .pipelineMergeToDisk m (yieldedData yielded) storeLoader
          (some "pw") (storeOf m (yieldedData yielded)) = .ok [0x61, 0x62]) := by
  constructor
  · obtain ⟨yielded, m, hrun, hread⟩ := chunkFileStreaming_readable_iff (σ := LocalStore)
      sealedPackages_lawful "aa.txt" ⟨"aa.txt", [0x61, 0x61]⟩ 1 le_rfl (some "pw")
      (fun _ => twoSalts 1) (fun _ => default) (separateKeys_sealedPackages _ _ _ _)
    obtain ⟨yielded', hrun', hdata⟩ := chunkFileStreaming_eq sealedPackages (some "pw")
      (fun _ => twoSalts 1) (fun _ => default) "aa.txt" ⟨"aa.txt", [0x61, 0x61]⟩ 1
    obtain rfl : yielded = yielded' := (Prod.mk.inj (Except.ok.inj (hrun.symm.trans hrun'))).1
    -- both chunks are encoded alike
    have hcf : CollisionFree sha256 (· ∈ yieldedData yielded) := by
      have hblocks : readBlocks 1 [0x61, 0x61] = [[0x61], [0x61]] := by simp [readBlocks]
      have hsame : ∀ x ∈ yieldedData yielded,
          x = (streamingChunk sealedPackages (some "pw") (fun _ => twoSalts 1) (fun _ => default)
            (0, [0x61])).2 := by
        rw [hdata, streamedChunks, streamChunks, hblocks]
        intro x hx
        rcases (by simpa using hx : x = _ ∨ x = _) with rfl | rfl <;> rfl
      exact fun x y hx hy _ => (hsame x hx).trans (hsame y hy).symm
    exact ⟨yielded, m, hrun,
      (hread storeLoader _ hcf (servesByHash_storeLoader ∅ _)).1.2 fun _ _ _ => rfl⟩
  · obtain ⟨yielded, m, hrun, hread⟩ := chunkFileStreaming_readable_iff (σ := LocalStore)
      sealedPackages_lawful "ab.txt" ⟨"ab.txt", [0x61, 0x62]⟩ 1 le_rfl (some "pw") twoSalts
      (fun _ => default) (separateKeys_sealedPackages _ _ _ _)
    have hpieces : streamChunks [0x61, 0x62] 1 = [(0, [0x61]), (1, [0x62])] := by
      simp [streamChunks, readBlocks]
    rw [← hpieces]
    exact ⟨yielded, m, hrun, fun hcf => hread storeLoader _ hcf (servesByHash_storeLoader ∅ _)⟩

/-- **Two chunks under two salts are not merged**, unless the salts give one key.  That they do is
left open: PBKDF2 with its 100000 rounds is not computed here. -/
theorem twoSalts_unreadable :
    saltKey (some "pw") twoSalts 1 = saltKey (some "pw") twoSalts 0 ∨
    ∃ yielded m,
      chunkFileStreaming sealedPackages "ab.txt" (some ⟨"ab.txt", [0x61, 0x62]⟩) 1 (some "pw")
        twoSalts (fun _ => default) = .ok (yielded, m) ∧
      ∀ content, mergeChunks sealedPackages m (yieldedData yielded) (some "pw") ≠ .ok content := by
  by_cases hkeys : saltKey (some "pw") twoSalts 1 = saltKey (some "pw") twoSalts 0
  · exact Or.inl hkeys
  · obtain ⟨yielded, hrun, hdata⟩ := chunkFileStreaming_eq sealedPackages (some "pw") twoSalts
      (fun _ => default) "ab.txt" ⟨"ab.txt", [0x61, 0x62]⟩ 1
    refine Or.inr ⟨yielded, _, hrun, fun content hmerge => hkeys ?_⟩
    rw [hdata] at hmerge
    have hone := oneKey_of_mergeChunks_ok sealedPackages_lawful
      (separateKeys_sealedPackages _ _ _ _) rfl hmerge
    refine hone (by decide) (1, [0x62]) ?_
    have hblocks : readBlocks 1 [0x61, 0x62] = [[0x61], [0x62]] := by simp [readBlocks]
    rw [streamChunks, hblocks]
    simp

end DistriStore
