import DistriStore.FileEngine.Writers

/-!
# Writing and reading back

Every writer with every reader.  What a writer returns goes through `to_dict`, the database and
`from_dict`; the chunks are handed over in any order, or fetched by name through a `load_fn`; the
reader delivers the content of the file.
-/

namespace DistriStore

open Lib

/-! ## The eight combinations -/

inductive Writer where
  | chunkFile
  | pipelineChunkAndStore
  deriving DecidableEq, Repr

inductive Reader where
  | mergeChunks
  | mergeChunksToDisk
  | pipelineMergeToDisk
  | pipelineStreamFile
  deriving DecidableEq, Repr

/-- Add an entry at the end. -/
def collect (stored : List (String × Bytes)) (e : String × Bytes) : List (String × Bytes) :=
  stored ++ [e]

/-- A `store_fn` that keeps what it is given. -/
def collectStore : StoreFn (List (String × Bytes)) :=
  fun chunkHash chunkData stored => (.ok (), collect stored (chunkHash, chunkData))

/-- The manifest and the chunk data of a file, by either writer. -/
def runWriter (P : Packages) (w : Writer) (filePath : String) (file : Option SourceFile)
    (chunkSize : ℕ) (password : Option String) (salt : Salt) (nonces : ℕ → Nonce) :
    Except PyError (FileManifest × List Bytes) :=
  match w with
  | .chunkFile => chunkFile P filePath file chunkSize password salt nonces
  | .pipelineChunkAndStore =>
    match pipelineChunkAndStore P filePath file collectStore (some chunkSize) password salt nonces
        [] with
    | (.ok manifest, stored) => .ok (manifest, stored.map Prod.snd)
    | (.error e, _) => .error e

/-- What a merger to disk delivers: the file it leaves. -/
def DiskOutcome.delivered (o : DiskOutcome) : Except PyError Bytes :=
  match o.outcome with
  | .ok () => .ok (o.file.getD [])
  | .error e => .error e

/-- The output of a reader; for the generator, the concatenation of what it yields when it ends
normally. -/
def runReader {σ : Type} (P : Packages) (r : Reader) (manifest : FileManifest)
    (chunkDataList : List Bytes) (loadFn : LoadFn σ) (password : Option String) (s : σ) :
    Except PyError Bytes :=
  match r with
  | .mergeChunks => mergeChunks P manifest chunkDataList password
  | .mergeChunksToDisk => (mergeChunksToDisk P manifest chunkDataList password).delivered
  | .pipelineMergeToDisk => (pipelineMergeToDisk P manifest loadFn password s).1.delivered
  | .pipelineStreamFile =>
    match (pipelineStreamFile P manifest loadFn password s).1 with
    | (pieces, .ok ()) => .ok pieces.flatten
    | (_, .error e) => .error e

/-- From the state `s` on, `load_fn` answers the name of a chunk with a chunk of that name. -/
def ServesByHash {σ : Type} (loadFn : LoadFn σ) (pairs : List (ChunkInfo × Bytes)) (s : σ) :
    Prop :=
  ∃ I : σ → Prop, I s ∧ ∀ s, I s → ∀ p ∈ pairs,
    (∃ p' ∈ pairs, p'.1.chunkHash = p.1.chunkHash ∧ (loadFn p.1.chunkHash s).1 = .ok p'.2) ∧
      I (loadFn p.1.chunkHash s).2

/-- `load_fn` over a chunk store on disk. -/
def storeLoader : LoadFn LocalStore := fun chunkHash store =>
  match store.loadChunk chunkHash with
  | some data => (.ok data, store)
  | none => (.error (.fileNotFoundError ("Chunk " ++ strTake 16 chunkHash ++ "... not available")),
      store)

/-! ## Each side of the round trip -/

section

variable {P : Packages} {password : Option String} {salt : Salt} {nonces : ℕ → Nonce}

lemma foldl_collect (es stored : List (String × Bytes)) :
    es.foldl collect stored = stored ++ es := by
  induction es generalizing stored with
  | nil => simp
  | cons e es ih => rw [List.foldl_cons, ih, collect, List.append_assoc, List.singleton_append]

/-- Both writers return the same manifest and the same chunks. -/
theorem runWriter_eq (w : Writer) (filePath : String) (file : SourceFile) (n : ℕ) :
    runWriter P w filePath (some file) n password salt nonces =
      .ok (writtenManifest file n (encodedChunks P password salt nonces file.content n),
        (encodedChunks P password salt nonces file.content n).map Prod.snd) := by
  cases w with
  | chunkFile => exact chunkFile_eq filePath file n
  | pipelineChunkAndStore =>
    have hput : ∀ h d s, collectStore h d s = (.ok (), collect s (h, d)) := fun _ _ _ => rfl
    rw [runWriter, pipelineChunkAndStore_eq hput, foldl_collect]
    simp [List.map_map, Function.comp_def]

/-- With distinct names for distinct chunks, a `load_fn` that goes by name serves the chunks in
any order. -/
lemma ServesByHash.servesFrom {σ : Type} {loadFn : LoadFn σ} {pairs : List (ChunkInfo × Bytes)}
    {s : σ} (h : ServesByHash loadFn pairs s) (hhash : ∀ p ∈ pairs, sha256Hash p.2 = p.1.chunkHash)
    (hcf : CollisionFree sha256 (· ∈ pairs.map Prod.snd)) : ∃ t, ServesFrom loadFn pairs s t := by
  obtain ⟨I, hs, hI⟩ := h
  suffices hall : ∀ l : List (ChunkInfo × Bytes), (∀ p ∈ l, p ∈ pairs) → ∀ s, I s →
      ∃ t, ServesFrom loadFn l s t from hall pairs (fun _ hp => hp) s hs
  intro l
  induction l with
  | nil => exact fun _ s _ => ⟨s, rfl⟩
  | cons p l ih =>
    intro hl s hs
    have hp : p ∈ pairs := hl p (List.mem_cons_self ..)
    obtain ⟨⟨p', hp', hname, hload⟩, hnext⟩ := hI s hs p hp
    have hdata : p'.2 = p.2 := by
      apply hcf _ _ (List.mem_map_of_mem hp') (List.mem_map_of_mem hp)
      rw [← sha256Hash_inj, hhash p' hp', hhash p hp, hname]
    obtain ⟨t, ht⟩ := ih (fun q hq => hl q (List.mem_cons_of_mem _ hq)) _ hnext
    exact ⟨t, (loadFn p.1.chunkHash s).2, Prod.ext (by rw [hload, hdata]) rfl, ht⟩

/-- The chunk store serves by name the chunks that were saved in it. -/
lemma servesByHash_storeLoader (store : LocalStore) (pairs : List (ChunkInfo × Bytes)) :
    ServesByHash storeLoader pairs
      (store.saveChunks (pairs.map fun p => (p.1.chunkHash, p.2))) := by
  set es := pairs.map fun p => (p.1.chunkHash, p.2) with hes
  refine ⟨fun s => s = store.saveChunks es, rfl, ?_⟩
  rintro s rfl p hp
  have hmem : p.1.chunkHash ∈ es.map Prod.fst :=
    List.mem_map_of_mem (f := Prod.fst) (List.mem_map_of_mem hp)
  obtain ⟨data, hdata, hload⟩ := LocalStore.exists_loadChunk_saveChunks store es _ hmem
  obtain ⟨p', hp', heq⟩ := List.mem_map.1 hdata
  simp only [storeLoader, hload]
  obtain ⟨hname, rfl⟩ := Prod.mk.inj heq
  exact ⟨⟨p', hp', hname, rfl⟩, trivial⟩

/-- Every reader delivers what the chunks decode to; the pipelined merger also when they have
different keys. -/
lemma runReader_of_decodes {σ : Type} {q : Option String} {m : FileManifest} {data : List Bytes}
    {pairs : List (ChunkInfo × Bytes)} {raws : List Bytes} {loadFn : LoadFn σ} {s t : σ}
    (r : Reader) (hord : orderChunks m.chunks data = pairs)
    (hinfos : orderInfos m.chunks = pairs.map Prod.fst)
    (hkeys : SameKey q pairs ∨ r = .pipelineMergeToDisk)
    (h : List.Forall₂ (fun p raw =>
      pipelineDecode P (decide (m.compression = "zstd")) q p.1 p.2 = .ok raw) pairs raws)
    (hhash : ∀ p ∈ pairs, sha256Hash p.2 = p.1.chunkHash)
    (hroot : m.merkleRoot = computeMerkleRoot (pairs.map fun p => p.1.chunkHash))
    (hsize : 0 ≤ m.originalSize) (hfile : sha256Hash raws.flatten = m.fileHash)
    (hs : ServesFrom loadFn pairs s t) :
    runReader P r m data loadFn q s = .ok raws.flatten := by
  cases r with
  | mergeChunks =>
    exact mergeChunks_of_decodes hord (hkeys.resolve_right (by decide)) h hhash hroot hsize hfile
  | mergeChunksToDisk =>
    rw [runReader, mergeChunksToDisk_of_decodes hord (hkeys.resolve_right (by decide)) h hfile]
    rfl
  | pipelineMergeToDisk =>
    rw [runReader, pipelineMergeToDisk_of_decodes hinfos h hfile hs]
    rfl
  | pipelineStreamFile =>
    rw [runReader, pipelineStreamFile_of_decodes hinfos (hkeys.resolve_right (by decide)) h hs]

/-- Every reader delivers what the chunks open to. -/
lemma runReader_of_opens {σ : Type} {q : Option String} {m : FileManifest}
    {pairs shuffled : List (ChunkInfo × Bytes)} {raws : List Bytes} {loadFn : LoadFn σ} {s t : σ}
    (r : Reader) (h : Opens P q pairs raws) (hshuffle : shuffled.Perm pairs)
    (hhash : ∀ p ∈ pairs, sha256Hash p.2 = p.1.chunkHash)
    (hroot : m.merkleRoot = computeMerkleRoot (pairs.map fun p => p.1.chunkHash))
    (hsize : 0 ≤ m.originalSize) (hzstd : m.compression = "zstd")
    (hfile : sha256Hash raws.flatten = m.fileHash) (hs : ServesFrom loadFn pairs s t) :
    runReader P r { m with chunks := shuffled.map Prod.fst } (shuffled.map Prod.snd) loadFn q s =
      .ok raws.flatten := by
  refine runReader_of_decodes r (orderChunks_of_perm h.increasing hshuffle)
    (orderInfos_of_perm h.increasing hshuffle) (Or.inl h.sameKey) ?_ hhash hroot hsize hfile hs
  simpa only [hzstd, decide_true] using h.pipelineDecode

end

/-! ## The round trip -/

/-- What a writer made of a file, taken through the database and handed over in any order, every
reader turns back into the content of the file. -/
theorem write_read_roundTrip {σ : Type} {P : Packages} (hP : P.Lawful) (w : Writer) (r : Reader)
    (filePath : String) (file : SourceFile) (chunkSize : ℕ) (hc : 1 ≤ chunkSize)
    (password : Option String) (salt : Salt) (nonces : ℕ → Nonce) (store : LocalStore) :
    ∃ m data d m',
      runWriter P w filePath (some file) chunkSize password salt nonces = .ok (m, data) ∧
      (store.saveManifest m.fileHash m.toDict).loadManifest m.fileHash = some d ∧
      FileManifest.fromDict d = .ok m' ∧ m'.chunks.length = data.length ∧
      ∀ (shuffled : List (ChunkInfo × Bytes)) (loadFn : LoadFn σ) (s : σ),
        shuffled.Perm (m'.chunks.zip data) →
        CollisionFree sha256 (· ∈ data) →
        ServesByHash loadFn (m'.chunks.zip data) s →
        runReader P r { m' with chunks := shuffled.map Prod.fst } (shuffled.map Prod.snd) loadFn
          password s = .ok file.content := by
  set pairs := encodedChunks P password salt nonces file.content chunkSize with hpairs
  set m := writtenManifest file chunkSize pairs with hm
  have hroot : m.merkleRoot = computeMerkleRoot (m.chunks.map ChunkInfo.chunkHash) := by
    rw [hm, writtenManifest, List.map_map]
    rfl
  refine ⟨m, pairs.map Prod.snd, _, _, runWriter_eq w filePath file chunkSize, ?_,
    fromDict_dictOf_rowOf_toDict m hroot, ?_, ?_⟩
  · rw [LocalStore.loadManifest_saveManifest, if_pos rfl]
  · rw [hm, writtenManifest, List.length_map, List.length_map]
  intro shuffled loadFn s hshuffle hcf hserves
  have hzip : m.chunks.zip (pairs.map Prod.snd) = pairs := zip_map_fst_map_snd pairs
  rw [hzip] at hshuffle hserves
  have hhash : ∀ p ∈ pairs, sha256Hash p.2 = p.1.chunkHash := fun p hp =>
    hash_of_mem_encodedChunks hp
  have hopens : Opens P password pairs (readBlocks chunkSize file.content) :=
    opens_encodedChunks hP (fun _ => Unlocks.of_eq fun _ => rfl) chunkSize
  have hcontent : (readBlocks chunkSize file.content).flatten = file.content :=
    flatten_readBlocks hc file.content
  obtain ⟨t, ht⟩ := hserves.servesFrom hhash hcf
  have hread := runReader_of_opens (m := { m with chunkSize := defaultChunkSize }) r hopens hshuffle
    hhash rfl (Int.natCast_nonneg _) rfl (congrArg sha256Hash hcontent) ht
  rw [hcontent] at hread
  exact hread

/-- Two chunks written without a password, read back by name by the pipeline in reverse order. -/
theorem write_read_roundTrip_two :
    ∃ m data d m',
      runWriter rawPackages .chunkFile "ab.txt" (some ⟨"ab.txt", [0x61, 0x62]⟩) 1 none default
        default = .ok (m, data) ∧
      ((∅ : LocalStore).saveManifest m.fileHash m.toDict).loadManifest m.fileHash = some d ∧
      FileManifest.fromDict d = .ok m' ∧ data.length = 2 ∧
      runReader rawPackages .pipelineMergeToDisk
        { m' with chunks := (m'.chunks.zip data).reverse.map Prod.fst }
        ((m'.chunks.zip data).reverse.map Prod.snd) storeLoader none
        ((∅ : LocalStore).saveChunks ((m'.chunks.zip data).map fun p => (p.1.chunkHash, p.2))) =
          .ok [0x61, 0x62] := by
  obtain ⟨m, data, d, m', hwrite, hload, hdict, hlen, hread⟩ :=
    write_read_roundTrip (σ := LocalStore) rawPackages_lawful .chunkFile .pipelineMergeToDisk
      "ab.txt" ⟨"ab.txt", [0x61, 0x62]⟩ 1 le_rfl none default default ∅
  have hdata : data = [rawPackages.zstdCompress [0x61], rawPackages.zstdCompress [0x62]] := by
    have h := hwrite.symm.trans (runWriter_eq .chunkFile "ab.txt" ⟨"ab.txt", [0x61, 0x62]⟩ 1)
    have hblocks : readBlocks 1 [0x61, 0x62] = [[0x61], [0x62]] := by simp [readBlocks]
    rw [(Prod.mk.inj (Except.ok.inj h)).2, encodedChunks, streamChunks, hblocks]
    rfl
  have hcf : CollisionFree sha256 (· ∈ data) := by
    rw [hdata]
    exact collisionFree_pair (by decide +kernel)
  exact ⟨m, data, d, m', hwrite, hload, hdict, by rw [hdata]; rfl,
    hread _ storeLoader _ (List.reverse_perm _) hcf (servesByHash_storeLoader ∅ _)⟩

end DistriStore
