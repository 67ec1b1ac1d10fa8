import DistriStore.FileEngine.Roundtrip

/-!
# What a preview is worth (`pipeline_stream_file` against `pipeline_merge_to_disk`)

The generator behind the preview and the merger behind the download load the same chunks in the same
order, and decode them by the same workers.  They differ in two points: the generator derives one
key, from the salt of the first encrypted chunk, where the merger derives one for each chunk; and
the merger compares the hash of what it has written with the manifest, where the generator compares
nothing.

Each of them ends normally exactly when all chunks are served and open (`pipelineStreamFile_ok_iff`,
`pipelineMergeToDisk_ok_iff`).  So previews of a file that has chunks can be trusted only as far as
what is served can: for every such manifest some chunks can be served that open to something else,
and they are previewed to the end; with chunks that have the hashes that are their names a preview
is the file (`trustworthy_iff`).
-/

namespace DistriStore

open Lib

/-! ## The key of the generator -/

/-- The key of the first encrypted chunk, when there is a password. -/
def firstKey (q : Option String) : List (ChunkInfo × Bytes) → Option Bytes
  | [] => none
  | p :: pairs => if p.1.encrypted && truthy q then some (chunkKey q p.2) else firstKey q pairs

/-- The chunks decode to `raws`, the encrypted ones under `key`. -/
def OpensUnder (P : Packages) (useZstd : Bool) (q : Option String) (key : Option Bytes)
    (pairs : List (ChunkInfo × Bytes)) (raws : List Bytes) : Prop :=
  List.Forall₂ (fun p raw =>
    workerDecode P useZstd (if p.1.encrypted && truthy q then key else none) p.2 = .ok raw)
    pairs raws

/-- The key after a chunk: the one in hand, or that of the chunk. -/
def nextKey (q : Option String) (decKey : Option Bytes) (p : ChunkInfo × Bytes) : Option Bytes :=
  if p.1.encrypted && truthy q && decKey.isNone then some (chunkKey q p.2) else decKey

section Key

lemma ite_isNone_or (c : Bool) (own : Bytes) (decKey rest : Option Bytes) :
    (if c && decKey.isNone then some own else decKey).or rest =
      decKey.or (if c then some own else rest) := by
  cases c <;> cases decKey <;> rfl

lemma ite_isNone_eq (own : Bytes) (decKey rest : Option Bytes) :
    (if true && decKey.isNone then some own else decKey) =
      decKey.or (if true then some own else rest) := by
  cases decKey <;> rfl

/-- The key in hand, or the first one to come, is the same after a chunk. -/
lemma nextKey_or_firstKey (q : Option String) (decKey : Option Bytes) (p : ChunkInfo × Bytes)
    (pairs : List (ChunkInfo × Bytes)) :
    (nextKey q decKey p).or (firstKey q pairs) = decKey.or (firstKey q (p :: pairs)) := by
  rw [nextKey, firstKey]
  exact ite_isNone_or _ _ _ _

/-- A chunk is decoded under the key in effect for all. -/
lemma ite_nextKey (q : Option String) (decKey : Option Bytes) (p : ChunkInfo × Bytes)
    (pairs : List (ChunkInfo × Bytes)) :
    (if p.1.encrypted && truthy q then nextKey q decKey p else none) =
      if p.1.encrypted && truthy q then decKey.or (firstKey q (p :: pairs)) else none := by
  by_cases hk : (p.1.encrypted && truthy q) = true
  · rw [if_pos hk, if_pos hk, nextKey, firstKey, hk]
    exact ite_isNone_eq _ _ _
  · rw [if_neg hk, if_neg hk]

end Key

/-! ## When the loops end normally -/

section Loops

variable {σ : Type} {P : Packages} {useZstd : Bool} {q : Option String} {loadFn : LoadFn σ}

/-- A chunk that is served is decoded, and the rest follows with the next key. -/
lemma pipelineStreamLoop_cons_ok_iff {p : ChunkInfo × Bytes} {infos : List ChunkInfo}
    {decKey : Option Bytes} {s s' t : σ} {raws : List Bytes}
    (hload : loadFn p.1.chunkHash s = (.ok p.2, s')) :
    pipelineStreamLoop P useZstd q loadFn (p.1 :: infos) decKey s = ((raws, .ok ()), t) ↔
      ∃ raw rest, raws = raw :: rest ∧
        workerDecode P useZstd (if p.1.encrypted && truthy q then nextKey q decKey p else none)
          p.2 = .ok raw ∧
        pipelineStreamLoop P useZstd q loadFn infos (nextKey q decKey p) s' =
          ((rest, .ok ()), t) := by
  set r := pipelineStreamLoop P useZstd q loadFn infos (nextKey q decKey p) s'
  cases hdec : workerDecode P useZstd
      (if p.1.encrypted && truthy q then nextKey q decKey p else none) p.2 with
  | error e =>
    have hstep : pipelineStreamLoop P useZstd q loadFn (p.1 :: infos) decKey s =
        (([], .error e), s') := by
      unfold nextKey chunkKey at hdec
      rw [pipelineStreamLoop]
      simp only [hload, hdec]
    rw [hstep]
    refine iff_of_false (fun h => by cases h) ?_
    rintro ⟨raw, rest, -, h, -⟩
    cases h
  | ok plaintext =>
    have hstep : pipelineStreamLoop P useZstd q loadFn (p.1 :: infos) decKey s =
        ((plaintext :: r.1.1, r.1.2), r.2) := by
      unfold nextKey chunkKey at hdec
      rw [pipelineStreamLoop]
      simp only [hload, hdec]
      rfl
    rw [hstep]
    constructor
    · intro h
      obtain ⟨hpieces, rfl⟩ := Prod.mk.inj h
      obtain ⟨rfl, hend⟩ := Prod.mk.inj hpieces
      exact ⟨plaintext, r.1.1, rfl, rfl, by rw [← hend]⟩
    · rintro ⟨raw, rest, rfl, hraw, hr⟩
      obtain rfl := Except.ok.inj hraw
      rw [hr]

/-- With the key in hand, or the first one to come, the generator ends normally exactly when all
chunks are served and open under it. -/
lemma pipelineStreamLoop_ok_iff (infos : List ChunkInfo) (decKey : Option Bytes) (s t : σ)
    (raws : List Bytes) :
    pipelineStreamLoop P useZstd q loadFn infos decKey s = ((raws, .ok ()), t) ↔
      ∃ pairs, pairs.map Prod.fst = infos ∧ ServesFrom loadFn pairs s t ∧
        OpensUnder P useZstd q (decKey.or (firstKey q pairs)) pairs raws := by
  induction infos generalizing decKey s raws with
  | nil =>
    rw [pipelineStreamLoop]
    constructor
    · intro h
      simp only [Prod.mk.injEq, and_true] at h
      obtain ⟨rfl, rfl⟩ := h
      exact ⟨[], rfl, rfl, .nil⟩
    · rintro ⟨pairs, hpairs, hs, hopens⟩
      obtain rfl := List.map_eq_nil_iff.1 hpairs
      have hst : s = t := hs
      cases hopens
      rw [hst]
  | cons info infos ih =>
    cases hload : loadFn info.chunkHash s with
    | mk outcome s' =>
      cases outcome with
      | error e =>
        rw [pipelineStreamLoop, hload]
        refine iff_of_false (fun h => by cases h) ?_
        rintro ⟨pairs, hpairs, hs, -⟩
        obtain ⟨p, pairs, rfl, rfl, -⟩ := List.map_eq_cons_iff.1 hpairs
        obtain ⟨s'', hload', -⟩ := hs
        cases hload.symm.trans hload'
      | ok data =>
        rw [pipelineStreamLoop_cons_ok_iff (p := (info, data)) hload]
        constructor
        · rintro ⟨raw, rest, rfl, hraw, hrest⟩
          obtain ⟨pairs, rfl, hs, hopens⟩ := (ih _ _ _).1 hrest
          rw [nextKey_or_firstKey] at hopens
          rw [ite_nextKey _ _ _ pairs] at hraw
          exact ⟨(info, data) :: pairs, rfl, ⟨s', hload, hs⟩, .cons hraw hopens⟩
        · rintro ⟨pairs, hpairs, hs, hopens⟩
          obtain ⟨p, pairs, rfl, rfl, rfl⟩ := List.map_eq_cons_iff.1 hpairs
          obtain ⟨s'', hload', hs⟩ := hs
          obtain ⟨hdata, rfl⟩ := Prod.mk.inj (hload.symm.trans hload')
          obtain rfl := Except.ok.inj hdata
          cases hopens with
          | cons hraw hopens =>
            rw [← ite_nextKey] at hraw
            refine ⟨_, _, rfl, hraw, (ih _ _ _).2 ⟨pairs, rfl, hs, ?_⟩⟩
            rw [nextKey_or_firstKey]
            exact hopens

/-- With the current chunk prefetched, a merge that ends normally has been served the chunks after
it and has decoded them all. -/
lemma decodes_of_prefetched {decode : ChunkInfo → Bytes → Except PyError Bytes} {info : ChunkInfo}
    (infos : List ChunkInfo) (data written : Bytes) (s : σ)
    (h : (pipelineMergeLoop loadFn decode (info :: infos) (some data) written s).1.2 = .ok ()) :
    ∃ raw pairs raws t, decode info data = .ok raw ∧ pairs.map Prod.fst = infos ∧
      ServesFrom loadFn pairs s t ∧
      List.Forall₂ (fun p raw => decode p.1 p.2 = .ok raw) pairs raws := by
  induction infos generalizing info data written s with
  | nil =>
    rw [pipelineMergeLoop] at h
    simp only [takeOrLoad, prefetchNext] at h
    cases hdec : decode info data with
    | error e =>
      rw [hdec] at h
      cases h
    | ok raw => exact ⟨raw, [], [], s, rfl, rfl, rfl, .nil⟩
  | cons next infos ih =>
    rw [pipelineMergeLoop] at h
    simp only [takeOrLoad, prefetchNext] at h
    cases hdec : decode info data with
    | error e =>
      rw [hdec] at h
      cases h
    | ok raw =>
      cases hload : loadFn next.chunkHash s with
      | mk outcome s' =>
        rw [hdec, hload] at h
        cases outcome with
        | error e => cases h
        | ok data' =>
          obtain ⟨raw', pairs, raws, t, hdec', rfl, hs, hall⟩ := ih data' _ s' h
          exact ⟨raw, (next, data') :: pairs, raw' :: raws, t, rfl, rfl, ⟨s', hload, hs⟩,
            .cons hdec' hall⟩

/-- A merge that ends normally has been served all chunks and has decoded them. -/
lemma decodes_of_pipelineMergeLoop_ok {decode : ChunkInfo → Bytes → Except PyError Bytes}
    {infos : List ChunkInfo} {s : σ}
    (h : (pipelineMergeLoop loadFn decode infos none [] s).1.2 = .ok ()) :
    ∃ pairs raws t, pairs.map Prod.fst = infos ∧ ServesFrom loadFn pairs s t ∧
      List.Forall₂ (fun p raw => decode p.1 p.2 = .ok raw) pairs raws := by
  cases infos with
  | nil => exact ⟨[], [], s, rfl, rfl, .nil⟩
  | cons info infos =>
    cases hload : loadFn info.chunkHash s with
    | mk outcome s' =>
      cases outcome with
      | error e =>
        rw [pipelineMergeLoop] at h
        simp only [takeOrLoad, hload] at h
        cases h
      | ok data =>
        have hfirst : pipelineMergeLoop loadFn decode (info :: infos) none [] s =
            pipelineMergeLoop loadFn decode (info :: infos) (some data) [] s' := by
          rw [pipelineMergeLoop, pipelineMergeLoop]
          simp only [takeOrLoad, hload]
        rw [hfirst] at h
        obtain ⟨raw, pairs, raws, t, hdec, rfl, hs, hall⟩ := decodes_of_prefetched _ _ _ _ h
        exact ⟨(info, data) :: pairs, raw :: raws, t, rfl, ⟨s', hload, hs⟩, .cons hdec hall⟩

/-- What is served is determined by the names that are asked for. -/
lemma ServesFrom.unique {pairs pairs' : List (ChunkInfo × Bytes)} {s t t' : σ}
    (h : ServesFrom loadFn pairs s t) (h' : ServesFrom loadFn pairs' s t')
    (hnames : pairs.map Prod.fst = pairs'.map Prod.fst) : pairs = pairs' := by
  induction pairs generalizing pairs' s with
  | nil => exact (List.map_eq_nil_iff.1 hnames.symm).symm
  | cons p pairs ih =>
    obtain ⟨p', pairs', rfl, hp, hrest⟩ := List.map_eq_cons_iff.1 hnames.symm
    obtain ⟨s₁, hload, hs⟩ := h
    obtain ⟨s₁', hload', hs'⟩ := h'
    rw [hp] at hload'
    obtain ⟨hdata, rfl⟩ := Prod.mk.inj (hload.symm.trans hload')
    rw [ih hs hs' hrest.symm, Prod.ext hp.symm (Except.ok.inj hdata)]

end Loops

/-! ## The generator against the merger -/

section

variable {σ : Type} (P : Packages) (m : FileManifest) (loadFn : LoadFn σ) (q : Option String)
  (s : σ)

/-- The generator ends normally exactly when all chunks are served and open under the key of the
first encrypted one. -/
lemma pipelineStreamFile_ok_iff (t : σ) (raws : List Bytes) :
    pipelineStreamFile P m loadFn q s = ((raws, .ok ()), t) ↔
      ∃ pairs, pairs.map Prod.fst = orderInfos m.chunks ∧ ServesFrom loadFn pairs s t ∧
        OpensUnder P (decide (m.compression = "zstd")) q (firstKey q pairs) pairs raws :=
  pipelineStreamLoop_ok_iff _ none _ _ _

/-- The merger ends normally exactly when all chunks are served and open, each under its own key, to
bytes with the hash of the manifest. -/
lemma pipelineMergeToDisk_ok_iff :
    (pipelineMergeToDisk P m loadFn q s).1.outcome = .ok () ↔
      ∃ pairs raws t, pairs.map Prod.fst = orderInfos m.chunks ∧ ServesFrom loadFn pairs s t ∧
        List.Forall₂ (fun p raw =>
          pipelineDecode P (decide (m.compression = "zstd")) q p.1 p.2 = .ok raw) pairs raws ∧
        sha256Hash raws.flatten = m.fileHash := by
  constructor
  · intro h
    obtain ⟨hend, hhash, -⟩ := finishOnDisk_ok h
    obtain ⟨pairs, raws, t, hpairs, hs, hall⟩ := decodes_of_pipelineMergeLoop_ok hend
    rw [← hpairs, pipelineMergeLoop_of_decodes hall hs] at hhash
    exact ⟨pairs, raws, t, hpairs, hs, hall, hhash⟩
  · rintro ⟨pairs, raws, t, hpairs, hs, hall, hhash⟩
    rw [pipelineMergeToDisk_of_decodes hpairs.symm hall hhash hs]

/-- A preview that ends normally has delivered the file, and the download would succeed. -/
def Trustworthy : Prop :=
  ∀ pieces, (pipelineStreamFile P m loadFn q s).1 = (pieces, .ok ()) →
    sha256Hash pieces.flatten = m.fileHash ∧
      (pipelineMergeToDisk P m loadFn q s).1.outcome = .ok ()

/-- A preview can be trusted when what is served opens to the file or does not open.  Where all
chunks are served and open under the key of the first encrypted one, they have to open to the file,
and they have to open to it under the key of each one's own salt as well. -/
lemma trustworthy_iff_opens :
    Trustworthy P m loadFn q s ↔
      ∀ pairs t raws, pairs.map Prod.fst = orderInfos m.chunks → ServesFrom loadFn pairs s t →
        OpensUnder P (decide (m.compression = "zstd")) q (firstKey q pairs) pairs raws →
        sha256Hash raws.flatten = m.fileHash ∧
          ∃ raws', List.Forall₂ (fun p raw =>
              pipelineDecode P (decide (m.compression = "zstd")) q p.1 p.2 = .ok raw)
              pairs raws' ∧
            sha256Hash raws'.flatten = m.fileHash := by
  constructor
  · intro h pairs t raws hpairs hs hopens
    have hrun := (pipelineStreamFile_ok_iff P m loadFn q s t raws).2 ⟨pairs, hpairs, hs, hopens⟩
    obtain ⟨hhash, hmerge⟩ := h raws (by rw [hrun])
    obtain ⟨pairs', raws', t', hpairs', hs', hall, hhash'⟩ :=
      (pipelineMergeToDisk_ok_iff P m loadFn q s).1 hmerge
    obtain rfl : pairs = pairs' := hs.unique hs' (hpairs.trans hpairs'.symm)
    exact ⟨hhash, raws', hall, hhash'⟩
  · intro h pieces hrun
    obtain ⟨pairs, hpairs, hs, hopens⟩ :=
      (pipelineStreamFile_ok_iff P m loadFn q s _ pieces).1 (Prod.ext hrun rfl)
    obtain ⟨hhash, raws', hall, hhash'⟩ := h pairs _ pieces hpairs hs hopens
    exact ⟨hhash,
      (pipelineMergeToDisk_ok_iff P m loadFn q s).2 ⟨pairs, raws', _, hpairs, hs, hall, hhash'⟩⟩

end

/-! ## Chunks that can be put in the place of others -/

section Replaced

/-- A `load_fn` that serves these chunks, one after the other. -/
def queueLoader : LoadFn (List Bytes)
  | _, [] => (.error (.fileNotFoundError "no chunk left"), [])
  | _, data :: rest => (.ok data, rest)

lemma servesFrom_queueLoader (pairs : List (ChunkInfo × Bytes)) :
    ServesFrom queueLoader pairs (pairs.map Prod.snd) [] := by
  induction pairs with
  | nil => rfl
  | cons p pairs ih => exact ⟨pairs.map Prod.snd, rfl, ih⟩

variable {P : Packages} {useZstd : Bool} {q : Option String}

/-- What can be served for an entry so that it opens to `raw`: compressed and encrypted as the entry
has it, under the salt of 16 zeros. -/
def sealFor (P : Packages) (useZstd : Bool) (q : Option String) (info : ChunkInfo) (raw : Bytes) :
    Bytes :=
  let data := if useZstd then P.zstdCompress raw else raw
  if info.encrypted && truthy q then
    encryptWithKey P data (deriveKey (q.getD "") (default : Salt)).1 (default : Salt) default
  else data

lemma chunkKey_sealFor {info : ChunkInfo} (h : (info.encrypted && truthy q) = true) (raw : Bytes) :
    chunkKey q (sealFor P useZstd q info raw) = (deriveKey (q.getD "") (default : Salt)).1 := by
  rw [sealFor, if_pos h, chunkKey, slice_salt_encryptWithKey]

lemma pipelineDecode_sealFor (hP : P.Lawful) (info : ChunkInfo) (raw : Bytes) :
    pipelineDecode P useZstd q info (sealFor P useZstd q info raw) = .ok raw := by
  have hzstd (data : Bytes) : decompress P (P.zstdCompress data) = .ok data := by
    rw [decompress, hP.zstd_roundTrip]
  by_cases h : (info.encrypted && truthy q) = true
  · have hkey : chunkKey q (sealFor P useZstd q info raw) = _ := chunkKey_sealFor h raw
    rw [chunkKey] at hkey
    rw [pipelineDecode, if_pos h, hkey, sealFor, if_pos h]
    have hopen (data : Bytes) := decryptWithKey_encryptWithKey hP data
      (deriveKey (q.getD "") (default : Salt)).1 default default (length_deriveKey _ _)
    cases useZstd with
    | true => simp [workerDecode, workerDecryptKeyed, hopen, hzstd, bind, Except.bind]
    | false => simp [workerDecode, workerDecryptKeyedNocompress, hopen]
  · rw [pipelineDecode, if_neg h, sealFor, if_neg h]
    cases useZstd with
    | true => simp [workerDecode, hzstd]
    | false => simp [workerDecode]

/-- Chunks can be served for a manifest that has some, so that a preview yields these bytes. -/
lemma exists_preview (hP : P.Lawful) {m : FileManifest} (hm : m.chunks ≠ []) (q : Option String)
    (content : Bytes) : ∃ (served : List Bytes) (pieces : List Bytes),
      (pipelineStreamFile P m queueLoader q served).1 = (pieces, .ok ()) ∧
        pieces.flatten = content := by
  have hinfos : orderInfos m.chunks ≠ [] := by
    rw [← List.length_pos_iff] at hm ⊢
    rwa [orderInfos, length_sortBy]
  obtain ⟨info, infos, heq⟩ := List.exists_cons_of_ne_nil hinfos
  -- the first chunk opens to the bytes, and the others to none
  set opened := (info, content) :: infos.map fun info => (info, ([] : Bytes)) with hopened
  set pairs := opened.map fun e =>
    (e.1, sealFor P (decide (m.compression = "zstd")) q e.1 e.2) with hpairs
  have horder : orderInfos m.chunks = pairs.map Prod.fst := by
    rw [heq, hpairs, hopened]
    simp [Function.comp_def]
  have hdecodes : List.Forall₂ (fun p raw =>
      pipelineDecode P (decide (m.compression = "zstd")) q p.1 p.2 = .ok raw)
      pairs (opened.map Prod.snd) := by
    rw [hpairs, List.forall₂_map_left_iff, List.forall₂_map_right_iff, List.forall₂_same]
    exact fun e _ => pipelineDecode_sealFor hP e.1 e.2
  have hkeys : SameKey q pairs := by
    intro hq p hp p' hp' henc henc'
    obtain ⟨e, -, rfl⟩ := List.mem_map.1 hp
    obtain ⟨e', -, rfl⟩ := List.mem_map.1 hp'
    rw [chunkKey_sealFor (by simpa [hq] using henc), chunkKey_sealFor (by simpa [hq] using henc')]
  refine ⟨pairs.map Prod.snd, opened.map Prod.snd, ?_, ?_⟩
  · rw [pipelineStreamFile_of_decodes horder hkeys hdecodes (servesFrom_queueLoader pairs)]
  · simp [hopened]

end Replaced

/-! ## Chunks that have the hashes that are their names -/

/-- Chunks of a file: they have the hashes that are their names, those that are encrypted have one
salt, and they open to the file. -/
structure ChunksOfFile (P : Packages) (m : FileManifest) (q : Option String)
    (pairs : List (ChunkInfo × Bytes)) : Prop where
  order : pairs.map Prod.fst = orderInfos m.chunks
  named : ∀ p ∈ pairs, sha256Hash p.2 = p.1.chunkHash
  oneSalt : ∀ p ∈ pairs, ∀ p' ∈ pairs, p.1.encrypted = true → p'.1.encrypted = true →
    slice p.2 1 (1 + saltSize) = slice p'.2 1 (1 + saltSize)
  opens : ∃ raws, List.Forall₂ (fun p raw =>
      pipelineDecode P (decide (m.compression = "zstd")) q p.1 p.2 = .ok raw) pairs raws ∧
    sha256Hash raws.flatten = m.fileHash

/-- From the state `s` on, everything that is served has the hash that it was asked for, and none of
it collides with one of these chunks. -/
def ServesNamed {σ : Type} (loadFn : LoadFn σ) (pairs : List (ChunkInfo × Bytes)) (s : σ) : Prop :=
  ∃ I : σ → Prop, I s ∧ ∀ s, I s → ∀ c, I (loadFn c s).2 ∧
    ∀ data, (loadFn c s).1 = .ok data → sha256Hash data = c ∧
      ∀ p ∈ pairs, sha256Hash data = sha256Hash p.2 → data = p.2

section Genuine

variable {σ : Type} {P : Packages} {m : FileManifest} {loadFn : LoadFn σ} {q : Option String}
  {pairs : List (ChunkInfo × Bytes)}

lemma ServesNamed.eq_of_servesFrom {served : List (ChunkInfo × Bytes)} {s t : σ}
    (h : ServesNamed loadFn pairs s) (hserved : ServesFrom loadFn served s t)
    (hnames : served.map Prod.fst = pairs.map Prod.fst)
    (hpairs : ∀ p ∈ pairs, sha256Hash p.2 = p.1.chunkHash) : served = pairs := by
  obtain ⟨I, hs, hI⟩ := h
  -- all the chunks stay in view while the ones served are gone through
  have hall (served pairs' : List (ChunkInfo × Bytes)) (s : σ) (hs : I s) (hsub : pairs' ⊆ pairs)
      (hserved : ServesFrom loadFn served s t)
      (hnames : served.map Prod.fst = pairs'.map Prod.fst) : served = pairs' := by
    induction served generalizing pairs' s with
    | nil => exact (List.map_eq_nil_iff.1 hnames.symm).symm
    | cons p served ih =>
      obtain ⟨p', pairs', rfl, hp, hrest⟩ := List.map_eq_cons_iff.1 hnames.symm
      obtain ⟨s', hload, hserved⟩ := hserved
      have hmem : p' ∈ pairs := hsub (List.mem_cons_self ..)
      have hstep := hI s hs p.1.chunkHash
      rw [hload] at hstep
      obtain ⟨hs', hgood⟩ := hstep
      obtain ⟨hname, hinj⟩ := hgood p.2 rfl
      have hdata : p.2 = p'.2 := hinj p' hmem (by rw [hname, hpairs p' hmem, hp])
      rw [ih pairs' s' hs' (fun a ha => hsub (List.mem_cons_of_mem _ ha)) hserved hrest.symm,
        Prod.ext hp.symm hdata]
  exact hall served pairs s hs (List.Subset.refl _) hserved hnames

/-- A chunk store serves what it holds. -/
lemma servesNamed_storeLoader {store : LocalStore}
    (h : ∀ c data, store.loadChunk c = some data → sha256Hash data = c ∧
      ∀ p ∈ pairs, sha256Hash data = sha256Hash p.2 → data = p.2) :
    ServesNamed storeLoader pairs store := by
  refine ⟨fun s => s = store, rfl, ?_⟩
  rintro s rfl c
  unfold storeLoader
  cases hload : s.loadChunk c with
  | none => exact ⟨rfl, fun data hdata => by cases hdata⟩
  | some x =>
    refine ⟨rfl, fun data hdata => ?_⟩
    obtain rfl := Except.ok.inj hdata
    exact h c x hload

/-- With such chunks a preview that ends normally is the file. -/
lemma ChunksOfFile.trustworthy (hpairs : ChunksOfFile P m q pairs)
    {s : σ} (h : ServesNamed loadFn pairs s) : Trustworthy P m loadFn q s := by
  intro pieces hrun
  obtain ⟨served, hserved, hs, -⟩ :=
    (pipelineStreamFile_ok_iff P m loadFn q s _ pieces).1 (Prod.ext hrun rfl)
  obtain rfl := h.eq_of_servesFrom hs (hserved.trans hpairs.order.symm) hpairs.named
  obtain ⟨raws, hraws, hfile⟩ := hpairs.opens
  have hkeys : SameKey q served := fun _ p hp p' hp' henc henc' => by
    rw [chunkKey, chunkKey, hpairs.oneSalt p hp p' hp' henc henc']
  rw [pipelineStreamFile_of_decodes hpairs.order.symm hkeys hraws hs] at hrun
  obtain rfl := (Prod.mk.inj hrun).1
  refine ⟨hfile, ?_⟩
  rw [pipelineMergeToDisk_of_decodes hpairs.order.symm hraws hfile hs]

/-- A preview can be trusted, whatever is served. -/
def AlwaysTrustworthy (P : Packages) (m : FileManifest) (q : Option String) : Prop :=
  ∀ {σ : Type} (loadFn : LoadFn σ) (s : σ), Trustworthy P m loadFn q s

end Genuine

/-! ## A file of one byte -/

/-- The manifest of a file with the one byte `a`, written without a password. -/
def oneByteManifest : FileManifest where
  originalFilename := "a.txt"
  originalSize := 1
  fileHash := sha256Hash [0x61]
  chunkSize := 262144
  merkleRoot := sha256Hash (rawPackages.zstdCompress [0x61])
  compression := "zstd"
  chunks := [{ index := 0, chunkHash := sha256Hash (rawPackages.zstdCompress [0x61]), size := 10 }]

/-- Its only chunk. -/
def oneByteChunk : Bytes := rawPackages.zstdCompress [0x61]

end DistriStore
