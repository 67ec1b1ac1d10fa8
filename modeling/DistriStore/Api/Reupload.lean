import DistriStore.Api.Swarm

/-!
# Uploading the same content again

Chunks are stored under the hash of their ciphertext, manifests under the hash of the plain file.
Uploads of different files therefore do not meet, but a second upload of the same content
replaces the manifest, and with it the password.  `download_after_upload_iff` says exactly when a
file that could be downloaded can still be downloaded afterwards.
-/

namespace DistriStore

open Lib

section

variable {ν : Type} {P : Packages} {s : Swarm ν}

/-! ## Chunks of one name -/

/-- The chunks of one name are the same, whichever upload they are from. -/
lemma Swarm.entry_unique (hcf : CollisionFree sha256 (s.Hashed P)) {u u' : Upload}
    (hu : u ∈ s.uploads) (hu' : u' ∈ s.uploads) {c : String} {x y : Bytes}
    (hx : (c, x) ∈ u.entries P) (hy : (c, y) ∈ u'.entries P) : y = x := by
  apply hcf _ _ ⟨u', hu', Or.inr ⟨c, hy⟩⟩ ⟨u, hu, Or.inr ⟨c, hx⟩⟩
  rw [← sha256Hash_inj, Upload.hash_of_mem_entries hy, Upload.hash_of_mem_entries hx]

/-- Chunks found for the same entries in two stores filled by uploads are the same. -/
lemma Swarm.datas_unique (hcf : CollisionFree sha256 (s.Hashed P)) {infos : List ChunkInfo}
    {datas datas' : List Bytes} {store store' : LocalStore} (h : FromUploads P s.uploads store)
    (h' : FromUploads P s.uploads store')
    (hall : List.Forall₂ (fun (info : ChunkInfo) data =>
      store.loadChunk info.chunkHash = some data) infos datas)
    (hall' : List.Forall₂ (fun (info : ChunkInfo) data =>
      store'.loadChunk info.chunkHash = some data) infos datas') : datas' = datas := by
  induction hall generalizing datas' with
  | nil =>
    cases hall'
    rfl
  | @cons info data infos datas hdata _ ih =>
    cases hall' with
    | @cons _ data' _ datas' hdata' hrest' =>
      obtain ⟨u, hu, hmem⟩ := h.chunks _ _ hdata
      obtain ⟨u', hu', hmem'⟩ := h'.chunks _ _ hdata'
      rw [s.entry_unique hcf hu hu' hmem hmem', ih hrest']

/-! ## Which manifests and chunks are found after an upload -/

variable [DecidableEq ν] {n : ν} {u : Upload} {peers : Dict String PeerInfo}
  {envs : ℕ → ReplicationEnv} {fileHash password : String} {alive : List ν}

/-- A manifest under another hash than that of the uploaded file is left alone, at every node. -/
lemma loadManifest_step_upload (hne : fileHash ≠ sha256Hash u.file.content) (m : ν) :
    ((s.step P (.upload n u peers envs)).nodes m).store.loadManifest fileHash =
      (s.nodes m).store.loadManifest fileHash := by
  by_cases hm : m = n
  · subst hm
    have hload := loadManifest_uploadAt P u peers envs (s.nodes m) fileHash
    rw [if_neg hne] at hload
    simpa [Swarm.step, Swarm.setNode] using hload
  · simp [Swarm.step, Swarm.setNode, hm]

/-- The manifest of the uploaded file is at the node. -/
lemma loadManifest_step_upload_self :
    ((s.step P (.upload n u peers envs)).nodes n).store.loadManifest (sha256Hash u.file.content) =
      some (NodeDatabase.dictOf (sha256Hash u.file.content)
        (NodeDatabase.rowOf (u.manifest P).toDict)) := by
  have hload := loadManifest_uploadAt P u peers envs (s.nodes n) (sha256Hash u.file.content)
  rw [if_pos rfl] at hload
  simpa [Swarm.step, Swarm.setNode] using hload

/-- Chunks held before an upload are held after it. -/
lemma hasChunk_step_upload {c : String} {m : ν} (h : (s.nodes m).store.hasChunk c = true) :
    ((s.step P (.upload n u peers envs)).nodes m).store.hasChunk c = true := by
  by_cases hm : m = n
  · subst hm
    have hkeep := exists_loadChunk_uploadAt P u peers envs (s.nodes m) (c := c)
      (Or.inr (Option.isSome_iff_exists.1 h))
    simpa [Swarm.step, Swarm.setNode, LocalStore.hasChunk] using Option.isSome_iff_exists.2 hkeep
  · simpa [Swarm.step, Swarm.setNode, hm] using h

/-- The chunks of the uploaded file are at the node. -/
lemma hasChunk_step_upload_self {c : String} (h : c ∈ (u.entries P).map Prod.fst) :
    ((s.step P (.upload n u peers envs)).nodes n).store.hasChunk c = true := by
  have hstored := exists_loadChunk_uploadAt P u peers envs (s.nodes n) (Or.inl h)
  simpa [Swarm.step, Swarm.setNode, LocalStore.hasChunk] using Option.isSome_iff_exists.2 hstored

lemma foundManifest_step_upload (hne : fileHash ≠ sha256Hash u.file.content) :
    (s.step P (.upload n u peers envs)).foundManifest n fileHash alive =
      s.foundManifest n fileHash alive := by
  have hreplies : (s.step P (.upload n u peers envs)).manifestReplies alive fileHash =
      s.manifestReplies alive fileHash := by
    unfold Swarm.manifestReplies getManifest
    simp only [loadManifest_step_upload hne]
  unfold Swarm.foundManifest
  rw [findManifest_fst, findManifest_fst, loadManifest_step_upload hne, hreplies]

lemma foundManifest_step_upload_self :
    (s.step P (.upload n u peers envs)).foundManifest n (sha256Hash u.file.content) alive =
      some (NodeDatabase.dictOf (sha256Hash u.file.content)
        (NodeDatabase.rowOf (u.manifest P).toDict)) := by
  unfold Swarm.foundManifest findManifest
  rw [loadManifest_step_upload_self, Option.filter_some_pos (NodeDatabase.truthy_dictOf _ _)]
  rfl

/-! ## An upload of a different file -/

lemma Swarm.Honest.download_step_upload (h : s.Honest P)
    (hcf : CollisionFree sha256 ((s.step P (.upload n u peers envs)).Hashed P))
    (hne : fileHash ≠ sha256Hash u.file.content) {r : FileResponse}
    (hok : (s.download P n fileHash password alive).1.result = .ok r) :
    ((s.step P (.upload n u peers envs)).download P n fileHash password alive).1.result =
      .ok r := by
  set t := s.step P (.upload n u peers envs) with ht
  have ht' : t.Honest P := h.step _
  have huploads : t.uploads = u :: s.uploads := rfl
  obtain ⟨d, store₁, m, datas, store₂, hfind, hdict, hchunks, hserve, hstore₂⟩ :=
    downloadFile_ok hok
  have hloaded := findChunks_ok hchunks
  -- the same manifest is found
  have hfound : t.foundManifest n fileHash alive = some d := by
    rw [ht, foundManifest_step_upload hne]
    exact foundManifest_eq_some.2 (congrArg Prod.fst hfind)
  obtain ⟨store₁', hfind'⟩ : ∃ store₁', findManifest fileHash (t.manifestReplies alive fileHash)
      (t.nodes n).store = (some (.dict d), store₁') :=
    ⟨_, Prod.ext (foundManifest_eq_some.1 hfound) rfl⟩
  -- every chunk that was found can still be found
  obtain ⟨datas', store₂', hchunks'⟩ : ∃ datas' store₂',
      findChunks (t.chunkReplies alive) m.chunks store₁' = (.ok datas', store₂') := by
    apply findChunks_of_available
    intro info hinfo
    obtain ⟨x, hx⟩ := exists_of_forall₂_some hloaded hinfo
    have hcached := cached_findChunks (s.chunkReplies alive) m.chunks store₁
    rw [hchunks] at hcached
    rcases hcached.gains _ x hx with hx | ⟨-, -, hans⟩
    · left
      have hkeep := loadChunk_findManifest (s.manifestReplies alive fileHash) (s.nodes n).store
        fileHash info.chunkHash
      rw [hfind, hx] at hkeep
      have hheld : (t.nodes n).store.hasChunk info.chunkHash = true :=
        hasChunk_step_upload (Option.isSome_iff_exists.2 ⟨x, hkeep.symm⟩)
      have hkeep' := loadChunk_findManifest (t.manifestReplies alive fileHash) (t.nodes n).store
        fileHash info.chunkHash
      rw [hfind'] at hkeep'
      rw [hkeep']
      exact Option.isSome_iff_exists.1 hheld
    · right
      obtain ⟨node, hnode, hx⟩ := loadChunk_of_answer hans
      exact answer_of_loadChunk (storable_of_answerFor hans) hnode
        (hasChunk_step_upload (Option.isSome_iff_exists.2 ⟨x, hx⟩))
  -- and is the same chunk
  have hdatas : datas' = datas := by
    have hstore : FromUploads P t.uploads store₂ := by
      rw [← hstore₂]
      exact (h.download n fileHash password alive).cons u
    have hresult : (t.download P n fileHash password alive).2 = store₂' := by
      unfold Swarm.download downloadFile
      simp only [hfind', ManifestBody.manifest, hdict, hchunks']
    have hstore' : FromUploads P t.uploads store₂' := by
      rw [← hresult]
      exact ht'.download n fileHash password alive
    exact Swarm.datas_unique hcf hstore hstore' hloaded (findChunks_ok hchunks')
  unfold Swarm.download downloadFile
  simp only [hfind', ManifestBody.manifest, hdict, hchunks', hdatas, hserve]

/-! ## An upload of the same content -/

/-- The password `p` gives the key that the upload encrypts with, or there is nothing to
decrypt. -/
def Upload.OpenTo (u : Upload) (p : String) : Prop :=
  u.password = "" ∨ u.file.content = [] ∨
    p ≠ "" ∧ deriveKey p u.salt = deriveKey u.password u.salt

/-- AES-GCM refuses the chunks of the upload under the key of another password. -/
def Upload.Authentic (P : Packages) (u : Upload) (p : String) : Prop :=
  deriveKey p u.salt ≠ deriveKey u.password u.salt →
    ∀ piece ∈ streamChunks u.file.content (getOptimalChunkSize u.file.content.length),
      let sealed := P.gcmEncrypt (deriveKey u.password u.salt).1 (u.nonces piece.1)
        (P.zstdCompress piece.2)
      ∃ e, P.gcmDecrypt (deriveKey p u.salt).1 (u.nonces piece.1) sealed.1 sealed.2 = .error e

lemma Upload.OpenTo.unlocks {p : String} (h : u.OpenTo p) (hne : u.file.content ≠ []) :
    Unlocks (passwordOrNone u.password) u.salt (passwordOrNone p) := by
  intro htruthy
  rcases h with hempty | hcontent | ⟨hp, hkey⟩
  · simp [passwordOrNone, hempty] at htruthy
  · exact absurd hcontent hne
  · have hu : u.password ≠ "" := by
      intro hempty
      simp [passwordOrNone, hempty] at htruthy
    simp [passwordOrNone, hp, hu, truthy, hkey]

/-- With a password that opens it, the upload can be downloaded from the node it was made at. -/
lemma Swarm.Honest.download_own_upload (hP : P.Lawful) (h : s.Honest P)
    (hcf : CollisionFree sha256 ((s.step P (.upload n u peers envs)).Hashed P))
    (hopen : u.OpenTo password) :
    ((s.step P (.upload n u peers envs)).download P n (sha256Hash u.file.content) password
        alive).1.result = .ok { content := u.file.content, filename := u.file.name } := by
  have hprod : u.Produced P (sha256Hash u.file.content) (NodeDatabase.dictOf
      (sha256Hash u.file.content) (NodeDatabase.rowOf (u.manifest P).toDict)) := ⟨rfl, rfl⟩
  refine ((h.step _).download_eq hP hcf foundManifest_step_upload_self ?_
    (List.mem_cons_self ..) hprod hopen.unlocks).1
  intro c hc
  left
  apply hasChunk_step_upload_self
  rw [hprod.chunkHashes] at hc
  simpa [Upload.entries, List.map_map, Function.comp_def] using hc

/-- The first chunk of an encrypted upload does not decode under the key of another password. -/
lemma decodeChunk_of_authentic (hP : P.Lawful) {p : String} (hauth : u.Authentic P p)
    (hp : p ≠ "") (hu : u.password ≠ "")
    (hkey : deriveKey p u.salt ≠ deriveKey u.password u.salt) {pair : ChunkInfo × Bytes}
    {rest : List (ChunkInfo × Bytes)} (hpairs : u.pairs P = pair :: rest) :
    ∃ e, decodeChunk P (some p) (mergeKey (some p) (pair :: rest)) true pair.1 pair.2 =
      .error e := by
  have hmem : pair ∈ u.pairs P := by
    rw [hpairs]
    exact List.mem_cons_self ..
  obtain ⟨piece, hpiece, rfl⟩ := List.mem_map.1 hmem
  obtain ⟨e, he⟩ := hauth hkey piece hpiece
  have hwriter : writerKey (passwordOrNone u.password) u.salt =
      some (deriveKey u.password u.salt) := by
    simp [writerKey, passwordOrNone, hu, truthy]
  have henc : (encodeChunk P (writerKey (passwordOrNone u.password) u.salt) u.nonces
      piece).1.encrypted = true := by
    simp [encodeChunk, hwriter]
  have hdata : (encodeChunk P (writerKey (passwordOrNone u.password) u.salt) u.nonces piece).2 =
      encryptWithKey P (P.zstdCompress piece.2) (deriveKey u.password u.salt).1 u.salt
        (u.nonces piece.1) := by
    rw [hwriter]
    rfl
  have htp : truthy (some p) = true := by simp [truthy, hp]
  have hmerge : mergeKey (some p) (encodeChunk P (writerKey (passwordOrNone u.password) u.salt)
      u.nonces piece :: rest) = some (deriveKey p u.salt).1 := by
    simp only [mergeKey, henc, htp, hdata, slice_salt_encryptWithKey]
    rfl
  have hdec := decryptWithKey_encryptWithKey_key hP (P.zstdCompress piece.2)
    (deriveKey u.password u.salt).1 (deriveKey p u.salt).1 u.salt (u.nonces piece.1)
    (length_deriveKey _ _)
  rw [gcmOutcome, he] at hdec
  rw [hmerge, hdata, decodeChunk]
  simp only [henc, htp, Bool.and_self, if_true, hdec]
  exact ⟨_, rfl⟩

/-- A download of the uploaded content that succeeds went through the manifest of the upload. -/
lemma download_own_upload_ok {r : FileResponse}
    (hok : ((s.step P (.upload n u peers envs)).download P n (sha256Hash u.file.content) password
      alive).1.result = .ok r) :
    ∃ m datas store₂, m.chunks = (u.pairs P).map Prod.fst ∧ m.compression = "zstd" ∧
      (serveMerged P m datas password).result = .ok r ∧
      List.Forall₂ (fun (info : ChunkInfo) data => store₂.loadChunk info.chunkHash = some data)
        m.chunks datas ∧
      ((s.step P (.upload n u peers envs)).download P n (sha256Hash u.file.content) password
        alive).2 = store₂ := by
  set t := s.step P (.upload n u peers envs) with ht
  obtain ⟨d, store₁, m, datas, store₂, hfind, hdict, hchunks, hserve, hstore₂⟩ :=
    downloadFile_ok hok
  have hfound : t.foundManifest n (sha256Hash u.file.content) alive = some d :=
    foundManifest_eq_some.2 (congrArg Prod.fst hfind)
  rw [ht, foundManifest_step_upload_self] at hfound
  have hprod : u.Produced P (sha256Hash u.file.content) d :=
    ⟨rfl, (Option.some.inj hfound).symm⟩
  rw [hprod.fromDict] at hdict
  refine ⟨m, datas, store₂, ?_, ?_, hserve, findChunks_ok hchunks, hstore₂⟩
  · rw [← Except.ok.inj hdict]
    rfl
  · rw [← Except.ok.inj hdict]
    rfl

/-- A file that is not empty has a first chunk, which is encrypted when there is a password. -/
lemma Upload.exists_first_pair (P : Packages) (hpw : u.password ≠ "")
    (hcontent : u.file.content ≠ []) :
    ∃ pair rest, u.pairs P = pair :: rest ∧ pair.1.encrypted = true := by
  obtain ⟨pair, rest, hpairs⟩ : ∃ pair rest, u.pairs P = pair :: rest := by
    apply List.exists_cons_of_ne_nil
    intro hnil
    have hblocks : readBlocks (getOptimalChunkSize u.file.content.length) u.file.content = [] := by
      rw [← map_snd_streamChunks, List.map_eq_nil_iff]
      exact List.map_eq_nil_iff.1 hnil
    have hflat := flatten_readBlocks (getOptimalChunkSize_pos u.file.content.length)
      u.file.content
    rw [hblocks] at hflat
    exact hcontent hflat.symm
  refine ⟨pair, rest, hpairs, ?_⟩
  have hmem : pair ∈ u.pairs P := hpairs ▸ List.mem_cons_self ..
  rw [encrypted_of_mem_encodedChunks hmem]
  simp [passwordOrNone, hpw, truthy]

/-- Without any password, the download of content uploaded with one fails. -/
lemma download_asks_password (hpw : u.password ≠ "") (hcontent : u.file.content ≠ [])
    (r : FileResponse) :
    ((s.step P (.upload n u peers envs)).download P n (sha256Hash u.file.content) ""
        alive).1.result ≠ .ok r := by
  intro hok
  obtain ⟨m, datas, store₂, hm, -, hserve, -, -⟩ := download_own_upload_ok hok
  obtain ⟨pair, rest, hpairs, henc⟩ := Upload.exists_first_pair P hpw hcontent
  apply (serveMerged_ok hserve).1
  rw [Bool.and_eq_true, List.any_eq_true, hm, hpairs]
  exact ⟨⟨pair.1, List.mem_cons_self .., henc⟩, rfl⟩

/-- Without the key, the download of the uploaded content fails. -/
lemma Swarm.Honest.download_locked (hP : P.Lawful) (h : s.Honest P)
    (hcf : CollisionFree sha256 ((s.step P (.upload n u peers envs)).Hashed P))
    (hauth : u.Authentic P password) (hlocked : ¬ u.OpenTo password) (r : FileResponse) :
    ((s.step P (.upload n u peers envs)).download P n (sha256Hash u.file.content) password
        alive).1.result ≠ .ok r := by
  obtain ⟨hpw, hcontent, hkeys⟩ : u.password ≠ "" ∧ u.file.content ≠ [] ∧
      (password ≠ "" → deriveKey password u.salt ≠ deriveKey u.password u.salt) := by
    unfold Upload.OpenTo at hlocked
    tauto
  by_cases hp : password = ""
  · rw [hp]
    exact download_asks_password hpw hcontent r
  intro hok
  set t := s.step P (.upload n u peers envs) with ht
  obtain ⟨m, datas, store₂, hm, hzstd, hserve, hloaded, hstore₂⟩ := download_own_upload_ok hok
  obtain ⟨pair, rest, hpairs, henc⟩ := Upload.exists_first_pair P hpw hcontent
  -- the chunks found are those of the upload
  have hstore : FromUploads P t.uploads store₂ := by
    rw [← hstore₂]
    exact (h.step _).download n (sha256Hash u.file.content) password alive
  have hdatas : datas = (u.pairs P).map Prod.snd := by
    apply datas_eq_of_loaded (hm ▸ hloaded)
    intro p hmem x hx
    obtain ⟨u', hu', hx'⟩ := hstore.chunks _ _ hx
    exact Swarm.entry_unique hcf (List.mem_cons_self ..) hu'
      (Upload.mem_entries.2 ⟨p, hmem, rfl, rfl⟩) hx'
  have hincr : (u.pairs P).Pairwise fun a b => a.1.index < b.1.index :=
    pairwise_encodedChunks _ _
  have horder : orderChunks m.chunks datas = pair :: rest := by
    rw [hm, hdatas, orderChunks_of_perm hincr (List.Perm.refl _), hpairs]
  -- and the first one does not decode
  obtain ⟨e, he⟩ := decodeChunk_of_authentic hP hauth hp hpw (hkeys hp) hpairs
  have hnone : passwordOrNone password = some password := by simp [passwordOrNone, hp]
  obtain ⟨hwritten, -⟩ := finishOnDisk_ok (serveMerged_ok hserve).2.1
  simp only [horder, hnone, hzstd, decide_true, writeLoop, he] at hwritten
  cases hwritten

/-! ## When an upload keeps a file readable -/

/-- A file that could be downloaded can still be downloaded after an upload on the same node, with
the same bytes, exactly when the upload is of another file or is open to the reader's password. -/
theorem download_after_upload_iff {ident : ν → String} (hP : P.Lawful)
    (hs : (swarm P ident).Reachable s) {r : FileResponse}
    (hcf : CollisionFree sha256 fun x =>
      (s.step P (.upload n u peers envs)).Hashed P x ∨ x = r.content)
    (hauth : u.Authentic P password)
    (hok : (s.download P n fileHash password alive).1.result = .ok r) :
    (∃ r', ((s.step P (.upload n u peers envs)).download P n fileHash password alive).1.result =
        .ok r' ∧ r'.content = r.content) ↔
      sha256Hash u.file.content ≠ fileHash ∨ u.OpenTo password := by
  have hhonest := honest_of_reachable hs
  have hcf' : CollisionFree sha256 ((s.step P (.upload n u peers envs)).Hashed P) :=
    hcf.mono fun _ => Or.inl
  constructor
  · rintro ⟨r', hr', -⟩
    by_cases hname : sha256Hash u.file.content = fileHash
    · right
      by_contra hlocked
      subst hname
      exact hhonest.download_locked hP hcf' hauth hlocked r' hr'
    · exact Or.inl hname
  · intro hcond
    by_cases hname : sha256Hash u.file.content = fileHash
    · have hopen : u.OpenTo password := hcond.resolve_left (not_not.2 hname)
      subst hname
      refine ⟨_, hhonest.download_own_upload hP hcf' hopen, ?_⟩
      -- both are files of the hash that was asked for
      obtain ⟨d, store₁, m, datas, store₂, hfind, hdict, -, hserve, -⟩ := downloadFile_ok hok
      obtain ⟨node, hnode⟩ :=
        loadManifest_of_found (foundManifest_eq_some.2 (congrArg Prod.fst hfind))
      obtain ⟨u', -, hprod⟩ := (hhonest node).manifests _ _ hnode
      rw [hprod.fromDict] at hdict
      have hhash : sha256Hash r.content = sha256Hash u.file.content := by
        rw [hash_of_serveMerged hserve, ← Except.ok.inj hdict]
        exact hprod.1
      exact hcf _ _ (Or.inl ⟨u, List.mem_cons_self .., Or.inl rfl⟩) (Or.inr rfl)
        (sha256Hash_inj.1 hhash.symm)
    · exact ⟨r, hhonest.download_step_upload hcf' (Ne.symm hname) hok, rfl⟩

end

/-! ## A file that cannot be read any more -/

/-- The upload of one byte again, with a password. -/
def oneByteUploadLocked : Upload := { oneByteUpload with password := "pw" }

/-- The state of a single node after the upload of one byte. -/
def oneByteSwarm : Swarm Unit :=
  ((swarm rawPackages fun _ : Unit => "node").init).step rawPackages
    (.upload () oneByteUpload ∅ fun _ => ⟨∅, fun _ => .ok false⟩)

lemma reachable_oneByteSwarm : (swarm rawPackages fun _ : Unit => "node").Reachable oneByteSwarm :=
  Machine.Reachable.init.step rfl

lemma download_oneByteSwarm :
    (oneByteSwarm.download rawPackages () (sha256Hash [0x61]) "" []).1.result =
      .ok { content := [0x61], filename := "a.txt" } := by
  have hinit := honest_of_reachable (P := rawPackages)
    (Machine.Reachable.init (M := swarm rawPackages fun _ : Unit => "node"))
  exact hinit.download_own_upload rawPackages_lawful
    (collisionFree_oneByteUpload fun u hu => List.mem_singleton.1 hu) (Or.inl rfl)

/-- A node stores a file without a password.  The same content uploaded with one makes the file
unreadable to whoever has no password. -/
theorem upload_locks_out_reader :
    ¬ ∀ (s : Swarm Unit) (u : Upload) (fileHash password : String) (r : FileResponse),
      (swarm rawPackages fun _ : Unit => "node").Reachable s →
      (s.download rawPackages () fileHash password []).1.result = .ok r →
      ∃ r', ((s.step rawPackages (.upload () u ∅ fun _ => ⟨∅, fun _ => .ok false⟩)).download
        rawPackages () fileHash password []).1.result = .ok r' ∧ r'.content = r.content := by
  intro hclaim
  obtain ⟨r', hr', -⟩ := hclaim oneByteSwarm oneByteUploadLocked (sha256Hash [0x61]) "" _
    reachable_oneByteSwarm download_oneByteSwarm
  exact download_asks_password (u := oneByteUploadLocked) (by decide) (by decide) r' hr'

/-- The same content uploaded again without a password stays readable. -/
theorem download_after_upload_same :
    ∃ r', ((oneByteSwarm.step rawPackages (.upload () oneByteUpload ∅ fun _ =>
        ⟨∅, fun _ => .ok false⟩)).download rawPackages () (sha256Hash [0x61]) "" []).1.result =
        .ok r' ∧ r'.content = [0x61] := by
  refine (download_after_upload_iff rawPackages_lawful reachable_oneByteSwarm ?_ ?_
    download_oneByteSwarm).2 (Or.inr (Or.inl rfl))
  · refine (collisionFree_oneByteUpload (s := oneByteSwarm.step rawPackages (.upload ()
      oneByteUpload ∅ fun _ => ⟨∅, fun _ => .ok false⟩)) ?_).mono ?_
    · intro u hu
      rcases List.mem_cons.1 hu with rfl | hu
      · rfl
      · exact List.mem_singleton.1 hu
    · rintro x (hx | rfl)
      · exact hx
      · exact ⟨oneByteUpload, List.mem_cons_self .., Or.inl rfl⟩
  · exact fun h => absurd rfl h

end DistriStore
