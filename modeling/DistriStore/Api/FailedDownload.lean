import DistriStore.Api.UntrustedPeers
import DistriStore.FileEngine.ChunkFormat

/-!
# What a failed download leaves behind (`download_file`)

The merge writes to a temporary file.  The merger unlinks it when the hash is wrong, and the route
when it catches a `ValueError`.  A chunk that does not decrypt raises one, but a chunk that does not
decompress raises a `ZstdError`, which passes through both.  So a failed download leaves its file
exactly when the first chunk that cannot be decoded has been decrypted before
(`leavesNothing_downloadFile_iff`).
-/

namespace DistriStore

open Lib

/-- A download that fails leaves no temporary file. -/
def DownloadOutcome.LeavesNothing (o : DownloadOutcome) : Prop :=
  ∀ e, o.result = .error e → o.tempFile = none

/-! ## Decoding one chunk -/

/-- The data of a chunk before its decompression: decrypted, when the chunk is encrypted and there
is a password. -/
def openChunk (P : Packages) (password : Option String) (decKey : Option Bytes) (info : ChunkInfo)
    (data : Bytes) : Except PyError Bytes :=
  if info.encrypted && truthy password then
    match decKey with
    | some key => decryptWithKey P data key
    | none => decrypt P data (password.getD "")
  else .ok data

section Decoding

variable {P : Packages} {q : Option String} {decKey : Option Bytes} {useZstd : Bool}
  {info : ChunkInfo} {data : Bytes} {e : PyError}

lemma decodeChunk_eq : decodeChunk P q decKey useZstd info data =
    (openChunk P q decKey info data).bind fun opened =>
      if useZstd then decompress P opened else .ok opened := by
  unfold decodeChunk openChunk
  dsimp only
  by_cases hkeyed : (info.encrypted && truthy q) = true
  · rw [if_pos hkeyed, if_pos hkeyed]
    cases decKey <;> rfl
  · rw [if_neg hkeyed, if_neg hkeyed]
    rfl

lemma decryptWithKey_error {key : Bytes} (h : decryptWithKey P data key = .error e) :
    ∃ msg, e = .valueError msg := by
  unfold decryptWithKey at h
  cases hcheck : checkHeader data with
  | error e' =>
    simp only [hcheck, bind, Except.bind, Except.error.injEq] at h
    exact h ▸ checkHeader_error hcheck
  | ok _ =>
    simp only [hcheck, gcmOutcome, bind, Except.bind] at h
    split at h
    · cases h
    · exact ⟨_, (Except.error.inj h).symm⟩

/-- What cannot be decrypted raises a `ValueError`. -/
lemma openChunk_error (h : openChunk P q decKey info data = .error e) :
    ∃ msg, e = .valueError msg := by
  unfold openChunk at h
  split at h
  · split at h
    · exact decryptWithKey_error h
    · rw [decrypt_eq_decryptWithKey] at h
      exact decryptWithKey_error h
  · cases h

/-- Any other exception is that of a chunk which has been decrypted, and does not decompress. -/
lemma decodeChunk_error_iff :
    decodeChunk P q decKey useZstd info data = .error e ∧ (∀ msg, e ≠ .valueError msg) ↔
      ∃ opened text, openChunk P q decKey info data = .ok opened ∧ useZstd = true ∧
        P.zstdDecompress opened = .error text ∧ e = .zstdError text := by
  rw [decodeChunk_eq]
  cases hopen : openChunk P q decKey info data with
  | error e' =>
    obtain ⟨msg, rfl⟩ := openChunk_error hopen
    simp only [Except.bind, Except.error.injEq, reduceCtorEq, false_and, exists_false, iff_false]
    rintro ⟨rfl, hother⟩
    exact hother msg rfl
  | ok opened =>
    simp only [Except.bind, Except.ok.injEq]
    constructor
    · rintro ⟨hraise, -⟩
      split at hraise
      · next hzstd =>
        unfold decompress at hraise
        split at hraise
        · cases hraise
        · next text hplain =>
          exact ⟨opened, text, rfl, hzstd, hplain, (Except.error.inj hraise).symm⟩
      · cases hraise
    · rintro ⟨_, text, rfl, hzstd, hplain, rfl⟩
      rw [if_pos hzstd, decompress, hplain]
      exact ⟨rfl, by simp⟩

end Decoding

/-! ## The write loop -/

/-- The loop ends with the exception of the first chunk that cannot be decoded. -/
lemma writeLoop_error_iff {decode : ChunkInfo → Bytes → Except PyError Bytes} {e : PyError}
    {pairs : List (ChunkInfo × Bytes)} {written : Bytes} :
    (writeLoop decode pairs written).2 = .error e ↔
      ∃ before p after, pairs = before ++ p :: after ∧
        (∀ a ∈ before, ∃ plain, decode a.1 a.2 = .ok plain) ∧ decode p.1 p.2 = .error e := by
  induction pairs generalizing written with
  | nil => simp [writeLoop]
  | cons p pairs ih =>
    rw [writeLoop]
    cases hp : decode p.1 p.2 with
    | error e' =>
      simp only [Except.error.injEq]
      constructor
      · rintro rfl
        exact ⟨[], p, pairs, rfl, by simp, hp⟩
      · rintro ⟨before, p', after, heq, hbefore, hp'⟩
        cases before with
        | nil =>
          obtain ⟨rfl, rfl⟩ := List.cons.inj heq
          exact Except.error.inj (hp.symm.trans hp')
        | cons a before =>
          obtain ⟨rfl, rfl⟩ := List.cons.inj heq
          obtain ⟨plain, hplain⟩ := hbefore p (List.mem_cons_self ..)
          rw [hp] at hplain
          cases hplain
    | ok plain =>
      simp only []
      rw [ih]
      constructor
      · rintro ⟨before, p', after, rfl, hbefore, hp'⟩
        refine ⟨p :: before, p', after, rfl, ?_, hp'⟩
        rintro a (_ | ⟨_, ha⟩)
        · exact ⟨plain, hp⟩
        · exact hbefore a ha
      · rintro ⟨before, p', after, heq, hbefore, hp'⟩
        cases before with
        | nil =>
          obtain ⟨rfl, rfl⟩ := List.cons.inj heq
          rw [hp] at hp'
          cases hp'
        | cons a before =>
          obtain ⟨rfl, rfl⟩ := List.cons.inj heq
          exact ⟨before, p', after, rfl, fun a ha => hbefore a (List.mem_cons_of_mem _ ha), hp'⟩

/-- One of the chunks can be decrypted, if need be, but not decompressed, and the chunks before it
are decoded. -/
def BreaksOff (P : Packages) (password : Option String) (ordered : List (ChunkInfo × Bytes)) :
    Prop :=
  ∃ before info data after opened text, ordered = before ++ (info, data) :: after ∧
    (∀ a ∈ before, ∃ plain,
      decodeChunk P password (mergeKey password ordered) true a.1 a.2 = .ok plain) ∧
    openChunk P password (mergeKey password ordered) info data = .ok opened ∧
    P.zstdDecompress opened = .error text

lemma writeLoop_valueError_iff (P : Packages) (password : Option String) (useZstd : Bool)
    (ordered : List (ChunkInfo × Bytes)) (written : Bytes) :
    (∀ e, (writeLoop (decodeChunk P password (mergeKey password ordered) useZstd) ordered
        written).2 = .error e → ∃ msg, e = .valueError msg) ↔
      ¬ (useZstd = true ∧ BreaksOff P password ordered) := by
  constructor
  · rintro h ⟨rfl, before, info, data, after, opened, text, heq, hbefore, hopen, hplain⟩
    obtain ⟨hraise, hother⟩ := decodeChunk_error_iff.2 ⟨opened, text, hopen, rfl, hplain, rfl⟩
    obtain ⟨msg, hmsg⟩ :=
      h _ (writeLoop_error_iff.2 ⟨before, (info, data), after, heq, hbefore, hraise⟩)
    exact hother msg hmsg
  · intro h e he
    by_contra hother
    obtain ⟨before, p, after, heq, hbefore, hraise⟩ := writeLoop_error_iff.1 he
    obtain ⟨opened, text, hopen, rfl, hplain, rfl⟩ :=
      decodeChunk_error_iff.1 ⟨hraise, fun msg hmsg => hother ⟨msg, hmsg⟩⟩
    exact h ⟨rfl, before, p.1, p.2, after, opened, text, heq, hbefore, hopen, hplain⟩

/-! ## The download -/

section Download

variable {P : Packages} {fileHash password : String} {manifestReplies : ManifestReplies}
  {replies : ChunkReplies} {store : LocalStore} {m : FileManifest} {datas : List Bytes}

/-- Step 3 leaves a file when its loop ends with an exception that is no `ValueError`. -/
lemma leavesNothing_serveMerged_iff :
    (serveMerged P m datas password).LeavesNothing ↔
      ((m.chunks.any ChunkInfo.encrypted = true → password ≠ "") →
        ¬ (m.compression = "zstd" ∧
          BreaksOff P (passwordOrNone password) (orderChunks m.chunks datas))) := by
  have hgate : (m.chunks.any ChunkInfo.encrypted && !truthy (passwordOrNone password)) = true ↔
      ¬ (m.chunks.any ChunkInfo.encrypted = true → password ≠ "") := by
    by_cases hpw : password = ""
    · simp [passwordOrNone, truthy, hpw]
    · simp [passwordOrNone, truthy, hpw]
  unfold serveMerged mergeChunksToDisk
  dsimp only
  split
  · next hasked =>
    refine ⟨fun _ hunlocked => absurd hunlocked (hgate.1 hasked), fun _ e _ => rfl⟩
  · next hasked =>
    have hunlocked := not_not.1 (mt hgate.2 hasked)
    have hraised := writeLoop_valueError_iff P (passwordOrNone password)
      (decide (m.compression = "zstd")) (orderChunks m.chunks datas) []
    rw [decide_eq_true_eq] at hraised
    rw [forall_prop_of_true hunlocked, ← hraised]
    generalize writeLoop _ _ _ = written
    obtain ⟨bytes, outcome⟩ := written
    cases outcome with
    | ok _ =>
      refine ⟨fun _ e he => (by cases he), fun _ e he => ?_⟩
      by_cases hhash : sha256Hash bytes = m.fileHash
      · simp [finishOnDisk, hhash] at he
      · simp [finishOnDisk, hhash]
    | error e =>
      simp only [Except.error.injEq, forall_eq']
      cases e with
      | valueError msg => exact ⟨fun _ => ⟨msg, rfl⟩, fun _ _ _ => rfl⟩
      | _ =>
        constructor
        · intro h
          exact absurd (h _ rfl) (by simp [finishOnDisk])
        · rintro ⟨msg, hmsg⟩
          cases hmsg

/-- `download_file` comes to a chunk that does not decompress: the manifest and all chunks are found,
a password is given if it takes one, and the chunks before this one are decoded. -/
structure Undecompressible (P : Packages) (fileHash password : String)
    (manifestReplies : ManifestReplies) (replies : ChunkReplies) (store : LocalStore)
    (d : ManifestDict) (m : FileManifest) (datas : List Bytes) : Prop where
  manifest : (findManifest fileHash manifestReplies store).1 = some (.dict d)
  accepted : FileManifest.fromDict d = .ok m
  found : List.Forall₂ (fun (info : ChunkInfo) data =>
    chunkFrom store replies info.chunkHash = some data) m.chunks datas
  unlocked : m.chunks.any ChunkInfo.encrypted = true → password ≠ ""
  compressed : m.compression = "zstd"
  broken : BreaksOff P (passwordOrNone password) (orderChunks m.chunks datas)

/-- The manifest and the chunks are those that `download_file` comes to. -/
lemma Undecompressible.reached {d : ManifestDict}
    (h : Undecompressible P fileHash password manifestReplies replies store d m datas) :
    (findManifest fileHash manifestReplies store).1 = some (.dict d) ∧
      FileManifest.fromDict d = .ok m ∧ ∃ store', findChunks replies m.chunks
        (findManifest fileHash manifestReplies store).2 = (.ok datas, store') :=
  ⟨h.manifest, h.accepted, (findChunks_findManifest_iff fileHash manifestReplies).2 h.found⟩

/-- **A failed download leaves its file exactly when it comes to a chunk that does not
decompress.** -/
theorem leavesNothing_downloadFile_iff :
    (downloadFile P fileHash password manifestReplies replies store).1.LeavesNothing ↔
      ¬ ∃ d m datas,
        Undecompressible P fileHash password manifestReplies replies store d m datas := by
  -- before the merge there is no file to leave
  have hearly (e : PyError) (h : ∀ d m datas,
      ¬ Undecompressible P fileHash password manifestReplies replies store d m datas) :
      (DownloadOutcome.mk (.error e) none).LeavesNothing ↔ ¬ ∃ d m datas,
        Undecompressible P fileHash password manifestReplies replies store d m datas := by
    refine ⟨fun _ hexists => ?_, fun _ _ _ => rfl⟩
    obtain ⟨d, m, datas, hbroken⟩ := hexists
    exact h d m datas hbroken
  unfold downloadFile
  split
  · next store₁ hm =>
    refine hearly _ fun d m datas h => ?_
    obtain ⟨hd, -⟩ := h.reached
    rw [hm] at hd
    cases hd
  · next body store₁ hm =>
    split
    · next e hdict =>
      refine hearly _ fun d' m datas h => ?_
      obtain ⟨hd, hm', -⟩ := h.reached
      rw [hm] at hd
      obtain rfl := Option.some.inj hd
      rw [ManifestBody.manifest, hm'] at hdict
      cases hdict
    · next m hdict =>
      -- there is one manifest that the download can come to
      have hreached {d' : ManifestDict} {m' : FileManifest} {datas' : List Bytes}
          (h : Undecompressible P fileHash password manifestReplies replies store d' m' datas') :
          m' = m ∧ ∃ store', findChunks replies m.chunks store₁ = (.ok datas', store') := by
        obtain ⟨hd, hm', hchunks⟩ := h.reached
        rw [hm] at hd hchunks
        obtain rfl := Option.some.inj hd
        obtain rfl := Except.ok.inj (hdict.symm.trans hm')
        exact ⟨rfl, hchunks⟩
      split
      · next e store₂ hchunks =>
        refine hearly _ fun d' m' datas h => ?_
        obtain ⟨rfl, store', hchunks'⟩ := hreached h
        rw [hchunks] at hchunks'
        cases hchunks'
      · next datas store₂ hchunks =>
        rw [leavesNothing_serveMerged_iff]
        constructor
        · rintro hclean ⟨d', m', datas', h⟩
          obtain ⟨rfl, store', hchunks'⟩ := hreached h
          obtain ⟨hdatas, -⟩ := Prod.mk.inj (hchunks.symm.trans hchunks')
          obtain rfl := Except.ok.inj hdatas
          exact hclean h.unlocked ⟨h.compressed, h.broken⟩
        · rintro hnone hunlocked ⟨hzstd, hbroken⟩
          have hchunks' : findChunks replies m.chunks
              (findManifest fileHash manifestReplies store).2 = (.ok datas, store₂) := by
            rw [hm]
            exact hchunks
          obtain ⟨d, rfl, hd⟩ := manifest_eq_ok.1 hdict
          exact hnone ⟨d, m, datas, by rw [hm], hd,
            (findChunks_findManifest_iff fileHash manifestReplies).1 ⟨store₂, hchunks'⟩, hunlocked,
            hzstd, hbroken⟩

end Download

end DistriStore
