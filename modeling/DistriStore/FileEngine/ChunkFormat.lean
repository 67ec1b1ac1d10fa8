import DistriStore.FileEngine.Crypto

/-!
# The encrypted chunk format, both ways (`backend/file_engine/crypto.py`)

`decrypt` and `decrypt_with_key` undo `encrypt_with_key`; and what `decrypt` accepts is an encoding,
field by field, of what it returns.  The offsets of the encoder and of the two decoders are compared
through `layout`: a byte string that passes the checks of the header is the layout of its own
slices (`layout_slices`).
-/

namespace DistriStore

open Lib

/-- AES-GCM as the format relies on it: ciphertexts are as long as the data, tags have 16 bytes, and
decryption accepts exactly the pairs that encryption produces. -/
structure Packages.ExactGcm (P : Packages) : Prop where
  length_ciphertext : ∀ key nonce data : Bytes, key.length = keySize → nonce.length = nonceSize →
    (P.gcmEncrypt key nonce data).1.length = data.length
  length_tag : ∀ key nonce data : Bytes, key.length = keySize → nonce.length = nonceSize →
    (P.gcmEncrypt key nonce data).2.length = tagSize
  accepts_iff : ∀ key nonce ciphertext tag data : Bytes, key.length = keySize →
    nonce.length = nonceSize →
    (P.gcmDecrypt key nonce ciphertext tag = .ok data ↔
      P.gcmEncrypt key nonce data = (ciphertext, tag))

lemma rawPackages_exactGcm : rawPackages.ExactGcm where
  length_ciphertext _ _ _ _ _ := rfl
  length_tag := rawPackages_lawful.gcm_tag_length
  accepts_iff key nonce ciphertext tag data _ _ := by
    simp only [rawPackages, Prod.mk.injEq]
    constructor
    · intro h
      split at h
      · next htag =>
        obtain rfl : ciphertext = data := Except.ok.inj h
        exact ⟨rfl, htag⟩
      · cases h
    · rintro ⟨rfl, htag⟩
      rw [if_pos htag]

section

variable {b : Bytes}

lemma length_slice {i j : ℕ} (hij : i ≤ j) (hj : j ≤ b.length) : (slice b i j).length = j - i := by
  rw [slice, List.length_take, List.length_drop]
  omega

/-- A byte string starts with its slice. -/
lemma slice_append_drop {i j : ℕ} (hij : i ≤ j) : slice b i j ++ b.drop j = b.drop i := by
  have h := List.take_append_drop (j - i) (b.drop i)
  rwa [List.drop_drop, Nat.add_sub_cancel' hij] at h

/-- What passes the checks of the header is laid out as an encrypted chunk. -/
lemma layout_slices (h : checkHeader b = .ok ()) :
    headerSize ≤ b.length ∧
      b = layout (slice b 1 (1 + saltSize)) (slice b (1 + saltSize) (1 + saltSize + nonceSize))
        (slice b (1 + saltSize + nonceSize) headerSize) (b.drop headerSize) := by
  unfold checkHeader at h
  split at h
  · cases h
  · next hlen =>
    split at h
    · cases h
    · next hversion =>
      refine ⟨not_lt.1 hlen, ?_⟩
      have hhead : b = [version] ++ b.drop 1 := by
        cases b with
        | nil => exact absurd (show (0 : ℕ) < headerSize by decide) hlen
        | cons v rest => rw [← not_not.1 hversion]; rfl
      rw [layout, List.append_assoc, List.append_assoc, List.append_assoc,
        slice_append_drop (b := b) (show 1 + saltSize + nonceSize ≤ headerSize by decide),
        slice_append_drop (Nat.le_add_right _ _), slice_append_drop (Nat.le_add_right _ _)]
      exact hhead

lemma checkHeader_error {e : PyError} (h : checkHeader b = .error e) :
    ∃ msg, e = .valueError msg := by
  unfold checkHeader at h
  split at h
  · exact ⟨_, (Except.error.inj h).symm⟩
  · split at h
    · exact ⟨_, (Except.error.inj h).symm⟩
    · cases h

end

/-! ## Encoding and decoding -/

section

variable {P : Packages} (hP : P.ExactGcm)

include hP in
lemma gcmOutcome_gcmEncrypt {key nonce : Bytes} (hkey : key.length = keySize)
    (hnonce : nonce.length = nonceSize) (data : Bytes) :
    gcmOutcome P key nonce (P.gcmEncrypt key nonce data).1 (P.gcmEncrypt key nonce data).2 =
      .ok data := by
  rw [gcmOutcome, (hP.accepts_iff key nonce _ _ data hkey hnonce).2 rfl]

/-- AES-GCM accepts what it produces, and rejects everything else with a `ValueError`. -/
lemma gcmOutcome_cases {key nonce : Bytes} (hP : P.ExactGcm) (hkey : key.length = keySize)
    (hnonce : nonce.length = nonceSize) (ciphertext tag : Bytes) :
    (∃ msg, gcmOutcome P key nonce ciphertext tag = .error (.valueError msg)) ∨
      ∃ data, gcmOutcome P key nonce ciphertext tag = .ok data ∧
        P.gcmEncrypt key nonce data = (ciphertext, tag) := by
  unfold gcmOutcome
  cases h : P.gcmDecrypt key nonce ciphertext tag with
  | error e => exact Or.inl ⟨_, rfl⟩
  | ok data => exact Or.inr ⟨data, rfl, (hP.accepts_iff _ _ _ _ _ hkey hnonce).1 h⟩

include hP in
lemma length_encryptWithKey {key : Bytes} (hkey : key.length = keySize) (data : Bytes) (salt : Salt)
    (nonce : Nonce) : (encryptWithKey P data key salt nonce).length = data.length + 45 := by
  have hct := hP.length_ciphertext key nonce data hkey nonce.2
  have htag := hP.length_tag key nonce data hkey nonce.2
  have hsalt : salt.1.length = 16 := salt.2
  have hnonce : nonce.1.length = 12 := nonce.2
  rw [encryptWithKey_eq_layout]
  simp only [layout, List.length_append, List.length_singleton, hct, htag, hsalt, hnonce, tagSize]
  omega

end

/-- **The encrypted chunk format is decoded exactly.**  Both decoders undo the encoder, which adds
45 bytes; and `decrypt` raises a `ValueError`, or its input is the encoding of what it returns, under
the salt, the nonce and the tag at their places. -/
theorem encryptedFormat_exact {P : Packages} (hP : P.ExactGcm) :
    (∀ (data : Bytes) (password : String) (salt : Salt) (nonce : Nonce),
      decrypt P (encryptWithKey P data (deriveKey password salt).1 salt nonce) password =
        .ok data ∧
      decryptWithKey P (encryptWithKey P data (deriveKey password salt).1 salt nonce)
        (deriveKey password salt).1 = .ok data ∧
      (encryptWithKey P data (deriveKey password salt).1 salt nonce).length =
        data.length + 45) ∧
    ∀ (b : Bytes) (password : String),
      (∃ msg, decrypt P b password = .error (.valueError msg)) ∨
      ∃ data salt nonce tag ciphertext,
        decrypt P b password = .ok data ∧
        salt = slice b 1 17 ∧ nonce = slice b 17 29 ∧ tag = slice b 29 45 ∧
        salt.length = 16 ∧ nonce.length = 12 ∧ tag.length = 16 ∧
        b = [0x01] ++ salt ++ nonce ++ tag ++ ciphertext ∧
        P.gcmEncrypt (deriveKey password salt).1 nonce data = (ciphertext, tag) := by
  constructor
  · intro data password salt nonce
    have hkey := length_deriveKey password salt
    have htag := hP.length_tag _ nonce data hkey nonce.2
    have hopen := gcmOutcome_gcmEncrypt hP hkey nonce.2 data
    refine ⟨?_, ?_, length_encryptWithKey hP hkey data salt nonce⟩
    · rw [encryptWithKey_eq_layout, decrypt_layout P password salt.2 nonce.2 htag, hopen]
    · rw [encryptWithKey_eq_layout, decryptWithKey_layout P _ salt.2 nonce.2 htag, hopen]
  · intro b password
    cases hcheck : checkHeader b with
    | error e =>
      obtain ⟨msg, rfl⟩ := checkHeader_error hcheck
      refine Or.inl ⟨msg, ?_⟩
      simp only [decrypt, hcheck]
      rfl
    | ok _ =>
      obtain ⟨hlen, hb⟩ := layout_slices hcheck
      have h45 : 45 ≤ b.length := hlen
      have hsalt : (slice b 1 17).length = 16 := length_slice (by decide) (by omega)
      have hnonce : (slice b 17 29).length = 12 := length_slice (by decide) (by omega)
      have htag : (slice b 29 45).length = 16 := length_slice (by decide) h45
      have hdecrypt : decrypt P b password =
          gcmOutcome P (deriveKey password (slice b 1 17)).1 (slice b 17 29) (b.drop 45)
            (slice b 29 45) := by
        conv_lhs => rw [hb]
        exact decrypt_layout P password hsalt hnonce htag
      rw [hdecrypt]
      refine (gcmOutcome_cases hP (length_deriveKey _ _) hnonce _ _).imp_right ?_
      rintro ⟨data, hok, henc⟩
      exact ⟨data, _, _, _, b.drop 45, hok, rfl, rfl, rfl, hsalt, hnonce, htag, hb, henc⟩

/-- Sixteen different bytes, and twelve. -/
def countedSalt : Salt := ⟨(List.range saltSize).map UInt8.ofNat, by simp⟩
def countedNonce : Nonce := ⟨(List.range nonceSize).map UInt8.ofNat, by simp⟩

/-- A chunk of three bytes is encoded in 48. -/
theorem encryptedFormat_exact_abc :
    let key := (deriveKey "pw" countedSalt).1
    let encrypted := encryptWithKey rawPackages [0x61, 0x62, 0x63] key countedSalt countedNonce
    decrypt rawPackages encrypted "pw" = .ok [0x61, 0x62, 0x63] ∧
      decryptWithKey rawPackages encrypted key = .ok [0x61, 0x62, 0x63] ∧
      encrypted.length = 48 :=
  (encryptedFormat_exact rawPackages_exactGcm).1 [0x61, 0x62, 0x63] "pw" countedSalt countedNonce

end DistriStore
