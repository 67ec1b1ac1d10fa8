import DistriStore.Lib.Sha256
import DistriStore.Python

/-!
# Chunk encryption (`backend/file_engine/crypto.py`)

An encrypted chunk is `version (1) ‖ salt (16) ‖ nonce (12) ‖ tag (16) ‖ ciphertext`, under a key
derived from the password and the salt by PBKDF2.  Hashing and key derivation are those of the
standard library (`Lib.sha256`, `Lib.pbkdf2HmacSha256`).  AES-GCM and zstd come from packages
outside the repository and are the fields of `Packages`; what the code relies on from them is
`Packages.Lawful`.

Salts and nonces are drawn from `os.urandom`: they are arguments, of the drawn length by type.
-/

namespace DistriStore

open Lib

/-! ## Constants -/

def version : UInt8 := 1
def pbkdf2Iterations : ℕ := 100000
def saltSize : ℕ := 16
def keySize : ℕ := 32
def nonceSize : ℕ := 12
def tagSize : ℕ := 16
def headerSize : ℕ := 1 + saltSize + nonceSize + tagSize

/-- A salt as drawn by `derive_key`. -/
abbrev Salt := { s : Bytes // s.length = saltSize }

/-- A nonce as drawn by `encrypt_with_key`. -/
abbrev Nonce := { s : Bytes // s.length = nonceSize }

instance : Inhabited Salt := ⟨List.replicate saltSize 0, rfl⟩

instance : Inhabited Nonce := ⟨List.replicate nonceSize 0, rfl⟩

/-! ## The packages outside the repository -/

/-- The functions that the file engine takes from pycryptodome and zstandard. -/
structure Packages where
  /-- `AES.new(key, MODE_GCM, nonce=nonce).encrypt_and_digest(data)`: ciphertext and tag. -/
  gcmEncrypt : (key nonce data : Bytes) → Bytes × Bytes
  /-- `AES.new(key, MODE_GCM, nonce=nonce).decrypt_and_verify(ciphertext, tag)`; an error is the
  text of the `ValueError` it raises. -/
  gcmDecrypt : (key nonce ciphertext tag : Bytes) → Except String Bytes
  /-- `zstd.ZstdCompressor(level=3).compress(data)`. -/
  zstdCompress : Bytes → Bytes
  /-- `zstd.ZstdDecompressor().decompress(data)`; an error is the text of its `ZstdError`. -/
  zstdDecompress : Bytes → Except String Bytes

/-- What the two packages document and the code relies on. -/
structure Packages.Lawful (P : Packages) : Prop where
  gcm_roundTrip : ∀ key nonce data : Bytes, key.length = keySize → nonce.length = nonceSize →
    P.gcmDecrypt key nonce (P.gcmEncrypt key nonce data).1 (P.gcmEncrypt key nonce data).2 =
      .ok data
  gcm_tag_length : ∀ key nonce data : Bytes, key.length = keySize → nonce.length = nonceSize →
    (P.gcmEncrypt key nonce data).2.length = tagSize
  zstd_roundTrip : ∀ data : Bytes, P.zstdDecompress (P.zstdCompress data) = .ok data

/-- Header of a zstd frame with a single raw block of `n` bytes, as the compressor writes it for
short input that does not shrink. -/
def rawFrameHeader (n : ℕ) : Bytes :=
  [0x28, 0xb5, 0x2f, 0xfd, 0x20, UInt8.ofNat n, UInt8.ofNat (8 * n + 1),
    UInt8.ofNat ((8 * n + 1) / 256), UInt8.ofNat ((8 * n + 1) / 65536)]

/-- Packages that keep the documented promises: raw frames, and a message authentication code
next to the data. -/
def rawPackages : Packages where
  gcmEncrypt key nonce data := (data, (hmacSha256 key (nonce ++ data)).take tagSize)
  gcmDecrypt key nonce ciphertext tag :=
    if (hmacSha256 key (nonce ++ ciphertext)).take tagSize = tag then .ok ciphertext
    else .error "MAC check failed"
  zstdCompress data := rawFrameHeader data.length ++ data
  zstdDecompress data :=
    let plain := data.drop 9
    if data.take 9 = rawFrameHeader plain.length then .ok plain
    else .error "could not determine content size in frame header"

lemma rawPackages_lawful : rawPackages.Lawful where
  gcm_roundTrip key nonce data _ _ := by simp [rawPackages]
  gcm_tag_length key nonce data _ _ := by
    simp only [rawPackages, List.length_take, length_hmacSha256]
    rfl
  zstd_roundTrip data := by
    have hdrop : (rawFrameHeader data.length ++ data).drop 9 = data := List.drop_left' rfl
    have htake : (rawFrameHeader data.length ++ data).take 9 = rawFrameHeader data.length :=
      List.take_left' rfl
    simp only [rawPackages, hdrop, htake, if_true]

/-! ## Hashing and key derivation -/

/-- `str.encode()`. -/
def encodeUtf8 (s : String) : Bytes := s.toUTF8.data.toList

/-- Return hex SHA-256 digest of data. -/
def sha256Hash (data : Bytes) : String := hexDigest (sha256 data)

/-- Derive 256-bit AES key from password using PBKDF2-HMAC-SHA256. -/
def deriveKey (password : String) (salt : Bytes) : Bytes × Bytes :=
  (pbkdf2HmacSha256 (encodeUtf8 password) salt pbkdf2Iterations keySize, salt)

@[simp] lemma length_sha256Hash (data : Bytes) : (sha256Hash data).length = 64 := by
  rw [sha256Hash, length_hexDigest, length_sha256]

lemma sha256Hash_inj {x y : Bytes} : sha256Hash x = sha256Hash y ↔ sha256 x = sha256 y :=
  hexDigest_injective.eq_iff

lemma length_deriveKey (password : String) (salt : Bytes) :
    (deriveKey password salt).1.length = keySize := by
  rw [deriveKey, length_pbkdf2HmacSha256]

/-! ## Encryption -/

/-- Encrypt with a pre-derived key. -/
def encryptWithKey (P : Packages) (data key salt : Bytes) (nonce : Nonce) : Bytes :=
  let sealed := P.gcmEncrypt key nonce data
  [version] ++ salt ++ nonce ++ sealed.2 ++ sealed.1

/-- Encrypt data with AES-256-GCM (derives key fresh each call). -/
def encrypt (P : Packages) (data : Bytes) (password : String) (salt : Salt) (nonce : Nonce) :
    Bytes :=
  let derived := deriveKey password salt
  encryptWithKey P data derived.1 derived.2 nonce

/-! ## Decryption -/

/-- `b[i:j]` for `0 <= i <= j`. -/
def slice (b : Bytes) (i j : ℕ) : Bytes := (b.drop i).take (j - i)

/-- The two checks both decoders make before they read past the header. -/
def checkHeader (encrypted : Bytes) : Except PyError Unit :=
  if encrypted.length < headerSize then
    .error (.valueError (s!"Data too short ({encrypted.length} < {headerSize})"))
  else if encrypted.headD 0 ≠ version then
    .error (.valueError (s!"Unsupported format version: {encrypted.headD 0}"))
  else
    .ok ()

/-- What AES-GCM makes of a ciphertext, with its error as `decrypt_with_key` raises it. -/
def gcmOutcome (P : Packages) (key nonce ciphertext tag : Bytes) : Except PyError Bytes :=
  match P.gcmDecrypt key nonce ciphertext tag with
  | .ok data => .ok data
  | .error e => .error (.valueError ("Authenticated decryption FAILED: " ++ e ++ ". " ++
      "The chunk may have been tampered with, or the password is wrong."))

/-- Decrypt with a pre-derived key. -/
def decryptWithKey (P : Packages) (encrypted key : Bytes) : Except PyError Bytes := do
  checkHeader encrypted
  let off := 1 + saltSize
  let nonce := slice encrypted off (off + nonceSize)
  let off := off + nonceSize
  let tag := slice encrypted off (off + tagSize)
  let off := off + tagSize
  let ciphertext := encrypted.drop off
  gcmOutcome P key nonce ciphertext tag

/-- Decrypt AES-256-GCM (derives key from salt in header each call). -/
def decrypt (P : Packages) (encrypted : Bytes) (password : String) : Except PyError Bytes := do
  checkHeader encrypted
  let off := 1
  let salt := slice encrypted off (off + saltSize)
  let key := (deriveKey password salt).1
  decryptWithKey P encrypted key

/-! ## Worker functions -/

/-- `decompressor.decompress(data)`. -/
def decompress (P : Packages) (data : Bytes) : Except PyError Bytes :=
  match P.zstdDecompress data with
  | .ok plain => .ok plain
  | .error e => .error (.zstdError e)

/-- Compress → encrypt with pre-derived key: the chunk and its hash. -/
def workerEncryptKeyed (P : Packages) (chunkData key salt : Bytes) (nonce : Nonce) :
    Bytes × String :=
  let compressed := P.zstdCompress chunkData
  let ct := encryptWithKey P compressed key salt nonce
  (ct, sha256Hash ct)

/-- Decrypt → decompress with pre-derived key. -/
def workerDecryptKeyed (P : Packages) (chunkData key : Bytes) : Except PyError Bytes := do
  let decrypted ← decryptWithKey P chunkData key
  decompress P decrypted

/-- Decrypt without decompression (backward compat). -/
def workerDecryptKeyedNocompress (P : Packages) (chunkData key : Bytes) : Except PyError Bytes :=
  decryptWithKey P chunkData key

/-! ## The encoding is decoded field by field -/

section Format

variable {salt nonce tag ciphertext : Bytes}

/-- The four fields laid out as `encrypt_with_key` writes them. -/
def layout (salt nonce tag ciphertext : Bytes) : Bytes :=
  [version] ++ salt ++ nonce ++ tag ++ ciphertext

lemma slice_salt_layout (hs : salt.length = saltSize) :
    slice (layout salt nonce tag ciphertext) 1 (1 + saltSize) = salt := by
  rw [slice, Nat.add_sub_cancel_left, ← hs]
  simp [layout]

lemma slice_nonce_layout (hs : salt.length = saltSize) (hn : nonce.length = nonceSize) :
    slice (layout salt nonce tag ciphertext) (1 + saltSize) (1 + saltSize + nonceSize) = nonce := by
  rw [slice, Nat.add_sub_cancel_left, ← hs, ← hn]
  have h : layout salt nonce tag ciphertext =
      ([version] ++ salt) ++ (nonce ++ (tag ++ ciphertext)) := by simp [layout]
  rw [h, List.drop_left' (by simp; omega), List.take_left]

lemma slice_tag_layout (hs : salt.length = saltSize) (hn : nonce.length = nonceSize)
    (ht : tag.length = tagSize) :
    slice (layout salt nonce tag ciphertext) (1 + saltSize + nonceSize)
      (1 + saltSize + nonceSize + tagSize) = tag := by
  rw [slice, Nat.add_sub_cancel_left, ← hs, ← hn, ← ht]
  have h : layout salt nonce tag ciphertext =
      ([version] ++ salt ++ nonce) ++ (tag ++ ciphertext) := by simp [layout]
  rw [h, List.drop_left' (by simp; omega), List.take_left]

lemma drop_layout (hs : salt.length = saltSize) (hn : nonce.length = nonceSize)
    (ht : tag.length = tagSize) :
    (layout salt nonce tag ciphertext).drop (1 + saltSize + nonceSize + tagSize) = ciphertext := by
  rw [← hs, ← hn, ← ht]
  have h : layout salt nonce tag ciphertext =
      ([version] ++ salt ++ nonce ++ tag) ++ ciphertext := by simp [layout]
  rw [h, List.drop_left' (by simp; omega)]

lemma checkHeader_layout (hs : salt.length = saltSize) (hn : nonce.length = nonceSize)
    (ht : tag.length = tagSize) : checkHeader (layout salt nonce tag ciphertext) = .ok () := by
  have hlen : ¬ (layout salt nonce tag ciphertext).length < headerSize := by
    simp [layout, headerSize, hs, hn, ht]
    omega
  have hhead : (layout salt nonce tag ciphertext).headD 0 = version := by simp [layout]
  rw [checkHeader, if_neg hlen, hhead, if_neg (not_not.2 rfl)]

/-- `decrypt_with_key` hands the fields of a chunk to AES-GCM. -/
lemma decryptWithKey_layout (P : Packages) (key : Bytes) (hs : salt.length = saltSize)
    (hn : nonce.length = nonceSize) (ht : tag.length = tagSize) :
    decryptWithKey P (layout salt nonce tag ciphertext) key =
      gcmOutcome P key nonce ciphertext tag := by
  simp only [decryptWithKey, checkHeader_layout hs hn ht, slice_nonce_layout hs hn,
    slice_tag_layout hs hn ht, drop_layout hs hn ht]
  rfl

/-- `decrypt` does so under the key of the salt in the header. -/
lemma decrypt_layout (P : Packages) (password : String) (hs : salt.length = saltSize)
    (hn : nonce.length = nonceSize) (ht : tag.length = tagSize) :
    decrypt P (layout salt nonce tag ciphertext) password =
      gcmOutcome P (deriveKey password salt).1 nonce ciphertext tag := by
  simp only [decrypt, checkHeader_layout hs hn ht, slice_salt_layout hs]
  exact decryptWithKey_layout P _ hs hn ht

end Format

/-! ## Round trips -/

section RoundTrip

variable {P : Packages} (hP : P.Lawful)

include hP in
lemma decompress_zstdCompress (data : Bytes) : decompress P (P.zstdCompress data) = .ok data := by
  rw [decompress, hP.zstd_roundTrip]

lemma encryptWithKey_eq_layout (P : Packages) (data key salt : Bytes) (nonce : Nonce) :
    encryptWithKey P data key salt nonce =
      layout salt nonce (P.gcmEncrypt key nonce data).2 (P.gcmEncrypt key nonce data).1 := rfl

/-- The salt in the header is the one the chunk was encrypted with. -/
lemma slice_salt_encryptWithKey (P : Packages) (data key : Bytes) (salt : Salt) (nonce : Nonce) :
    slice (encryptWithKey P data key salt nonce) 1 (1 + saltSize) = salt := by
  rw [encryptWithKey_eq_layout]
  exact slice_salt_layout salt.2

include hP in
/-- What `decrypt_with_key` makes of an encrypted chunk, under whatever key: the outcome of
AES-GCM on the very ciphertext, tag and nonce that were written. -/
lemma decryptWithKey_encryptWithKey_key (data key key' : Bytes) (salt : Salt) (nonce : Nonce)
    (hkey : key.length = keySize) :
    decryptWithKey P (encryptWithKey P data key salt nonce) key' =
      gcmOutcome P key' nonce (P.gcmEncrypt key nonce data).1 (P.gcmEncrypt key nonce data).2 := by
  rw [encryptWithKey_eq_layout]
  exact decryptWithKey_layout P key' salt.2 nonce.2 (hP.gcm_tag_length key nonce data hkey nonce.2)

include hP in
lemma decryptWithKey_encryptWithKey (data key : Bytes) (salt : Salt) (nonce : Nonce)
    (hkey : key.length = keySize) :
    decryptWithKey P (encryptWithKey P data key salt nonce) key = .ok data := by
  rw [decryptWithKey_encryptWithKey_key hP data key key salt nonce hkey, gcmOutcome,
    hP.gcm_roundTrip key nonce data hkey nonce.2]

end RoundTrip

end DistriStore
