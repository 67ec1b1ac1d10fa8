import Mathlib.Algebra.BigOperators.Group.List.Basic
import Mathlib.Algebra.Group.Nat.Defs
import Mathlib.Data.List.Basic
import Mathlib.Tactic.Lemma

/-!
# SHA-256, HMAC and PBKDF2

The hash function of FIPS 180-4, the keyed hash of RFC 2104 and the key derivation of RFC 2898
over it, as executable functions on byte lists, together with hexadecimal output.

Developments that use a hash argue about it only through the shape of its output
(`length_sha256`, `length_hexDigest`, `hexDigest_injective`) and through absence of collisions
on the strings actually hashed (`CollisionFree`).  Absence of collisions can only be asked of a
given collection of strings, never of all strings, since the function has more inputs than
outputs.
-/

namespace Lib

/-- A byte string. -/
abbrev Bytes := List UInt8

namespace Sha256

/-! ## The compression function -/

abbrev Word := BitVec 32

/-- The constants `K` of FIPS 180-4, section 4.2.2. -/
def roundConstants : List Word :=
  [0x428a2f98#32, 0x71374491#32, 0xb5c0fbcf#32, 0xe9b5dba5#32, 0x3956c25b#32, 0x59f111f1#32,
   0x923f82a4#32, 0xab1c5ed5#32, 0xd807aa98#32, 0x12835b01#32, 0x243185be#32, 0x550c7dc3#32,
   0x72be5d74#32, 0x80deb1fe#32, 0x9bdc06a7#32, 0xc19bf174#32, 0xe49b69c1#32, 0xefbe4786#32,
   0x0fc19dc6#32, 0x240ca1cc#32, 0x2de92c6f#32, 0x4a7484aa#32, 0x5cb0a9dc#32, 0x76f988da#32,
   0x983e5152#32, 0xa831c66d#32, 0xb00327c8#32, 0xbf597fc7#32, 0xc6e00bf3#32, 0xd5a79147#32,
   0x06ca6351#32, 0x14292967#32, 0x27b70a85#32, 0x2e1b2138#32, 0x4d2c6dfc#32, 0x53380d13#32,
   0x650a7354#32, 0x766a0abb#32, 0x81c2c92e#32, 0x92722c85#32, 0xa2bfe8a1#32, 0xa81a664b#32,
   0xc24b8b70#32, 0xc76c51a3#32, 0xd192e819#32, 0xd6990624#32, 0xf40e3585#32, 0x106aa070#32,
   0x19a4c116#32, 0x1e376c08#32, 0x2748774c#32, 0x34b0bcb5#32, 0x391c0cb3#32, 0x4ed8aa4a#32,
   0x5b9cca4f#32, 0x682e6ff3#32, 0x748f82ee#32, 0x78a5636f#32, 0x84c87814#32, 0x8cc70208#32,
   0x90befffa#32, 0xa4506ceb#32, 0xbef9a3f7#32, 0xc67178f2#32]

/-- The eight working variables, which are also the chaining value between blocks. -/
structure Chaining where
  a : Word
  b : Word
  c : Word
  d : Word
  e : Word
  f : Word
  g : Word
  h : Word

/-- The initial hash value of FIPS 180-4, section 5.3.3. -/
def initial : Chaining :=
  ⟨0x6a09e667#32, 0xbb67ae85#32, 0x3c6ef372#32, 0xa54ff53a#32,
   0x510e527f#32, 0x9b05688c#32, 0x1f83d9ab#32, 0x5be0cd19#32⟩

/-- One round, on a round constant and a word of the message schedule. -/
def round (s : Chaining) (kw : Word × Word) : Chaining :=
  let s1 := s.e.rotateRight 6 ^^^ s.e.rotateRight 11 ^^^ s.e.rotateRight 25
  let ch := (s.e &&& s.f) ^^^ (~~~s.e &&& s.g)
  let t1 := s.h + s1 + ch + kw.1 + kw.2
  let s0 := s.a.rotateRight 2 ^^^ s.a.rotateRight 13 ^^^ s.a.rotateRight 22
  let maj := (s.a &&& s.b) ^^^ (s.a &&& s.c) ^^^ (s.b &&& s.c)
  ⟨t1 + (s0 + maj), s.a, s.b, s.c, s.d + t1, s.e, s.f, s.g⟩

/-- The next schedule word, from the words so far with the newest first. -/
def nextWord (w : List Word) : Word :=
  let x := w.getD 14 0
  let y := w.getD 1 0
  let s0 := x.rotateRight 7 ^^^ x.rotateRight 18 ^^^ x >>> 3
  let s1 := y.rotateRight 17 ^^^ y.rotateRight 19 ^^^ y >>> 10
  w.getD 15 0 + s0 + w.getD 6 0 + s1

/-- Add `n` words to a schedule that has the newest word first. -/
def extend : ℕ → List Word → List Word
  | 0, w => w
  | n + 1, w => extend n (nextWord w :: w)

/-- A big-endian word from bytes. -/
def wordOfBytes (bs : Bytes) : Word :=
  bs.foldl (fun acc b => (acc <<< 8) ||| BitVec.ofNat 32 b.toNat) 0

/-- The first `n` words of a block. -/
def words : ℕ → Bytes → List Word
  | 0, _ => []
  | n + 1, bs => wordOfBytes (bs.take 4) :: words n (bs.drop 4)

/-- Absorb one block of 64 bytes. -/
def compress (s : Chaining) (block : Bytes) : Chaining :=
  let w := (extend 48 (words 16 block).reverse).reverse
  let t := (List.zip roundConstants w).foldl round s
  ⟨s.a + t.a, s.b + t.b, s.c + t.c, s.d + t.d, s.e + t.e, s.f + t.f, s.g + t.g, s.h + t.h⟩

/-! ## Padding and output -/

/-- The `n` low bytes of a number, the most significant first. -/
def beBytes : ℕ → ℕ → Bytes
  | 0, _ => []
  | n + 1, v => UInt8.ofNat (v / 256 ^ n) :: beBytes n v

/-- Append the bit `1`, zeros and the length in bits. -/
def pad (msg : Bytes) : Bytes :=
  msg ++ 0x80 :: List.replicate ((119 - msg.length % 64) % 64) 0 ++ beBytes 8 (8 * msg.length)

/-- The first `n` blocks of a padded message. -/
def blocks : ℕ → Bytes → List Bytes
  | 0, _ => []
  | n + 1, bs => bs.take 64 :: blocks n (bs.drop 64)

lemma length_beBytes (n v : ℕ) : (beBytes n v).length = n := by
  induction n with
  | zero => rfl
  | succ n ih => simp [beBytes, ih]

end Sha256

open Sha256

/-- SHA-256 of a byte string. -/
def sha256 (msg : Bytes) : Bytes :=
  let p := pad msg
  let s := (blocks (p.length / 64) p).foldl compress initial
  [s.a, s.b, s.c, s.d, s.e, s.f, s.g, s.h].flatMap fun x => beBytes 4 x.toNat

lemma length_sha256 (msg : Bytes) : (sha256 msg).length = 32 := by
  simp [sha256, length_beBytes]

/-! ## Hexadecimal output -/

/-- The sixteen lower-case hexadecimal digits. -/
def hexDigits : List Char :=
  ['0', '1', '2', '3', '4', '5', '6', '7', '8', '9', 'a', 'b', 'c', 'd', 'e', 'f']

/-- The digit for a value below sixteen. -/
def hexDigit (n : Fin 16) : Char := hexDigits.get n

/-- The two digits of a byte. -/
def hexByte (b : UInt8) : List Char :=
  [hexDigit ⟨b.toNat / 16, Nat.div_lt_of_lt_mul b.toNat_lt⟩,
   hexDigit ⟨b.toNat % 16, Nat.mod_lt _ (by decide)⟩]

/-- Lower-case hexadecimal text of a byte string. -/
def hexDigest (bs : Bytes) : String := String.ofList (bs.flatMap hexByte)

lemma hexDigit_injective : Function.Injective hexDigit := by
  intro m n h
  revert m n
  decide

lemma hexByte_injective : Function.Injective hexByte := by
  intro a b h
  simp only [hexByte, List.cons.injEq, and_true] at h
  have hdiv := Fin.mk.inj (hexDigit_injective h.1)
  have hmod := Fin.mk.inj (hexDigit_injective h.2)
  exact UInt8.toNat_inj.1 (by omega)

lemma hexDigest_injective : Function.Injective hexDigest := by
  intro as bs h
  have hl : as.flatMap hexByte = bs.flatMap hexByte := by
    simpa [hexDigest] using congrArg String.toList h
  clear h
  induction as generalizing bs with
  | nil =>
    cases bs with
    | nil => rfl
    | cons b bs => simp [hexByte] at hl
  | cons a as ih =>
    cases bs with
    | nil => simp [hexByte] at hl
    | cons b bs =>
      rw [List.flatMap_cons, List.flatMap_cons] at hl
      obtain ⟨hab, hrest⟩ := List.append_inj hl (by simp [hexByte])
      rw [hexByte_injective hab, ih hrest]

lemma length_hexDigest (bs : Bytes) : (hexDigest bs).length = 2 * bs.length := by
  rw [hexDigest, String.length_ofList]
  induction bs with
  | nil => rfl
  | cons b bs ih =>
    rw [List.flatMap_cons, List.length_append, ih, List.length_cons]
    simp only [hexByte, List.length_cons, List.length_nil]
    omega

/-! ## Absence of collisions -/

/-- A function takes different values on the different elements of `S`. -/
def CollisionFree {α β : Type*} (hash : α → β) (S : α → Prop) : Prop :=
  ∀ x y, S x → S y → hash x = hash y → x = y

lemma collisionFree_pair {α β : Type*} {hash : α → β} {a b : α} (hne : hash a ≠ hash b) :
    CollisionFree hash (· ∈ [a, b]) := by
  intro x y hx hy hxy
  simp only [List.mem_cons, List.not_mem_nil, or_false] at hx hy
  rcases hx with rfl | rfl <;> rcases hy with rfl | rfl
  · rfl
  · exact absurd hxy hne
  · exact absurd hxy.symm hne
  · rfl

lemma CollisionFree.mono {α β : Type*} {hash : α → β} {S T : α → Prop}
    (h : CollisionFree hash T) (hST : ∀ x, S x → T x) : CollisionFree hash S :=
  fun x y hx hy => h x y (hST x hx) (hST y hy)

/-! ## HMAC and PBKDF2 -/

/-- The key of HMAC brought to the block length of the hash. -/
def hmacKey (key : Bytes) : Bytes :=
  let k := if 64 < key.length then sha256 key else key
  k ++ List.replicate (64 - k.length) 0

/-- HMAC-SHA256. -/
def hmacSha256 (key msg : Bytes) : Bytes :=
  let k := hmacKey key
  sha256 (k.map (· ^^^ 0x5c) ++ sha256 (k.map (· ^^^ 0x36) ++ msg))

/-- The remaining `n` iterations of one PBKDF2 block, from the last pseudorandom value and
the running exclusive or. -/
def pbkdf2Iterate (password : Bytes) : ℕ → Bytes → Bytes → Bytes
  | 0, _, acc => acc
  | n + 1, last, acc =>
    let next := hmacSha256 password last
    pbkdf2Iterate password n next (List.zipWith (· ^^^ ·) acc next)

/-- Block `i` of PBKDF2-HMAC-SHA256. -/
def pbkdf2Block (password salt : Bytes) (iterations i : ℕ) : Bytes :=
  let first := hmacSha256 password (salt ++ beBytes 4 i)
  pbkdf2Iterate password (iterations - 1) first first

/-- PBKDF2-HMAC-SHA256 with an output of `dklen` bytes. -/
def pbkdf2HmacSha256 (password salt : Bytes) (iterations dklen : ℕ) : Bytes :=
  ((List.range ((dklen + 31) / 32)).flatMap fun i =>
    pbkdf2Block password salt iterations (i + 1)).take dklen

lemma length_hmacSha256 (key msg : Bytes) : (hmacSha256 key msg).length = 32 :=
  length_sha256 _

lemma length_pbkdf2Iterate (password : Bytes) (n : ℕ) (last acc : Bytes)
    (h : acc.length = 32) : (pbkdf2Iterate password n last acc).length = 32 := by
  induction n generalizing last acc with
  | zero => exact h
  | succ n ih =>
    rw [pbkdf2Iterate]
    exact ih _ _ (by rw [List.length_zipWith, h, length_hmacSha256, Nat.min_self])

lemma length_pbkdf2Block (password salt : Bytes) (iterations i : ℕ) :
    (pbkdf2Block password salt iterations i).length = 32 :=
  length_pbkdf2Iterate _ _ _ _ (length_hmacSha256 _ _)

lemma length_pbkdf2HmacSha256 (password salt : Bytes) (iterations dklen : ℕ) :
    (pbkdf2HmacSha256 password salt iterations dklen).length = dklen := by
  rw [pbkdf2HmacSha256, List.length_take, List.length_flatMap]
  simp only [length_pbkdf2Block, List.map_const', List.length_range, List.sum_replicate,
    Nat.nsmul_eq_mul]
  omega

-- Clients argue from the length lemmas; unfolding a hash in a proof is never what is wanted.
attribute [irreducible] sha256 hmacSha256 pbkdf2HmacSha256

end Lib
