import DistriStore.Lib.Dict
import DistriStore.Lib.SortBy
import DistriStore.Python
import Mathlib.Data.Int.Bitwise

/-!
# XOR routing (`backend/dht/routing.py`)

Node ids and chunk hashes are read as hexadecimal numbers, as `int(x, 16)` does, and peers are
ordered by the exclusive or of the two numbers.  The routing table lists, for each chunk, the
peers that are believed to hold it.
-/

namespace DistriStore

open Lib

/-! ## `int(x, 16)` -/

/-- Characters that `int` skips at both ends. -/
def isPySpace (c : Char) : Bool :=
  c.toNat ∈ [0x20, 0x85, 0xa0, 0x1680, 0x2028, 0x2029, 0x202f, 0x205f, 0x3000] ||
    (0x09 ≤ c.toNat && c.toNat ≤ 0x0d) || (0x2000 ≤ c.toNat && c.toNat ≤ 0x200a)

/-- The digits zero of Unicode 14 outside ASCII; after each come the other nine digits. -/
def decimalZeros : List ℕ :=
  [0x660, 0x6f0, 0x7c0, 0x966, 0x9e6, 0xa66, 0xae6, 0xb66, 0xbe6, 0xc66, 0xce6, 0xd66, 0xde6,
   0xe50, 0xed0, 0xf20, 0x1040, 0x1090, 0x17e0, 0x1810, 0x1946, 0x19d0, 0x1a80, 0x1a90, 0x1b50,
   0x1bb0, 0x1c40, 0x1c50, 0xa620, 0xa8d0, 0xa900, 0xa9d0, 0xa9f0, 0xaa50, 0xabf0, 0xff10,
   0x104a0, 0x10d30, 0x11066, 0x110f0, 0x11136, 0x111d0, 0x112f0, 0x11450, 0x114d0, 0x11650,
   0x116c0, 0x11730, 0x118e0, 0x11950, 0x11c50, 0x11d50, 0x11da0, 0x16a60, 0x16ac0, 0x16b50,
   0x1d7ce, 0x1d7d8, 0x1d7e2, 0x1d7ec, 0x1d7f6, 0x1e140, 0x1e2f0, 0x1e950, 0x1fbf0]

/-- `int` reads every decimal digit as the ASCII one. -/
def asciiDigit (c : Char) : Char :=
  if c.toNat < 128 then c
  else
    match decimalZeros.find? fun base => base ≤ c.toNat && c.toNat ≤ base + 9 with
    | some base => Char.ofNat ('0'.toNat + (c.toNat - base))
    | none => c

/-- The value of a hexadecimal digit. -/
def hexDigitValue (c : Char) : Option ℕ :=
  if '0' ≤ c ∧ c ≤ '9' then some (c.toNat - '0'.toNat)
  else if 'a' ≤ c ∧ c ≤ 'f' then some (c.toNat - 'a'.toNat + 10)
  else if 'A' ≤ c ∧ c ≤ 'F' then some (c.toNat - 'A'.toNat + 10)
  else none

/-- Further digits after the first, with single underscores between digits. -/
def parseMoreDigits (acc : ℕ) : List Char → Option ℕ
  | [] => some acc
  | '_' :: c :: rest => (hexDigitValue c).bind fun d => parseMoreDigits (16 * acc + d) rest
  | c :: rest => (hexDigitValue c).bind fun d => parseMoreDigits (16 * acc + d) rest

/-- A run of at least one digit. -/
def parseDigits : List Char → Option ℕ
  | [] => none
  | c :: rest => (hexDigitValue c).bind fun d => parseMoreDigits d rest

/-- Digits after an optional `0x`. -/
def parseUnsigned : List Char → Option ℕ
  | '0' :: 'x' :: '_' :: rest => parseDigits rest
  | '0' :: 'X' :: '_' :: rest => parseDigits rest
  | '0' :: 'x' :: rest => parseDigits rest
  | '0' :: 'X' :: rest => parseDigits rest
  | cs => parseDigits cs

/-- `int(s, 16)`; `none` is a `ValueError`. -/
def parseInt16 (s : String) : Option ℤ :=
  let cs := s.toList.map asciiDigit
  let cs := ((cs.dropWhile isPySpace).reverse.dropWhile isPySpace).reverse
  match cs with
  | '-' :: rest => (parseUnsigned rest).map fun n => -(n : ℤ)
  | '+' :: rest => (parseUnsigned rest).map fun n => (n : ℤ)
  | _ => (parseUnsigned cs).map fun n => (n : ℤ)

/-! ## Distances -/

/-- Calculate XOR distance between two hex-encoded IDs. -/
def xorDistance (idA idB : String) : Option ℤ := do
  let intA ← parseInt16 idA
  let intB ← parseInt16 idB
  return Int.xor intA intB

/-- `distances[:k]`: the ids with their distances, sorted and cut off; ids that are not numbers are
skipped. -/
def closestEntries (targetHash : String) (peerIds : List String) (k : ℕ) : List (String × ℤ) :=
  let distances := peerIds.filterMap fun pid => (xorDistance targetHash pid).map fun d => (pid, d)
  (sortBy Prod.snd distances).take k

/-- `sys.int_info.default_max_str_digits`. -/
def maxStrDigits : ℕ := 4300

/-- `str(d)` has no more digits than that. -/
def Printable (d : ℤ) : Prop := d.natAbs < 10 ^ maxStrDigits

instance : DecidablePred Printable := fun d =>
  inferInstanceAs (Decidable (d.natAbs < 10 ^ maxStrDigits))

/-- What `str(d)` raises otherwise. -/
def tooManyDigits : PyError :=
  .valueError ("Exceeds the limit (4300 digits) for integer string conversion; " ++
    "use sys.set_int_max_str_digits() to increase the limit")

/-- Find the k closest peers to a target hash by XOR distance. -/
def findClosestPeers (targetHash : String) (peerIds : List String) (k : ℕ) :
    Except PyError (List (String × ℤ)) :=
  if peerIds = [] then .ok []
  else
    let result := closestEntries targetHash peerIds k
    -- the text of the log line is put together whether it is logged or not
    if ∀ e ∈ result, Printable e.2 then .ok result else .error tooManyDigits

lemma findClosestPeers_eq_ok {targetHash : String} {peerIds : List String} {k : ℕ}
    {es : List (String × ℤ)} : findClosestPeers targetHash peerIds k = .ok es ↔
      es = closestEntries targetHash peerIds k ∧
        ∀ e ∈ closestEntries targetHash peerIds k, Printable e.2 := by
  unfold findClosestPeers
  by_cases hnil : peerIds = []
  · rw [if_pos hnil, Except.ok.injEq, hnil]
    simp [closestEntries, eq_comm]
  · rw [if_neg hnil]
    dsimp only
    split
    · next h => rw [Except.ok.injEq, eq_comm, and_iff_left h]
    · next h => exact iff_of_false (by simp) fun h' => h h'.2

lemma mem_closestEntries {targetHash : String} {peerIds : List String} {k : ℕ}
    {p : String × ℤ} (h : p ∈ closestEntries targetHash peerIds k) : p.1 ∈ peerIds := by
  have hmem := (mem_sortBy Prod.snd).1 (List.mem_of_mem_take h)
  obtain ⟨pid, hpid, heq⟩ := List.mem_filterMap.1 hmem
  obtain ⟨d, -, rfl⟩ := Option.map_eq_some_iff.1 heq
  exact hpid

/-- A peer whose distance is known is closest, or another one is. -/
lemma closestEntries_ne_nil {targetHash pid : String} {peerIds : List String} {k : ℕ}
    (hmem : pid ∈ peerIds) (hd : (xorDistance targetHash pid).isSome = true) (hk : k ≠ 0) :
    closestEntries targetHash peerIds k ≠ [] := by
  obtain ⟨d, hd⟩ := Option.isSome_iff_exists.1 hd
  have hfound : (pid, d) ∈ peerIds.filterMap fun pid =>
      (xorDistance targetHash pid).map fun d => (pid, d) :=
    List.mem_filterMap.2 ⟨pid, hmem, by rw [hd, Option.map_some]⟩
  intro hnil
  rcases List.take_eq_nil_iff.1 hnil with hzero | hempty
  · exact hk hzero
  · exact List.ne_nil_of_mem ((mem_sortBy Prod.snd).2 hfound) hempty

/-! ## Routing table -/

/-- In-memory routing table mapping a chunk hash to a list of peer IDs. -/
structure RoutingTable where
  table : Dict String (List String)

instance : EmptyCollection RoutingTable := ⟨⟨∅⟩⟩

namespace RoutingTable

/-- Record which peers hold a specific chunk. -/
def assignChunk (rt : RoutingTable) (chunkHash : String) (peerIds : List String) : RoutingTable :=
  ⟨rt.table.set chunkHash peerIds⟩

/-- Get the list of peers holding a chunk. -/
def getHolders (rt : RoutingTable) (chunkHash : String) : List String :=
  (rt.table.get? chunkHash).getD []

/-- Return a copy of the full routing table. -/
def getAll (rt : RoutingTable) : List (String × List String) := rt.table.entries

@[simp] lemma getHolders_empty (c : String) : (∅ : RoutingTable).getHolders c = [] := rfl

lemma getHolders_assignChunk (rt : RoutingTable) (c c' : String) (ids : List String) :
    (rt.assignChunk c ids).getHolders c' = if c' = c then ids else rt.getHolders c' := by
  unfold getHolders assignChunk
  rw [Dict.get?_set]
  by_cases h : c' = c
  · rw [if_pos h, if_pos h]
    rfl
  · rw [if_neg h, if_neg h]

lemma getHolders_of_mem_getAll {rt : RoutingTable} {c : String} {ids : List String}
    (h : (c, ids) ∈ rt.getAll) : rt.getHolders c = ids := by
  unfold getHolders
  rw [Dict.get?_of_mem_entries h]
  rfl

end RoutingTable

end DistriStore
