import Mathlib.Data.List.Forall2
import Mathlib.Data.List.Infix
import Mathlib.Tactic.Lemma

/-!
# The Python fragment the node is written in

Exceptions as values of `PyError`, the truth value of an optional string, and string slices and
searches as the error messages use them.  A function that can raise returns `Except PyError`.
-/

namespace DistriStore

/-- The exceptions that the modelled functions raise, with their texts. -/
inductive PyError where
  | valueError (msg : String)
  /-- `zstandard.ZstdError`; it is not a `ValueError`. -/
  | zstdError (msg : String)
  | keyError (key : String)
  | fileNotFoundError (msg : String)
  | httpException (statusCode : ℕ) (detail : String)
  | overflowError
  /-- An operation of the file system that fails. -/
  | osError
  /-- An operation on a value of a type that does not support it. -/
  | typeError
  /-- A method called on a value of a type that does not have it. -/
  | attributeError (method : String)
  deriving DecidableEq, Repr

/-- `if password:` on an optional string: neither `None` nor the empty string. -/
def truthy : Option String → Bool
  | none => false
  | some s => s ≠ ""

/-- `s[:n]`. -/
def strTake (n : ℕ) (s : String) : String := String.ofList (s.toList.take n)

/-- `needle in s`. -/
def strContains (needle s : String) : Bool := decide (needle.toList <:+: s.toList)

lemma truthy_iff {p : Option String} : truthy p = true ↔ ∃ s, p = some s ∧ s ≠ "" := by
  cases p <;> simp [truthy]

@[simp] lemma truthy_none : truthy none = false := rfl

/-! ## Computations that succeed -/

lemma bind_eq_ok {ε α β : Type} {x : Except ε α} {f : α → Except ε β} {b : β} :
    (x >>= f) = .ok b ↔ ∃ a, x = .ok a ∧ f a = .ok b := by
  cases x with
  | error e => simp [bind, Except.bind]
  | ok a => simp [bind, Except.bind]

/-- `if c: raise e` in front of a computation that succeeds. -/
lemma raise_eq_ok {ε α β : Type} {c : Prop} [Decidable c] {e : ε} {f : β → Except ε α}
    {x : Except ε α} {a : α} : (if c then .error e >>= f else x) = .ok a ↔ ¬ c ∧ x = .ok a := by
  by_cases h : c
  · simp [h, bind, Except.bind]
  · simp [h]

/-- A comprehension over calls that all succeed. -/
lemma mapM_of_forall₂ {ε α β : Type} {f : α → Except ε β} {l : List α} {bs : List β}
    (h : List.Forall₂ (fun a b => f a = .ok b) l bs) : l.mapM f = .ok bs := by
  induction h with
  | nil => rfl
  | cons ha _ ih =>
    rw [List.mapM_cons, ha, ih]
    rfl

end DistriStore
