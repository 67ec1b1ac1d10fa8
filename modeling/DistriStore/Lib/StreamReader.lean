import Mathlib.Data.List.Basic
import Mathlib.Tactic.Lemma

/-!
# Reading a stream that arrives in fragments

A reader holds what has arrived and not been read yet; the rest of the stream is still to arrive,
in fragments, and then the stream ends.  `readexactly` takes the next `n` elements, waiting for
fragments until there are enough; when the stream ends before that, it fails and drops what it
has.  Where the stream was cut does not matter: `readexactly_of_le` and `readexactly_of_lt` speak
of the elements that are left only.
-/

namespace Lib

variable {α : Type*}

/-- The elements that have arrived, and the fragments in which the others will. -/
structure StreamReader (α : Type*) where
  buffer : List α
  incoming : List (List α)

namespace StreamReader

/-- All that is left to read. -/
def unread (r : StreamReader α) : List α := r.buffer ++ r.incoming.flatten

/-- The next `n` elements; `none` when the stream ends before. -/
def readexactly (n : ℕ) (buffer : List α) : List (List α) → Option (List α) × StreamReader α
  | [] =>
    if n ≤ buffer.length then (some (buffer.take n), ⟨buffer.drop n, []⟩)
    else (none, ⟨[], []⟩)
  | fragment :: rest =>
    if n ≤ buffer.length then (some (buffer.take n), ⟨buffer.drop n, fragment :: rest⟩)
    else readexactly n (buffer ++ fragment) rest

/-- `readexactly` as a method of the reader. -/
def read (n : ℕ) (r : StreamReader α) : Option (List α) × StreamReader α :=
  readexactly n r.buffer r.incoming

lemma readexactly_of_le (n : ℕ) (buffer : List α) (incoming : List (List α))
    (h : n ≤ (buffer ++ incoming.flatten).length) :
    ∃ r', readexactly n buffer incoming = (some ((buffer ++ incoming.flatten).take n), r') ∧
      r'.unread = (buffer ++ incoming.flatten).drop n := by
  induction incoming generalizing buffer with
  | nil =>
    simp only [List.flatten_nil, List.append_nil] at h ⊢
    exact ⟨⟨buffer.drop n, []⟩, by rw [readexactly, if_pos h], by simp [unread]⟩
  | cons fragment rest ih =>
    rw [readexactly]
    by_cases hn : n ≤ buffer.length
    · refine ⟨⟨buffer.drop n, fragment :: rest⟩, ?_, ?_⟩
      · rw [if_pos hn, List.take_append_of_le_length hn]
      · rw [List.drop_append_of_le_length hn, unread]
    · rw [if_neg hn]
      rw [List.flatten_cons, ← List.append_assoc] at h ⊢
      exact ih (buffer ++ fragment) h

lemma readexactly_of_lt (n : ℕ) (buffer : List α) (incoming : List (List α))
    (h : (buffer ++ incoming.flatten).length < n) :
    readexactly n buffer incoming = (none, ⟨[], []⟩) := by
  induction incoming generalizing buffer with
  | nil =>
    simp only [List.flatten_nil, List.append_nil] at h
    rw [readexactly, if_neg (by omega)]
  | cons fragment rest ih =>
    rw [List.flatten_cons, ← List.append_assoc] at h
    have hn : ¬ n ≤ buffer.length := by
      simp only [List.length_append] at h
      omega
    rw [readexactly, if_neg hn]
    exact ih (buffer ++ fragment) h

/-- **Reading what is there.** -/
theorem read_of_unread_eq {r : StreamReader α} {xs rest : List α} (h : r.unread = xs ++ rest) :
    ∃ r', r.read xs.length = (some xs, r') ∧ r'.unread = rest := by
  have hle : xs.length ≤ (r.buffer ++ r.incoming.flatten).length := by
    rw [← unread, h, List.length_append]
    omega
  obtain ⟨r', hread, hunread⟩ := readexactly_of_le xs.length r.buffer r.incoming hle
  rw [← unread, h] at hread hunread
  exact ⟨r', by rw [read, hread, List.take_left], by rw [hunread, List.drop_left]⟩

/-- **Reading past the end.** -/
theorem read_of_length_lt {r : StreamReader α} {n : ℕ} (h : r.unread.length < n) :
    r.read n = (none, ⟨[], []⟩) := readexactly_of_lt n r.buffer r.incoming h

@[simp] lemma unread_nil : (⟨[], []⟩ : StreamReader α).unread = [] := rfl

end StreamReader

end Lib
