import DistriStore.Network.Protocol

/-!
# Values in the columns of a table (`backend/storage/db.py`)

`sqlite3` binds `None`, Booleans, integers of 64 bits, floats, strings and bytes, and raises for all
other values.  What is stored then depends on the affinity of the column: a TEXT column makes a text
of a number, and an INTEGER or REAL column makes a number of a text that is a numeric literal.  NaN
is stored as NULL.

How SQLite writes and reads numbers as texts, and how it rounds, are parameters (`SqlNumbers`).
Whatever they are, a value comes back equal just when `Keeps` says so (`keeps_iff`).
-/

namespace DistriStore

/-! ## Storing -/

/-- The type that a column was declared with. -/
inductive Affinity where
  | text
  | integer
  | real
  deriving DecidableEq, Repr

/-- A REAL; there is no NaN among them. -/
inductive SqlReal where
  | finite (x : ℚ)
  | inf (negative : Bool)

/-- How SQLite converts numbers. -/
structure SqlNumbers where
  /-- The number as which a column of this affinity takes a text, if the text is a literal. -/
  literal : Affinity → String → Option SqlReal
  /-- The text of a REAL. -/
  render : SqlReal → String
  /-- The REAL nearest to an integer. -/
  nearest : ℤ → ℚ

/-- The integers that can be bound. -/
def IsInt64 (n : ℤ) : Prop := -2 ^ 63 ≤ n ∧ n < 2 ^ 63

instance : DecidablePred IsInt64 := fun _ => inferInstanceAs (Decidable (_ ∧ _))

/-- `a == b`, for values that are equal to themselves and have a hash. -/
def Value.Same (a b : Value) : Prop := ∃ k, a.key? = some k ∧ b.key? = some k

namespace SqlNumbers

variable (sql : SqlNumbers)

def storeInt (col : Affinity) (n : ℤ) : Value :=
  match col with
  | .text => .str (toString n)
  | .integer => .int n
  | .real => .float (sql.nearest n)

def storeReal (col : Affinity) (r : SqlReal) : Value :=
  match col, r with
  | .text, r => .str (sql.render r)
  -- a REAL without a fraction becomes an INTEGER
  | .integer, .finite x => if x.den = 1 ∧ IsInt64 x.num then .int x.num else .float x
  | .real, .finite x => .float x
  | _, .inf negative => .inf negative

def storeText (col : Affinity) (s : String) : Value :=
  if col = .text then .str s
  else
    match sql.literal col s with
    | some r => sql.storeReal col r
    | none => .str s

/-- What a column holds of a value that is written to it, and gives back; `none` when the value
cannot be bound. -/
def store (col : Affinity) : Value → Option Value
  | .nil => some .nil
  | .bool b => some (sql.storeInt col (if b then 1 else 0))
  | .int n => if IsInt64 n then some (sql.storeInt col n) else none
  | .float x => some (sql.storeReal col (.finite x))
  | .inf negative => some (sql.storeReal col (.inf negative))
  | .nan _ => some .nil
  | .str s => some (sql.storeText col s)
  | .bytes b => some (.bytes b)
  | .array _ => none
  | .dict _ => none
  | .ext _ _ => none
  | .timestamp _ _ => none

/-! ## Stored values -/

/-- A value that a column of this affinity can hold. -/
structure Stored (sql : SqlNumbers) (col : Affinity) where
  value : Value
  /-- It stays what it is when it is written again. -/
  stored : sql.store col value = some value

variable {sql} {col : Affinity} {v w : Value}

lemma store_storeReal (r : SqlReal) :
    sql.store col (sql.storeReal col r) = some (sql.storeReal col r) := by
  cases col with
  | text => rfl
  | integer =>
    cases r with
    | inf negative => rfl
    | finite x =>
      unfold storeReal
      dsimp only
      by_cases hx : x.den = 1 ∧ IsInt64 x.num
      · rw [if_pos hx]
        exact if_pos hx.2
      · rw [if_neg hx]
        exact congrArg some (if_neg hx)
  | real => cases r <;> rfl

/-- What a column holds it takes as it is. -/
lemma store_store (h : sql.store col v = some w) : sql.store col w = some w := by
  have hint (n : ℤ) (hn : IsInt64 n) :
      sql.store col (sql.storeInt col n) = some (sql.storeInt col n) := by
    cases col with
    | text => rfl
    | integer => exact if_pos hn
    | real => rfl
  cases v with
  | bool b =>
    obtain rfl := Option.some.inj h
    exact hint _ (by cases b <;> decide)
  | int n =>
    obtain ⟨hn, h⟩ := Option.ite_none_right_eq_some.1 h
    exact Option.some.inj h ▸ hint n hn
  | float x =>
    obtain rfl := Option.some.inj h
    exact store_storeReal _
  | inf negative =>
    obtain rfl := Option.some.inj h
    exact store_storeReal _
  | str s =>
    obtain rfl := Option.some.inj h
    unfold storeText
    by_cases hcol : col = .text
    · rw [if_pos hcol]
      simp [store, storeText, hcol]
    · rw [if_neg hcol]
      cases hliteral : sql.literal col s with
      | some r => exact store_storeReal r
      | none => simp [store, storeText, hcol, hliteral]
  | nil => exact Option.some.inj h ▸ rfl
  | nan object => exact Option.some.inj h ▸ rfl
  | bytes b => exact Option.some.inj h ▸ rfl
  | array items => cases h
  | dict fields => cases h
  | ext code data => cases h
  | timestamp seconds nanoseconds => cases h

variable (sql) in
/-- Write a value to a column. -/
def write (col : Affinity) (v : Value) : Option (Stored sql col) :=
  (sql.store col v).pmap (fun w h => ⟨w, h⟩) fun _ h => store_store h

lemma write_eq_some {x : Stored sql col} :
    sql.write col v = some x ↔ sql.store col v = some x.value := by
  unfold write
  rw [Option.pmap_eq_some_iff]
  constructor
  · rintro ⟨w, -, hw, rfl⟩
    exact hw
  · intro h
    exact ⟨x.value, x.stored, h, rfl⟩

@[simp] lemma write_value (x : Stored sql col) : sql.write col x.value = some x :=
  write_eq_some.2 x.stored

/-! ## What comes back equal -/

variable (sql) in
/-- The column gives an integer back as an equal number. -/
def KeepsInt (col : Affinity) (n : ℤ) : Prop :=
  col = .integer ∨ col = .real ∧ sql.nearest n = n

variable (sql) in
/-- The column gives the value back as an equal one: a number is not written to a TEXT column, a
text that is a numeric literal only there, an integer has 64 bits, and in a REAL column a float that
is equal to it. -/
def Keeps (col : Affinity) : Value → Prop
  | .nil => True
  | .bool b => sql.KeepsInt col (if b then 1 else 0)
  | .int n => IsInt64 n ∧ sql.KeepsInt col n
  | .float _ => col ≠ .text
  | .inf _ => col ≠ .text
  | .str s => col = .text ∨ sql.literal col s = none
  | .bytes _ => True
  | _ => False

lemma same_storeReal_iff (r : SqlReal) {k : Key}
    (hk : k = match r with | .finite x => .number x | .inf negative => .inf negative) :
    (sql.storeReal col r).key? = some k ↔ col ≠ .text := by
  subst hk
  cases col with
  | text => cases r <;> simp [storeReal, Value.key?]
  | integer =>
    cases r with
    | inf negative => simp [storeReal, Value.key?]
    | finite x =>
      unfold storeReal
      dsimp only
      by_cases hx : x.den = 1 ∧ IsInt64 x.num
      · rw [if_pos hx]
        simp [Value.key?, Rat.den_eq_one_iff x |>.1 hx.1]
      · rw [if_neg hx]
        simp [Value.key?]
  | real => cases r <;> simp [storeReal, Value.key?]

lemma key?_storeInt_iff (n : ℤ) :
    (sql.storeInt col n).key? = some (.number n) ↔ sql.KeepsInt col n := by
  cases col <;> simp [storeInt, KeepsInt, Value.key?]

lemma key?_storeText_iff (s : String) :
    (sql.storeText col s).key? = some (.str s) ↔ col = .text ∨ sql.literal col s = none := by
  unfold storeText
  by_cases hcol : col = .text
  · simp [hcol, Value.key?]
  · rw [if_neg hcol, or_iff_right hcol]
    cases hliteral : sql.literal col s with
    | none => simp [Value.key?]
    | some r =>
      -- a number is no text
      refine iff_of_false ?_ (by simp)
      cases col with
      | text => exact absurd rfl hcol
      | integer =>
        cases r with
        | inf negative => simp [storeReal, Value.key?]
        | finite x =>
          simp only [storeReal]
          split <;> simp [Value.key?]
      | real => cases r <;> simp [storeReal, Value.key?]

/-- **A value comes back equal exactly when its column keeps it.** -/
theorem keeps_iff : sql.Keeps col v ↔ ∃ w, sql.store col v = some w ∧ v.Same w := by
  have hsome (k : Key) (w : Value) (hv : v.key? = some k) (hw : sql.store col v = some w) :
      (∃ w, sql.store col v = some w ∧ v.Same w) ↔ w.key? = some k := by
    constructor
    · rintro ⟨w', hw', k', hk', hsame⟩
      obtain rfl := Option.some.inj (hw.symm.trans hw')
      obtain rfl := Option.some.inj (hv.symm.trans hk')
      exact hsame
    · exact fun h => ⟨w, hw, k, hv, h⟩
  cases v with
  | nil => exact iff_of_true trivial ⟨.nil, rfl, .none, rfl, rfl⟩
  | bool b =>
    have hkey : (if b then 1 else 0 : ℚ) = ((if b then 1 else 0 : ℤ) : ℚ) := by cases b <;> rfl
    rw [hsome (.number (if b then 1 else 0)) _ rfl rfl, hkey, key?_storeInt_iff]
    rfl
  | int n =>
    by_cases hn : IsInt64 n
    · rw [hsome (.number n) (sql.storeInt col n) rfl (if_pos hn), key?_storeInt_iff]
      exact and_iff_right hn
    · refine iff_of_false (fun h => hn h.1) ?_
      rintro ⟨w, hw, -⟩
      rw [store, if_neg hn] at hw
      cases hw
  | float x => rw [hsome (.number x) _ rfl rfl, same_storeReal_iff _ rfl]; rfl
  | inf negative => rw [hsome (.inf negative) _ rfl rfl, same_storeReal_iff _ rfl]; rfl
  | nan object => rw [hsome (.nan object) _ rfl rfl]; simp [Keeps, Value.key?]
  | str s => rw [hsome (.str s) _ rfl rfl, key?_storeText_iff]; rfl
  | bytes b => exact iff_of_true trivial ⟨.bytes b, rfl, .bytes b, rfl, rfl⟩
  | array items => exact iff_of_false id (by simp [store])
  | dict fields => exact iff_of_false id (by simp [store])
  | ext code data => exact iff_of_false id (by simp [store])
  | timestamp seconds nanoseconds => exact iff_of_false id (by simp [store])

lemma exists_write_of_keeps (h : sql.Keeps col v) :
    ∃ x : Stored sql col, sql.write col v = some x ∧ v.Same x.value := by
  obtain ⟨w, hw, hsame⟩ := keeps_iff.1 h
  exact ⟨⟨w, store_store hw⟩, write_eq_some.2 hw, hsame⟩

lemma keeps_value (x : Stored sql col) : sql.Keeps col x.value := by
  have hstored := x.stored
  have hkey : ∃ k, x.value.key? = some k := by
    cases hv : x.value <;> rw [hv] at hstored
    all_goals first
      | exact ⟨_, rfl⟩
      | cases hstored
  obtain ⟨k, hk⟩ := hkey
  exact keeps_iff.2 ⟨_, hstored, k, hk, hk⟩

end SqlNumbers

end DistriStore
