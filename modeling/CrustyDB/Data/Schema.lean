import CrustyDB.Data.Value

/-! # Schemas, and fields from text

`DataType`, `Attribute` and `TableSchema` describe the columns of a table.  The functions of this
file read a field from a text: `Field.fromStr` for a record of a CSV file, which knows the column,
and its parts for the literals of a statement.

Arithmetic on `i64` and `u32` panics when it leaves its type. -/

namespace CrustyDB

/-! ### Columns -/

/-- The types of columns. -/
inductive DataType where
  | bigInt | int | smallInt
  | char (len : UInt8)
  | string
  | decimal (precision scale : UInt32)
  | date | bool | null
deriving DecidableEq, Repr

inductive Constraint where
  | none | primaryKey | unique | notNull | uniqueNotNull
  | foreignKey (c : ContainerId)
  | notNullFKey (c : ContainerId)
deriving DecidableEq, Repr

/-- A column. -/
structure Attribute where
  name : String
  dtype : DataType
  constraint : Constraint
deriving DecidableEq, Repr

structure TableSchema where
  attributes : List Attribute
deriving DecidableEq, Repr

/-- The position of the first column of that name. -/
def TableSchema.getFieldIndex (schema : TableSchema) (name : String) : Option ℕ :=
  schema.attributes.findIdx? (fun attr => attr.name == name)

/-- The constraints that forbid `NULL`. -/
def Constraint.forbidsNull : Constraint → Bool
  | notNull | uniqueNotNull | primaryKey | notNullFKey _ => true
  | none | unique | foreignKey _ => false

namespace Field

/-- The field is a value of the type.  The precision and the scale of a decimal column do not
matter: a stored decimal carries its own scale. -/
def ofType : Field → DataType → Bool
  | bigInt _, .bigInt | int _, .int | smallInt _, .smallInt | string _, .string
  | decimal _ _, .decimal _ _ | date _, .date | bool _, .bool => true
  | char len _, .char n => len == n
  | _, _ => false

/-- The field may stand in a column of the type. -/
def Fits (f : Field) (dtype : DataType) : Prop := f = null ∨ f.ofType dtype = true

instance (f : Field) (dtype : DataType) : Decidable (f.Fits dtype) :=
  inferInstanceAs (Decidable (_ ∨ _))

/-! ### Numbers -/

/-- Digits, at least one. -/
def parseDigits (cs : List Char) : Option ℕ :=
  if cs ≠ [] ∧ cs.all Char.isDigit then
    some (cs.foldl (fun n c => 10 * n + (c.toNat - '0'.toNat)) 0)
  else none

/-- An integer of `w` bits: an optional sign and digits. -/
def parseInt (w : ℕ) (s : String) : Option ℤ :=
  let value : Option ℤ :=
    match s.toList with
    | '-' :: cs => (parseDigits cs).map (fun n => -(n : ℤ))
    | '+' :: cs => (parseDigits cs).map (fun n => (n : ℤ))
    | cs => (parseDigits cs).map (fun n => (n : ℤ))
  value.filter (fun v => -2 ^ (w - 1) ≤ v && v < 2 ^ (w - 1))

/-- Why a text is no field. -/
inductive FromStrError where
  | validation (msg : String)
  | panic (p : Panic)
deriving DecidableEq, Repr

def parseIntFromStr (w : ℕ) (input : String) : Except FromStrError ℤ :=
  match parseInt w input with
  | some v => .ok v
  | none => .error (.validation s!"Invalid int field {input}")

/-- The result of an operation on `i64`. -/
def checkI64 (v : ℤ) : Except FromStrError ℤ :=
  if -2 ^ 63 ≤ v ∧ v < 2 ^ 63 then .ok v else .error (.panic .overflow)

/-- `10i64.pow(n)` -/
def pow10 (n : ℕ) : Except FromStrError ℤ :=
  if n < 19 then .ok (10 ^ n) else .error (.panic .overflow)

/-- Subtraction of two `u32` values. -/
def subU32 (a b : UInt32) : Except FromStrError ℕ :=
  if b ≤ a then .ok (a.toNat - b.toNat) else .error (.panic .overflow)

/-- The parts of a text between its dots. -/
def splitDots (s : String) : List String := (s.toList.splitOn '.').map String.ofList

def parseI64 (field part : String) : Except FromStrError ℤ :=
  match parseInt 64 part with
  | some v => .ok v
  | none => .error (.validation s!"Invalid decimal field {field}")

/-- The digits behind the dot, scaled up to `s` digits. -/
def adjustedFractional (field part : String) (p s : UInt32) : Except FromStrError ℤ :=
  let invalid := FromStrError.validation s!"Invalid decimal field scale {field}. Expected {p} found {s}"
  do
    let fractional ← parseI64 field part
    if fractional < 0 then throw invalid
    else do
      let bound ← pow10 s.toNat
      if bound ≤ fractional then throw invalid
      else do
        let digits ← subU32 s (UInt32.ofNat part.utf8ByteSize)
        let factor ← pow10 digits
        checkI64 (fractional * factor)

/-- The decimal with an integral and a scaled fractional part. -/
def decimalOf (integer fractional : ℤ) (s : UInt32) : Except FromStrError Field := do
  let unit ← pow10 s.toNat
  let scaled ← checkI64 (integer * unit)
  let whole ← checkI64 (if integer < 0 then scaled - fractional else scaled + fractional)
  pure (decimal (Int64.ofInt whole) s)

def fromStrToDecimal (field : String) (p s : UInt32) : Except FromStrError Field :=
  let parts := splitDots field
  if 2 < parts.length then throw (.validation s!"Invalid decimal field {field}")
  else do
    let integer ← parseI64 field (parts.headD "")
    let magnitude ← checkI64 |integer|
    let digits ← subU32 p s
    let bound ← pow10 digits
    if bound ≤ magnitude then
      throw (.validation s!"Invalid decimal field precision {field}. Expected {p} found {s}")
    else
      match parts with
      | [_, part] => do
        let fractional ← adjustedFractional field part p s
        decimalOf integer fractional s
      | _ => decimalOf integer 0 s

/-! ### The other types -/

def fromStrToChar (field : String) (length : UInt8) : Except FromStrError Field :=
  if length.toNat < field.utf8ByteSize then .error (.validation s!"Invalid char field {field}")
  else .ok (char length field)

def fromStrToString (field : String) : Except FromStrError Field := .ok (string field)

/-- Dates are read by the calendar library, as days since 1970-01-01. -/
def fromStrToDate (parseDate : String → Option Int64) (field : String) : Except FromStrError Field :=
  match parseDate field with
  | some days => .ok (date days)
  | none => .error (.validation s!"Invalid date field {field}")

def fromStrToBool (field : String) : Except FromStrError Field :=
  if field = "true" then .ok (bool true)
  else if field = "false" then .ok (bool false)
  else .error (.validation s!"Invalid bool field {field}")

def nullString : String := "NULL"

def fromStrToNull (field : String) : Except FromStrError Field :=
  if field = nullString then .ok null else .error (.validation s!"Invalid null field {field}")

/-- The field that a text stands for in a column. -/
def fromStr (parseDate : String → Option Int64) (field : String) (attr : Attribute) :
    Except FromStrError Field :=
  if field = nullString then fromStrToNull field
  else
    match attr.dtype with
    | .int => (parseIntFromStr 32 field).map (fun v => int (Int32.ofInt v))
    | .bigInt => (parseIntFromStr 64 field).map (fun v => bigInt (Int64.ofInt v))
    | .smallInt => (parseIntFromStr 16 field).map (fun v => smallInt (Int16.ofInt v))
    | .char len => fromStrToChar field len
    | .string => fromStrToString field
    | .decimal p s => fromStrToDecimal field p s
    | .date => fromStrToDate parseDate field
    | .bool => fromStrToBool field
    | .null => fromStrToNull field

/-! ### What is read has the type of its column -/

variable {f : Field}

theorem decimalOf_ok {integer fractional : ℤ} {s : UInt32}
    (h : decimalOf integer fractional s = .ok f) : ∃ whole, f = decimal whole s := by
  unfold decimalOf at h
  obtain ⟨unit, -, h⟩ := bind_eq_ok.mp h
  obtain ⟨scaled, -, h⟩ := bind_eq_ok.mp h
  obtain ⟨whole, -, h⟩ := bind_eq_ok.mp h
  cases h
  exact ⟨_, rfl⟩

theorem fromStrToDecimal_ok {field : String} {p s : UInt32} (h : fromStrToDecimal field p s = .ok f) :
    ∃ whole, f = decimal whole s := by
  unfold fromStrToDecimal at h
  dsimp only at h
  split_ifs at h
  obtain ⟨integer, -, h⟩ := bind_eq_ok.mp h
  obtain ⟨magnitude, -, h⟩ := bind_eq_ok.mp h
  obtain ⟨digits, -, h⟩ := bind_eq_ok.mp h
  obtain ⟨bound, -, h⟩ := bind_eq_ok.mp h
  split_ifs at h
  split at h
  · obtain ⟨fractional, -, h⟩ := bind_eq_ok.mp h
    exact decimalOf_ok h
  · exact decimalOf_ok h

theorem fits_of_map {make : ℤ → Field} {dtype : DataType} {r : Except FromStrError ℤ}
    (hmake : ∀ v, (make v).ofType dtype = true) (h : r.map make = .ok f) : f.Fits dtype := by
  cases r with
  | error e => cases h
  | ok v =>
    cases h
    exact .inr (hmake v)

/-- A field that is read for a column is `NULL` or of the column's type. -/
theorem fromStr_fits {parseDate : String → Option Int64} {field : String} {attr : Attribute}
    (h : fromStr parseDate field attr = .ok f) : f.Fits attr.dtype := by
  unfold fromStr at h
  by_cases hnull : field = nullString
  · rw [if_pos hnull, fromStrToNull, if_pos hnull] at h
    cases h
    exact .inl rfl
  · rw [if_neg hnull] at h
    cases hd : attr.dtype with
    | bigInt =>
      rw [hd] at h
      exact fits_of_map (fun _ => rfl) h
    | int =>
      rw [hd] at h
      exact fits_of_map (fun _ => rfl) h
    | smallInt =>
      rw [hd] at h
      exact fits_of_map (fun _ => rfl) h
    | char len =>
      rw [hd] at h
      change fromStrToChar field len = _ at h
      unfold fromStrToChar at h
      split_ifs at h
      cases h
      exact .inr (beq_self_eq_true len)
    | string =>
      rw [hd] at h
      cases h
      exact .inr rfl
    | decimal p s =>
      rw [hd] at h
      obtain ⟨whole, rfl⟩ := fromStrToDecimal_ok h
      exact .inr rfl
    | date =>
      rw [hd] at h
      change fromStrToDate parseDate field = _ at h
      unfold fromStrToDate at h
      split at h
      · cases h
        exact .inr rfl
      · cases h
    | bool =>
      rw [hd] at h
      change fromStrToBool field = _ at h
      unfold fromStrToBool at h
      split_ifs at h
      · cases h
        exact .inr rfl
      · cases h
        exact .inr rfl
    | null =>
      rw [hd] at h
      change fromStrToNull field = _ at h
      rw [fromStrToNull, if_neg hnull] at h
      cases h

end Field

end CrustyDB
