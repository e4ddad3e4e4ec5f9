import CrustyDB.Data.DecimalText
import CrustyDB.Server.Statements

/-! # What an insert does with its rows

A row of literals is typed when it has one literal for each column of the schema, each a value of the
column's type (`RowTyped`).  An insert should store all rows if all are typed, and otherwise fail
and store nothing (`InsertCorrect`).

The code reads the literals, drops the records that break the schema and stores the others.  It
only fails if a literal could not be read: a record with a wrong type, or a `NULL` that is not
allowed, is dropped in silence, and a record is dropped once for each of its faults, which drops
its neighbours or panics.  The number of columns is not checked, and some values of a column cannot
be read at all: negative numbers, booleans, and decimals with more than four places.

`insertCorrect_iff` says when the statement does what it should, in terms of the texts of the literals
(`InsertExpr.field`, `InsertExpr.Overflows`), of the number of faults of each row (`leftOf`), and of
what the storage takes (`Takes`). -/

namespace CrustyDB

open Stateful List CrustyDB.Field Numeral

/-! ### The specification -/

/-- The numeral that a number without a sign spells; one that begins with its point stands for the
numeral with a zero in front. -/
def SpellsNumber (text : String) (n : Numeral) : Prop :=
  n.sign = .none ∧ (n.text = text.toList ∨
    n.places ≠ [] ∧ text.toList.head? = some '.' ∧ n.text = '0' :: text.toList)

/-- The numeral of an expression. -/
def InsertExpr.Spells : InsertExpr → Numeral → Prop
  | .value (.number text), n => SpellsNumber text n
  | .negative text, n => ∃ n', SpellsNumber text n' ∧ n = { n' with sign := .minus }
  | _, _ => False

def InBits (w : ℕ) (v : ℤ) : Prop := -2 ^ (w - 1) ≤ v ∧ v < 2 ^ (w - 1)

/-- The number is a value of the type. -/
def NumberOfType (n : Numeral) : DataType → Prop
  | .bigInt => n.places = [] ∧ InBits 64 (n.unscaled 0)
  | .int => n.places = [] ∧ InBits 32 (n.unscaled 0)
  | .smallInt => n.places = [] ∧ InBits 16 (n.unscaled 0)
  | .decimal p s => n.Fits p.toNat s.toNat
  | _ => False

variable (parseDate : String → Option Int64)

/-- The text is a value of the type. -/
def TextOfType (text : String) : DataType → Prop
  | .string => True
  | .char len => text.length ≤ len.toNat
  | .date => (parseDate text).isSome
  | _ => False

/-- The expression is a value of the column. -/
def InsertExpr.Typed : InsertExpr → Attribute → Prop
  | .value .null, attr => attr.constraint.forbidsNull = false
  | .value (.boolean _), attr => attr.dtype = .bool
  | .value (.doubleQuotedString text), attr | .value (.singleQuotedString text), attr =>
    TextOfType parseDate text attr.dtype
  | .date text, attr => attr.dtype = .date ∧ (parseDate text).isSome
  | e, attr => ∃ n, e.Spells n ∧ NumberOfType n attr.dtype

/-- The row has the columns of the schema. -/
def RowTyped (schema : TableSchema) (row : List InsertExpr) : Prop :=
  List.Forall₂ (InsertExpr.Typed parseDate) row schema.attributes

/-- The field holds the value of the expression. -/
def InsertExpr.Denotes : InsertExpr → Field → Prop
  | .value .null, f => f = .null
  | .value (.boolean b), f => f = .bool b
  | .value (.doubleQuotedString text), f | .value (.singleQuotedString text), f =>
    f = .string text ∨ (∃ len, f = .char len text) ∨ ∃ d, parseDate text = some d ∧ f = .date d
  | .date text, f => ∃ d, parseDate text = some d ∧ f = .date d
  | e, f => ∃ n, e.Spells n ∧ f.number = some n.number

/-- The tuple has the columns of the schema and the values of the row. -/
def RowStored (schema : TableSchema) (row : List InsertExpr) (fields : Row) : Prop :=
  List.Forall₂ (InsertExpr.Denotes parseDate) row fields ∧
    List.Forall₂ (fun f (attr : Attribute) => f.Fits attr.dtype) fields schema.attributes

/-- All rows are stored if all are typed; otherwise the statement fails and stores nothing. -/
def InsertCorrect (storage : Storage) (schema : TableSchema) (values : List (List InsertExpr))
    (s : TableState) : Prop :=
  ((∀ row ∈ values, RowTyped parseDate schema row) →
    ∃ rows s', importTuples storage schema values s = .ok values.length s' ∧
      List.Forall₂ (RowStored parseDate schema) values rows ∧
      s'.rows.map Prod.snd = s.rows.map Prod.snd ++ rows) ∧
  ((¬ ∀ row ∈ values, RowTyped parseDate schema row) →
    ∃ e s', importTuples storage schema values s = .error e s' ∧ (∀ p, e ≠ .panic p) ∧
      s'.rows = s.rows)

/-! ### The literals that are read -/

/-- How many digits a fraction is taken to have. -/
def fractionDigits (frac : String) : ℕ := (UInt32.ofNat frac.utf8ByteSize).toNat

/-- A number without a point is an integer of 64 bits; a number with a point has less than seven digits
in front of it and at most four behind it. -/
def numberField (text : String) : Option Field :=
  match splitDots text with
  | [_] => (parseInt 64 text).map (fun v => .bigInt (Int64.ofInt v))
  | [whole, frac] =>
    match parseInt 64 whole, parseInt 64 frac with
    | some v, some x =>
      if |v| < 10 ^ 6 ∧ 0 ≤ x ∧ x < 10 ^ 4 ∧ fractionDigits frac ≤ 4 then
        some (.decimal (Int64.ofInt (recombined v (x * 10 ^ (4 - fractionDigits frac)) 4)) 4)
      else none
    | _, _ => none
  | _ => none

/-- The field that an expression is stored as, if it can be read. -/
def InsertExpr.field : InsertExpr → Option Field
  | .value .null => some .null
  | .value (.number text) => numberField text
  | .value (.doubleQuotedString text) | .value (.singleQuotedString text) => some (.string text)
  | _ => none

/-- A number with more than four digits behind its point, most of them zero: the code multiplies by a
power of ten whose exponent has underflowed. -/
def NumberOverflows (text : String) : Prop :=
  ∃ whole frac v, splitDots text = [whole, frac] ∧ parseInt 64 whole = some v ∧
    (¬ InI64 |v| ∨ |v| < 10 ^ 6 ∧ ∃ x, parseInt 64 frac = some x ∧ 0 ≤ x ∧ x < 10 ^ 4 ∧
      4 < fractionDigits frac)

def InsertExpr.Overflows : InsertExpr → Prop
  | .value (.number text) => NumberOverflows text
  | _ => False

/-- The expression is no literal. -/
def InsertExpr.IsExpression : InsertExpr → Prop
  | .value _ => False
  | _ => True

/-- Reading from the left, an expression that is no literal comes before any number that overflows. -/
def StopsFirst : List InsertExpr → Prop
  | [] => False
  | e :: es => e.IsExpression ∨ ¬ e.Overflows ∧ StopsFirst es

/-- No expression stops the reading. -/
def Quiet (es : List InsertExpr) : Prop := ∀ e ∈ es, ¬ e.IsExpression ∧ ¬ e.Overflows

/-- The fields of a row that can be read. -/
def readFields (row : List InsertExpr) : Row := row.filterMap InsertExpr.field

variable {text whole frac : String} {v x : ℤ}

theorem splitDots_cases (text : String) : splitDots text = [text] ∨
    (∃ whole frac, splitDots text = [whole, frac]) ∨ 2 < (splitDots text).length := by
  have hjoin : ['.'].intercalate (text.toList.splitOn '.') = text.toList := intercalate_splitOn '.'
  have hne : text.toList.splitOn '.' ≠ [] := splitOn_ne_nil _ _
  unfold splitDots
  generalize text.toList.splitOn '.' = parts at hjoin hne ⊢
  rcases parts with _ | ⟨whole, _ | ⟨frac, _ | ⟨c, rest⟩⟩⟩
  · exact absurd rfl hne
  · refine .inl ?_
    have hwhole : whole = text.toList := by simpa [intercalate] using hjoin
    rw [hwhole, map_singleton, String.ofList_toList]
  · exact .inr (.inl ⟨_, _, rfl⟩)
  · exact .inr (.inr (by simp))

/-- The outcome of reading a number: a field, a panic, or an issue. -/
def ReadsNumber (text : String) (r : Checked (Except ConversionError Field)) : Prop :=
  (∃ f, numberField text = some f ∧ ¬ NumberOverflows text ∧ r = .ok (.ok f)) ∨
    (numberField text = none ∧ NumberOverflows text ∧ ∃ p, r = .error p) ∨
    (numberField text = none ∧ ¬ NumberOverflows text ∧ ∃ issue, r = .ok (.error issue))

section Point

variable (h : splitDots text = [whole, frac])
include h

theorem numberField_eq_none (hnot : ∀ v x, parseInt 64 whole = some v → parseInt 64 frac = some x →
    ¬ (|v| < 10 ^ 6 ∧ 0 ≤ x ∧ x < 10 ^ 4 ∧ fractionDigits frac ≤ 4)) : numberField text = none := by
  simp only [numberField, h]
  split
  · rename_i v x hv hx
    exact if_neg (hnot v x hv hx)
  · rfl

theorem not_numberOverflows (hnot : ∀ v, parseInt 64 whole = some v → InI64 |v| ∧
    (|v| < 10 ^ 6 → ∀ x, parseInt 64 frac = some x → 0 ≤ x → x < 10 ^ 4 →
      fractionDigits frac ≤ 4)) : ¬ NumberOverflows text := by
  rintro ⟨whole', frac', v, h', hv, hover⟩
  rw [h] at h'
  cases h'
  obtain ⟨hin, hrest⟩ := hnot v hv
  obtain hout | ⟨hlt, x, hx, h0, h4, hlong⟩ := hover
  · exact hout hin
  · exact absurd (hrest hlt x hx h0 h4) (by omega)

end Point

theorem fractionDigits_le_iff :
    UInt32.ofNat frac.utf8ByteSize ≤ defaultDecimalScale ↔ fractionDigits frac ≤ 4 :=
  UInt32.le_iff_toNat_le

theorem bounded_default (v : ℤ) :
    Bounded v defaultDecimalPrecision defaultDecimalScale ↔ InI64 |v| := by
  unfold Bounded
  exact ⟨fun h => h.1, fun h => ⟨h, by decide, by decide⟩⟩

section Fraction

variable (hv : |v| < 10 ^ 6) (h0 : 0 ≤ x) (hx : x < 10 ^ 4) {k : ℕ} (hk : k ≤ 4)
include h0 hx hk

theorem scaled_bounds : 0 ≤ x * 10 ^ k ∧ x * 10 ^ k < 10 ^ 8 := by
  have hpow : (10 : ℤ) ^ k ≤ 10 ^ 4 := pow_le_pow_right₀ (by norm_num) hk
  refine ⟨by positivity, ?_⟩
  calc x * 10 ^ k ≤ x * 10 ^ 4 := mul_le_mul_of_nonneg_left hpow h0
    _ < 10 ^ 8 := by omega

include hv

theorem recombined_inI64 : InI64 (recombined v (x * 10 ^ k) 4) := by
  have hbounds := scaled_bounds h0 hx hk
  rw [abs_lt] at hv
  unfold InI64 recombined
  split_ifs <;> omega

/-- A number with a point whose fraction is read. -/
theorem decimalOf_default :
    (checkI64 (x * 10 ^ k) >>= fun x => decimalOf v x defaultDecimalScale) =
      .ok (.decimal (Int64.ofInt (recombined v (x * 10 ^ k) 4)) 4) := by
  obtain ⟨hpos, hlt⟩ := scaled_bounds h0 hx hk
  have hin : InI64 (x * 10 ^ k) := by
    unfold InI64
    omega
  rw [checkI64_eq, if_pos hin]
  show decimalOf v (x * 10 ^ k) defaultDecimalScale = _
  rw [decimalOf_eq hpos]
  exact if_pos ⟨by decide, recombined_inI64 hv h0 hx hk⟩

end Fraction

section Point

variable (h : splitDots text = [whole, frac]) (hv : parseInt 64 whole = some v)
include h hv

/-- The part behind the point, when the part in front of it is small enough. -/
theorem readsNumber_fraction (hin : InI64 |v|) (hlt : |v| < 10 ^ 6) : ReadsNumber text
    (orParseError (adjustedFractional text frac defaultDecimalPrecision defaultDecimalScale >>=
      fun x => decimalOf v x defaultDecimalScale)) := by
  have hother : ∀ v', parseInt 64 whole = some v' → v' = v := by
    intro v' hv'
    rw [hv] at hv'
    exact (Option.some.inj hv').symm
  cases hx : parseInt 64 frac with
  | none =>
    refine .inr (.inr ⟨?_, ?_, .parseError, ?_⟩)
    · exact numberField_eq_none h (fun _ x _ hx' => by simp [hx] at hx')
    · refine not_numberOverflows h (fun v' hv' => ?_)
      rw [hother v' hv']
      exact ⟨hin, fun _ x hx' => by simp [hx] at hx'⟩
    · simp [adjustedFractional, parseI64, hx, bind, Except.bind, orParseError]
  | some x =>
    have hsame : ∀ x', parseInt 64 frac = some x' → x' = x := by
      intro x' hx'
      rw [hx] at hx'
      exact (Option.some.inj hx').symm
    rw [adjustedFractional_of_parse hx]
    by_cases hrange : 0 ≤ x ∧ x < 10 ^ 4
    · rw [if_pos ⟨hrange.1, by decide, hrange.2⟩]
      by_cases hshort : fractionDigits frac ≤ 4
      · have hfield : numberField text = some (.decimal
            (Int64.ofInt (recombined v (x * 10 ^ (4 - fractionDigits frac)) 4)) 4) := by
          simp only [numberField, h, hv, hx]
          exact if_pos ⟨hlt, hrange.1, hrange.2, hshort⟩
        rw [if_pos (fractionDigits_le_iff.mpr hshort)]
        show ReadsNumber text (orParseError (checkI64 (x * 10 ^ (4 - fractionDigits frac)) >>= _))
        rw [decimalOf_default hlt hrange.1 hrange.2 (Nat.sub_le _ _)]
        refine .inl ⟨_, hfield, ?_, rfl⟩
        refine not_numberOverflows h (fun v' hv' => ?_)
        rw [hother v' hv']
        exact ⟨hin, fun _ _ _ _ _ => hshort⟩
      · rw [if_neg (fun hle => hshort (fractionDigits_le_iff.mp hle))]
        refine .inr (.inl ⟨?_, ⟨whole, frac, v, h, hv, .inr ⟨hlt, x, hx, hrange.1, hrange.2,
          not_le.mp hshort⟩⟩, .overflow, rfl⟩)
        exact numberField_eq_none h (fun _ _ _ _ hc => hshort hc.2.2.2)
    · rw [if_neg (fun hc => hrange ⟨hc.1, hc.2.2⟩), if_neg (fun hc => hc.2 (by decide))]
      refine .inr (.inr ⟨?_, ?_, .parseError, rfl⟩)
      · refine numberField_eq_none h (fun _ x' _ hx' hc => hrange ?_)
        rw [← hsame x' hx']
        exact ⟨hc.2.1, hc.2.2.1⟩
      · refine not_numberOverflows h (fun v' hv' => ?_)
        rw [hother v' hv']
        refine ⟨hin, fun _ x' hx' h0 h4 => ?_⟩
        rw [hsame x' hx'] at h0 h4
        exact absurd ⟨h0, h4⟩ hrange

/-- The part in front of the point can be read. -/
theorem readsNumber_whole : ReadsNumber text
    (orParseError (fromStrToDecimal text defaultDecimalPrecision defaultDecimalScale)) := by
  have hother : ∀ v', parseInt 64 whole = some v' → v' = v := by
    intro v' hv'
    rw [hv] at hv'
    exact (Option.some.inj hv').symm
  rw [fromStrToDecimal_of_parse h (by simp) hv]
  by_cases hin : InI64 |v|
  · rw [if_pos ((bounded_default v).mpr hin)]
    by_cases hlarge : 10 ^ (defaultDecimalPrecision.toNat - defaultDecimalScale.toNat) ≤ |v|
    · rw [if_pos hlarge]
      have hnot : ¬ |v| < 10 ^ 6 := not_lt.mpr hlarge
      refine .inr (.inr ⟨?_, ?_, .parseError, rfl⟩)
      · refine numberField_eq_none h (fun v' _ hv' _ hc => hnot ?_)
        rw [← hother v' hv']
        exact hc.1
      · refine not_numberOverflows h (fun v' hv' => ?_)
        rw [hother v' hv']
        exact ⟨hin, fun hlt => absurd hlt hnot⟩
    · rw [if_neg hlarge]
      exact readsNumber_fraction h hv hin (not_le.mp hlarge)
  · rw [if_neg (fun hb => hin ((bounded_default v).mp hb))]
    refine .inr (.inl ⟨?_, ⟨whole, frac, v, h, hv, .inl hin⟩, .overflow, rfl⟩)
    refine numberField_eq_none h (fun v' _ hv' _ hc => hin ?_)
    have hlt := hc.1
    rw [hother v' hv'] at hlt
    have hpos := abs_nonneg v
    unfold InI64
    omega

end Point

theorem readsNumber_point (h : splitDots text = [whole, frac]) : ReadsNumber text
    (orParseError (fromStrToDecimal text defaultDecimalPrecision defaultDecimalScale)) := by
  cases hv : parseInt 64 whole with
  | some v => exact readsNumber_whole h hv
  | none =>
    refine .inr (.inr ⟨?_, ?_, .parseError, ?_⟩)
    · exact numberField_eq_none h (fun v _ hv' => by simp [hv] at hv')
    · exact not_numberOverflows h (fun v hv' => by simp [hv] at hv')
    · rw [fromStrToDecimal_eq h (by simp)]
      simp [parseI64, hv, bind, Except.bind, orParseError]

theorem convertNumber_reads (text : String) : ReadsNumber text (convertNumber text) := by
  unfold convertNumber
  obtain h | ⟨whole, frac, h⟩ | h := splitDots_cases text
  · have hlen : (splitDots text).length = 1 := by rw [h]; rfl
    have hnot : ¬ NumberOverflows text := by
      rintro ⟨whole, frac, v, h', -⟩
      rw [h'] at hlen
      cases hlen
    rw [if_neg (by omega), if_neg (by omega)]
    have hfield : numberField text =
        (parseInt 64 text).map (fun v => .bigInt (Int64.ofInt v)) := by
      simp only [numberField, h]
    rw [ReadsNumber, hfield, parseIntFromStr]
    cases parseInt 64 text with
    | none => exact .inr (.inr ⟨rfl, hnot, _, rfl⟩)
    | some v => exact .inl ⟨_, rfl, hnot, rfl⟩
  · have hlen : (splitDots text).length = 2 := by rw [h]; rfl
    rw [if_neg (by omega), if_pos hlen]
    exact readsNumber_point h
  · rw [if_pos h]
    refine .inr (.inr ⟨?_, ?_, _, rfl⟩)
    · unfold numberField
      split
      · rename_i h'
        simp [h'] at h
      · rename_i h'
        simp [h'] at h
      · rfl
    · rintro ⟨whole, frac, v, h', -⟩
      simp [h'] at h

/-- The outcome of reading a literal. -/
theorem convertValue_cases (v : SqlValue) :
    (∃ f, (InsertExpr.value v).field = some f ∧ ¬ (InsertExpr.value v).Overflows ∧
      convertValue v = .ok (.ok f)) ∨
    ((InsertExpr.value v).field = none ∧ (InsertExpr.value v).Overflows ∧
      ∃ p, convertValue v = .error p) ∨
    ((InsertExpr.value v).field = none ∧ ¬ (InsertExpr.value v).Overflows ∧
      ∃ issue, convertValue v = .ok (.error issue)) := by
  cases v with
  | number text => exact convertNumber_reads text
  | null => exact .inl ⟨_, rfl, id, rfl⟩
  | doubleQuotedString text => exact .inl ⟨_, rfl, id, rfl⟩
  | singleQuotedString text => exact .inl ⟨_, rfl, id, rfl⟩
  | boolean b => exact .inr (.inr ⟨rfl, id, _, rfl⟩)
  | other => exact .inr (.inr ⟨rfl, id, _, rfl⟩)

/-! ### Conversion -/

variable {row : List InsertExpr} {rows : List Row} {values : List (List InsertExpr)} {e : InsertExpr}
  {f : Field} {schema : TableSchema} {i : ℕ}

theorem readFields_cons (h : e.field = some f) :
    readFields (e :: row) = f :: readFields row := by
  simp [readFields, h]

theorem readFields_cons_none (h : e.field = none) : readFields (e :: row) = readFields row := by
  simp [readFields, h]

theorem InsertExpr.not_overflows_of_field (h : e.field = some f) :
    ¬ e.IsExpression ∧ ¬ e.Overflows := by
  cases e with
  | value v =>
    refine ⟨id, ?_⟩
    obtain ⟨f', -, hnot, -⟩ | ⟨hnone, -⟩ | ⟨hnone, -⟩ := convertValue_cases v
    · exact hnot
    · rw [hnone] at h
      cases h
    · rw [hnone] at h
      cases h
  | negative val => cases h
  | date val => cases h
  | other => cases h

theorem quiet_of_fields (h : ∀ e ∈ row, e.field.isSome) : Quiet row := by
  intro e he
  obtain ⟨f, hf⟩ := Option.isSome_iff_exists.mp (h e he)
  exact InsertExpr.not_overflows_of_field hf

theorem quiet_cons : Quiet (e :: row) ↔ (¬ e.IsExpression ∧ ¬ e.Overflows) ∧ Quiet row :=
  forall_mem_cons

theorem not_stopsFirst_of_quiet (h : Quiet row) : ¬ StopsFirst row := by
  induction row with
  | nil => exact id
  | cons e row ih =>
    obtain ⟨he, hrest⟩ := quiet_cons.mp h
    rintro (hexpr | ⟨-, hstop⟩)
    · exact he.1 hexpr
    · exact ih hrest hstop

/-- What comes behind expressions that are all literals and do not overflow decides. -/
theorem stopsFirst_append (h : Quiet row) (es : List InsertExpr) :
    StopsFirst (row ++ es) ↔ StopsFirst es := by
  induction row with
  | nil => exact Iff.rfl
  | cons e row ih =>
    obtain ⟨⟨hexpr, hover⟩, hrest⟩ := quiet_cons.mp h
    show e.IsExpression ∨ ¬ e.Overflows ∧ StopsFirst (row ++ es) ↔ _
    simp [hexpr, hover, ih hrest]

theorem stopsFirst_append_of_not_quiet (h : ¬ Quiet row) (es : List InsertExpr) :
    StopsFirst (row ++ es) ↔ StopsFirst row := by
  induction row with
  | nil => exact absurd (fun e he => absurd he not_mem_nil) h
  | cons e row ih =>
    show e.IsExpression ∨ ¬ e.Overflows ∧ StopsFirst (row ++ es) ↔
      e.IsExpression ∨ ¬ e.Overflows ∧ StopsFirst row
    by_cases hexpr : e.IsExpression
    · simp [hexpr]
    · by_cases hover : e.Overflows
      · simp [hexpr, hover]
      · have hrest : ¬ Quiet row := fun hq => h (quiet_cons.mpr ⟨⟨hexpr, hover⟩, hq⟩)
        simp [hexpr, hover, ih hrest]

theorem read_cons {v : SqlValue} (hover : ¬ (InsertExpr.value v).Overflows)
    (row : List InsertExpr) :
    (StopsFirst (.value v :: row) ↔ StopsFirst row) ∧ (Quiet (.value v :: row) ↔ Quiet row) := by
  have hone : Quiet [.value v] := by simp [Quiet, InsertExpr.IsExpression, hover]
  exact ⟨stopsFirst_append hone row, by simp [quiet_cons, InsertExpr.IsExpression, hover]⟩

/-- The first expression that stops the reading decides how the conversion ends. -/
def Converted {α : Type} (es : List InsertExpr) (fields : α)
    (r : Except StatementError (α × List (ℕ × List ConversionError))) : Prop :=
  (StopsFirst es ∧ ∃ msg, r = .error (.crusty msg)) ∨
    (¬ StopsFirst es ∧ ¬ Quiet es ∧ ∃ p, r = .error (.panic p)) ∨
    (Quiet es ∧ ∃ issues, r = .ok (fields, issues) ∧ (issues = [] ↔ ∀ e ∈ es, e.field.isSome))

theorem convertRow_converted (i : ℕ) (row : List InsertExpr) :
    Converted row (readFields row) (convertRow i row) := by
  induction row with
  | nil => exact .inr (.inr ⟨fun e he => absurd he not_mem_nil, [], rfl, by simp⟩)
  | cons e row ih =>
    cases e with
    | negative val => exact .inl ⟨.inl trivial, _, rfl⟩
    | date val => exact .inl ⟨.inl trivial, _, rfl⟩
    | other => exact .inl ⟨.inl trivial, _, rfl⟩
    | value v =>
      rw [convertRow]
      obtain ⟨f, hf, hover, hv⟩ | ⟨hf, hover, p, hv⟩ | ⟨hf, hover, issue, hv⟩ := convertValue_cases v
      · rw [hv]
        obtain ⟨hstops, hquiet⟩ := read_cons hover row
        unfold Converted
        rw [hstops, hquiet, readFields_cons hf, forall_mem_cons, hf]
        obtain ⟨h, msg, hrow⟩ | ⟨h, h', p, hrow⟩ | ⟨h, issues, hrow, hissues⟩ := ih
        · exact .inl ⟨h, msg, by simp only [hrow]⟩
        · exact .inr (.inl ⟨h, h', p, by simp only [hrow]⟩)
        · refine .inr (.inr ⟨h, issues, by simp only [hrow], ?_⟩)
          rw [hissues]
          simp
      · rw [hv]
        refine .inr (.inl ⟨?_, ?_, p, rfl⟩)
        · rintro (h | h)
          · exact h
          · exact h.1 hover
        · exact fun h => (quiet_cons.mp h).1.2 hover
      · rw [hv]
        obtain ⟨hstops, hquiet⟩ := read_cons hover row
        unfold Converted
        rw [hstops, hquiet, readFields_cons_none hf, forall_mem_cons, hf]
        obtain ⟨h, msg, hrow⟩ | ⟨h, h', p, hrow⟩ | ⟨h, issues, hrow, hissues⟩ := ih
        · exact .inl ⟨h, msg, by simp only [hrow]⟩
        · exact .inr (.inl ⟨h, h', p, by simp only [hrow]⟩)
        · exact .inr (.inr ⟨h, (i, [issue]) :: issues, by simp only [hrow], by simp⟩)

theorem convertRows_converted (i : ℕ) (values : List (List InsertExpr)) :
    Converted values.flatten (values.map readFields)
      ((convertRows i values).map (fun res => (res.converted, res.unconverted))) := by
  induction values generalizing i with
  | nil => exact .inr (.inr ⟨fun e he => absurd he not_mem_nil, [], rfl, by simp⟩)
  | cons row values ih =>
    rw [convertRows, flatten_cons, map_cons]
    obtain ⟨h, msg, hrow⟩ | ⟨h, h', p, hrow⟩ | ⟨h, issues, hrow, hissues⟩ :=
      convertRow_converted i row
    · have hquiet : ¬ Quiet row := fun hq => not_stopsFirst_of_quiet hq h
      rw [hrow]
      exact .inl ⟨(stopsFirst_append_of_not_quiet hquiet _).mpr h, msg, rfl⟩
    · rw [hrow]
      refine .inr (.inl ⟨?_, ?_, p, rfl⟩)
      · exact fun hs => h ((stopsFirst_append_of_not_quiet h' _).mp hs)
      · exact fun hq => h' (fun e he => hq e (mem_append_left _ he))
    · rw [hrow]
      have hquiet : Quiet (row ++ values.flatten) ↔ Quiet values.flatten :=
        forall_mem_append.trans ⟨fun hq => hq.2, fun hq => ⟨h, hq⟩⟩
      have hall : (∀ e ∈ row ++ values.flatten, e.field.isSome = true) ↔
          issues = [] ∧ ∀ e ∈ values.flatten, e.field.isSome = true := by
        rw [forall_mem_append, hissues]
      unfold Converted
      rw [stopsFirst_append h, hquiet, hall]
      dsimp only
      obtain ⟨h', msg, hrows⟩ | ⟨h', h'', p, hrows⟩ | ⟨h', issues', hrows, hissues'⟩ := ih (i + 1)
      · cases hc : convertRows (i + 1) values with
        | error e =>
          rw [hc] at hrows
          exact .inl ⟨h', msg, hrows⟩
        | ok res =>
          rw [hc] at hrows
          cases hrows
      · cases hc : convertRows (i + 1) values with
        | error e =>
          rw [hc] at hrows
          exact .inr (.inl ⟨h', h'', p, hrows⟩)
        | ok res =>
          rw [hc] at hrows
          cases hrows
      · cases hc : convertRows (i + 1) values with
        | error e =>
          rw [hc] at hrows
          cases hrows
        | ok res =>
          rw [hc] at hrows
          obtain ⟨hconv, hun⟩ := Prod.mk.inj (Except.ok.inj hrows)
          refine .inr (.inr ⟨h', issues ++ issues', ?_, ?_⟩)
          · rw [← hconv, ← hun]
            rfl
          · rw [append_eq_nil_iff, hissues']

/-! ### Validation -/

/-- The faults of a field in its column: a `NULL` that is not allowed is of the wrong type as well. -/
def fieldFaults (f : Field) (attr : Attribute) : ℕ :=
  if f = .null then if attr.constraint.forbidsNull then 2 else 0
  else if f.ofType attr.dtype then 0 else 1

/-- The faults of a tuple, as far as it and the schema have columns. -/
def rowFaults (fields : Row) (attributes : List Attribute) : ℕ :=
  (zipWith fieldFaults fields attributes).sum

/-- How many records are left when those with these numbers of faults are dropped, the last one first:
a record takes one with it for each of its faults, from its own place on. -/
def leftOf : List ℕ → Option ℕ
  | [] => some 0
  | faults :: rest => do
    let left ← leftOf rest
    if faults ≤ left + 1 then some (left + 1 - faults) else none

/-- The fields of literals: only types that the validation knows. -/
theorem typeMatches_of_field (h : e.field = some f) (dtype : DataType) :
    typeMatches dtype f = f.ofType dtype := by
  have hnumber : ∀ text, numberField text = some f →
      (∃ v, f = .bigInt v) ∨ ∃ w s, f = .decimal w s := by
    intro text htext
    unfold numberField at htext
    split at htext
    · obtain ⟨v, -, rfl⟩ := Option.map_eq_some_iff.mp htext
      exact .inl ⟨_, rfl⟩
    · split at htext
      · split_ifs at htext
        cases htext
        exact .inr ⟨_, _, rfl⟩
      · cases htext
    · cases htext
  cases e with
  | value v =>
    cases v with
    | number text =>
      obtain ⟨v, rfl⟩ | ⟨w, s, rfl⟩ := hnumber text h
      · cases dtype <;> rfl
      · cases dtype <;> rfl
    | null =>
      cases h
      cases dtype <;> rfl
    | doubleQuotedString text =>
      cases h
      cases dtype <;> rfl
    | singleQuotedString text =>
      cases h
      cases dtype <;> rfl
    | boolean b => cases h
    | other => cases h
  | negative val => cases h
  | date val => cases h
  | other => cases h

theorem cellIssues_length (h : e.field = some f) (j : ℕ) (attr : Attribute) :
    (cellIssues j f attr).length = fieldFaults f attr := by
  unfold cellIssues fieldFaults typeIssues
  rw [typeMatches_of_field h]
  by_cases hf : f = .null
  · subst hf
    cases attr.constraint.forbidsNull <;> simp [Field.ofType]
  · rw [if_neg hf, if_neg hf]
    cases f.ofType attr.dtype <;> rfl

theorem rowIssues_length (row : List InsertExpr) (j : ℕ) (attributes : List Attribute) :
    (rowIssues j (readFields row) attributes).length = rowFaults (readFields row) attributes := by
  induction row generalizing j attributes with
  | nil => rfl
  | cons e row ih =>
    cases he : e.field with
    | none =>
      rw [readFields_cons_none he]
      exact ih j attributes
    | some f =>
      rw [readFields_cons he]
      cases attributes with
      | nil => rfl
      | cons attr attributes =>
        rw [rowIssues, length_append, cellIssues_length he, ih, rowFaults, rowFaults,
          zipWith_cons_cons, sum_cons]

theorem removeRows_append (is js : List ℕ) (rows : List Row) :
    removeRows (is ++ js) rows = (removeRows is rows).bind (removeRows js) := by
  induction is generalizing rows with
  | nil => rfl
  | cons i is ih =>
    rw [cons_append, removeRows, removeRows]
    split_ifs
    · exact ih _
    · rfl

/-- A record is dropped again and again, and then those behind it. -/
theorem removeRows_replicate (k : ℕ) (l rest : List Row) :
    removeRows (List.replicate k l.length) (l ++ rest) =
      if k ≤ rest.length then .ok (l ++ rest.drop k) else .error (.panic .index) := by
  induction k generalizing rest with
  | zero => simp [removeRows]
  | succ k ih =>
    rw [replicate_succ, removeRows]
    cases rest with
    | nil => simp
    | cons row rest =>
      rw [if_pos (by simp), eraseIdx_append_of_length_le (by omega), Nat.sub_self,
        eraseIdx_cons_zero, ih rest, drop_succ_cons, length_cons]
      simp only [Nat.add_le_add_iff_right]

/-- The records that `validate_tuples` keeps of some records, if it does not panic. -/
def survivors (schema : TableSchema) (rows : List Row) : Except StatementError (List Row) :=
  removeRows ((valuesToRemove schema 0 rows).reverse.map Prod.fst) rows

/-- The number of issues of each record. -/
def issueCounts (schema : TableSchema) (rows : List Row) : List ℕ :=
  rows.map (fun row => (rowIssues 0 row schema.attributes).length)

/-- The records are dropped from the last one on: what is left of the records in `rest` has no faults. -/
theorem removeRows_valid (schema : TableSchema) (l rest : List Row) (hi : l.length = i) :
    (∀ k, leftOf (issueCounts schema rest) = some k → ∃ kept,
      removeRows ((valuesToRemove schema i rest).reverse.map Prod.fst) (l ++ rest) = .ok (l ++ kept) ∧
      kept.length = k ∧ ∀ row ∈ kept, row ∈ rest ∧ rowIssues 0 row schema.attributes = []) ∧
    (leftOf (issueCounts schema rest) = none →
      removeRows ((valuesToRemove schema i rest).reverse.map Prod.fst) (l ++ rest) =
        .error (.panic .index)) := by
  induction rest generalizing i l with
  | nil =>
    refine ⟨fun k hk => ⟨[], rfl, Option.some.inj hk, by simp⟩, fun h => nomatch h⟩
  | cons row rest ih =>
    obtain ⟨hsome, hnone⟩ := ih (l ++ [row]) (i := i + 1) (by simp [hi])
    rw [append_assoc, singleton_append] at hsome hnone
    have hrep : (((rowIssues 0 row schema.attributes).map
        (fun issue => (i, [issue]))).reverse.map Prod.fst) =
          List.replicate (rowIssues 0 row schema.attributes).length l.length := by
      rw [map_reverse, map_map, hi]
      simp [Function.comp_def]
    have hcounts : issueCounts schema (row :: rest) =
        (rowIssues 0 row schema.attributes).length :: issueCounts schema rest := rfl
    rw [valuesToRemove, reverse_append, map_append, removeRows_append, hrep, hcounts, leftOf]
    cases hleft : leftOf (issueCounts schema rest) with
    | none =>
      rw [hnone hleft]
      exact ⟨fun k hk => (nomatch hk), fun _ => rfl⟩
    | some left =>
      obtain ⟨kept, hrun, hlen, hkept⟩ := hsome left hleft
      rw [hrun]
      simp only [Except.bind, Option.bind_eq_bind, Option.bind_some]
      rw [append_assoc, singleton_append, removeRows_replicate, length_cons, hlen]
      split_ifs with hle
      · refine ⟨?_, fun h => nomatch h⟩
        intro k hk
        cases hk
        refine ⟨_, rfl, by rw [length_drop, length_cons, hlen], ?_⟩
        intro r hr
        cases hissues : rowIssues 0 row schema.attributes with
        | nil =>
          rw [hissues] at hr
          cases hr with
          | head => exact ⟨mem_cons_self, hissues⟩
          | tail _ hr => exact ⟨mem_cons_of_mem _ (hkept r hr).1, (hkept r hr).2⟩
        | cons issue issues =>
          rw [hissues, length_cons, drop_succ_cons] at hr
          have hmem := hkept r (mem_of_mem_drop hr)
          exact ⟨mem_cons_of_mem _ hmem.1, hmem.2⟩
      · exact ⟨fun k hk => (nomatch hk), fun _ => rfl⟩

theorem survivors_valid {rows' : List Row} (h : survivors schema rows = .ok rows') :
    leftOf (issueCounts schema rows) = some rows'.length ∧
      ∀ row ∈ rows', row ∈ rows ∧ rowIssues 0 row schema.attributes = [] := by
  obtain ⟨hsome, hnone⟩ := removeRows_valid schema [] rows rfl
  cases hleft : leftOf (issueCounts schema rows) with
  | none => cases h.symm.trans (hnone hleft)
  | some k =>
    obtain ⟨kept, hrun, hlen, hkept⟩ := hsome k hleft
    obtain rfl : rows' = kept := Except.ok.inj (h.symm.trans hrun)
    exact ⟨by rw [hlen], hkept⟩

theorem survivors_isSome_iff :
    (∃ rows', survivors schema rows = .ok rows') ↔ (leftOf (issueCounts schema rows)).isSome := by
  obtain ⟨hsome, hnone⟩ := removeRows_valid schema [] rows rfl
  constructor
  · rintro ⟨rows', h⟩
    rw [(survivors_valid h).1]
    rfl
  · intro h
    obtain ⟨k, hk⟩ := Option.isSome_iff_exists.mp h
    obtain ⟨kept, hrun, -⟩ := hsome k hk
    exact ⟨kept, hrun⟩

theorem survivors_error {e : StatementError} (h : survivors schema rows = .error e) :
    e = .panic .index := by
  obtain ⟨hsome, hnone⟩ := removeRows_valid schema [] rows rfl
  cases hleft : leftOf (issueCounts schema rows) with
  | none => exact Except.error.inj (h.symm.trans (hnone hleft))
  | some k =>
    obtain ⟨kept, hrun, -⟩ := hsome k hleft
    cases h.symm.trans hrun

/-- No more records are left than have no faults. -/
theorem leftOf_le {counts : List ℕ} {k : ℕ} (h : leftOf counts = some k) :
    k ≤ counts.length ∧ (k = counts.length ↔ ∀ c ∈ counts, c = 0) := by
  induction counts generalizing k with
  | nil =>
    cases h
    simp
  | cons c counts ih =>
    rw [leftOf] at h
    obtain ⟨left, hleft, h⟩ := Option.bind_eq_some_iff.mp h
    split_ifs at h with hle
    cases h
    obtain ⟨hlen, hiff⟩ := ih hleft
    rw [length_cons, forall_mem_cons, ← hiff]
    omega

/-! ### The storage -/

/-- The heap file has a place for each of the records, under these ids. -/
def Places (storage : Storage) : List (ValueId × Row) → List Row → List ValueId → Prop
  | _, [], [] => True
  | stored, row :: rows, id :: ids =>
    storage.place stored row = some id ∧ Places storage (stored ++ [(id, row)]) rows ids
  | _, _, _ => False

/-- Every index has a tree that takes the entry of the record. -/
def TakesEntries (storage : Storage) (s : TableState) (indexes : List IndexInfo)
    (p : Row × ValueId) : Prop :=
  ∀ index ∈ indexes, (s.trees index.indexId).isSome ∧ ∃ key,
    extractKey p.1 index.columns = .ok key ∧ storage.entryError key p.2 = none

/-- The heap file, the statistics and the indexes take the records. -/
def Takes (storage : Storage) (s : TableState) (rows : List Row) : Prop :=
  ∃ ids, Places storage s.rows rows ids ∧ (rows ≠ [] → s.registered = true) ∧
    ∀ p ∈ rows.zip ids, TakesEntries storage s s.indexes p

variable {storage : Storage} {s : TableState} {indexes : List IndexInfo}

theorem addVals_ok_iff (rows : List Row) (ids : List ValueId) (s : TableState) :
    (∃ t, addVals storage rows s = .ok ids t) ↔ Places storage s.rows rows ids := by
  induction rows generalizing ids s with
  | nil =>
    cases ids with
    | nil => exact ⟨fun _ => trivial, fun _ => ⟨s, rfl⟩⟩
    | cons id ids =>
      refine ⟨?_, False.elim⟩
      rintro ⟨t, h⟩
      cases h
  | cons row rows ih =>
    have hget : (get : Stmt TableState) s = .ok s s := rfl
    unfold addVals
    rw [bind_of_ok hget]
    cases hplace : storage.place s.rows row with
    | none =>
      constructor
      · rintro ⟨t, h⟩
        cases h
      · cases ids with
        | nil => exact False.elim
        | cons id ids =>
          rintro ⟨h, -⟩
          cases hplace.symm.trans h
    | some v =>
      have hset : (set { s with rows := s.rows ++ [(v, row)] } : Stmt PUnit) s =
          .ok () { s with rows := s.rows ++ [(v, row)] } := rfl
      dsimp only
      rw [bind_of_ok hset]
      constructor
      · rintro ⟨t, h⟩
        obtain ⟨vs, t', hrest, h⟩ := of_bind_ok h
        cases h
        exact ⟨hplace, (ih vs _).mp ⟨_, hrest⟩⟩
      · intro h
        cases ids with
        | nil => exact h.elim
        | cons id ids =>
          obtain ⟨hid, hrest⟩ := h
          obtain rfl : v = id := Option.some.inj (hplace.symm.trans hid)
          obtain ⟨t, ht⟩ := (ih ids { s with rows := s.rows ++ [(v, row)] }).mpr hrest
          exact ⟨t, by rw [bind_of_ok ht]; rfl⟩

/-- The trees are there or not, and the statistics know the table or not. -/
def SameTrees (s t : TableState) : Prop :=
  (∀ id, (t.trees id).isSome = (s.trees id).isSome) ∧ t.registered = s.registered

theorem TakesEntries.congr {t : TableState} (h : SameTrees s t) (p : Row × ValueId) :
    TakesEntries storage t indexes p ↔ TakesEntries storage s indexes p := by
  unfold TakesEntries
  simp only [h.1]

theorem insertEntry_ok_iff (storage : Storage) (indexId : ContainerId) (key : IndexKey) (rid : ValueId)
    (s : TableState) :
    ((∃ t, insertEntry storage indexId key rid s = .ok () t) ↔
      (s.trees indexId).isSome ∧ storage.entryError key rid = none) ∧
    ∀ t, insertEntry storage indexId key rid s = .ok () t → SameTrees s t := by
  unfold insertEntry treeInsert
  cases htree : s.trees indexId with
  | none => simp
  | some tree =>
    cases storage.entryError key rid with
    | some msg => simp
    | none =>
      refine ⟨by simp, ?_⟩
      rintro t ht
      cases ht
      refine ⟨fun id => ?_, rfl⟩
      unfold setTree
      dsimp only
      split_ifs with hid
      · rw [hid, htree]
        rfl
      · rfl

theorem addEntries_ok_iff (storage : Storage) (row : Row) (rid : ValueId) (indexes : List IndexInfo)
    (s : TableState) :
    ((∃ t, addEntries storage row rid indexes s = .ok () t) ↔
      TakesEntries storage s indexes (row, rid)) ∧
    ∀ t, addEntries storage row rid indexes s = .ok () t → SameTrees s t := by
  induction indexes generalizing s with
  | nil =>
    refine ⟨⟨fun _ index h => absurd h not_mem_nil, fun _ => ⟨s, rfl⟩⟩, ?_⟩
    rintro t ⟨⟩
    exact ⟨fun _ => rfl, rfl⟩
  | cons index indexes ih =>
    have hrun : addEntries storage row rid (index :: indexes) s =
        ((lift (extractKey row index.columns) >>= fun key =>
          insertEntry storage index.indexId key rid) >>= fun _ =>
            addEntries storage row rid indexes) s := rfl
    rw [hrun]
    constructor
    · constructor
      · rintro ⟨t, h⟩
        obtain ⟨u, t₁, hone, hrest⟩ := of_bind_ok h
        obtain ⟨key, t₀, hkey, hone⟩ := of_bind_ok hone
        obtain ⟨hextract, rfl⟩ := of_lift_ok hkey
        obtain ⟨hiff, hsame⟩ := insertEntry_ok_iff storage index.indexId key rid s
        obtain ⟨htree, herror⟩ := hiff.mp ⟨t₁, hone⟩
        refine forall_mem_cons.mpr ⟨⟨htree, key, hextract, herror⟩, ?_⟩
        exact (TakesEntries.congr (hsame t₁ hone) _).mp ((ih t₁).1.mp ⟨t, hrest⟩)
      · intro h
        obtain ⟨⟨htree, key, hkey, herror⟩, hrest⟩ := forall_mem_cons.mp h
        obtain ⟨hiff, hsame⟩ := insertEntry_ok_iff storage index.indexId key rid s
        obtain ⟨t₁, hone⟩ := hiff.mpr ⟨htree, herror⟩
        have hlift : lift (extractKey row index.columns) s = .ok key s := by
          unfold lift
          rw [hkey]
        obtain ⟨t, ht⟩ := (ih t₁).1.mpr ((TakesEntries.congr (hsame t₁ hone) (row, rid)).mpr hrest)
        have hfirst : (lift (extractKey row index.columns) >>= fun key =>
            insertEntry storage index.indexId key rid) s = .ok () t₁ := by
          rw [bind_of_ok hlift, hone]
        exact ⟨t, by rw [bind_of_ok hfirst, ht]⟩
    · intro t h
      obtain ⟨u, t₁, hone, hrest⟩ := of_bind_ok h
      obtain ⟨key, t₀, hkey, hone⟩ := of_bind_ok hone
      obtain ⟨-, rfl⟩ := of_lift_ok hkey
      have h1 := (insertEntry_ok_iff storage index.indexId key rid s).2 t₁ hone
      have h2 := (ih t₁).2 t hrest
      exact ⟨fun id => (h2.1 id).trans (h1.1 id), h2.2.trans h1.2⟩

theorem addAllEntries_ok_iff (indexes : List IndexInfo) (tuples : List (Row × ValueId)) (s : TableState) :
    (∃ t, addAllEntries storage indexes tuples s = .ok () t) ↔
      (tuples ≠ [] → s.registered = true) ∧ ∀ p ∈ tuples, TakesEntries storage s indexes p := by
  induction tuples generalizing s with
  | nil => exact ⟨fun _ => ⟨by simp, by simp⟩, fun _ => ⟨s, rfl⟩⟩
  | cons p tuples ih =>
    obtain ⟨row, rid⟩ := p
    unfold addAllEntries
    cases hreg : s.registered with
    | false =>
      have hnew : newRecord s = .error (.crusty "Container not found/registered") s := by
        simp [newRecord, hreg]
      rw [bind_of_error hnew]
      simp
    | true =>
      have hnew : newRecord s = .ok () s := by simp [newRecord, hreg]
      obtain ⟨hiff, hsame⟩ := addEntries_ok_iff storage row rid indexes s
      rw [bind_of_ok hnew, forall_mem_cons, ← hiff]
      constructor
      · rintro ⟨t, h⟩
        obtain ⟨u, t₁, hone, hrest⟩ := of_bind_ok h
        obtain ⟨-, hall⟩ := (ih t₁).mp ⟨t, hrest⟩
        refine ⟨fun _ => rfl, ⟨t₁, hone⟩, fun p hp => ?_⟩
        exact (TakesEntries.congr (hsame t₁ hone) p).mp (hall p hp)
      · rintro ⟨-, ⟨t₁, hone⟩, hall⟩
        have h1 := hsame t₁ hone
        obtain ⟨t, ht⟩ := (ih t₁).mpr ⟨fun _ => h1.2.trans hreg,
          fun p hp => (TakesEntries.congr h1 p).mpr (hall p hp)⟩
        exact ⟨t, by rw [bind_of_ok hone, ht]⟩

/-- An insertion returns exactly if the storage takes the records. -/
theorem insertValidatedTuples_ok_iff (rows : List Row) (s : TableState) :
    (∃ n t, insertValidatedTuples storage rows s = .ok n t) ↔ Takes storage s rows := by
  unfold insertValidatedTuples
  constructor
  · rintro ⟨n, t, h⟩
    obtain ⟨ids, t₁, hvals, h⟩ := of_bind_ok h
    obtain ⟨s₁, t₂, hget, h⟩ := of_bind_ok h
    cases hget
    obtain ⟨u, t₃, hentries, -⟩ := of_bind_ok h
    obtain ⟨hlen, rfl⟩ := (addVals_sat rows s).ok hvals
    obtain ⟨hreg, hall⟩ := (addAllEntries_ok_iff _ _ _).mp ⟨t₃, hentries⟩
    refine ⟨ids, (addVals_ok_iff rows ids s).mp ⟨_, hvals⟩, fun hne => hreg ?_, hall⟩
    rw [ne_eq, zip_eq_nil_iff, not_or]
    exact ⟨hne, fun hids => hne (length_eq_zero_iff.mp (by rw [← hlen, hids]; rfl))⟩
  · rintro ⟨ids, hplaces, hreg, hall⟩
    obtain ⟨t₁, hvals⟩ := (addVals_ok_iff rows ids s).mpr hplaces
    obtain ⟨-, rfl⟩ := (addVals_sat rows s).ok hvals
    have hget : (get : Stmt TableState) { s with rows := s.rows ++ ids.zip rows } =
        .ok { s with rows := s.rows ++ ids.zip rows } { s with rows := s.rows ++ ids.zip rows } := rfl
    have hentries : rows.zip ids ≠ [] → s.registered = true := by
      intro hne
      apply hreg
      rintro rfl
      exact hne zip_nil_left
    obtain ⟨t, ht⟩ := (addAllEntries_ok_iff s.indexes (rows.zip ids)
      { s with rows := s.rows ++ ids.zip rows }).mpr ⟨hentries, hall⟩
    exact ⟨_, t, by rw [bind_of_ok hvals, bind_of_ok hget, bind_of_ok ht]; rfl⟩

/-! ### The statement -/

theorem validateTuples_eq (schema : TableSchema) (values : ConvertedResult) :
    validateTuples schema none values =
      (survivors schema values.converted).map (fun rows => { values with converted := rows }) := rfl

/-- What the statement does once the literals are converted. -/
theorem importTuples_eq (storage : Storage) (schema : TableSchema) (values : List (List InsertExpr))
    (s : TableState) :
    importTuples storage schema values s =
      match convertInsertVals values with
      | .error e => .error e s
      | .ok res =>
        match survivors schema res.converted with
        | .error e => .error e s
        | .ok rows =>
          if res.unconverted ≠ [] then .error (.validation res.unconverted) s
          else insertValidatedTuples storage rows s := by
  unfold importTuples
  cases hconv : convertInsertVals values with
  | error e => exact bind_of_error rfl
  | ok res =>
    have h1 : lift (.ok res : Except StatementError ConvertedResult) s = .ok res s := rfl
    rw [bind_of_ok h1]
    dsimp only
    cases hsurv : survivors schema res.converted with
    | error e =>
      apply bind_of_error
      rw [validateTuples_eq, hsurv]
      rfl
    | ok rows =>
      have h2 : lift (validateTuples schema none res) s = .ok { res with converted := rows } s := by
        rw [validateTuples_eq, hsurv]
        rfl
      rw [bind_of_ok h2]
      dsimp only
      split_ifs <;> rfl

/-- All literals of the statement are read. -/
def AllRead (values : List (List InsertExpr)) : Prop := ∀ e ∈ values.flatten, e.field.isSome

/-- How a statement ends: an expression that is no literal stops it, or a number that overflows; else
the faulty records are dropped, and the others are stored if all literals have been read. -/
theorem importTuples_cases (storage : Storage) (schema : TableSchema)
    (values : List (List InsertExpr)) (s : TableState) :
    (StopsFirst values.flatten ∧
      ∃ msg, importTuples storage schema values s = .error (.crusty msg) s) ∨
    (¬ StopsFirst values.flatten ∧ ¬ Quiet values.flatten ∧
      ∃ p, importTuples storage schema values s = .error (.panic p) s) ∨
    (Quiet values.flatten ∧ ∃ issues, (issues = [] ↔ AllRead values) ∧
      importTuples storage schema values s =
        match survivors schema (values.map readFields) with
        | .error e => .error e s
        | .ok rows =>
          if issues ≠ [] then .error (.validation issues) s
          else insertValidatedTuples storage rows s) := by
  rw [importTuples_eq, convertInsertVals]
  have hconverted := convertRows_converted 0 values
  cases hconv : convertRows 0 values with
  | error e =>
    rw [hconv] at hconverted
    obtain ⟨h, msg, hmsg⟩ | ⟨h, h', p, hp⟩ | ⟨-, issues, hok, -⟩ := hconverted
    · cases hmsg
      exact .inl ⟨h, msg, rfl⟩
    · cases hp
      exact .inr (.inl ⟨h, h', p, rfl⟩)
    · cases hok
  | ok res =>
    rw [hconv] at hconverted
    obtain ⟨-, msg, hmsg⟩ | ⟨-, -, p, hp⟩ | ⟨h, issues, hok, hissues⟩ := hconverted
    · cases hmsg
    · cases hp
    · obtain ⟨hfields, rfl⟩ := Prod.mk.inj (Except.ok.inj hok)
      refine .inr (.inr ⟨h, res.unconverted, hissues, ?_⟩)
      rw [← hfields]

/-- A statement whose literals are all read. -/
theorem importTuples_read (storage : Storage) (schema : TableSchema) (hread : AllRead values)
    (s : TableState) :
    importTuples storage schema values s =
      match survivors schema (values.map readFields) with
      | .error e => .error e s
      | .ok rows => insertValidatedTuples storage rows s := by
  have hquiet : Quiet values.flatten := quiet_of_fields hread
  obtain ⟨h, -⟩ | ⟨-, h, -⟩ | ⟨-, issues, hissues, h⟩ := importTuples_cases storage schema values s
  · exact absurd h (not_stopsFirst_of_quiet hquiet)
  · exact absurd hquiet h
  · rw [h, hissues.mpr hread]
    rfl

/-- A statement with a literal that is not read does not return, and changes nothing. -/
theorem importTuples_unread (storage : Storage) (schema : TableSchema) (h : ¬ AllRead values)
    (s : TableState) : ∃ e, importTuples storage schema values s = .error e s ∧
      ((∀ p, e ≠ .panic p) ↔ StopsFirst values.flatten ∨ Quiet values.flatten ∧
        (leftOf (issueCounts schema (values.map readFields))).isSome) := by
  obtain ⟨hstops, msg, hrun⟩ | ⟨hstops, hquiet, p, hrun⟩ | ⟨hquiet, issues, hissues, hrun⟩ :=
    importTuples_cases storage schema values s
  · exact ⟨_, hrun, by simp [hstops]⟩
  · refine ⟨_, hrun, ?_⟩
    simp [hstops, hquiet]
  · have hne : issues ≠ [] := fun hnil => h (hissues.mp hnil)
    rw [hrun, ← survivors_isSome_iff]
    cases hsurv : survivors schema (values.map readFields) with
    | error e =>
      refine ⟨e, rfl, ?_⟩
      rw [survivors_error hsurv]
      simp [not_stopsFirst_of_quiet hquiet]
    | ok rows =>
      refine ⟨.validation issues, if_pos hne, ?_⟩
      simp [hquiet]

/-- A statement whose literals are all read never fails without a trace. -/
theorem rows_ne_of_read (hread : AllRead values) {e : StatementError} {s s' : TableState}
    (herr : importTuples storage schema values s = .error e s') (he : ∀ p, e ≠ .panic p) :
    s'.rows ≠ s.rows := by
  rw [importTuples_read storage schema hread] at herr
  cases hsurv : survivors schema (values.map readFields) with
  | error e' =>
    rw [hsurv] at herr
    cases herr
    exact absurd (survivors_error hsurv) (he _)
  | ok rows =>
    rw [hsurv] at herr
    obtain ⟨p, hp⟩ | ⟨hne, vs, hlen, hrows⟩ := (insertValidatedTuples_sat rows s).error herr
    · exact absurd hp (he p)
    · intro heq
      rw [heq] at hrows
      have hcount := congrArg List.length hrows
      rw [length_append, length_zip, hlen] at hcount
      have hpos := length_pos_iff.mpr hne
      omega

/-! ### Typed rows -/

/-- The expression is read as a value of the column. -/
def ReadFor (e : InsertExpr) (attr : Attribute) : Prop :=
  ∃ f, e.field = some f ∧ f.Fits attr.dtype

variable {parseDate}

theorem splitDots_of_text {n : Numeral} (h : n.text = text.toList) :
    splitDots text = n.parts.map String.ofList := by
  unfold splitDots
  rw [splitOn_eq_parts_iff.mpr h]

section Spelled

variable {n : Numeral} (hsign : n.sign = .none) (htext : n.text = text.toList)
include hsign htext

/-- An integer that is read. -/
theorem number_of_integer (hfrac : n.frac = none) (hf : numberField text = some f) :
    f.number = some n.number := by
  have hfront : n.front = n.whole := by simp [front, hsign, Sign.chars]
  have htoList : text.toList = n.whole := by
    rw [← htext, Numeral.text, hfrac]
    exact hfront
  have hsplit := splitDots_of_text htext
  rw [parts, hfrac] at hsplit
  simp only [numberField, hsplit, Option.toList_none, map_cons, map_nil] at hf
  obtain ⟨v, hv, rfl⟩ := Option.map_eq_some_iff.mp hf
  have hin : InI64 v := (parseInt_eq_some.mp hv).2
  have hval := whole_of_parse hv (hfront.trans htoList.symm)
  rw [hsign] at hval
  have hnumber : n.number = (valueOf n.whole : ℚ) := by
    simp [Numeral.number, places, hfrac, hsign, Sign.apply, valueOf, Nat.ofDigitChars_nil]
  rw [number_of_digits (digits_bigInt _), toInt_ofInt hin, hnumber, hval]
  simp [Sign.apply]

/-- A number with a point that is read, if its fraction is not too long to be measured. -/
theorem number_of_point {cs : List Char} (hfrac : n.frac = some cs) (hlen : cs.length < 2 ^ 32)
    (hf : numberField text = some f) : f.number = some n.number := by
  have hfront : n.front = n.whole := by simp [front, hsign, Sign.chars]
  have hplaces : n.places = cs := by simp [places, hfrac]
  have hdigits : Digits (String.ofList cs).toList := by
    rw [String.toList_ofList, ← hplaces]
    exact n.digits_frac
  have hsize : fractionDigits (String.ofList cs) = cs.length := by
    unfold fractionDigits
    rw [utf8ByteSize_of_digits hdigits, String.toList_ofList, UInt32.toNat_ofNat',
      Nat.mod_eq_of_lt hlen]
  have hsplit := splitDots_of_text htext
  rw [parts, hfrac] at hsplit
  simp only [numberField, hsplit, Option.toList_some, map_cons, map_nil] at hf
  split at hf
  · rename_i v x hv hx
    split_ifs at hf with hcond
    obtain ⟨hlt, h0, hx4, hshort⟩ := hcond
    cases hf
    have hwhole := whole_of_parse hv (n := n) (by rw [String.toList_ofList])
    have hvalue := value_of_digits hx hdigits
    rw [hsign] at hwhole
    rw [String.toList_ofList] at hvalue
    have hunscaled : recombined v (x * 10 ^ (4 - fractionDigits (String.ofList cs))) 4 =
        n.unscaled 4 := by
      have hpos : ¬ v < 0 := by
        rw [hwhole]
        simp [Sign.apply]
      rw [recombined, if_neg hpos, hsize, unscaled, magnitude, hplaces, hsign, hwhole, hvalue]
      simp [Sign.apply]
    have hin := recombined_inI64 hlt h0 hx4 (Nat.sub_le 4 (fractionDigits (String.ofList cs)))
    rw [hunscaled] at hin ⊢
    rw [hsize, ← hplaces] at hshort
    rw [n.number_eq hshort, number_of_digits (digits_decimal _ _), toInt_ofInt hin]
    rfl
  · cases hf

end Spelled

/-- Nothing is read in front of a point with which a number begins. -/
theorem numberField_of_head (h : text.toList.head? = some '.') : numberField text = none := by
  obtain ⟨rest, hrest⟩ : ∃ rest, text.toList = '.' :: rest := by
    cases htext : text.toList with
    | nil => simp [htext] at h
    | cons c rest =>
      rw [htext] at h
      exact ⟨rest, by rw [Option.some.inj h]⟩
  have hsplit : text.toList.splitOn '.' = [] :: rest.splitOn '.' := by
    rw [hrest]
    simp [splitOn, splitOnP_cons_eq_if_modifyHead]
  have hne : rest.splitOn '.' ≠ [] := splitOn_ne_nil _ _
  unfold numberField splitDots
  rw [hsplit]
  generalize rest.splitOn '.' = parts at hne
  rcases parts with _ | ⟨frac, _ | ⟨c, parts⟩⟩
  · exact absurd rfl hne
  · rfl
  · rfl

/-- A number of the type of its column that is read is read as it is written. -/
theorem number_of_spells {n : Numeral} {dtype : DataType} (hn : SpellsNumber text n)
    (htype : NumberOfType n dtype) (hf : numberField text = some f) :
    f.number = some n.number := by
  obtain ⟨hsign, htext | ⟨-, hhead, -⟩⟩ := hn
  · cases hfrac : n.frac with
    | none => exact number_of_integer hsign htext hfrac hf
    | some cs =>
      have hplaces : n.places = cs := by simp [places, hfrac]
      have hlen : cs.length < 2 ^ 32 := by
        rw [← hplaces]
        cases dtype with
        | decimal p s => exact lt_of_le_of_lt htype.1 s.toNat_lt
        | bigInt => simp [htype.1]
        | int => simp [htype.1]
        | smallInt => simp [htype.1]
        | char len => exact htype.elim
        | string => exact htype.elim
        | date => exact htype.elim
        | bool => exact htype.elim
        | null => exact htype.elim
      exact number_of_point hsign htext hfrac hlen hf
  · rw [numberField_of_head hhead] at hf
    cases hf

variable {attr : Attribute} {attributes : List Attribute}

theorem denotes_of_typed (htyped : e.Typed parseDate attr) (hf : e.field = some f) :
    e.Denotes parseDate f := by
  cases e with
  | value v =>
    cases v with
    | number text =>
      obtain ⟨n, hn, htype⟩ := htyped
      exact ⟨n, hn, number_of_spells hn htype hf⟩
    | null => exact (Option.some.inj hf).symm
    | doubleQuotedString text => exact .inl (Option.some.inj hf).symm
    | singleQuotedString text => exact .inl (Option.some.inj hf).symm
    | boolean b => cases hf
    | other => cases hf
  | negative val => cases hf
  | date val => cases hf
  | other => cases hf

/-- A typed value that is read has no faults exactly if it is read as a value of its column. -/
theorem fieldFaults_eq_zero_iff (htyped : e.Typed parseDate attr) (hf : e.field = some f) :
    fieldFaults f attr = 0 ↔ f.Fits attr.dtype := by
  unfold fieldFaults
  by_cases hnull : f = .null
  · subst hnull
    have he : e = .value .null := by
      have hdenotes := denotes_of_typed htyped hf
      cases e with
      | value v =>
        cases v with
        | null => rfl
        | number text =>
          obtain ⟨n, -, hnumber⟩ := hdenotes
          cases hnumber
        | doubleQuotedString text => cases hf
        | singleQuotedString text => cases hf
        | boolean b => cases hf
        | other => cases hf
      | negative val => cases hf
      | date val => cases hf
      | other => cases hf
    subst he
    have hallowed : attr.constraint.forbidsNull = false := htyped
    simp [hallowed, Field.Fits]
  · rw [if_neg hnull]
    cases htype : f.ofType attr.dtype <;> simp [Field.Fits, hnull, htype]

theorem rowFaults_eq_zero_iff (htyped : Forall₂ (InsertExpr.Typed parseDate) row attributes)
    (hread : ∀ e ∈ row, e.field.isSome) :
    rowFaults (readFields row) attributes = 0 ↔ Forall₂ ReadFor row attributes := by
  induction htyped with
  | nil => simp [rowFaults, readFields]
  | @cons e attr row attributes he _ ih =>
    obtain ⟨hfirst, hrest⟩ := forall_mem_cons.mp hread
    obtain ⟨f, hf⟩ := Option.isSome_iff_exists.mp hfirst
    have hread : ReadFor e attr ↔ f.Fits attr.dtype := by simp [ReadFor, hf]
    rw [readFields_cons hf, forall₂_cons, ← ih hrest, hread, ← fieldFaults_eq_zero_iff he hf, rowFaults,
      rowFaults, zipWith_cons_cons, sum_cons, Nat.add_eq_zero_iff]

theorem rowStored_of_read (htyped : Forall₂ (InsertExpr.Typed parseDate) row schema.attributes)
    (hread : Forall₂ ReadFor row schema.attributes) : RowStored parseDate schema row (readFields row) := by
  unfold RowStored
  generalize schema.attributes = attributes at htyped hread ⊢
  induction htyped with
  | nil => exact ⟨.nil, .nil⟩
  | @cons e attr row attributes he _ ih =>
    obtain ⟨⟨f, hf, hfits⟩, hrest⟩ := forall₂_cons.mp hread
    obtain ⟨hdenotes, hall⟩ := ih hrest
    rw [readFields_cons hf]
    exact ⟨.cons (denotes_of_typed he hf) hdenotes, .cons hfits hall⟩

theorem fields_of_readFor (h : Forall₂ ReadFor row attributes) : ∀ e ∈ row, e.field.isSome := by
  induction h with
  | nil => simp
  | cons he _ ih =>
    obtain ⟨f, hf, -⟩ := he
    exact forall_mem_cons.mpr ⟨by rw [hf]; rfl, ih⟩

theorem issueCounts_readFields (schema : TableSchema) (values : List (List InsertExpr)) :
    issueCounts schema (values.map readFields) =
      values.map (fun row => rowFaults (readFields row) schema.attributes) := by
  unfold issueCounts
  rw [map_map]
  exact map_congr_left (fun row _ => rowIssues_length row 0 schema.attributes)

theorem readFields_length (h : ∀ e ∈ row, e.field.isSome) : (readFields row).length = row.length := by
  induction row with
  | nil => rfl
  | cons e row ih =>
    obtain ⟨he, hrest⟩ := forall_mem_cons.mp h
    obtain ⟨f, hf⟩ := Option.isSome_iff_exists.mp he
    rw [readFields_cons hf, length_cons, length_cons, ih hrest]

theorem allRead_iff : AllRead values ↔ ∀ row ∈ values, ∀ e ∈ row, e.field.isSome := by
  unfold AllRead
  simp only [mem_flatten]
  exact ⟨fun h row hrow e he => h e ⟨row, hrow, he⟩, fun h e ⟨row, hrow, he⟩ => h row hrow e he⟩

theorem survivors_of_valid (h : ∀ row ∈ rows, rowIssues 0 row schema.attributes = []) :
    survivors schema rows = .ok rows := by
  have hnil : ∀ i, valuesToRemove schema i rows = [] := by
    induction rows with
    | nil => exact fun _ => rfl
    | cons row rows ih =>
      obtain ⟨hrow, hrest⟩ := forall_mem_cons.mp h
      intro i
      rw [valuesToRemove, hrow, ih hrest (i + 1)]
      rfl
  unfold survivors
  rw [hnil 0]
  rfl

section Typed

variable (htyped : ∀ row ∈ values, RowTyped parseDate schema row)
include htyped

theorem survivors_of_readFor (hread : ∀ row ∈ values, Forall₂ ReadFor row schema.attributes) :
    AllRead values ∧ survivors schema (values.map readFields) = .ok (values.map readFields) := by
  have hall : ∀ row ∈ values, ∀ e ∈ row, e.field.isSome := fun row hrow =>
    fields_of_readFor (hread row hrow)
  refine ⟨allRead_iff.mpr hall, survivors_of_valid ?_⟩
  intro fields hfields
  obtain ⟨row, hrow, rfl⟩ := mem_map.mp hfields
  rw [← length_eq_zero_iff, rowIssues_length,
    rowFaults_eq_zero_iff (htyped row hrow) (hall row hrow)]
  exact hread row hrow

/-- Typed rows are all stored exactly if each literal is read as a value of its column and the storage
takes the rows. -/
theorem importTuples_ok_iff (storage : Storage) (s : TableState) :
    (∃ t, importTuples storage schema values s = .ok values.length t) ↔
      (∀ row ∈ values, Forall₂ ReadFor row schema.attributes) ∧
        Takes storage s (values.map readFields) := by
  rw [← insertValidatedTuples_ok_iff]
  constructor
  · rintro ⟨t, h⟩
    by_cases hall : AllRead values
    swap
    · obtain ⟨e, herr, -⟩ := importTuples_unread storage schema hall s
      rw [h] at herr
      cases herr
    rw [importTuples_read storage schema hall] at h
    cases hsurv : survivors schema (values.map readFields) with
    | error e =>
      rw [hsurv] at h
      cases h
    | ok rows =>
      rw [hsurv] at h
      have hcount : values.length = rows.length := ((insertValidatedTuples_sat rows s).ok h).1
      have hleft := (survivors_valid hsurv).1
      rw [issueCounts_readFields] at hleft
      have hzero := (leftOf_le hleft).2.mp (by rw [length_map, hcount])
      have hread : ∀ row ∈ values, Forall₂ ReadFor row schema.attributes := by
        intro row hrow
        rw [← rowFaults_eq_zero_iff (htyped row hrow) (allRead_iff.mp hall row hrow)]
        exact hzero _ (mem_map_of_mem hrow)
      obtain ⟨-, hkeep⟩ := survivors_of_readFor htyped hread
      rw [hsurv] at hkeep
      cases hkeep
      exact ⟨hread, _, t, h⟩
  · rintro ⟨hread, n, t, h⟩
    obtain ⟨hall, hkeep⟩ := survivors_of_readFor htyped hread
    have hn : n = (values.map readFields).length := ((insertValidatedTuples_sat _ s).ok h).1
    rw [length_map] at hn
    rw [importTuples_read storage schema hall, hkeep, ← hn]
    exact ⟨t, h⟩

end Typed

/-- An insert does what it should in two cases.  All rows are typed, each literal is read as a value of its
column, and the storage takes the rows.  Or some row is not typed and some literal is not read, and
either an expression that is no literal comes first, or no literal overflows and there are enough
records to drop. -/
theorem insertCorrect_iff (parseDate : String → Option Int64) (storage : Storage)
    (schema : TableSchema) (values : List (List InsertExpr)) (s : TableState) :
    InsertCorrect parseDate storage schema values s ↔
      (∀ row ∈ values, RowTyped parseDate schema row) ∧
        (∀ row ∈ values, List.Forall₂ ReadFor row schema.attributes) ∧
        Takes storage s (values.map readFields) ∨
      (¬ ∀ row ∈ values, RowTyped parseDate schema row) ∧
        (∃ e ∈ values.flatten, e.field = none) ∧
        (StopsFirst values.flatten ∨ Quiet values.flatten ∧
          (leftOf (values.map (fun row => rowFaults (readFields row) schema.attributes))).isSome) := by
  have hunread : (∃ e ∈ values.flatten, e.field = none) ↔ ¬ AllRead values := by
    simp only [AllRead, not_forall, exists_prop, Bool.not_eq_true, Option.isSome_eq_false_iff,
      Option.isNone_iff_eq_none]
  rw [hunread]
  unfold InsertCorrect
  by_cases htyped : ∀ row ∈ values, RowTyped parseDate schema row
  · have hok := importTuples_ok_iff htyped storage s
    constructor
    · rintro ⟨h, -⟩
      obtain ⟨rows, t, hrun, -⟩ := h htyped
      exact .inl ⟨htyped, hok.mp ⟨t, hrun⟩⟩
    · rintro (⟨-, htakes⟩ | ⟨hnot, -⟩)
      swap
      · exact absurd htyped hnot
      refine ⟨fun _ => ?_, fun hnot => absurd htyped hnot⟩
      obtain ⟨t, hrun⟩ := hok.mpr htakes
      obtain ⟨hall, hkeep⟩ := survivors_of_readFor htyped htakes.1
      refine ⟨values.map readFields, t, hrun, ?_, ?_⟩
      · rw [forall₂_map_right_iff, forall₂_same]
        exact fun row hrow => rowStored_of_read (htyped row hrow) (htakes.1 row hrow)
      · rw [importTuples_read storage schema hall, hkeep] at hrun
        obtain ⟨-, vs, hlen, hrows⟩ := (insertValidatedTuples_sat _ s).ok hrun
        rw [hrows, map_append, map_snd_zip (by omega)]
  · by_cases hall : AllRead values
    · constructor
      · rintro ⟨-, h⟩
        obtain ⟨e, t, herr, he, hrows⟩ := h htyped
        exact absurd hrows (rows_ne_of_read hall herr he)
      · rintro (⟨h, -⟩ | ⟨-, h, -⟩)
        · exact absurd h htyped
        · exact absurd hall h
    · obtain ⟨e, herr, hpanic⟩ := importTuples_unread storage schema hall s
      rw [issueCounts_readFields] at hpanic
      rw [← hpanic]
      constructor
      · rintro ⟨-, h⟩
        obtain ⟨e', t, herr', he', -⟩ := h htyped
        rw [herr] at herr'
        cases herr'
        exact .inr ⟨htyped, hall, he'⟩
      · rintro (⟨h, -⟩ | ⟨-, -, he⟩)
        · exact absurd h htyped
        · exact ⟨fun h => absurd h htyped, fun _ => ⟨e, s, herr, he, rfl⟩⟩

/-- A storage that numbers the records. -/
def countingStorage : Storage where
  place rows _ :=
    let v := ValueId.newSlot 0 (UInt32.ofNat rows.length) 0
    if v ∈ rows.map Prod.fst then none else some v
  replace _ v _ := .ok v
  entryError _ _ := none
  place_fresh rows row v h := by
    dsimp only at h
    split_ifs at h with hv
    cases h
    exact hv
  replace_fresh rows v row v' h := by
    cases h
    exact .inl rfl

/-- The table `t` after its creation, the first one of its database. -/
def emptyTable : TableState :=
  ⟨0, [], fun _ => none, [], ⟨1, [("t", 0)], by decide, by decide⟩, true⟩

/-- `CREATE TABLE t (a INT PRIMARY KEY)` -/
def oneBigInt : TableSchema := ⟨[⟨"a", .bigInt, .primaryKey⟩]⟩

/-- `INSERT INTO t VALUES ('x')` for a column of integers reports success and stores nothing. -/
theorem insert_wrongType_dropped :
    importTuples countingStorage oneBigInt [[.value (.singleQuotedString "x")]] emptyTable =
        .ok 0 emptyTable ∧
      ¬ InsertCorrect (fun _ => none) countingStorage oneBigInt
        [[.value (.singleQuotedString "x")]] emptyTable := by
  have hrun : importTuples countingStorage oneBigInt [[.value (.singleQuotedString "x")]] emptyTable =
      .ok 0 emptyTable := rfl
  refine ⟨hrun, ?_⟩
  rintro ⟨-, h⟩
  have hnot : ¬ ∀ row ∈ [[InsertExpr.value (.singleQuotedString "x")]],
      RowTyped (fun _ => none) oneBigInt row := by
    intro hall
    have hrow := hall _ List.mem_cons_self
    cases hrow with
    | cons hcell _ => exact hcell
  obtain ⟨e, s', herr, -, -⟩ := h hnot
  rw [hrun] at herr
  cases herr

end CrustyDB
