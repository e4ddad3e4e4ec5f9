import CrustyDB.Data.Bytecode

/-! # The numbers that fields stand for

A `BigInt` and a `Decimal` stand for rational numbers (`Field.number`).  The arithmetic on fields
brings two numbers to a common scale and then works on `i64`; it is exact exactly if no intermediate
value leaves `i64` (`arithmetic_exact_iff`).  The order on fields is that of their representation: it
is the order of the numbers among integers and among decimals of one scale, and in between only by
accident (`compareFields_numeric_iff`). -/

namespace CrustyDB

namespace Field

/-- The unscaled value and the scale of a number. -/
def digits : Field → Option (ℤ × ℕ)
  | bigInt v => some (v.toInt, 0)
  | decimal whole scale => some (whole.toInt, scale.toNat)
  | _ => none

/-- The number that a field stands for. -/
def number (f : Field) : Option ℚ := f.digits.map (fun d => (d.1 : ℚ) / 10 ^ d.2)

@[simp] theorem digits_bigInt (v : Int64) : (bigInt v).digits = some (v.toInt, 0) := rfl

@[simp] theorem digits_decimal (v : Int64) (s : UInt32) :
    (decimal v s).digits = some (v.toInt, s.toNat) := rfl

theorem number_of_digits {f : Field} {a : ℤ} {s : ℕ} (h : f.digits = some (a, s)) :
    f.number = some ((a : ℚ) / 10 ^ s) := by
  simp [number, h]

/-- The value is an `i64`. -/
def InI64 (v : ℤ) : Prop := -2 ^ 63 ≤ v ∧ v < 2 ^ 63

instance (v : ℤ) : Decidable (InI64 v) := inferInstanceAs (Decidable (_ ∧ _))

theorem inI64_toInt (v : Int64) : InI64 v.toInt := ⟨v.le_toInt, v.toInt_lt⟩

theorem toInt_ofInt {v : ℤ} (h : InI64 v) : (Int64.ofInt v).toInt = v :=
  Int64.toInt_ofInt_of_le h.1 h.2

/-! ### Arithmetic on `i64` -/

theorem i64_checkI64 (v : ℤ) :
    i64 (checkI64 v) = if InI64 v then .ok (Int64.ofInt v) else .error (.panic .overflow) := by
  unfold checkI64
  by_cases h : InI64 v
  · rw [if_pos h]
    exact congrArg i64 (if_pos h)
  · rw [if_neg h]
    exact congrArg i64 (if_neg h)

theorem inI64_pow {n : ℕ} (h : n < 19) : InI64 (10 ^ n) := by
  have hle : (10 : ℤ) ^ n ≤ 10 ^ 18 := pow_le_pow_right₀ (by norm_num) (by omega)
  have hpos : (0 : ℤ) < 10 ^ n := by positivity
  exact ⟨by omega, by omega⟩

/-- A number can be brought to a scale that is larger by `n`. -/
def Scales (a : ℤ) (n : ℕ) : Prop := n < 19 ∧ InI64 (a * 10 ^ n)

instance (a : ℤ) (n : ℕ) : Decidable (Scales a n) := inferInstanceAs (Decidable (_ ∧ _))

theorem scaleUp_eq (a : Int64) (n : ℕ) :
    scaleUp a n = if Scales a.toInt n then .ok (Int64.ofInt (a.toInt * 10 ^ n))
      else .error (.panic .overflow) := by
  unfold scaleUp pow10 Scales
  by_cases hn : n < 19
  · have hunit := toInt_ofInt (inI64_pow hn)
    simp only [hn, if_true, true_and]
    rw [← i64_checkI64, ← hunit]
    simp only [hunit, i64, bind, Except.bind]
  · simp [hn, i64, bind, Except.bind]

theorem scales_zero (a : Int64) : Scales a.toInt 0 :=
  ⟨by omega, by simpa using inI64_toInt a⟩

theorem scaleUp_zero (a : Int64) : scaleUp a 0 = .ok a := by
  simp [scaleUp_eq, scales_zero]

/-- No intermediate value of an addition or subtraction leaves `i64`. -/
def Safe (f : ℤ → ℤ → ℤ) (d e : ℤ × ℕ) : Prop :=
  Scales d.1 (max d.2 e.2 - d.2) ∧ Scales e.1 (max d.2 e.2 - e.2) ∧
    InI64 (f (d.1 * 10 ^ (max d.2 e.2 - d.2)) (e.1 * 10 ^ (max d.2 e.2 - e.2)))

instance (f : ℤ → ℤ → ℤ) (d e : ℤ × ℕ) : Decidable (Safe f d e) :=
  inferInstanceAs (Decidable (_ ∧ _))

/-- The field with this unscaled value and scale: a decimal if one of the operands is. -/
def sameKind : Field → Field → ℤ → Field
  | bigInt _, bigInt _, v => bigInt (Int64.ofInt v)
  | decimal _ s, decimal _ t, v => decimal (Int64.ofInt v) (if s > t then s else t)
  | decimal _ s, _, v => decimal (Int64.ofInt v) s
  | _, decimal _ t, v => decimal (Int64.ofInt v) t
  | _, _, _ => null

variable {l r : Field} {d e : ℤ × ℕ}

theorem toNat_larger (s t : UInt32) : (if s > t then s else t).toNat = max s.toNat t.toNat := by
  split_ifs with h
  · have := UInt32.lt_iff_toNat_lt.mp h
    omega
  · have := mt UInt32.lt_iff_toNat_lt.mpr h
    omega

/-- The kind of the result has the larger scale. -/
theorem digits_sameKind (hl : l.digits = some d) (hr : r.digits = some e) {v : ℤ} (hv : InI64 v) :
    (sameKind l r v).digits = some (v, max d.2 e.2) := by
  cases l <;> cases r <;> simp only [digits, Option.some.injEq, reduceCtorEq] at hl hr <;>
    subst hl hr <;> simp [sameKind, toInt_ofInt hv, toNat_larger]

/-- Two numbers are scaled and then combined. -/
theorem combine_eq (f : ℤ → ℤ → ℤ) (make : Int64 → Field) (a b : Int64) (m n : ℕ) :
    (do
      let a ← scaleUp a m
      let b ← scaleUp b n
      let c ← i64 (checkI64 (f a.toInt b.toInt))
      pure (make c)) =
      if Scales a.toInt m ∧ Scales b.toInt n ∧ InI64 (f (a.toInt * 10 ^ m) (b.toInt * 10 ^ n)) then
        .ok (make (Int64.ofInt (f (a.toInt * 10 ^ m) (b.toInt * 10 ^ n))))
      else .error (.panic .overflow) := by
  rw [scaleUp_eq, scaleUp_eq]
  by_cases ha : Scales a.toInt m
  · by_cases hb : Scales b.toInt n
    · simp only [ha, hb, if_true, bind, Except.bind, toInt_ofInt ha.2, toInt_ofInt hb.2, i64_checkI64,
        true_and]
      split_ifs <;> rfl
    · simp [ha, hb, bind, Except.bind]
  · simp [ha, bind, Except.bind]

/-- Two numbers are combined at the larger scale, or the operation panics. -/
theorem addWith_eq (f : ℤ → ℤ → ℤ) (mismatch : ExecError) (hl : l.digits = some d)
    (hr : r.digits = some e) :
    addWith f mismatch l r =
      if Safe f d e then
        .ok (sameKind l r (f (d.1 * 10 ^ (max d.2 e.2 - d.2)) (e.1 * 10 ^ (max d.2 e.2 - e.2))))
      else .error (.panic .overflow) := by
  cases l <;> cases r <;> simp only [digits, Option.some.injEq, reduceCtorEq] at hl hr <;> subst hl hr
  case bigInt.bigInt a b =>
    have h := combine_eq f bigInt a b 0 0
    rw [scaleUp_zero, scaleUp_zero] at h
    exact h
  case bigInt.decimal a b t =>
    have h := combine_eq f (fun c => decimal c t) a b t.toNat 0
    rw [scaleUp_zero] at h
    simp only [Safe, Nat.zero_max, Nat.sub_zero, Nat.sub_self]
    exact h
  case decimal.bigInt a s b =>
    have h := combine_eq f (fun c => decimal c s) a b 0 s.toNat
    rw [scaleUp_zero] at h
    simp only [Safe, Nat.max_zero, Nat.sub_zero, Nat.sub_self]
    exact h
  case decimal.decimal a s b t =>
    have h := combine_eq f (fun c => decimal c (if s > t then s else t)) a b
      (max s.toNat t.toNat - s.toNat) (max s.toNat t.toNat - t.toNat)
    simp only [addWith, toNat_larger]
    exact h

theorem addWith_of_none (f : ℤ → ℤ → ℤ) (mismatch : ExecError)
    (h : l.digits = none ∨ r.digits = none) : addWith f mismatch l r = .error mismatch := by
  cases l <;> cases r <;> first | rfl | simp at h

/-! ### What the arithmetic returns -/

/-- The operation has returned the exact result, or an error. -/
def Exact (op : ℚ → ℚ → ℚ) (l r : Field) : Except ExecError Field → Prop
  | .ok f => ∃ a b, l.number = some a ∧ r.number = some b ∧ f.number = some (op a b)
  | .error (.crusty _) => True
  | .error _ => False

/-- Both fields are numbers, and no intermediate value of the operation leaves `i64`. -/
def SafeOn (f : ℤ → ℤ → ℤ) (l r : Field) : Prop :=
  ∃ d e, l.digits = some d ∧ r.digits = some e ∧ Safe f d e

/-- A number at a larger scale. -/
theorem rescaled (a : ℤ) {s t : ℕ} (h : s ≤ t) : ((a * 10 ^ (t - s) : ℤ) : ℚ) / 10 ^ t = a / 10 ^ s := by
  obtain ⟨k, rfl⟩ := Nat.exists_eq_add_of_le h
  rw [Nat.add_sub_cancel_left, pow_add]
  push_cast
  field_simp

/-- An operation that commutes with scaling is exact where nothing overflows. -/
theorem addWith_exact {f : ℤ → ℤ → ℤ} {op : ℚ → ℚ → ℚ} {mismatch : ExecError}
    (hop : ∀ (a b : ℤ) (u : ℚ), ((f a b : ℤ) : ℚ) / u = op (a / u) (b / u))
    (hl : l.digits = some d) (hr : r.digits = some e) :
    Exact op l r (addWith f mismatch l r) ↔ Safe f d e := by
  rw [addWith_eq f mismatch hl hr]
  split_ifs with hsafe
  · refine iff_of_true ?_ hsafe
    have hnumber := number_of_digits (digits_sameKind hl hr hsafe.2.2)
    rw [hop, rescaled _ (le_max_left _ _), rescaled _ (le_max_right _ _)] at hnumber
    exact ⟨_, _, number_of_digits hl, number_of_digits hr, hnumber⟩
  · exact iff_of_false id hsafe

theorem safeOn_iff {f : ℤ → ℤ → ℤ} (hl : l.digits = some d) (hr : r.digits = some e) :
    SafeOn f l r ↔ Safe f d e := by
  simp [SafeOn, hl, hr]

/-- A product is exact where it does not overflow. -/
theorem mulWith_exact (kind : Int64 → Field) (hl : l.digits = some d) (hr : r.digits = some e)
    (hkind : ∀ v, (kind v).digits = some (v.toInt, d.2 + e.2)) :
    Exact (fun x y => x * y) l r (do
      let c ← i64 (checkI64 (d.1 * e.1))
      pure (kind c)) ↔ ∀ d e, l.digits = some d → r.digits = some e → InI64 (d.1 * e.1) := by
  have hiff : (∀ d e, l.digits = some d → r.digits = some e → InI64 (d.1 * e.1)) ↔
      InI64 (d.1 * e.1) := by
    simp [hl, hr]
  rw [hiff, i64_checkI64]
  split_ifs with h
  · refine iff_of_true ⟨_, _, number_of_digits hl, number_of_digits hr, ?_⟩ h
    show (kind _).number = _
    rw [number_of_digits (hkind _), toInt_ofInt h, Int.cast_mul, pow_add, mul_div_mul_comm]
  · exact iff_of_false id h

/-- The field is of one of the types of integers. -/
def IsInteger : Field → Prop
  | bigInt _ | int _ | smallInt _ => True
  | _ => False

/-- Addition and subtraction, and a multiplication with an integer, return the exact result or an error
exactly if no intermediate value leaves `i64` and, for the addition, both operands are numbers. -/
theorem arithmetic_exact_iff (floats : Floats) (l r : Field) :
    (Exact (fun x y => x + y) l r (add l r) ↔ SafeOn (fun x y => x + y) l r) ∧
      (Exact (fun x y => x - y) l r (sub l r) ↔
        SafeOn (fun x y => x - y) l r ∨ l.digits = none ∨ r.digits = none) ∧
      (l.IsInteger ∨ r.IsInteger → (Exact (fun x y => x * y) l r (mul floats l r) ↔
        ∀ d e, l.digits = some d → r.digits = some e → InI64 (d.1 * e.1))) := by
  refine ⟨?_, ?_, ?_⟩
  · unfold add
    by_cases hnum : l.digits = none ∨ r.digits = none
    · rw [addWith_of_none _ _ hnum]
      refine iff_of_false id ?_
      rintro ⟨d, e, hl, hr, -⟩
      simp [hl, hr] at hnum
    · obtain ⟨⟨d, hl⟩, e, hr⟩ := (not_or.mp hnum).imp Option.ne_none_iff_exists'.mp
        Option.ne_none_iff_exists'.mp
      rw [safeOn_iff hl hr]
      refine addWith_exact (fun a b u => ?_) hl hr
      rw [Int.cast_add, add_div]
  · unfold sub
    by_cases hnum : l.digits = none ∨ r.digits = none
    · rw [addWith_of_none _ _ hnum]
      exact iff_of_true trivial (.inr hnum)
    · obtain ⟨⟨d, hl⟩, e, hr⟩ := (not_or.mp hnum).imp Option.ne_none_iff_exists'.mp
        Option.ne_none_iff_exists'.mp
      rw [safeOn_iff hl hr, or_iff_left hnum]
      refine addWith_exact (fun a b u => ?_) hl hr
      rw [Int.cast_sub, sub_div]
  · intro hint
    cases l <;> cases r <;> first | exact (hint.elim id id).elim | skip
    case bigInt.bigInt a b =>
      exact mulWith_exact (d := (a.toInt, 0)) (e := (b.toInt, 0)) bigInt rfl rfl (fun v => rfl)
    case bigInt.decimal a b t =>
      refine mulWith_exact (d := (a.toInt, 0)) (e := (b.toInt, t.toNat)) (fun v => decimal v t) rfl rfl
        (fun v => ?_)
      rw [digits_decimal, Nat.zero_add]
    case decimal.bigInt a s b =>
      exact mulWith_exact (d := (a.toInt, s.toNat)) (e := (b.toInt, 0)) (fun v => decimal v s) rfl rfl
        (fun v => rfl)
    -- the other fields cannot be multiplied
    all_goals refine iff_of_true trivial (fun d e hd he => ?_)
    all_goals simp [digits] at hd he

/-- 2 + 1.5 is 3.5, and 2 - 1.5 is 0.5. -/
theorem arithmetic_exact_decimal :
    Exact (fun x y => x + y) (bigInt 2) (decimal 15 1) (add (bigInt 2) (decimal 15 1)) ∧
      Exact (fun x y => x - y) (bigInt 2) (decimal 15 1) (sub (bigInt 2) (decimal 15 1)) := by
  have h := arithmetic_exact_iff ⟨fun _ _ => 0, fun _ _ => 0⟩ (bigInt 2) (decimal 15 1)
  exact ⟨h.1.mpr ⟨_, _, rfl, rfl, by decide⟩, h.2.1.mpr (.inl ⟨_, _, rfl, rfl, by decide⟩)⟩

/-- The sum of the largest `BigInt` and 1 panics; so does an addition to `NULL`. -/
theorem add_panics :
    add (bigInt 9223372036854775807) (bigInt 1) = .error (.panic .overflow) ∧
      add (bigInt 1) null = .error (.abort "Expected int or decimal") ∧
      add (decimal 1 0) (decimal 1 19) = .error (.panic .overflow) := by
  decide

/-! ### Comparisons -/

/-- The comparison of two numbers. -/
def compareNumbers (a b : ℚ) : BinaryOp → Option Bool
  | .eq => some (a = b)
  | .neq => some (a ≠ b)
  | .gt => some (a > b)
  | .ge => some (a ≥ b)
  | .lt => some (a < b)
  | .le => some (a ≤ b)
  | _ => none

/-- The comparisons of two fields, and their order, are those of two numbers. -/
structure ComparesAs (l r : Field) (a b : ℚ) : Prop where
  compare : ∀ op v, compareNumbers a b op = some v → compareFields op l r = .ok v
  lt_iff : l < r ↔ a < b
  eq_iff : l = r ↔ a = b

/-- The fields are integers, or decimals of one scale, or otherwise the one whose representation comes
first (an integer before a decimal, then by the unscaled value, then by the scale) is the smaller
number. -/
def Comparable : Field → Field → Prop
  | bigInt a, decimal b t => a.toInt * 10 ^ t.toNat < b.toInt
  | decimal a s, bigInt b => b.toInt * 10 ^ s.toNat < a.toInt
  | decimal a s, decimal b t => s = t ∨
      (a.toInt < b.toInt ∨ a = b ∧ s.toNat < t.toNat) ∧
        a.toInt * 10 ^ t.toNat < b.toInt * 10 ^ s.toNat ∨
      (b.toInt < a.toInt ∨ a = b ∧ t.toNat < s.toNat) ∧
        b.toInt * 10 ^ s.toNat < a.toInt * 10 ^ t.toNat
  | _, _ => True

theorem comparesAs_iff {a b : ℚ} : ComparesAs l r a b ↔ (l < r ↔ a < b) ∧ (l = r ↔ a = b) := by
  refine ⟨fun h => ⟨h.lt_iff, h.eq_iff⟩, fun ⟨hlt, heq⟩ => ⟨fun op v h => ?_, hlt, heq⟩⟩
  have hle : l ≤ r ↔ a ≤ b := by rw [le_iff_lt_or_eq, hlt, heq, ← le_iff_lt_or_eq]
  cases op <;> simp only [compareNumbers, Option.some.injEq, reduceCtorEq] at h <;> subst h
  case eq => simp [compareFields, heq]
  case neq => simp [compareFields, heq]
  case lt => simp [compareFields, hlt]
  case le => simp [compareFields, hle]
  case gt => simp only [compareFields, gt_iff_lt, ← not_le, hle]
  case ge => simp only [compareFields, ge_iff_le, ← not_lt, hlt]

theorem code_lt_iff : l < r ↔ l.code < r.code := Iff.rfl

/-- Numbers are compared at the sum of their scales. -/
theorem div_pow_lt_iff (a b : ℤ) (s t : ℕ) :
    (a : ℚ) / 10 ^ s < b / 10 ^ t ↔ a * 10 ^ t < b * 10 ^ s := by
  rw [div_lt_div_iff₀ (by positivity) (by positivity)]
  exact_mod_cast Iff.rfl

theorem div_pow_eq_iff (a b : ℤ) (s t : ℕ) :
    (a : ℚ) / 10 ^ s = b / 10 ^ t ↔ a * 10 ^ t = b * 10 ^ s := by
  rw [div_eq_div_iff (by positivity) (by positivity)]
  exact_mod_cast Iff.rfl

/-- Two numbers compare as the fields do exactly if the fields are integers, or decimals of one scale,
or happen to be in the order of their representations. -/
theorem compareFields_numeric_iff (hl : l.digits = some d) (hr : r.digits = some e) :
    (∃ a b, l.number = some a ∧ r.number = some b ∧ ComparesAs l r a b) ↔ Comparable l r := by
  have hsides : (∃ a b, l.number = some a ∧ r.number = some b ∧ ComparesAs l r a b) ↔
      (l.code < r.code ↔ d.1 * 10 ^ e.2 < e.1 * 10 ^ d.2) ∧
        (l.code = r.code ↔ d.1 * 10 ^ e.2 = e.1 * 10 ^ d.2) := by
    rw [number_of_digits hl, number_of_digits hr, code_injective.eq_iff, ← code_lt_iff,
      ← div_pow_lt_iff, ← div_pow_eq_iff, ← comparesAs_iff]
    simp
  rw [hsides]
  cases l <;> cases r <;> simp only [digits, Option.some.injEq, reduceCtorEq] at hl hr <;> subst hl hr
  case bigInt.bigInt a b => simp [code, Comparable, List.cons_lt_cons_iff]
  case bigInt.decimal a b t =>
    simp [code, Comparable, List.cons_lt_cons_iff]
    omega
  case decimal.bigInt a s b =>
    simp [code, Comparable, List.cons_lt_cons_iff]
    omega
  case decimal.decimal a s b t =>
    simp only [code, Comparable, List.cons_lt_cons_iff, List.cons.injEq, and_true, true_and,
      lt_self_iff_false, false_or, and_false, or_false, Int.natCast_inj, Nat.cast_lt,
      ← UInt32.toNat_inj, ← Int64.toInt_inj]
    by_cases hst : s.toNat = t.toNat
    · have hpos : (0 : ℤ) < 10 ^ t.toNat := by positivity
      simp [hst, hpos, hpos.ne']
    · omega

/-- Two decimals of one scale, and an integer below a decimal. -/
theorem compareFields_numeric_examples :
    (∃ a b, (decimal 15 1).number = some a ∧ (decimal (-20) 1).number = some b ∧
      ComparesAs (decimal 15 1) (decimal (-20) 1) a b) ∧
    ∃ a b, (bigInt 1).number = some a ∧ (decimal 15 1).number = some b ∧
      ComparesAs (bigInt 1) (decimal 15 1) a b :=
  ⟨(compareFields_numeric_iff rfl rfl).mpr (.inl rfl),
    (compareFields_numeric_iff rfl rfl).mpr (show (1 : ℤ) * 10 ^ 1 < 15 by decide)⟩

/-- The integer 5 is less than the decimal 1, and the decimals 1.0 and 1.00 are not equal. -/
theorem compareFields_not_numeric :
    (bigInt 5).number = some 5 ∧ (decimal 1 0).number = some 1 ∧
      compareFields .lt (bigInt 5) (decimal 1 0) = .ok true ∧
      (decimal 10 1).number = some 1 ∧ (decimal 100 2).number = some 1 ∧
      compareFields .eq (decimal 10 1) (decimal 100 2) = .ok false := by
  refine ⟨?_, ?_, by decide, ?_, ?_, by decide⟩
  · exact (number_of_digits (a := 5) (s := 0) rfl).trans (by norm_num)
  · exact (number_of_digits (a := 1) (s := 0) rfl).trans (by norm_num)
  · exact (number_of_digits (a := 10) (s := 1) rfl).trans (by norm_num)
  · exact (number_of_digits (a := 100) (s := 2) rfl).trans (by norm_num)

end Field

end CrustyDB
