import Mathlib

/-! # Decimal numerals

A numeral is an optional sign, digits, and optionally a point and further digits.  `Numeral.text` is its
text and `Numeral.number` the number it stands for; `unscaled` counts the number in units of the last
of a given number of places.  A text spells a numeral just when it is split at its points into the
parts of the numeral (`splitOn_eq_parts_iff`). -/

/-- The sign in front of a numeral. -/
inductive Numeral.Sign where
  | none | plus | minus
deriving DecidableEq, Repr

namespace Numeral

def Sign.chars : Sign → List Char
  | none => []
  | plus => ['+']
  | minus => ['-']

def Sign.apply {α : Type} [Neg α] : Sign → α → α
  | minus, a => -a
  | _, a => a

/-- The text consists of digits. -/
def Digits (cs : List Char) : Prop := ∀ c ∈ cs, c.isDigit = true

instance (cs : List Char) : Decidable (Digits cs) := inferInstanceAs (Decidable (∀ c ∈ cs, _))

/-- The number that digits spell. -/
def valueOf (cs : List Char) : ℕ := Nat.ofDigitChars 10 cs 0

theorem valueOf_append (l m : List Char) : valueOf (l ++ m) = valueOf l * 10 ^ m.length + valueOf m := by
  unfold valueOf
  rw [Nat.ofDigitChars_append, Nat.ofDigitChars_eq_ofDigitChars_zero, Nat.mul_comm]

theorem valueOf_replicate (n : ℕ) : valueOf (List.replicate n '0') = 0 := by
  simp [valueOf, Nat.ofDigitChars_replicate_zero]

theorem valueOf_toDigits (n : ℕ) : valueOf (Nat.toDigits 10 n) = n := Nat.ofDigitChars_ten_toDigits

theorem isDigit_bounds {c : Char} (h : c.isDigit = true) : 48 ≤ c.toNat ∧ c.toNat ≤ 57 := by
  simpa [Char.isDigit, UInt32.le_iff_toNat_le] using h

theorem valueOf_lt {cs : List Char} (h : Digits cs) : valueOf cs < 10 ^ cs.length := by
  induction cs using List.reverseRecOn with
  | nil => simp [valueOf, Nat.ofDigitChars_nil]
  | append_singleton cs c ih =>
    have hcs := ih (fun x hx => h x (List.mem_append_left _ hx))
    have hc := isDigit_bounds (h c (by simp))
    have hone : valueOf [c] = c.toNat - 48 := by
      simp [valueOf, Nat.ofDigitChars_cons, Nat.ofDigitChars_nil]
    rw [valueOf_append, hone, List.length_append, List.length_singleton, pow_succ]
    omega

variable {l m : List Char}

theorem Digits.append (hl : Digits l) (hm : Digits m) : Digits (l ++ m) := by
  intro c hc
  rcases List.mem_append.mp hc with hc | hc
  · exact hl c hc
  · exact hm c hc

theorem Digits.of_sublist (h : Digits m) (hl : l.Sublist m) : Digits l :=
  fun c hc => h c (hl.subset hc)

theorem Digits.notMem {cs : List Char} (h : Digits cs) {c : Char} (hc : c.isDigit = false) : c ∉ cs := by
  intro hmem
  rw [h c hmem] at hc
  cases hc

/-- A digit string does not begin with a sign. -/
theorem sign_unique {s t : Sign} (hl : Digits l) (hm : Digits m) (h : s.chars ++ l = t.chars ++ m) :
    s = t ∧ l = m := by
  have hne : ∀ {cs : List Char} {c : Char} {rest : List Char}, Digits cs → cs = c :: rest →
      c.isDigit = true := by
    rintro cs c rest hcs rfl
    exact hcs c List.mem_cons_self
  cases s <;> cases t <;> simp only [Sign.chars, List.nil_append, List.cons_append, List.cons.injEq,
    true_and] at h
  case none.plus => exact absurd (hne hl h) (by decide)
  case none.minus => exact absurd (hne hl h) (by decide)
  case plus.none => exact absurd (hne hm h.symm) (by decide)
  case minus.none => exact absurd (hne hm h.symm) (by decide)
  case plus.minus => exact absurd h.1 (by decide)
  case minus.plus => exact absurd h.1 (by decide)
  all_goals exact ⟨rfl, h⟩

end Numeral

/-- A numeral. -/
structure Numeral where
  sign : Numeral.Sign
  whole : List Char
  frac : Option (List Char)
  whole_ne_nil : whole ≠ []
  digits_whole : Numeral.Digits whole
  digits_frac : Numeral.Digits (frac.getD [])

namespace Numeral

/-- What is in front of the point. -/
def front (n : Numeral) : List Char := n.sign.chars ++ n.whole

/-- The digits behind the point. -/
def places (n : Numeral) : List Char := n.frac.getD []

def text (n : Numeral) : List Char :=
  match n.frac with
  | none => n.front
  | some f => n.front ++ '.' :: f

/-- The number, in units of the last of `k` places, without its sign. -/
def magnitude (n : Numeral) (k : ℕ) : ℕ :=
  valueOf n.whole * 10 ^ k + valueOf n.places * 10 ^ (k - n.places.length)

/-- The number, in units of the last of `k` places. -/
def unscaled (n : Numeral) (k : ℕ) : ℤ := n.sign.apply (n.magnitude k : ℤ)

/-- The number that a numeral stands for. -/
def number (n : Numeral) : ℚ :=
  n.sign.apply ((valueOf n.whole : ℚ) + valueOf n.places / 10 ^ n.places.length)

/-- The numeral has at most `s` places and its number, counted in them, at most `p` digits. -/
def Fits (n : Numeral) (p s : ℕ) : Prop := n.places.length ≤ s ∧ n.magnitude s < 10 ^ p

theorem number_eq (n : Numeral) {k : ℕ} (h : n.places.length ≤ k) :
    n.number = (n.unscaled k : ℚ) / 10 ^ k := by
  have hmag : ((n.magnitude k : ℕ) : ℚ) / 10 ^ k =
      (valueOf n.whole : ℚ) + valueOf n.places / 10 ^ n.places.length := by
    obtain ⟨j, rfl⟩ := Nat.exists_eq_add_of_le h
    rw [magnitude, Nat.add_sub_cancel_left, pow_add]
    push_cast
    field_simp
    ring
  unfold number unscaled
  rw [← hmag]
  cases n.sign <;> simp [Sign.apply, neg_div]

theorem head?_front (n : Numeral) : n.front.head? = some '-' ↔ n.sign = .minus := by
  unfold front
  cases hs : n.sign with
  | none =>
    simp only [Sign.chars, List.nil_append, reduceCtorEq, iff_false]
    intro h
    exact n.digits_whole.notMem (by decide) (List.mem_of_head? h)
  | plus => simp [Sign.chars]
  | minus => simp [Sign.chars]

/-- What stands between the points. -/
def parts (n : Numeral) : List (List Char) := n.front :: n.frac.toList

theorem dot_notMem_front (n : Numeral) : '.' ∉ n.front := by
  unfold front
  rw [List.mem_append, not_or]
  refine ⟨?_, n.digits_whole.notMem (by decide)⟩
  cases n.sign <;> simp [Sign.chars]

/-- A text spells a numeral if it is split into its parts. -/
theorem splitOn_eq_parts_iff {n : Numeral} {cs : List Char} : cs.splitOn '.' = n.parts ↔ n.text = cs := by
  constructor
  · intro h
    have hcs : ['.'].intercalate (cs.splitOn '.') = cs := List.intercalate_splitOn '.'
    rw [← hcs, h]
    unfold text parts
    cases n.frac <;> simp [List.intercalate]
  · rintro rfl
    have hdigits : Digits (n.frac.getD []) := n.digits_frac
    unfold text parts
    cases hf : n.frac with
    | none => simpa using List.splitOn_eq_singleton n.dot_notMem_front
    | some f =>
      rw [hf, Option.getD_some] at hdigits
      simp only [Option.toList_some]
      rw [List.splitOn_append_cons_self, List.splitOn_eq_singleton n.dot_notMem_front,
        List.splitOn_eq_singleton (hdigits.notMem (by decide))]
      rfl

/-- The places are less than a unit, so that only the whole part decides about the digits. -/
theorem fits_iff {n : Numeral} {p s : ℕ} (h : s ≤ p) :
    n.Fits p s ↔ n.places.length ≤ s ∧ valueOf n.whole < 10 ^ (p - s) := by
  unfold Fits magnitude
  refine and_congr_right (fun hlen => ?_)
  have hplaces : valueOf n.places * 10 ^ (s - n.places.length) < 10 ^ s := by
    calc valueOf n.places * 10 ^ (s - n.places.length)
        < 10 ^ n.places.length * 10 ^ (s - n.places.length) :=
          Nat.mul_lt_mul_of_pos_right (valueOf_lt n.digits_frac) (Nat.pow_pos (by decide))
      _ = 10 ^ s := by rw [← pow_add, Nat.add_sub_cancel' hlen]
  have hp : 10 ^ p = 10 ^ (p - s) * 10 ^ s := by rw [← pow_add, Nat.sub_add_cancel h]
  rw [hp]
  constructor
  · intro hlt
    exact Nat.lt_of_mul_lt_mul_right (lt_of_le_of_lt (Nat.le_add_right _ _) hlt)
  · intro hlt
    have hle := Nat.mul_le_mul_right (10 ^ s) (Nat.succ_le_of_lt hlt)
    rw [Nat.succ_mul] at hle
    omega

end Numeral
