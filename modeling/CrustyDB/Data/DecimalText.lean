import CrustyDB.Data.FieldNumbers
import CrustyDB.Lib.Numeral

/-! # Decimals as text

`fromStrToDecimal` reads the part in front of the point and the part behind it as two integers of 64
bits and puts them together; `readsDecimal_iff` says for which texts and types this reads a numeral as
the number it stands for and refuses every other text.  `display` writes a field;
`fromStrToDecimal_display_iff` says which decimals are read back. -/

namespace CrustyDB

open Numeral List

namespace Field

/-! ### Integers -/

theorem parseDigits_eq_some {cs : List Char} {n : ℕ} :
    parseDigits cs = some n ↔ cs ≠ [] ∧ Digits cs ∧ n = valueOf cs := by
  unfold parseDigits
  split_ifs with h
  · obtain ⟨hne, hall⟩ := h
    rw [all_eq_true] at hall
    simp only [Option.some.injEq, valueOf, Nat.ofDigitChars]
    exact ⟨fun h => ⟨hne, hall, h.symm⟩, fun h => h.2.2.symm⟩
  · refine iff_of_false (by simp) ?_
    rintro ⟨hne, hall, -⟩
    exact h ⟨hne, all_eq_true.mpr hall⟩

/-- The integers that are read are signed digits within the range. -/
theorem parseInt_eq_some {w : ℕ} {t : String} {v : ℤ} : parseInt w t = some v ↔
    (∃ sign ds, t.toList = Sign.chars sign ++ ds ∧ ds ≠ [] ∧ Digits ds ∧
      v = sign.apply (valueOf ds : ℤ)) ∧ -2 ^ (w - 1) ≤ v ∧ v < 2 ^ (w - 1) := by
  unfold parseInt
  simp only [Option.filter_eq_some_iff, Bool.and_eq_true, decide_eq_true_eq]
  refine and_congr_left (fun _ => ?_)
  constructor
  · intro h
    split at h <;> simp only [Option.map_eq_some_iff, Option.bind_eq_bind, Option.pure_def,
      Option.bind_eq_some_iff, Option.some.injEq, parseDigits_eq_some] at h <;>
      obtain ⟨n, ⟨-, ⟨hne, hds, rfl⟩, rfl⟩, rfl⟩ := h
    case h_1 ht _ => exact ⟨.minus, _, ht, hne, hds, rfl⟩
    case h_2 ht _ => exact ⟨.plus, _, ht, hne, hds, rfl⟩
    case h_3 => exact ⟨.none, _, rfl, hne, hds, rfl⟩
  · rintro ⟨sign, ds, ht, hne, hds, rfl⟩
    have hn := parseDigits_eq_some.mpr ⟨hne, hds, rfl⟩
    rw [ht]
    cases sign with
    | plus => simp [Sign.chars, Sign.apply, hn]
    | minus => simp [Sign.chars, Sign.apply, hn]
    | none =>
      simp only [Sign.chars, nil_append]
      split
      case h_1 => exact absurd (hds _ mem_cons_self) (by decide)
      case h_2 => exact absurd (hds _ mem_cons_self) (by decide)
      case h_3 => simp [Sign.apply, hn]

theorem abs_apply (sign : Sign) (n : ℕ) : |sign.apply (n : ℤ)| = n := by
  cases sign <;> simp [Sign.apply]

/-! ### What is computed from the parts -/

variable {text i f : String} {p s : UInt32} {rest : List String} {v x : ℤ} {n : Numeral}

/-- The unscaled value that is put together from an integral and a fractional part. -/
def recombined (v x : ℤ) (k : ℕ) : ℤ := if v < 0 then v * 10 ^ k - x else v * 10 ^ k + x

theorem checkI64_eq (v : ℤ) :
    checkI64 v = if InI64 v then .ok v else .error (.panic .overflow) := rfl

theorem decimalOf_eq (hx : 0 ≤ x) : decimalOf v x s =
    if s.toNat ≤ 18 ∧ InI64 (recombined v x s.toNat) then
      .ok (decimal (Int64.ofInt (recombined v x s.toNat)) s)
    else .error (.panic .overflow) := by
  have hmul : InI64 (recombined v x s.toNat) → InI64 (v * 10 ^ s.toNat) := by
    have hpow : (0 : ℤ) < 10 ^ s.toNat := by positivity
    unfold recombined InI64
    split_ifs with hv
    · have := mul_neg_of_neg_of_pos hv hpow
      omega
    · have := mul_nonneg (not_lt.mp hv) hpow.le
      omega
  have hwhole : (if v < 0 then v * 10 ^ s.toNat - x else v * 10 ^ s.toNat + x) =
      recombined v x s.toNat := rfl
  unfold decimalOf
  by_cases hs : s.toNat < 19
  · by_cases hr : InI64 (recombined v x s.toNat)
    · simp [pow10, hs, checkI64_eq, hmul hr, hwhole, hr, Nat.le_of_lt_succ hs, bind, Except.bind,
        pure, Except.pure]
    · by_cases hm : InI64 (v * 10 ^ s.toNat) <;>
        simp [pow10, hs, checkI64_eq, hm, hwhole, hr, bind, Except.bind]
  · have hs' : ¬ s.toNat ≤ 18 := by omega
    simp [pow10, hs, hs', bind, Except.bind]

/-- The parts behind the first point. -/
def fraction (text : String) (p s : UInt32) : List String → Except FromStrError ℤ
  | [part] => adjustedFractional text part p s
  | _ => .ok 0

/-- The integer part can be compared with `10i64.pow(p - s)`. -/
def Bounded (v : ℤ) (p s : UInt32) : Prop := InI64 |v| ∧ s ≤ p ∧ p.toNat - s.toNat ≤ 18

instance (v : ℤ) (p s : UInt32) : Decidable (Bounded v p s) := inferInstanceAs (Decidable (_ ∧ _))

theorem fromStrToDecimal_eq (h : splitDots text = i :: rest) (hlen : rest.length ≤ 1) :
    fromStrToDecimal text p s = (do
      let integer ← parseI64 text i
      let magnitude ← checkI64 |integer|
      let digits ← subU32 p s
      let bound ← pow10 digits
      if bound ≤ magnitude then
        throw (.validation s!"Invalid decimal field precision {text}. Expected {p} found {s}")
      else do
        let fractional ← fraction text p s rest
        decimalOf integer fractional s) := by
  unfold fromStrToDecimal
  simp only [h, length_cons, headD_cons]
  rw [if_neg (by omega)]
  rcases rest with _ | ⟨part, _ | ⟨q, rest⟩⟩
  · rfl
  · rfl
  · simp at hlen

/-- The whole part, as far as it decides the outcome. -/
theorem fromStrToDecimal_of_parse (h : splitDots text = i :: rest) (hlen : rest.length ≤ 1)
    (hv : parseInt 64 i = some v) : fromStrToDecimal text p s =
      if Bounded v p s then
        if 10 ^ (p.toNat - s.toNat) ≤ |v| then
          .error (.validation s!"Invalid decimal field precision {text}. Expected {p} found {s}")
        else fraction text p s rest >>= fun x => decimalOf v x s
      else .error (.panic .overflow) := by
  rw [fromStrToDecimal_eq h hlen]
  unfold parseI64 Bounded
  by_cases h1 : InI64 |v|
  · by_cases h2 : s ≤ p
    · by_cases h3 : p.toNat - s.toNat < 19
      · simp [hv, checkI64_eq, h1, subU32, h2, pow10, h3, Nat.le_of_lt_succ h3, bind, Except.bind,
          throw, throwThe, MonadExceptOf.throw]
      · have h3' : ¬ p.toNat - s.toNat ≤ 18 := by omega
        simp [hv, checkI64_eq, h1, subU32, h2, pow10, h3, h3', bind, Except.bind]
    · simp [hv, checkI64_eq, h1, subU32, h2, bind, Except.bind]
  · simp [hv, checkI64_eq, h1, bind, Except.bind]

/-- The fraction that has been read is scaled up by its length in bytes. -/
theorem adjustedFractional_of_parse (hx : parseInt 64 f = some x) : adjustedFractional text f p s =
    if 0 ≤ x ∧ s.toNat ≤ 18 ∧ x < 10 ^ s.toNat then
      if UInt32.ofNat f.utf8ByteSize ≤ s then
        checkI64 (x * 10 ^ (s.toNat - (UInt32.ofNat f.utf8ByteSize).toNat))
      else .error (.panic .overflow)
    else if 0 ≤ x ∧ ¬ s.toNat ≤ 18 then .error (.panic .overflow)
    else .error (.validation s!"Invalid decimal field scale {text}. Expected {p} found {s}") := by
  unfold adjustedFractional parseI64
  generalize UInt32.ofNat f.utf8ByteSize = size
  by_cases h1 : 0 ≤ x
  · have h1' : ¬ x < 0 := by omega
    by_cases h2 : s.toNat < 19
    · by_cases h3 : x < 10 ^ s.toNat
      · have h4 : s.toNat - size.toNat < 19 := by omega
        by_cases h5 : size ≤ s
        · simp [hx, h1, h1', pow10, h2, Nat.le_of_lt_succ h2, h3, not_le.mpr h3, subU32, h4, h5, bind,
            Except.bind]
        · simp [hx, h1, h1', pow10, h2, Nat.le_of_lt_succ h2, h3, not_le.mpr h3, subU32, h5, bind,
            Except.bind]
      · simp [hx, h1, h1', pow10, h2, Nat.le_of_lt_succ h2, h3, not_lt.mp h3, bind, Except.bind,
          throw, throwThe, MonadExceptOf.throw]
    · have h2' : ¬ s.toNat ≤ 18 := by omega
      simp [hx, h1, h1', pow10, h2, h2', bind, Except.bind]
  · simp [hx, h1, not_le.mp h1, bind, Except.bind, throw, throwThe, MonadExceptOf.throw]

/-! ### Texts that spell numerals -/

/-- The text is that of a numeral with at most `s` places and at most `p` digits. -/
def Spells (text : String) (p s : UInt32) (n : Numeral) : Prop :=
  n.text = text.toList ∧ n.Fits p.toNat s.toNat

theorem spells_iff (h : splitDots text = i :: rest) : Spells text p s n ↔
    n.front = i.toList ∧ n.frac.toList = rest.map String.toList ∧ n.Fits p.toNat s.toNat := by
  have hsplit : text.toList.splitOn '.' = i.toList :: rest.map String.toList := by
    have hmap := congrArg (List.map String.toList) h
    simpa [splitDots, Function.comp_def] using hmap
  unfold Spells
  rw [← splitOn_eq_parts_iff, hsplit, parts, List.cons.injEq, and_assoc, eq_comm,
    @eq_comm _ (rest.map String.toList)]

/-- What the integer part reads as is the whole part of the numeral. -/
theorem whole_of_parse (hv : parseInt 64 i = some v) (hn : n.front = i.toList) :
    v = n.sign.apply (valueOf n.whole : ℤ) := by
  obtain ⟨⟨sign, ds, hi, -, hds, rfl⟩, -⟩ := parseInt_eq_some.mp hv
  obtain ⟨h1, h2⟩ := sign_unique n.digits_whole hds (hn.trans hi)
  rw [h1, h2]

/-- The fraction consists of at most as many digits as there are places. -/
def ShortDigits (f : String) (s : UInt32) : Prop := Digits f.toList ∧ f.toList.length ≤ s.toNat

theorem value_of_digits (hx : parseInt 64 f = some x) (hf : Digits f.toList) :
    x = valueOf f.toList := by
  obtain ⟨⟨sign, ds, hi, -, hds, rfl⟩, -⟩ := parseInt_eq_some.mp hx
  have hsign : Sign.none.chars ++ f.toList = sign.chars ++ ds := hi
  obtain ⟨rfl, rfl⟩ := sign_unique hf hds hsign
  rfl

theorem utf8ByteSize_of_digits (h : Digits f.toList) : f.utf8ByteSize = f.toList.length := by
  have hlen : ∀ cs : List Char, Digits cs → String.utf8Len cs = cs.length := by
    intro cs hcs
    induction cs with
    | nil => rfl
    | cons c cs ih =>
      have hone : c.utf8Size = 1 := by
        rw [Char.utf8Size_eq_one_iff, UInt32.le_iff_toNat_le]
        exact (isDigit_bounds (hcs c mem_cons_self)).2.trans (by decide)
      have hrest := ih (hcs.of_sublist (sublist_cons_self c cs))
      rw [String.utf8Len_cons, hone, hrest, length_cons]
  rw [← hlen _ h, ← String.utf8ByteSize_ofList, String.ofList_toList]

/-- Digits that are scaled up stay below the unit. -/
theorem scaled_inI64 (h : ShortDigits f s) (hs : s.toNat ≤ 18) :
    InI64 ((valueOf f.toList * 10 ^ (s.toNat - f.toList.length) : ℕ) : ℤ) := by
  have hlt : valueOf f.toList * 10 ^ (s.toNat - f.toList.length) < 10 ^ 18 := by
    calc valueOf f.toList * 10 ^ (s.toNat - f.toList.length)
        < 10 ^ f.toList.length * 10 ^ (s.toNat - f.toList.length) :=
          Nat.mul_lt_mul_of_pos_right (valueOf_lt h.1) (Nat.pow_pos (by decide))
      _ = 10 ^ s.toNat := by rw [← pow_add, Nat.add_sub_cancel' h.2]
      _ ≤ 10 ^ 18 := Nat.pow_le_pow_right (by decide) hs
  unfold InI64
  omega

/-- The numeral that has been read. -/
theorem exists_numeral (h : splitDots text = i :: rest) (hv : parseInt 64 i = some v)
    (hb : Bounded v p s) (hlt : |v| < 10 ^ (p.toNat - s.toNat)) (frac : Option (List Char))
    (hrest : frac.toList = rest.map String.toList) (hf : Digits (frac.getD []))
    (hlen : (frac.getD []).length ≤ s.toNat) :
    ∃ n : Numeral, Spells text p s n ∧ n.front = i.toList ∧ n.frac = frac := by
  obtain ⟨⟨sign, ds, hi, hne, hds, rfl⟩, -⟩ := parseInt_eq_some.mp hv
  refine ⟨⟨sign, ds, frac, hne, hds, hf⟩, (spells_iff h).mpr ⟨hi.symm, hrest, ?_⟩, hi.symm, rfl⟩
  rw [fits_iff (UInt32.le_iff_toNat_le.mp hb.2.1)]
  rw [abs_apply] at hlt
  exact ⟨hlen, by exact_mod_cast hlt⟩

/-! ### Which texts are read -/

/-- The outcome is the one that the text asks for. -/
def Reads (text : String) (p s : UInt32) : Except FromStrError Field → Prop
  | .ok f => ∃ n, Spells text p s n ∧ f.number = some n.number
  | .error (.validation _) => ¬ ∃ n, Spells text p s n
  | .error (.panic _) => False

/-- What is behind the first point is read as it is written, after an integer part `i` that reads as
`v`: there is no point and the number is not too large; or the fraction is refused and should be; or
it consists of digits, is not too large, and does not stand behind a zero with a minus sign. -/
def RegularRest (i : String) (v : ℤ) (s : UInt32) : List String → Prop
  | [f] =>
    match parseInt 64 f with
    | none => ¬ ShortDigits f s
    | some x => x < 0 ∨ s.toNat ≤ 18 ∧ (10 ^ s.toNat ≤ x ∨ ShortDigits f s ∧
        InI64 (recombined v (x * 10 ^ (s.toNat - f.toList.length)) s.toNat) ∧
        (i.toList.head? = some '-' → v = 0 → x = 0))
  | _ => s.toNat ≤ 18 ∧ InI64 (v * 10 ^ s.toNat)

/-- The texts that are read as they are written. -/
def Regular (text : String) (p s : UInt32) : Prop :=
  (∀ n, Spells text p s n → InI64 (n.sign.apply (valueOf n.whole : ℤ))) ∧
    ∀ i rest v, splitDots text = i :: rest → rest.length ≤ 1 → parseInt 64 i = some v →
      Bounded v p s ∧ (10 ^ (p.toNat - s.toNat) ≤ |v| ∨ RegularRest i v s rest)

theorem number_eq_iff {r : ℤ} (hr : InI64 r) (hn : n.Fits p.toNat s.toNat) :
    (decimal (Int64.ofInt r) s).number = some n.number ↔ r = n.unscaled s.toNat := by
  have hpow : (10 : ℚ) ^ s.toNat ≠ 0 := by positivity
  rw [n.number_eq hn.1]
  simp only [number, digits, Option.map_some, toInt_ofInt hr, Option.some.injEq]
  rw [div_left_inj' hpow, Int.cast_inj]

/-- The parts are put together as they are written, but for the sign of a zero. -/
theorem recombined_eq_iff {sign : Sign} {a b k : ℕ} (hv : v = sign.apply (a : ℤ)) :
    recombined v b k = sign.apply ((a * 10 ^ k + b : ℕ) : ℤ) ↔ (sign = .minus → v = 0 → b = 0) := by
  have ha : ¬ (a : ℤ) < 0 := by omega
  unfold recombined
  cases sign with
  | none => simp [hv, Sign.apply, ha]
  | plus => simp [hv, Sign.apply, ha]
  | minus =>
    have hv : v = -(a : ℤ) := hv
    simp only [Sign.apply, forall_const]
    push_cast
    by_cases h : v < 0
    · rw [if_pos h, hv]
      exact iff_of_true (by ring) (fun h0 => by omega)
    · have h0 : a = 0 := by omega
      rw [if_neg h, hv, h0]
      simp only [CharP.cast_eq_zero, neg_zero, zero_mul, zero_add, forall_const]
      omega

/-- Only a text that spells a numeral is read, unless the code refuses it. -/
theorem Reads.exists_of_decimalOf (hr : Reads text p s (checkI64 x >>= fun x => decimalOf v x s))
    (hx : 0 ≤ x) : ∃ n, Spells text p s n := by
  rw [checkI64_eq] at hr
  split_ifs at hr
  · have hr : Reads text p s (decimalOf v x s) := hr
    rw [decimalOf_eq hx] at hr
    split_ifs at hr
    · obtain ⟨n, hn, -⟩ := hr
      exact ⟨n, hn⟩
    · exact hr.elim
  · exact hr.elim

section Parsed

variable (h : splitDots text = i :: rest) (hlen : rest.length ≤ 1) (hv : parseInt 64 i = some v)
  (hb : Bounded v p s) (hlt : |v| < 10 ^ (p.toNat - s.toNat))
include h hv

/-- What the decimal that is put together says about the numeral that was read. -/
theorem reads_decimalOf (hn : Spells text p s n) {b : ℕ}
    (hmag : n.magnitude s.toNat = valueOf n.whole * 10 ^ s.toNat + b) :
    Reads text p s (decimalOf v b s) ↔ s.toNat ≤ 18 ∧ InI64 (recombined v b s.toNat) ∧
      (i.toList.head? = some '-' → v = 0 → b = 0) := by
  obtain ⟨hfront, hfrac, hfits⟩ := (spells_iff h).mp hn
  have hwhole := whole_of_parse hv hfront
  have hone : ∀ n', Spells text p s n' → n'.number = n.number := by
    intro n' hn'
    obtain ⟨hfront', hfrac', -⟩ := (spells_iff h).mp hn'
    obtain ⟨h1, h2⟩ := sign_unique n'.digits_whole n.digits_whole (hfront'.trans hfront.symm)
    have h3 : n'.frac = n.frac := by
      have hlist := hfrac'.trans hfrac.symm
      revert hlist
      cases n'.frac <;> cases n.frac <;> simp
    unfold Numeral.number places
    rw [h1, h2, h3]
  have hsign := recombined_eq_iff (b := b) (k := s.toNat) hwhole
  rw [← hmag, ← n.head?_front, hfront] at hsign
  rw [decimalOf_eq (Int.natCast_nonneg b)]
  by_cases hok : s.toNat ≤ 18 ∧ InI64 (recombined v b s.toNat)
  · rw [if_pos hok, ← and_assoc, ← hsign, ← Numeral.unscaled, ← number_eq_iff hok.2 hfits]
    refine ⟨?_, fun hnum => ⟨n, hn, hnum.2⟩⟩
    rintro ⟨n', hn', hnum⟩
    exact ⟨hok, by rw [hnum, hone n' hn']⟩
  · rw [if_neg hok, ← and_assoc]
    exact iff_of_false id (fun hr => hok hr.1)

include hb hlt

theorem exists_spells_iff (hrest : rest = [f]) : (∃ n, Spells text p s n) ↔ ShortDigits f s := by
  subst hrest
  constructor
  · rintro ⟨n, hn⟩
    obtain ⟨-, hfrac, hfits⟩ := (spells_iff h).mp hn
    have hf : n.places = f.toList := by
      unfold places
      revert hfrac
      cases n.frac <;> simp
    exact ⟨hf ▸ n.digits_frac, hf ▸ hfits.1⟩
  · rintro ⟨hf, hlen⟩
    obtain ⟨n, hn, -⟩ := exists_numeral h hv hb hlt (some f.toList) rfl hf hlen
    exact ⟨n, hn⟩

theorem reads_whole (hrest : rest = []) :
    Reads text p s (fraction text p s rest >>= fun x => decimalOf v x s) ↔ RegularRest i v s rest := by
  subst hrest
  obtain ⟨n, hn, -, hfrac⟩ := exists_numeral h hv hb hlt none rfl
    (fun _ hc => absurd hc not_mem_nil) (Nat.zero_le _)
  have hmag : n.magnitude s.toNat = valueOf n.whole * 10 ^ s.toNat + 0 := by
    unfold magnitude places
    rw [hfrac]
    simp [valueOf, Nat.ofDigitChars_nil]
  have hreads := reads_decimalOf h hv hn hmag
  have hrec : recombined v 0 s.toNat = v * 10 ^ s.toNat := by simp [recombined]
  simpa [fraction, RegularRest, hrec, bind, Except.bind] using hreads

theorem reads_fraction (hrest : rest = [f]) :
    Reads text p s (fraction text p s rest >>= fun x => decimalOf v x s) ↔ RegularRest i v s rest := by
  have hspells := exists_spells_iff h hv hb hlt hrest
  subst hrest
  cases hx : parseInt 64 f with
  | none =>
    simp only [RegularRest, fraction, hx]
    rw [show adjustedFractional text f p s = .error (.validation s!"Invalid decimal field {text}") by
      simp [adjustedFractional, parseI64, hx, bind, Except.bind]]
    exact not_congr hspells
  | some x =>
    simp only [RegularRest, fraction, hx]
    rw [adjustedFractional_of_parse hx]
    by_cases h1 : 0 ≤ x ∧ s.toNat ≤ 18 ∧ x < 10 ^ s.toNat
    · rw [if_pos h1]
      by_cases hsd : ShortDigits f s
      · obtain ⟨n, hn, -, hfrac⟩ := exists_numeral h hv hb hlt (some f.toList) rfl hsd.1 hsd.2
        have hval := value_of_digits hx hsd.1
        have hmag : n.magnitude s.toNat = valueOf n.whole * 10 ^ s.toNat +
            valueOf f.toList * 10 ^ (s.toNat - f.toList.length) := by
          unfold magnitude places
          rw [hfrac]
          rfl
        have hreads := reads_decimalOf h hv hn hmag
        have hnat : (UInt32.ofNat f.utf8ByteSize).toNat = f.toList.length := by
          rw [utf8ByteSize_of_digits hsd.1, UInt32.toNat_ofNat', Nat.mod_eq_of_lt]
          exact hsd.2.trans_lt s.toNat_lt
        have hcast : x * 10 ^ (s.toNat - f.toList.length) =
            ((valueOf f.toList * 10 ^ (s.toNat - f.toList.length) : ℕ) : ℤ) := by
          rw [hval]
          push_cast
          rfl
        have hin := scaled_inI64 hsd h1.2.1
        rw [if_pos (UInt32.le_iff_toNat_le.mpr (hnat ▸ hsd.2)), hnat, checkI64_eq, hcast, if_pos hin]
        have hzero : valueOf f.toList = 0 ↔ x = 0 := by omega
        refine hreads.trans ?_
        simp only [hsd, h1.2.1, not_lt.mpr h1.1, not_le.mpr h1.2.2, hzero, true_and, false_or,
          Nat.mul_eq_zero, Nat.pow_eq_zero, OfNat.ofNat_ne_zero, false_and, or_false]
      · refine iff_of_false (fun hr => hsd (hspells.mp ?_)) (fun hr => ?_)
        · split_ifs at hr with hle
          · have hnn : 0 ≤ x * 10 ^ (s.toNat - (UInt32.ofNat f.utf8ByteSize).toNat) :=
              mul_nonneg h1.1 (by positivity)
            exact hr.exists_of_decimalOf hnn
          · exact hr.elim
        · rcases hr with hr | ⟨-, hr | hr⟩
          · omega
          · omega
          · exact hsd hr.1
    · rw [if_neg h1]
      by_cases h2 : 0 ≤ x ∧ ¬ s.toNat ≤ 18
      · rw [if_pos h2]
        refine iff_of_false id ?_
        rintro (hr | ⟨hr, -⟩)
        · omega
        · exact h2.2 hr
      · rw [if_neg h2]
        refine iff_of_true (fun hsp => ?_) ?_
        · obtain ⟨hf, hlen⟩ := hspells.mp hsp
          have hval := value_of_digits hx hf
          have hpow := (valueOf_lt hf).trans_le (Nat.pow_le_pow_right (by decide) hlen)
          have hx10 : x < 10 ^ s.toNat := by
            rw [hval]
            exact_mod_cast hpow
          omega
        · omega

end Parsed

/-- A text is read as the numeral that it spells, or refused if it spells none, just when it is
regular. -/
theorem readsDecimal_iff (text : String) (p s : UInt32) :
    Reads text p s (fromStrToDecimal text p s) ↔ Regular text p s := by
  obtain ⟨i, rest, h⟩ : ∃ i rest, splitDots text = i :: rest := by
    refine List.exists_cons_of_ne_nil ?_
    simp [splitDots, List.splitOn_ne_nil]
  unfold Regular
  have hone : ∀ i' rest', splitDots text = i' :: rest' → i' = i ∧ rest' = rest := by
    intro i' rest' h'
    rw [h] at h'
    exact ⟨(List.cons.inj h').1.symm, (List.cons.inj h').2.symm⟩
  by_cases hlen : rest.length ≤ 1
  · cases hv : parseInt 64 i with
    | none =>
      have hbad : fromStrToDecimal text p s =
          .error (.validation s!"Invalid decimal field {text}") := by
        simp [fromStrToDecimal_eq h hlen, parseI64, hv, bind, Except.bind]
      rw [hbad]
      constructor
      · intro hno
        refine ⟨fun n hn => absurd ⟨n, hn⟩ hno, fun i' rest' v h' _ hv' => ?_⟩
        rw [(hone i' rest' h').1, hv] at hv'
        cases hv'
      · rintro ⟨hin, -⟩ ⟨n, hn⟩
        have hfront := ((spells_iff h).mp hn).1
        have hsome := parseInt_eq_some (w := 64).mpr
          ⟨⟨n.sign, n.whole, hfront.symm, n.whole_ne_nil, n.digits_whole, rfl⟩, hin n hn⟩
        rw [hv] at hsome
        cases hsome
    | some v =>
      have hwhole : ∀ n, Spells text p s n → InI64 (n.sign.apply (valueOf n.whole : ℤ)) := by
        intro n hn
        rw [← whole_of_parse hv ((spells_iff h).mp hn).1]
        exact (parseInt_eq_some.mp hv).2
      have hiff : Reads text p s (fromStrToDecimal text p s) ↔
          Bounded v p s ∧ (10 ^ (p.toNat - s.toNat) ≤ |v| ∨ RegularRest i v s rest) := by
        rw [fromStrToDecimal_of_parse h hlen hv]
        by_cases hb : Bounded v p s
        · rw [if_pos hb]
          by_cases hbig : 10 ^ (p.toNat - s.toNat) ≤ |v|
          · rw [if_pos hbig]
            refine iff_of_true ?_ ⟨hb, Or.inl hbig⟩
            rintro ⟨n, hn⟩
            obtain ⟨hfront, -, hfits⟩ := (spells_iff h).mp hn
            have hlt := ((fits_iff (UInt32.le_iff_toNat_le.mp hb.2.1)).mp hfits).2
            rw [whole_of_parse hv hfront, abs_apply] at hbig
            exact absurd hlt (not_lt.mpr (by exact_mod_cast hbig))
          · rw [if_neg hbig]
            have hrest : Reads text p s (fraction text p s rest >>= fun x => decimalOf v x s) ↔
                RegularRest i v s rest := by
              rcases rest with _ | ⟨f, _ | ⟨g, rest⟩⟩
              · exact reads_whole h hv hb (not_le.mp hbig) rfl
              · exact reads_fraction h hv hb (not_le.mp hbig) rfl
              · simp at hlen
            rw [hrest]
            exact ⟨fun hr => ⟨hb, Or.inr hr⟩, fun hr => hr.2.resolve_left hbig⟩
        · rw [if_neg hb]
          exact iff_of_false id (fun hr => hb hr.1)
      rw [hiff]
      constructor
      · intro hr
        refine ⟨hwhole, fun i' rest' v' h' _ hv' => ?_⟩
        obtain ⟨rfl, rfl⟩ := hone i' rest' h'
        rw [hv] at hv'
        cases hv'
        exact hr
      · exact fun hr => hr.2 i rest v h hlen hv
  · have hbad : fromStrToDecimal text p s =
        .error (.validation s!"Invalid decimal field {text}") := by
      unfold fromStrToDecimal
      simp only [h, List.length_cons]
      rw [if_pos (by omega)]
      rfl
    have hno : ∀ n, ¬ Spells text p s n := by
      intro n hn
      have hfrac := congrArg List.length ((spells_iff h).mp hn).2.1
      rw [List.length_map] at hfrac
      have := Option.length_toList_le (o := n.frac)
      omega
    rw [hbad]
    refine iff_of_true (fun ⟨n, hn⟩ => hno n hn) ⟨fun n hn => absurd hn (hno n), ?_⟩
    intro i' rest' v h' hlen'
    rw [(hone i' rest' h').2] at hlen'
    exact absurd hlen' hlen

/-- More places than the type has make it panic, and the sign of a zero is lost. -/
theorem fromStrToDecimal_irregular : fromStrToDecimal "0.001" 5 2 = .error (.panic .overflow) ∧
    ¬ Reads "0.001" 5 2 (fromStrToDecimal "0.001" 5 2) ∧
      fromStrToDecimal "-0.5" 5 2 = .ok (decimal 50 2) := by
  have h : fromStrToDecimal "0.001" 5 2 = .error (.panic .overflow) := by decide +kernel
  refine ⟨h, ?_, by decide +kernel⟩
  rw [h]
  exact id

/-! ### Writing -/

/-- The digits of a decimal, with zeros in front so that one stands before the point. -/
def padded (whole : Int64) (scale : UInt32) : List Char :=
  let s := (toString whole.toInt).toList
  let padding := if s.length ≤ scale.toNat then scale.toNat + 1 - s.length else 0
  List.replicate padding '0' ++ s

def displayDecimal (whole : Int64) (scale : UInt32) : String :=
  let decimalPos := (padded whole scale).length - scale.toNat
  String.ofList ((padded whole scale).take decimalPos ++ '.' :: (padded whole scale).drop decimalPos)

/-- The text of a field; the calendar library writes the dates. -/
def display (formatDate : Int64 → String) : Field → String
  | bigInt v => toString v.toInt
  | int v => toString v.toInt
  | smallInt v => toString v.toInt
  | char _ text => text
  | string text => text
  | date days => formatDate days
  | decimal whole scale => displayDecimal whole scale
  | bool b => toString b
  | null => nullString

/-- The sign that is written. -/
def signOf (w : ℤ) : Sign := if w < 0 then .minus else .none

theorem toList_toString (w : ℤ) :
    (toString w).toList = (signOf w).chars ++ Nat.toDigits 10 w.natAbs := by
  unfold signOf
  rw [Int.toString_eq_repr, Int.repr_eq_if]
  by_cases h : w < 0
  · have hnat : (-w).toNat = w.natAbs := by omega
    simp [h, not_le.mpr h, hnat, Sign.chars, Nat.repr, String.toList_append]
  · have hnat : w.toNat = w.natAbs := by omega
    simp [h, not_lt.mp h, hnat, Sign.chars, Nat.repr]

theorem digits_toDigits (m : ℕ) : Digits (Nat.toDigits 10 m) :=
  fun _ hc => Nat.isDigit_of_mem_toDigits (by decide) le_rfl hc

section Display

variable (w : Int64) (s : UInt32)

theorem padded_eq : padded w s = List.replicate (s.toNat + 1 -
    ((signOf w.toInt).chars ++ Nat.toDigits 10 w.toInt.natAbs).length) '0' ++
      ((signOf w.toInt).chars ++ Nat.toDigits 10 w.toInt.natAbs) := by
  unfold padded
  rw [toList_toString]
  generalize (signOf w.toInt).chars ++ Nat.toDigits 10 w.toInt.natAbs = cs
  dsimp only
  split_ifs with h
  · rfl
  · rw [show s.toNat + 1 - cs.length = 0 by omega]

theorem lt_length_padded : s.toNat < (padded w s).length := by
  rw [padded_eq, length_append, length_replicate]
  omega

theorem splitDots_displayDecimal : splitDots (displayDecimal w s) =
    [String.ofList ((padded w s).take ((padded w s).length - s.toNat)),
      String.ofList ((padded w s).drop ((padded w s).length - s.toNat))] := by
  have hdot : '.' ∉ padded w s := by
    rw [padded_eq, mem_append, mem_append, not_or, not_or]
    refine ⟨by simp, ?_, (digits_toDigits _).notMem (by decide)⟩
    cases signOf w.toInt <;> simp [Sign.chars]
  unfold splitDots displayDecimal
  dsimp only
  rw [String.toList_ofList, splitOn_append_cons_self,
    splitOn_eq_singleton (fun h => hdot (mem_of_mem_take h)),
    splitOn_eq_singleton (fun h => hdot (mem_of_mem_drop h))]
  rfl

/-- A decimal that is not negative, or has a digit in front of the point, is written as a numeral. -/
theorem padded_eq_sign (h : 0 ≤ w.toInt ∨ 10 ^ s.toNat ≤ |w.toInt|) (hs : 1 ≤ s.toNat) :
    ∃ ds, Digits ds ∧ valueOf ds = w.toInt.natAbs ∧ s.toNat < ds.length ∧
      padded w s = (signOf w.toInt).chars ++ ds := by
  have hlt := lt_length_padded w s
  rw [padded_eq] at hlt ⊢
  by_cases hw : w.toInt < 0
  · have hlong : s.toNat < (Nat.toDigits 10 w.toInt.natAbs).length := by
      rw [← not_le, Nat.length_toDigits_le_iff (by decide) hs]
      have habs : 10 ^ s.toNat ≤ |w.toInt| := h.resolve_left (by omega)
      rw [Int.abs_eq_natAbs] at habs
      exact not_lt.mpr (by exact_mod_cast habs)
    refine ⟨_, digits_toDigits _, valueOf_toDigits _, hlong, ?_⟩
    rw [length_append, show s.toNat + 1 - _ = 0 by omega]
    rfl
  · have hsign : signOf w.toInt = .none := if_neg hw
    rw [hsign] at hlt ⊢
    refine ⟨_, ?_, ?_, hlt, rfl⟩
    · refine Digits.append (fun c hc => ?_) (digits_toDigits _)
      rw [eq_of_mem_replicate hc]
      decide
    · rw [valueOf_append, valueOf_replicate, Nat.zero_mul, Nat.zero_add]
      exact valueOf_toDigits _

end Display

/-- What has been read if a decimal comes out. -/
theorem of_fromStrToDecimal_ok {fld : Field} (h : splitDots text = [i, f])
    (hok : fromStrToDecimal text p s = .ok fld) : ∃ v x y, parseInt 64 i = some v ∧
      parseInt 64 f = some x ∧ Bounded v p s ∧ s.toNat ≤ 18 ∧ 0 ≤ y ∧ InI64 (recombined v y s.toNat) ∧
      fld = decimal (Int64.ofInt (recombined v y s.toNat)) s := by
  cases hv : parseInt 64 i with
  | none => simp [fromStrToDecimal_eq h le_rfl, parseI64, hv, bind, Except.bind] at hok
  | some v =>
    rw [fromStrToDecimal_of_parse h le_rfl hv] at hok
    split_ifs at hok with hb hbig
    simp only [fraction] at hok
    cases hx : parseInt 64 f with
    | none => simp [adjustedFractional, parseI64, hx, bind, Except.bind] at hok
    | some x =>
      rw [adjustedFractional_of_parse hx, checkI64_eq] at hok
      split_ifs at hok with h1 hle hin
      · have hy : 0 ≤ x * 10 ^ (s.toNat - (UInt32.ofNat f.utf8ByteSize).toNat) :=
          mul_nonneg h1.1 (by positivity)
        have hok : decimalOf v _ s = .ok fld := hok
        rw [decimalOf_eq hy] at hok
        split_ifs at hok with hr
        exact ⟨v, x, _, rfl, rfl, hb, hr.1, hy, hr.2, (Except.ok.inj hok).symm⟩
      all_goals cases hok

/-- A decimal whose text is a numeral is read back. -/
theorem fromStrToDecimal_display (w : Int64) (hs : 1 ≤ s.toNat ∧ s.toNat ≤ 18) (hsp : s ≤ p)
    (hp : p.toNat - s.toNat ≤ 18) (hw : |w.toInt| < 10 ^ p.toNat)
    (hneg : 0 ≤ w.toInt ∨ 10 ^ s.toNat ≤ |w.toInt|) :
    fromStrToDecimal (displayDecimal w s) p s = .ok (decimal w s) := by
  obtain ⟨ds, hds, hval, hlen, hpad⟩ := padded_eq_sign w s hneg hs.1
  have hparts := splitDots_displayDecimal w s
  rw [hpad, length_append, Nat.add_sub_assoc hlen.le, take_length_add_append,
    drop_length_add_append] at hparts
  have hcut := take_append_drop (ds.length - s.toNat) ds
  have hwl : (ds.take (ds.length - s.toNat)).length = ds.length - s.toNat := by simp
  have hfl : (ds.drop (ds.length - s.toNat)).length = s.toNat := by
    rw [length_drop]
    omega
  have hdw := hds.of_sublist (take_sublist (ds.length - s.toNat) ds)
  have hdf := hds.of_sublist (drop_sublist (ds.length - s.toNat) ds)
  generalize ds.take (ds.length - s.toNat) = whole at hparts hcut hwl hdw
  generalize ds.drop (ds.length - s.toNat) = frac at hparts hcut hfl hdf
  have hne : whole ≠ [] := ne_nil_of_length_pos (by omega)
  have hfne : frac ≠ [] := ne_nil_of_length_pos (by omega)
  have hsum : valueOf whole * 10 ^ s.toNat + valueOf frac = w.toInt.natAbs := by
    rw [← hval, ← hcut, valueOf_append, hfl]
  have hfrac := valueOf_lt hdf
  rw [hfl] at hfrac
  have hwhole : valueOf whole < 10 ^ (p.toNat - s.toNat) := by
    have hpow : 10 ^ p.toNat = 10 ^ (p.toNat - s.toNat) * 10 ^ s.toNat := by
      rw [← pow_add, Nat.sub_add_cancel (UInt32.le_iff_toNat_le.mp hsp)]
    rw [Int.abs_eq_natAbs] at hw
    have hw : w.toInt.natAbs < 10 ^ p.toNat := by exact_mod_cast hw
    refine Nat.lt_of_mul_lt_mul_right (a := 10 ^ s.toNat) ?_
    omega
  have h18 : valueOf whole < 10 ^ 18 := hwhole.trans_le (Nat.pow_le_pow_right (by decide) hp)
  have hf18 : valueOf frac < 10 ^ 18 := hfrac.trans_le (Nat.pow_le_pow_right (by decide) hs.2)
  have habs := abs_apply (signOf w.toInt) (valueOf whole)
  have hsize : (UInt32.ofNat (String.ofList frac).utf8ByteSize).toNat = s.toNat := by
    rw [utf8ByteSize_of_digits (by rwa [String.toList_ofList]), String.toList_ofList, hfl,
      UInt32.ofNat_toNat]
  generalize hv : (signOf w.toInt).apply (valueOf whole : ℤ) = v at habs
  have hrange := abs_lt.mp (show |v| < 10 ^ 18 by rw [habs]; exact_mod_cast h18)
  have hparse : parseInt 64 (String.ofList ((signOf w.toInt).chars ++ whole)) = some v :=
    parseInt_eq_some.mpr ⟨⟨_, _, String.toList_ofList, hne, hdw, hv.symm⟩, by omega, by omega⟩
  have hparse' : parseInt 64 (String.ofList frac) = some (valueOf frac : ℤ) :=
    parseInt_eq_some.mpr ⟨⟨.none, _, String.toList_ofList, hfne, hdf, rfl⟩, by omega, by omega⟩
  have hb : Bounded v p s := ⟨by unfold InI64; omega, hsp, hp⟩
  have hrec : recombined v (valueOf frac) s.toNat = w.toInt := by
    have happly : (signOf w.toInt).apply (w.toInt.natAbs : ℤ) = w.toInt := by
      unfold signOf
      split_ifs with h
      · show -(w.toInt.natAbs : ℤ) = _
        omega
      · show (w.toInt.natAbs : ℤ) = _
        omega
    refine ((recombined_eq_iff hv.symm).mpr (fun hsign h0 => ?_)).trans (hsum ▸ happly)
    -- a negative decimal has a digit in front of the point
    have hlt : w.toInt < 0 := by
      by_contra hge
      simp [signOf, hge] at hsign
    have hzero : valueOf whole = 0 := by
      rw [h0, abs_zero] at habs
      omega
    have hbig := hneg.resolve_left (not_le.mpr hlt)
    rw [Int.abs_eq_natAbs, ← hsum, hzero] at hbig
    have hbig : 10 ^ s.toNat ≤ 0 * 10 ^ s.toNat + valueOf frac := by exact_mod_cast hbig
    omega
  rw [fromStrToDecimal_of_parse hparts le_rfl hparse, if_pos hb,
    if_neg (by rw [habs]; exact_mod_cast not_le.mpr hwhole)]
  simp only [fraction]
  rw [adjustedFractional_of_parse hparse', if_pos ⟨by omega, hs.2, by exact_mod_cast hfrac⟩,
    if_pos (by rw [UInt32.le_iff_toNat_le, hsize]), hsize, Nat.sub_self, pow_zero, mul_one,
    checkI64_eq, if_pos (by unfold InI64; omega)]
  show decimalOf v (valueOf frac : ℤ) s = _
  rw [decimalOf_eq (by omega), hrec, if_pos ⟨hs.2, inI64_toInt w⟩, Int64.ofInt_toInt]

/-- A decimal is read back from its text, with enough digits and places in the type, just when it has
a place, it and the type are not too long, and its sign stands in front of a digit that is not zero. -/
theorem fromStrToDecimal_display_iff (formatDate : Int64 → String) (w : Int64) (p s : UInt32)
    (hsp : s ≤ p) (hw : |w.toInt| < 10 ^ p.toNat) :
    fromStrToDecimal (display formatDate (decimal w s)) p s = .ok (decimal w s) ↔
      1 ≤ s.toNat ∧ s.toNat ≤ 18 ∧ p.toNat - s.toNat ≤ 18 ∧
        (0 ≤ w.toInt ∨ 10 ^ s.toNat ≤ |w.toInt|) := by
  show fromStrToDecimal (displayDecimal w s) p s = _ ↔ _
  constructor
  · intro hok
    have hparts := splitDots_displayDecimal w s
    have hlen := lt_length_padded w s
    obtain ⟨v, x, y, hv, hx, hb, hs, hy, hin, hfld⟩ := of_fromStrToDecimal_ok hparts hok
    have hs1 : 1 ≤ s.toNat := by
      by_contra h0
      rw [show s.toNat = 0 by omega, Nat.sub_zero, List.drop_length] at hx
      cases hx
    refine ⟨hs1, hs, hb.2.2, ?_⟩
    by_contra hneg
    rw [not_or, not_le, not_le] at hneg
    have hw' : w.toInt = recombined v y s.toNat := by
      rw [(decimal.inj hfld).1, toInt_ofInt hin]
    -- one character stands in front of the point: a zero, or the sign
    have hshort : (Nat.toDigits 10 w.toInt.natAbs).length ≤ s.toNat := by
      rw [Nat.length_toDigits_le_iff (by decide) hs1]
      have habs := hneg.2
      rw [Int.abs_eq_natAbs] at habs
      exact_mod_cast habs
    have hsign : signOf w.toInt = .minus := if_pos hneg.1
    have hfront : (padded w s).take ((padded w s).length - s.toNat) = ['-'] ∨
        (padded w s).take ((padded w s).length - s.toNat) = ['0'] := by
      rw [padded_eq, hsign]
      simp only [Sign.chars, List.singleton_append, List.length_append, List.length_replicate,
        List.length_cons]
      rw [show s.toNat + 1 - ((Nat.toDigits 10 w.toInt.natAbs).length + 1) +
        ((Nat.toDigits 10 w.toInt.natAbs).length + 1) - s.toNat = 1 by omega]
      cases s.toNat + 1 - ((Nat.toDigits 10 w.toInt.natAbs).length + 1) <;>
        simp [List.replicate_succ]
    rcases hfront with hfront | hfront
    · rw [hfront, show parseInt 64 (String.ofList ['-']) = none by decide] at hv
      cases hv
    · rw [hfront, show parseInt 64 (String.ofList ['0']) = some 0 by decide] at hv
      cases hv
      simp only [recombined, lt_irrefl, if_false, zero_mul, zero_add] at hw'
      omega
  · rintro ⟨hs1, hs, hp, hneg⟩
    exact fromStrToDecimal_display w ⟨hs1, hs⟩ hsp hp hw hneg

theorem fromStrToDecimal_display_price :
    fromStrToDecimal (display (fun _ => "") (decimal (-1205) 2)) 10 2 = .ok (decimal (-1205) 2) :=
  (fromStrToDecimal_display_iff _ (-1205) 10 2 (by decide) (by decide)).mpr (by decide)

/-- A whole number is written with a bare point, and a small negative one with its sign in the
middle; neither is read back. -/
theorem fromStrToDecimal_display_refused :
    display (fun _ => "") (decimal 5 0) = "5." ∧ display (fun _ => "") (decimal (-5) 2) = "0.-5" ∧
      fromStrToDecimal (display (fun _ => "") (decimal 5 0)) 10 0 ≠ .ok (decimal 5 0) ∧
      fromStrToDecimal (display (fun _ => "") (decimal (-5) 2)) 10 2 ≠ .ok (decimal (-5) 2) := by
  refine ⟨by decide +kernel, by decide +kernel, by decide +kernel, by decide +kernel⟩

end Field

end CrustyDB
