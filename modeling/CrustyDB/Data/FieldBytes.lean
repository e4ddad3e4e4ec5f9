import CrustyDB.Data.Bytecode

/-! # Fields as bytes

`Field.toBytes` writes a field for a serialized tuple and `Field.fromBytes` reads it back for a data
type.  What is written is read back (`fromBytes_toBytes_iff`) except where the length of a text is not
kept: the text of a `Char` column is padded with zeros that are read as characters, and the length
of a `String` is written as a `u32`. -/

namespace CrustyDB

open ByteBuffer List

namespace Field

/-- The bytes of a text. -/
def utf8 (s : String) : List UInt8 := s.toByteArray.data.toList

/-- `String::from_utf8` -/
def fromUtf8 (bytes : List UInt8) : Except ExecError String :=
  match String.fromUTF8? ⟨bytes.toArray⟩ with
  | some s => .ok s
  | none => .error (.crusty "Failed to convert bytes to string.")

/-- `bytes[start..stop]` -/
def sliceBytes (bytes : List UInt8) (start stop : ℕ) : Except ExecError (List UInt8) :=
  if start ≤ stop ∧ stop ≤ bytes.length then .ok ((bytes.take stop).drop start)
  else .error (.panic .index)

/-- The number in an array of `w` bytes. -/
def fixedBytes (w : ℕ) (msg : String) (bytes : List UInt8) : Except ExecError ℕ :=
  if bytes.length = w then .ok (readLe bytes) else .error (.crusty msg)

def toBytes : Field → Except ExecError (List UInt8)
  | bigInt x => .ok (leBytes 8 x.toUInt64.toNat)
  | int x => .ok (leBytes 4 x.toUInt32.toNat)
  | smallInt x => .ok (leBytes 2 x.toUInt16.toNat)
  | char len s =>
    if len.toNat < (utf8 s).length then .error (.abort "String is too long for char field")
    -- four bytes for each character, of which the text takes the first ones
    else .ok (utf8 s ++ List.replicate (len.toNat * 4 - (utf8 s).length) 0)
  | string s => .ok (leBytes 4 (utf8 s).length ++ utf8 s)
  | date x => .ok (leBytes 8 x.toUInt64.toNat)
  | decimal whole scale => .ok (leBytes 8 whole.toUInt64.toNat ++ leBytes 4 scale.toNat)
  | bool b => .ok [if b then 1 else 0]
  | null => .ok [0]

def fromBytes (bytes : List UInt8) : DataType → Except ExecError Field
  | .bigInt => do
    let n ← fixedBytes 8 "Failed to convert bytes to i64." bytes
    pure (bigInt (UInt64.ofNat n).toInt64)
  | .int => do
    let n ← fixedBytes 4 "Failed to convert bytes to i32." bytes
    pure (int (UInt32.ofNat n).toInt32)
  | .smallInt => do
    let n ← fixedBytes 2 "Failed to convert bytes to i16." bytes
    pure (smallInt (UInt16.ofNat n).toInt16)
  | .char len => do
    let text ← sliceBytes bytes 0 len.toNat
    let value ← fromUtf8 text
    pure (char len value)
  | .string => do
    let head ← sliceBytes bytes 0 4
    let len ← fixedBytes 4 "Failed to get string length." head
    let text ← sliceBytes bytes 4 (4 + len)
    let value ← fromUtf8 text
    pure (string value)
  | .date => do
    let n ← fixedBytes 8 "Failed to convert bytes to u32." bytes
    pure (date (UInt64.ofNat n).toInt64)
  | .decimal _ _ => do
    let whole ← sliceBytes bytes 0 8
    let n ← fixedBytes 8 "Failed to convert bytes to i64." whole
    let scale ← sliceBytes bytes 8 12
    let k ← fixedBytes 4 "Failed to convert bytes to u32." scale
    pure (decimal (UInt64.ofNat n).toInt64 (UInt32.ofNat k))
  | .bool =>
    match bytes with
    | [] => .error (.panic .index)
    | b :: _ => .ok (bool (b == 1))
  | .null =>
    match bytes with
    | [] => .error (.panic .index)
    | b :: _ => if b = 0 then .ok null else .error (.crusty "Invalid null field")

/-- The field is a value of its data type; a text may be shorter than its column. -/
def ValidFor : Field → DataType → Prop
  | char len s, .char n => len = n ∧ (utf8 s).length ≤ len.toNat
  | null, .null => True
  | f, dtype => f.ofType dtype = true

/-- The length of a text is kept: a `Char` fills its column, and a `String` is shorter than 2³²
bytes. -/
def KeepsLength : Field → Prop
  | char len s => (utf8 s).length = len.toNat
  | string s => (utf8 s).length < 2 ^ 32
  | _ => True

/-! ### The parts of an encoding -/

theorem fixedBytes_leBytes {w n : ℕ} (msg : String) (h : n < 2 ^ (8 * w)) :
    fixedBytes w msg (leBytes w n) = .ok n := by
  rw [pow_mul] at h
  simp [fixedBytes, readLe_leBytes_of_lt h]

theorem sliceBytes_left (bs rest : List UInt8) : sliceBytes (bs ++ rest) 0 bs.length = .ok bs := by
  simp [sliceBytes]

theorem sliceBytes_right (bs rest : List UInt8) :
    sliceBytes (bs ++ rest) bs.length (bs.length + rest.length) = .ok rest := by
  rw [← length_append]
  simp only [sliceBytes, take_length, drop_left]
  simp

theorem fromUtf8_eq_ok {bytes : List UInt8} {s : String} : fromUtf8 bytes = .ok s ↔ bytes = utf8 s := by
  unfold fromUtf8 String.fromUTF8?
  by_cases h : ByteArray.IsValidUTF8 ⟨bytes.toArray⟩
  · rw [dif_pos h]
    simp only [Except.ok.injEq]
    refine ⟨?_, ?_⟩
    · rintro rfl
      rfl
    · rintro rfl
      rfl
  · rw [dif_neg h]
    refine iff_of_false (by simp) ?_
    rintro rfl
    exact h s.isValidUTF8

theorem fromUtf8_utf8 (s : String) : fromUtf8 (utf8 s) = .ok s := fromUtf8_eq_ok.mpr rfl

/-! ### What is read back -/

theorem readBack_char {len : UInt8} {s : String} (h : (utf8 s).length ≤ len.toNat) :
    (char len s).toBytes >>= (fun bytes => fromBytes bytes (.char len)) = .ok (char len s) ↔
      (utf8 s).length = len.toNat := by
  have hpad : utf8 s ++ List.replicate (len.toNat * 4 - (utf8 s).length) 0 =
      (utf8 s ++ List.replicate (len.toNat - (utf8 s).length) 0) ++
        List.replicate (len.toNat * 3) (0 : UInt8) := by
    rw [append_assoc, replicate_append_replicate]
    congr 2
    omega
  have hslice := sliceBytes_left (utf8 s ++ List.replicate (len.toNat - (utf8 s).length) 0)
    (List.replicate (len.toNat * 3) (0 : UInt8))
  rw [length_append, length_replicate, Nat.add_sub_cancel' h] at hslice
  simp only [toBytes, if_neg (not_lt.mpr h), bind, Except.bind, fromBytes, hpad, hslice]
  constructor
  · intro hread
    obtain ⟨t, htext, hread⟩ := bind_eq_ok.mp hread
    cases hread
    have hlen := congrArg List.length (fromUtf8_eq_ok.mp htext)
    simp at hlen
    omega
  · intro hlen
    rw [hlen, Nat.sub_self, replicate_zero, append_nil, fromUtf8_utf8]
    rfl

theorem readBack_string (s : String) :
    (string s).toBytes >>= (fun bytes => fromBytes bytes .string) = .ok (string s) ↔
      (utf8 s).length < 2 ^ 32 := by
  have hhead := sliceBytes_left (leBytes 4 (utf8 s).length) (utf8 s)
  rw [leBytes_length] at hhead
  have hfixed : fixedBytes 4 "Failed to get string length." (leBytes 4 (utf8 s).length) =
      .ok ((utf8 s).length % 2 ^ 32) := by
    simp [fixedBytes, readLe_leBytes]
  have hbody : sliceBytes (leBytes 4 (utf8 s).length ++ utf8 s) 4 (4 + (utf8 s).length % 2 ^ 32) =
      .ok ((utf8 s).take ((utf8 s).length % 2 ^ 32)) := by
    have hle := Nat.mod_le (utf8 s).length (2 ^ 32)
    simp only [sliceBytes, length_append, leBytes_length]
    rw [if_pos (by omega), take_append, drop_append]
    simp
  simp only [toBytes, bind, Except.bind, fromBytes, hhead, hfixed, hbody]
  constructor
  · intro hread
    obtain ⟨t, htext, hread⟩ := bind_eq_ok.mp hread
    cases hread
    have hlen := congrArg List.length (fromUtf8_eq_ok.mp htext)
    have hlt := Nat.mod_lt (utf8 s).length (show 0 < 2 ^ 32 by decide)
    rw [length_take] at hlen
    omega
  · intro hlen
    rw [Nat.mod_eq_of_lt hlen, take_length, fromUtf8_utf8]
    rfl

theorem readBack_decimal (whole : Int64) (scale p s : UInt32) :
    (decimal whole scale).toBytes >>= (fun bytes => fromBytes bytes (.decimal p s)) =
      .ok (decimal whole scale) := by
  have hwhole := sliceBytes_left (leBytes 8 whole.toUInt64.toNat) (leBytes 4 scale.toNat)
  have hscale := sliceBytes_right (leBytes 8 whole.toUInt64.toNat) (leBytes 4 scale.toNat)
  rw [leBytes_length] at hwhole hscale
  rw [leBytes_length] at hscale
  have hn := fixedBytes_leBytes (w := 8) "Failed to convert bytes to i64." whole.toUInt64.toNat_lt
  have hk := fixedBytes_leBytes (w := 4) "Failed to convert bytes to u32." scale.toNat_lt
  simp only [toBytes, bind, Except.bind, fromBytes, hwhole, hscale, hn, hk]
  rw [UInt64.ofNat_toNat, Int64.toInt64_toUInt64, UInt32.ofNat_toNat]
  rfl

/-- A field that is written is read back exactly if the length of its text is kept. -/
theorem fromBytes_toBytes_iff {f : Field} {dtype : DataType} (h : f.ValidFor dtype) :
    f.toBytes >>= (fun bytes => fromBytes bytes dtype) = .ok f ↔ f.KeepsLength := by
  cases f <;> cases dtype <;> first | (simp [ValidFor, ofType] at h; done) | skip
  case bigInt.bigInt x =>
    have hn := fixedBytes_leBytes (w := 8) "Failed to convert bytes to i64." x.toUInt64.toNat_lt
    simp [toBytes, bind, Except.bind, fromBytes, hn, KeepsLength, pure, Except.pure]
  case int.int x =>
    have hn := fixedBytes_leBytes (w := 4) "Failed to convert bytes to i32." x.toUInt32.toNat_lt
    simp [toBytes, bind, Except.bind, fromBytes, hn, KeepsLength, pure, Except.pure]
  case smallInt.smallInt x =>
    have hn := fixedBytes_leBytes (w := 2) "Failed to convert bytes to i16." x.toUInt16.toNat_lt
    simp [toBytes, bind, Except.bind, fromBytes, hn, KeepsLength, pure, Except.pure]
  case date.date x =>
    have hn := fixedBytes_leBytes (w := 8) "Failed to convert bytes to u32." x.toUInt64.toNat_lt
    simp [toBytes, bind, Except.bind, fromBytes, hn, KeepsLength, pure, Except.pure]
  case char.char len s n =>
    obtain ⟨rfl, hlen⟩ := h
    exact readBack_char hlen
  case string.string s => exact readBack_string s
  case decimal.decimal whole scale p s =>
    exact iff_of_true (readBack_decimal whole scale p s) trivial
  case bool.bool b => cases b <;> exact iff_of_true rfl trivial
  case null.null => exact iff_of_true rfl trivial

theorem fromBytes_toBytes_char :
    (char 2 "ab").toBytes >>= (fun bytes => fromBytes bytes (.char 2)) = .ok (char 2 "ab") :=
  have h : (char 2 "ab").ValidFor (.char 2) := ⟨rfl, by decide⟩
  (fromBytes_toBytes_iff h).mpr (show (utf8 "ab").length = 2 by decide)

/-- A text that is shorter than its column is read back with zeros behind it. -/
theorem fromBytes_padded :
    (char 2 "a").ValidFor (.char 2) ∧
      (char 2 "a").toBytes >>= (fun bytes => fromBytes bytes (.char 2)) = .ok (char 2 "a\x00") := by
  refine ⟨⟨rfl, by decide⟩, ?_⟩
  decide

end Field

end CrustyDB
