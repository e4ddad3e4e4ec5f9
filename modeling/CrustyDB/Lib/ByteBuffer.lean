import Mathlib

/-! # Byte buffers

Slices of a byte buffer and the little-endian numbers kept in them.  `slice d a b` reads
the bytes `[a, b)`, `splice d a bs` overwrites the bytes `[a, a + bs.length)`, and the two
are related by one rule for an overlapping read (`slice_splice_same`) and one for a
disjoint read (`slice_splice_disjoint`).  `leBytes w n` is the `w`-byte little-endian
encoding of `n`; it keeps `n` modulo `256 ^ w`, as a cast to a narrower machine integer
does (`readLe_leBytes`). -/

namespace ByteBuffer

open List

/-- The bytes of `d` at the positions `[a, b)`. -/
def slice (d : List UInt8) (a b : ℕ) : List UInt8 := (d.take b).drop a

/-- `d` with the bytes from position `a` on overwritten by `bs`. -/
def splice (d : List UInt8) (a : ℕ) (bs : List UInt8) : List UInt8 :=
  d.take a ++ bs ++ d.drop (a + bs.length)

theorem slice_length (d : List UInt8) (a b : ℕ) : (slice d a b).length = min b d.length - a := by
  simp [slice]

variable {d bs : List UInt8} {a : ℕ}

theorem splice_length (h : a + bs.length ≤ d.length) : (splice d a bs).length = d.length := by
  simp only [splice, length_append, length_take, length_drop]
  omega

theorem slice_getElem? (d : List UInt8) (a b i : ℕ) :
    (slice d a b)[i]? = if a + i < b then d[a + i]? else none := by
  rw [slice, getElem?_drop, getElem?_take]

theorem splice_getElem? (h : a + bs.length ≤ d.length) (i : ℕ) : (splice d a bs)[i]? =
      if a ≤ i ∧ i < a + bs.length then bs[i - a]? else d[i]? := by
  have hta : (d.take a).length = a := by rw [length_take]; omega
  unfold splice
  rw [append_assoc]
  rcases Nat.lt_or_ge i a with hi | hi
  · rw [getElem?_append_left (by omega), getElem?_take, if_pos hi, if_neg (by omega)]
  · rw [getElem?_append_right (by omega), hta]
    rcases Nat.lt_or_ge i (a + bs.length) with hi' | hi'
    · rw [getElem?_append_left (by omega), if_pos ⟨hi, hi'⟩]
    · rw [getElem?_append_right (by omega), if_neg (by omega), getElem?_drop]
      congr 1
      omega

/-- A read of the range just written returns what was written. -/
theorem slice_splice_same (h : a + bs.length ≤ d.length) :
    slice (splice d a bs) a (a + bs.length) = bs := by
  apply ext_getElem?
  intro i
  rw [slice_getElem?, splice_getElem? h]
  rcases Nat.lt_or_ge i bs.length with hi | hi
  · rw [if_pos (by omega), if_pos (by omega)]
    congr 1
    omega
  · rw [if_neg (by omega), getElem?_eq_none hi]

/-- A read that is disjoint from the written range does not see the write. -/
theorem slice_splice_disjoint {lo hi : ℕ} (h : a + bs.length ≤ d.length)
    (hd : hi ≤ a ∨ a + bs.length ≤ lo) : slice (splice d a bs) lo hi = slice d lo hi := by
  apply ext_getElem?
  intro i
  rw [slice_getElem?, slice_getElem?, splice_getElem? h]
  by_cases hi' : lo + i < hi
  · rw [if_pos hi', if_pos hi', if_neg (by omega)]
  · rw [if_neg hi', if_neg hi']

/-! ### Little-endian numbers -/

/-- The `w`-byte little-endian encoding of `n`. -/
def leBytes : ℕ → ℕ → List UInt8
  | 0, _ => []
  | w + 1, n => UInt8.ofNat n :: leBytes w (n / 256)

/-- The number a little-endian byte string stands for. -/
def readLe : List UInt8 → ℕ
  | [] => 0
  | b :: bs => b.toNat + 256 * readLe bs

@[simp] theorem leBytes_length (w n : ℕ) : (leBytes w n).length = w := by
  induction w generalizing n with
  | zero => rfl
  | succ w ih => simp [leBytes, ih]

theorem readLe_leBytes (w n : ℕ) : readLe (leBytes w n) = n % 256 ^ w := by
  induction w generalizing n with
  | zero => simp [leBytes, readLe, Nat.mod_one]
  | succ w ih =>
    rw [leBytes, readLe, ih, UInt8.toNat_ofNat', show (2 : ℕ) ^ 8 = 256 from rfl, pow_succ',
      Nat.mod_mul]

theorem readLe_leBytes_of_lt {w n : ℕ} (h : n < 256 ^ w) : readLe (leBytes w n) = n := by
  rw [readLe_leBytes, Nat.mod_eq_of_lt h]

theorem readLe_replicate_zero (n : ℕ) : readLe (List.replicate n 0) = 0 := by
  induction n with
  | zero => rfl
  | succ n ih => simp [replicate_succ, readLe, ih]

theorem readLe_lt (bs : List UInt8) : readLe bs < 256 ^ bs.length := by
  induction bs with
  | nil => simp [readLe]
  | cons b bs ih =>
    have hb := b.toNat_lt
    rw [readLe, length_cons, pow_succ']
    omega

end ByteBuffer
