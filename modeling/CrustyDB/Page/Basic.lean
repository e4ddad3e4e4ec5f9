import CrustyDB.Lib.ByteBuffer

/-! # Pages

A page is an array of `pageSize` bytes.  The first `pageFixedHeaderLen` bytes are the fixed
header: the page id, the log sequence number (a page id and a slot id), the checksum and two
spare bytes.

Every access to the bytes of a page is a Rust slice expression, which panics when the range
does not lie inside the array, and every subtraction and every sixteen-bit addition panics
when it leaves its type.  The model keeps these panics: a computation that can panic is a
value of `Checked`, and the proofs of the page operations show which computations never do. -/

namespace CrustyDB

open ByteBuffer List

/-- The identifier of a table, an index or another container (`u16`). -/
abbrev ContainerId := UInt16
/-- The identifier of a page within its container (`u32`). -/
abbrev PageId := UInt32
/-- The identifier of a value within its page (`u16`). -/
abbrev SlotId := UInt16

/-- The ways in which a computation can panic. -/
inductive Panic where
  | overflow
  | index
  | unwrap
deriving DecidableEq, Repr

/-- Computations that return a value or panic. -/
abbrev Checked := Except Panic

/-- Unsigned subtraction, which panics when it would go below zero. -/
def subUsize (a b : ℕ) : Checked ℕ := if b ≤ a then .ok (a - b) else .error .overflow

/-- Addition of two `u16` values, which panics when the sum does not fit. -/
def addU16 (a b : ℕ) : Checked ℕ := if a + b < 65536 then .ok (a + b) else .error .overflow

theorem subUsize_of_le {a b : ℕ} (h : b ≤ a) : subUsize a b = .ok (a - b) := if_pos h

theorem addU16_of_lt {a b : ℕ} (h : a + b < 65536) : addU16 a b = .ok (a + b) := if_pos h

theorem checked_bind_ok {α β : Type} (a : α) (f : α → Checked β) :
    (Except.ok a : Checked α) >>= f = f a := rfl

section Except

variable {ε α β : Type} {x : Except ε α} {b : β}

theorem bind_eq_ok {g : α → Except ε β} : (x >>= g) = .ok b ↔ ∃ a, x = .ok a ∧ g a = .ok b := by
  cases x with
  | ok a => simp [bind, Except.bind]
  | error e => simp [bind, Except.bind]

theorem map_eq_ok {g : α → β} : x.map g = .ok b ↔ ∃ a, x = .ok a ∧ g a = b := by
  cases x with
  | ok a => simp [Except.map]
  | error e => simp [Except.map]

end Except

theorem forall_mem_set {α : Type} {P : α → Prop} {l : List α} {i : ℕ} {a : α} (hl : ∀ x ∈ l, P x)
    (ha : P a) : ∀ x ∈ l.set i a, P x := by
  intro x hx
  rcases mem_or_eq_of_mem_set hx with hx | rfl
  · exact hl x hx
  · exact ha

/-- Writing one element of a list leaves the elements before and after it. -/
theorem set_split {α : Type} {l : List α} {i : ℕ} {a : α} (h : l[i]? = some a) :
    ∃ l₁ l₂, l = l₁ ++ a :: l₂ ∧ ∀ b, l.set i b = l₁ ++ b :: l₂ := by
  obtain ⟨hlt, rfl⟩ := List.getElem?_eq_some_iff.mp h
  refine ⟨l.take i, l.drop (i + 1), ?_, fun b => ?_⟩
  · rw [getElem_cons_drop, take_append_drop]
  · rw [set_eq_take_append_cons_drop, if_pos hlt]

/-! ### Layout constants -/

/-- The number of bytes of a page. -/
def pageSize : ℕ := 4096
/-- The number of bytes of an offset. -/
def offsetNumBytes : ℕ := 2
def pageIdSize : ℕ := 4
def slotIdSize : ℕ := 2
def checksumSize : ℕ := 2
def lsnPageOffset : ℕ := pageIdSize
def lsnSlotOffset : ℕ := lsnPageOffset + pageIdSize
def checksumOffset : ℕ := lsnSlotOffset + slotIdSize
/-- The number of bytes reserved for the fixed header of every page. -/
def pageFixedHeaderLen : ℕ := 16
/-- The metadata a heap page keeps for each slot: offset and length. -/
def slotMetadataSize : ℕ := 4
/-- The metadata of a heap page that does not depend on the number of slots. -/
def heapPageFixedMetadataSize : ℕ := 8

/-- A page: an array of exactly `pageSize` bytes. -/
structure Page where
  data : List UInt8
  size : data.length = pageSize

namespace Page

/-- `&self.data[a..b]`. -/
def read (p : Page) (a b : ℕ) : Checked (List UInt8) :=
  if a ≤ b ∧ b ≤ pageSize then .ok (slice p.data a b) else .error .index

/-- The page with the bytes from `a` on overwritten by `bs`. -/
def put (p : Page) (a : ℕ) (bs : List UInt8) (h : a + bs.length ≤ pageSize) : Page :=
  ⟨splice p.data a bs, by rw [splice_length (by rw [p.size]; exact h), p.size]⟩

/-- `self.data[a..a + bs.len()].copy_from_slice(bs)`. -/
def write (p : Page) (a : ℕ) (bs : List UInt8) : Checked Page :=
  if h : a + bs.length ≤ pageSize then .ok (p.put a bs h) else .error .index

/-- `u16::from_le_bytes(self.data[off..off + 2].try_into().unwrap())`. -/
def readU16 (p : Page) (off : ℕ) : Checked ℕ := do
  let bs ← p.read off (off + offsetNumBytes)
  pure (readLe bs)

/-- `self.data[off..off + 2].copy_from_slice(&(n as u16).to_le_bytes())`. -/
def writeU16 (p : Page) (off n : ℕ) : Checked Page := p.write off (leBytes offsetNumBytes n)

/-- `[0u8; PAGE_SIZE]`. -/
def zeros : Page := ⟨List.replicate pageSize 0, List.length_replicate⟩

theorem pageId_fits (pageId : PageId) : 0 + (leBytes pageIdSize pageId.toNat).length ≤ pageSize := by
  rw [leBytes_length]
  decide

/-- A new page: all zero except for the page id. -/
def new (pageId : PageId) : Page :=
  ((((((zeros.put 0 (leBytes pageIdSize pageId.toNat) (pageId_fits pageId)).put
    lsnPageOffset (leBytes pageIdSize 0) (by decide)).put
    lsnSlotOffset (leBytes slotIdSize 0) (by decide)).put
    checksumOffset (leBytes checksumSize 0) (by decide)).put
    (checksumOffset + checksumSize)
      (List.replicate (pageFixedHeaderLen - (checksumOffset + checksumSize)) 0) (by decide)).put
    pageFixedHeaderLen (List.replicate heapPageFixedMetadataSize 0) (by decide))

/-- The page id stored in the first bytes of the page. -/
def getPageId (p : Page) : PageId := UInt32.ofNat (readLe (slice p.data 0 pageIdSize))

/-- Overwrite the page id. -/
def setPageId (p : Page) (pageId : PageId) : Page :=
  p.put 0 (leBytes pageIdSize pageId.toNat) (pageId_fits pageId)

/-! ### Reads and writes -/

variable {p : Page} {a b : ℕ}

theorem read_ok (h : a ≤ b) (hb : b ≤ pageSize) :
    p.read a b = .ok (slice p.data a b) := if_pos ⟨h, hb⟩

theorem write_ok {bs : List UInt8} (h : a + bs.length ≤ pageSize) :
    p.write a bs = .ok (p.put a bs h) := dif_pos h

theorem readU16_ok {off : ℕ} (h : off + offsetNumBytes ≤ pageSize) :
    p.readU16 off = .ok (readLe (slice p.data off (off + offsetNumBytes))) := by
  unfold readU16
  rw [read_ok (by omega) h]
  rfl

theorem writeU16_ok {off : ℕ} (n : ℕ) (h : off + offsetNumBytes ≤ pageSize) :
    p.writeU16 off n = .ok (p.put off (leBytes offsetNumBytes n) (by rw [leBytes_length]; exact h)) :=
  write_ok _

theorem put_getElem? (p : Page) (a : ℕ) (bs : List UInt8) (h : a + bs.length ≤ pageSize) (i : ℕ) :
    (p.put a bs h).data[i]? = if a ≤ i ∧ i < a + bs.length then bs[i - a]? else p.data[i]? :=
  splice_getElem? (by rw [p.size]; exact h) i

theorem slice_put_same (p : Page) (bs : List UInt8) (h : a + bs.length ≤ pageSize)
    (hb : b = a + bs.length) : slice (p.put a bs h).data a b = bs := by
  subst hb
  exact slice_splice_same (by rw [p.size]; exact h)

theorem slice_put_disjoint (p : Page) {lo hi : ℕ} (bs : List UInt8) (h : a + bs.length ≤ pageSize)
    (hd : hi ≤ a ∨ a + bs.length ≤ lo) : slice (p.put a bs h).data lo hi = slice p.data lo hi :=
  slice_splice_disjoint (by rw [p.size]; exact h) hd

/-- Zeros written over zeros change nothing. -/
theorem put_zeros_getElem? (p : Page) (a n : ℕ) (h : a + (List.replicate n (0 : UInt8)).length ≤ pageSize)
    {i : ℕ} (hi : p.data[i]? = some 0) : (p.put a (List.replicate n 0) h).data[i]? = some 0 := by
  rw [put_getElem?]
  split_ifs with hc
  · rw [length_replicate] at hc
    rw [getElem?_replicate, if_pos (by omega)]
  · exact hi

/-- Past the page id a new page holds only zeros. -/
theorem new_getElem? (pageId : PageId) {i : ℕ} (h : pageIdSize ≤ i) (hi : i < pageSize) :
    (new pageId).data[i]? = some 0 := by
  have hz : ∀ n, leBytes n 0 = List.replicate n 0 := by
    intro n
    induction n with
    | zero => rfl
    | succ n ih => rw [leBytes, Nat.zero_div, ih, replicate_succ]; rfl
  unfold new
  simp only [hz]
  iterate 5 apply put_zeros_getElem?
  rw [put_getElem?, leBytes_length, if_neg (by omega)]
  exact getElem?_replicate_of_lt hi

theorem new_slice (pageId : PageId) (h : pageIdSize ≤ a) (hb : b ≤ pageSize) :
    slice (new pageId).data a b = List.replicate (b - a) 0 := by
  apply ext_getElem?
  intro i
  rw [slice_getElem?, getElem?_replicate]
  by_cases hi : a + i < b
  · rw [if_pos hi, if_pos (by omega), new_getElem? pageId (by omega) (by omega)]
  · rw [if_neg hi, if_neg (by omega)]

theorem getPageId_setPageId (p : Page) (pageId : PageId) :
    (p.setPageId pageId).getPageId = pageId := by
  unfold getPageId setPageId
  rw [slice_put_same _ _ _ (by rw [leBytes_length]; rfl),
    readLe_leBytes_of_lt (by exact pageId.toNat_lt), UInt32.ofNat_toNat]

theorem new_getPageId (pageId : PageId) : (new pageId).getPageId = pageId := by
  unfold getPageId new
  iterate 5 rw [slice_put_disjoint _ _ _ (Or.inl (by decide))]
  rw [slice_put_same _ _ _ (by rw [leBytes_length]; rfl),
    readLe_leBytes_of_lt (by exact pageId.toNat_lt), UInt32.ofNat_toNat]

end Page

end CrustyDB
