import CrustyDB.Page.SlotDirectory

/-! # The bytes of a heap page and its slot directory

`Rep p d` says that the bytes of the page `p` spell the directory `d`.  The header of a heap
page is read as an array of sixteen-bit cells: the four counters, then offset and length of
each slot.  A write either changes one cell or lies in the data area, and the two frame rules
`cell_putCell_ne` and `cell_put` say what such a write leaves alone.  On them rest the rules of
`RepExcept`, one for each kind of write the page operations make. -/

namespace CrustyDB.Page

open ByteBuffer List

/-! ### Cells -/

/-- The sixteen-bit number at position `k` of the heap metadata. -/
def cell (p : Page) (k : ℕ) : ℕ :=
  readLe (slice p.data (pageFixedHeaderLen + 2 * k) (pageFixedHeaderLen + 2 * k + 2))

/-- The number of cells that fit into a page. -/
def maxCells : ℕ := 2040

/-- The page with cell `k` set. -/
def putCell (p : Page) (k n : ℕ) (hk : k < maxCells) : Page :=
  p.put (pageFixedHeaderLen + 2 * k) (leBytes 2 n) (by
    rw [leBytes_length]
    simp only [pageFixedHeaderLen, pageSize, maxCells] at hk ⊢
    omega)

variable {p : Page} {k n a : ℕ}

theorem readU16_cell {off : ℕ} (hk : k < maxCells) (ho : off = pageFixedHeaderLen + 2 * k) :
    p.readU16 off = .ok (p.cell k) := by
  subst ho
  refine readU16_ok ?_
  simp only [pageFixedHeaderLen, offsetNumBytes, pageSize, maxCells] at hk ⊢
  omega

theorem writeU16_cell {off : ℕ} (n : ℕ) (hk : k < maxCells) (ho : off = pageFixedHeaderLen + 2 * k) :
    p.writeU16 off n = .ok (p.putCell k n hk) := by
  subst ho
  refine writeU16_ok n ?_
  simp only [pageFixedHeaderLen, offsetNumBytes, pageSize, maxCells] at hk ⊢
  omega

section

variable (p)

theorem cell_putCell_same (hk : k < maxCells) (hn : n < 65536) :
    (p.putCell k n hk).cell k = n := by
  unfold cell putCell
  rw [slice_put_same _ _ _ (by rw [leBytes_length]), readLe_leBytes_of_lt (by exact hn)]

theorem cell_putCell_ne {j : ℕ} (hk : k < maxCells) (h : j ≠ k) :
    (p.putCell k n hk).cell j = p.cell j := by
  unfold cell putCell
  rw [slice_put_disjoint _ _ _ (by rw [leBytes_length]; omega)]

theorem slice_putCell {lo hi : ℕ} (hk : k < maxCells)
    (h : pageFixedHeaderLen + 2 * k + 2 ≤ lo) :
    slice (p.putCell k n hk).data lo hi = slice p.data lo hi := by
  unfold putCell
  rw [slice_put_disjoint _ _ _ (by rw [leBytes_length]; omega)]

theorem getPageId_putCell (hk : k < maxCells) :
    (p.putCell k n hk).getPageId = p.getPageId := by
  unfold getPageId putCell
  rw [slice_put_disjoint _ _ _ (Or.inl (by simp only [pageIdSize, pageFixedHeaderLen]; omega))]

theorem cell_put (bs : List UInt8) (h : a + bs.length ≤ pageSize)
    (hk : pageFixedHeaderLen + 2 * k + 2 ≤ a) : (p.put a bs h).cell k = p.cell k := by
  unfold cell
  rw [slice_put_disjoint _ _ _ (Or.inl hk)]

theorem getPageId_put (bs : List UInt8) (h : a + bs.length ≤ pageSize)
    (ha : pageFixedHeaderLen ≤ a) : (p.put a bs h).getPageId = p.getPageId := by
  unfold getPageId
  rw [slice_put_disjoint _ _ _ (Or.inl (by simp only [pageIdSize, pageFixedHeaderLen] at *; omega))]

theorem cell_lt (k : ℕ) : p.cell k < 65536 := by
  have h := readLe_lt (slice p.data (pageFixedHeaderLen + 2 * k) (pageFixedHeaderLen + 2 * k + 2))
  have hl : (slice p.data (pageFixedHeaderLen + 2 * k) (pageFixedHeaderLen + 2 * k + 2)).length ≤ 2 := by
    rw [slice_length]
    omega
  calc p.cell k < 256 ^ _ := h
    _ ≤ 256 ^ 2 := Nat.pow_le_pow_right (by omega) hl

theorem getNumSlots_eq : p.getNumSlots = .ok (p.cell 0) :=
  readU16_cell (by decide) rfl

theorem getFreeSpacePtr_eq : p.getFreeSpacePtr = .ok (p.cell 1) :=
  readU16_cell (by decide) rfl

theorem getDeletedBytes_eq : p.getDeletedBytes = .ok (p.cell 2) :=
  readU16_cell (by decide) rfl

theorem getDeletedSlotCount_eq : p.getDeletedSlotCount = .ok (p.cell 3) :=
  readU16_cell (by decide) rfl

theorem setNumSlots_eq (n : ℕ) : p.setNumSlots n = .ok (p.putCell 0 n (by decide)) :=
  writeU16_cell n (by decide) rfl

theorem setFreeSpacePtr_eq (n : ℕ) :
    p.setFreeSpacePtr n = .ok (p.putCell 1 n (by decide)) :=
  writeU16_cell n (by decide) rfl

theorem setDeletedBytes_eq (n : ℕ) :
    p.setDeletedBytes n = .ok (p.putCell 2 n (by decide)) :=
  writeU16_cell n (by decide) rfl

theorem setDeletedSlotCount_eq (n : ℕ) :
    p.setDeletedSlotCount n = .ok (p.putCell 3 n (by decide)) :=
  writeU16_cell n (by decide) rfl

end

/-! ### The representation -/

/-- The bytes of `p` spell the directory `d`; the slots in `moving` have their length in place but
not yet their offset and value. -/
structure RepExcept (moving : List ℕ) (p : Page) (d : SlotDir) : Prop where
  pageId : p.getPageId = d.pageId
  numSlots : p.cell 0 = d.slots.length
  fsp : p.cell 1 = d.fsp
  deletedBytes : p.cell 2 = d.deletedBytes
  deletedSlots : p.cell 3 = d.deletedSlots
  header_le : d.headerSize ≤ pageSize
  length : ∀ (i : ℕ) (s : Slot), d.slots[i]? = some s → p.cell (5 + 2 * i) = s.value.length
  above : ∀ (i : ℕ) (s : Slot), i ∉ moving → d.slots[i]? = some s → s.value ≠ [] →
    d.headerSize ≤ s.offset ∧ s.offset + s.value.length ≤ pageSize
  offset : ∀ (i : ℕ) (s : Slot), i ∉ moving → d.slots[i]? = some s → s.value ≠ [] →
    p.cell (4 + 2 * i) = s.offset
  value : ∀ (i : ℕ) (s : Slot), i ∉ moving → d.slots[i]? = some s → s.value ≠ [] →
    slice p.data s.offset (s.offset + s.value.length) = s.value

/-- The bytes of `p` spell the directory `d`. -/
abbrev Rep (p : Page) (d : SlotDir) : Prop := RepExcept [] p d

variable {d : SlotDir} {moving : List ℕ} {i : ℕ} {s : Slot}

/-- A slot that is in place may be treated as moving. -/
theorem RepExcept.weaken (h : Rep p d) (moving : List ℕ) : RepExcept moving p d :=
  ⟨h.pageId, h.numSlots, h.fsp, h.deletedBytes, h.deletedSlots, h.header_le, h.length,
    fun i s _ => h.above i s not_mem_nil, fun i s _ => h.offset i s not_mem_nil,
    fun i s _ => h.value i s not_mem_nil⟩

/-- No slot is moving once every moving one has been seen to be in place. -/
theorem RepExcept.strengthen (h : RepExcept moving p d)
    (hm : ∀ (i : ℕ) (s : Slot), i ∈ moving → d.slots[i]? = some s → s.value ≠ [] →
      (d.headerSize ≤ s.offset ∧ s.offset + s.value.length ≤ pageSize) ∧
        p.cell (4 + 2 * i) = s.offset ∧ slice p.data s.offset (s.offset + s.value.length) = s.value) :
    Rep p d := by
  refine ⟨h.pageId, h.numSlots, h.fsp, h.deletedBytes, h.deletedSlots, h.header_le, h.length,
    ?_, ?_, ?_⟩
  all_goals
    intro i s _ hi hv
    by_cases him : i ∈ moving
  · exact (hm i s him hi hv).1
  · exact h.above i s him hi hv
  · exact (hm i s him hi hv).2.1
  · exact h.offset i s him hi hv
  · exact (hm i s him hi hv).2.2
  · exact h.value i s him hi hv

theorem RepExcept.index_lt (h : RepExcept moving p d) (hi : d.slots[i]? = some s) :
    i < d.slots.length ∧ headerStart + 4 * i + 4 ≤ d.headerSize ∧ 5 + 2 * i < maxCells := by
  have hh := h.header_le
  obtain ⟨hlt, -⟩ := List.getElem?_eq_some_iff.mp hi
  unfold SlotDir.headerSize at *
  simp only [headerStart, pageFixedHeaderLen, heapPageFixedMetadataSize, slotMetadataSize, pageSize,
    maxCells] at *
  omega

/-- The counters can be changed on both sides. -/
theorem RepExcept.setCounters {p' : Page} {d' : SlotDir} (h : RepExcept moving p d)
    (hid : p'.getPageId = p.getPageId) (hc : ∀ k, k = 0 ∨ 4 ≤ k → p'.cell k = p.cell k)
    (hs : ∀ lo hi, headerStart ≤ lo → slice p'.data lo hi = slice p.data lo hi)
    (hp : d'.pageId = d.pageId) (hslots : d'.slots = d.slots) (h1 : p'.cell 1 = d'.fsp)
    (h2 : p'.cell 2 = d'.deletedBytes) (h3 : p'.cell 3 = d'.deletedSlots) :
    RepExcept moving p' d' := by
  have hhdr : d'.headerSize = d.headerSize := by
    unfold SlotDir.headerSize
    rw [hslots]
  refine ⟨by rw [hid, h.pageId, hp], by rw [hc 0 (Or.inl rfl), h.numSlots, hslots], h1, h2, h3,
    by rw [hhdr]; exact h.header_le, ?_, ?_, ?_, ?_⟩
  · intro i s hi
    rw [hslots] at hi
    rw [hc _ (Or.inr (by omega))]
    exact h.length i s hi
  · intro i s hm hi hv
    rw [hslots] at hi
    rw [hhdr]
    exact h.above i s hm hi hv
  · intro i s hm hi hv
    rw [hslots] at hi
    rw [hc _ (Or.inr (by omega))]
    exact h.offset i s hm hi hv
  · intro i s hm hi hv
    rw [hslots] at hi
    have hab := (h.above i s hm hi hv).1
    rw [hs _ _ (by unfold SlotDir.headerSize at hab; omega)]
    exact h.value i s hm hi hv

theorem slice_putCounter (p : Page) (hk : k < maxCells) (h4 : k < 4) (lo hi : ℕ)
    (hlo : headerStart ≤ lo) : slice (p.putCell k n hk).data lo hi = slice p.data lo hi := by
  refine slice_putCell p hk ?_
  simp only [headerStart, heapPageFixedMetadataSize] at hlo
  omega

section

variable (h : RepExcept moving p d)
include h

theorem RepExcept.setFsp (hn : n < 65536) :
    RepExcept moving (p.putCell 1 n (by decide)) { d with fsp := n } :=
  h.setCounters (getPageId_putCell p _) (fun k hk => cell_putCell_ne p _ (by omega))
    (slice_putCounter p _ (by omega)) rfl rfl (cell_putCell_same p _ hn)
    (by rw [cell_putCell_ne p _ (by omega)]; exact h.deletedBytes)
    (by rw [cell_putCell_ne p _ (by omega)]; exact h.deletedSlots)

theorem RepExcept.setDeletedBytes (hn : n < 65536) :
    RepExcept moving (p.putCell 2 n (by decide)) { d with deletedBytes := n } :=
  h.setCounters (getPageId_putCell p _) (fun k hk => cell_putCell_ne p _ (by omega))
    (slice_putCounter p _ (by omega)) rfl rfl
    (by rw [cell_putCell_ne p _ (by omega)]; exact h.fsp) (cell_putCell_same p _ hn)
    (by rw [cell_putCell_ne p _ (by omega)]; exact h.deletedSlots)

theorem RepExcept.setDeletedSlots (hn : n < 65536) :
    RepExcept moving (p.putCell 3 n (by decide)) { d with deletedSlots := n } :=
  h.setCounters (getPageId_putCell p _) (fun k hk => cell_putCell_ne p _ (by omega))
    (slice_putCounter p _ (by omega)) rfl rfl
    (by rw [cell_putCell_ne p _ (by omega)]; exact h.fsp)
    (by rw [cell_putCell_ne p _ (by omega)]; exact h.deletedBytes) (cell_putCell_same p _ hn)

/-- A write into the data area that misses the values in place. -/
theorem RepExcept.putData {bs : List UInt8}
    (hb : a + bs.length ≤ pageSize) (ha : d.headerSize ≤ a)
    (hd : ∀ (i : ℕ) (s : Slot), i ∉ moving → d.slots[i]? = some s → s.value ≠ [] →
      s.offset + s.value.length ≤ a ∨ a + bs.length ≤ s.offset) :
    RepExcept moving (p.put a bs hb) d := by
  have h24 : pageFixedHeaderLen + 8 ≤ a := by
    unfold SlotDir.headerSize at ha
    simp only [headerStart, heapPageFixedMetadataSize] at ha
    omega
  have hcell : ∀ (i : ℕ) (s : Slot) (k : ℕ), d.slots[i]? = some s → k ≤ 5 + 2 * i →
      (p.put a bs hb).cell k = p.cell k := by
    intro i s k hi hk
    obtain ⟨-, hlt, -⟩ := h.index_lt hi
    simp only [headerStart, heapPageFixedMetadataSize] at hlt
    exact cell_put p bs hb (by omega)
  refine ⟨by rw [getPageId_put p bs hb (by omega)]; exact h.pageId,
    by rw [cell_put p bs hb (by omega)]; exact h.numSlots,
    by rw [cell_put p bs hb (by omega)]; exact h.fsp,
    by rw [cell_put p bs hb (by omega)]; exact h.deletedBytes,
    by rw [cell_put p bs hb (by omega)]; exact h.deletedSlots, h.header_le, ?_, h.above, ?_, ?_⟩
  · intro i s hi
    rw [hcell i s _ hi (by omega)]
    exact h.length i s hi
  · intro i s hm hi hv
    rw [hcell i s _ hi (by omega)]
    exact h.offset i s hm hi hv
  · intro i s hm hi hv
    rw [slice_put_disjoint p bs hb (hd i s hm hi hv)]
    exact h.value i s hm hi hv

/-- The offset of a slot that is moving, or has no value, can be changed. -/
theorem RepExcept.putOffset (hi : d.slots[i]? = some s)
    (hm : i ∈ moving ∨ s.value = []) (n : ℕ) (hk : 4 + 2 * i < maxCells) :
    RepExcept moving (p.putCell (4 + 2 * i) n hk) d := by
  obtain ⟨-, hlt, -⟩ := h.index_lt hi
  simp only [headerStart, heapPageFixedMetadataSize] at hlt
  refine ⟨by rw [getPageId_putCell]; exact h.pageId,
    by rw [cell_putCell_ne p _ (by omega)]; exact h.numSlots,
    by rw [cell_putCell_ne p _ (by omega)]; exact h.fsp,
    by rw [cell_putCell_ne p _ (by omega)]; exact h.deletedBytes,
    by rw [cell_putCell_ne p _ (by omega)]; exact h.deletedSlots, h.header_le, ?_, h.above, ?_, ?_⟩
  · intro j t hj
    rw [cell_putCell_ne p _ (by omega)]
    exact h.length j t hj
  · intro j t hjm hj hv
    have hij : j ≠ i := by
      rintro rfl
      rw [hi] at hj
      cases hj
      tauto
    rw [cell_putCell_ne p _ (by omega)]
    exact h.offset j t hjm hj hv
  · intro j t hjm hj hv
    have hab := (h.above j t hjm hj hv).1
    rw [slice_putCell p _ (by omega)]
    exact h.value j t hjm hj hv

/-- The length of a slot can be changed when the new value is in place. -/
theorem RepExcept.putLength {o : ℕ} {v : List UInt8}
    (hi : d.slots[i]? = some s) (hlen : v.length < 65536)
    (hv : v ≠ [] → d.headerSize ≤ o ∧ o + v.length ≤ pageSize ∧ p.cell (4 + 2 * i) = o ∧
      slice p.data o (o + v.length) = v) (hk : 5 + 2 * i < maxCells) :
    RepExcept moving (p.putCell (5 + 2 * i) v.length hk)
      { d with slots := d.slots.set i ⟨o, v⟩ } := by
  obtain ⟨-, hlt, -⟩ := h.index_lt hi
  simp only [headerStart, heapPageFixedMetadataSize] at hlt
  have hhdr : SlotDir.headerSize { d with slots := d.slots.set i ⟨o, v⟩ } = d.headerSize := by
    unfold SlotDir.headerSize
    rw [length_set]
  refine ⟨by rw [getPageId_putCell]; exact h.pageId,
    by rw [cell_putCell_ne p _ (by omega)]; simpa using h.numSlots,
    by rw [cell_putCell_ne p _ (by omega)]; exact h.fsp,
    by rw [cell_putCell_ne p _ (by omega)]; exact h.deletedBytes,
    by rw [cell_putCell_ne p _ (by omega)]; exact h.deletedSlots,
    by rw [hhdr]; exact h.header_le, ?_, ?_, ?_, ?_⟩
  · intro j t hj
    rcases SlotDir.getElem?_set_cases hj with ⟨hji, ht⟩ | ⟨hji, hj⟩
    · rw [hji, ht]
      exact cell_putCell_same p _ hlen
    · rw [cell_putCell_ne p _ (by omega)]
      exact h.length j t hj
  · intro j t hjm hj htv
    rw [hhdr]
    rcases SlotDir.getElem?_set_cases hj with ⟨hji, ht⟩ | ⟨hji, hj⟩
    · rw [ht] at htv ⊢
      exact ⟨(hv htv).1, (hv htv).2.1⟩
    · exact h.above j t hjm hj htv
  · intro j t hjm hj htv
    rw [cell_putCell_ne p _ (by omega)]
    rcases SlotDir.getElem?_set_cases hj with ⟨hji, ht⟩ | ⟨hji, hj⟩
    · rw [ht] at htv ⊢
      rw [hji]
      exact (hv htv).2.2.1
    · exact h.offset j t hjm hj htv
  · intro j t hjm hj htv
    rcases SlotDir.getElem?_set_cases hj with ⟨hji, ht⟩ | ⟨hji, hj⟩
    · rw [ht] at htv ⊢
      have hab := (hv htv).1
      refine (slice_putCell p _ ?_).trans (hv htv).2.2.2
      show _ ≤ o
      omega
    · have hab := (h.above j t hjm hj htv).1
      rw [slice_putCell p _ (by omega)]
      exact h.value j t hjm hj htv

end

/-- A moving slot whose value and offset have been written is in place. -/
theorem RepExcept.settle {o : ℕ} (h : RepExcept (i :: moving) p d) (hi : d.slots[i]? = some s)
    (hab : d.headerSize ≤ o) (hend : o + s.value.length ≤ pageSize) (ho : p.cell (4 + 2 * i) = o)
    (hv : slice p.data o (o + s.value.length) = s.value) : RepExcept moving p
      { d with slots := d.slots.modify i (fun s => { s with offset := o }) } := by
  have hget : ∀ (j : ℕ) (t : Slot),
      (d.slots.modify i (fun s => { s with offset := o }))[j]? = some t →
      (j = i ∧ t = ⟨o, s.value⟩) ∨ (j ≠ i ∧ d.slots[j]? = some t) := by
    intro j t ht
    rw [getElem?_modify] at ht
    by_cases hij : i = j
    · subst hij
      rw [hi] at ht
      simp only [if_true, Option.map_eq_map, Option.map_some, Option.some.injEq] at ht
      exact Or.inl ⟨rfl, ht.symm⟩
    · right
      cases hj : d.slots[j]? with
      | none => rw [hj] at ht; cases ht
      | some u =>
        rw [hj] at ht
        simp only [if_neg hij, Option.map_eq_map, Option.map_some] at ht
        exact ⟨Ne.symm hij, ht⟩
  have hhdr : SlotDir.headerSize
      { d with slots := d.slots.modify i (fun s => { s with offset := o }) } = d.headerSize := by
    unfold SlotDir.headerSize
    rw [length_modify]
  refine ⟨h.pageId, by rw [length_modify]; exact h.numSlots, h.fsp, h.deletedBytes,
    h.deletedSlots, by rw [hhdr]; exact h.header_le, ?_, ?_, ?_, ?_⟩
  · intro j t hj
    rcases hget j t hj with ⟨hji, ht⟩ | ⟨hji, hj⟩
    · rw [hji, ht]
      exact h.length i s hi
    · exact h.length j t hj
  · intro j t hjm hj htv
    rw [hhdr]
    rcases hget j t hj with ⟨hji, ht⟩ | ⟨hji, hj⟩
    · rw [ht]
      exact ⟨hab, hend⟩
    · exact h.above j t (by simp [hji, hjm]) hj htv
  · intro j t hjm hj htv
    rcases hget j t hj with ⟨hji, ht⟩ | ⟨hji, hj⟩
    · rw [hji, ht]
      exact ho
    · exact h.offset j t (by simp [hji, hjm]) hj htv
  · intro j t hjm hj htv
    rcases hget j t hj with ⟨hji, ht⟩ | ⟨hji, hj⟩
    · rw [ht]
      exact hv
    · exact h.value j t (by simp [hji, hjm]) hj htv

end CrustyDB.Page
