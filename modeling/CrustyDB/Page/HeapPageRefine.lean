import CrustyDB.Page.PageView
import CrustyDB.Lib.Simulation

/-! # The page operations refine the directory operations

Each operation of `HeapPage.lean`, run on bytes that spell a well-formed directory, does not
panic unless the directory operation does, returns the same answer and leaves bytes that spell
the new directory: `compactPage_rep`, `writeValueAtSlot_rep`, `addValue_rep`, `getValue_rep`,
`deleteValue_rep`, `updateValue_rep` and `iter_rep`. -/

namespace CrustyDB.Page

open ByteBuffer Simulation List SlotDir Nat

/-! ### Reading the header -/

variable {i : ℕ} {s : Slot}

/-- A loop over the slots from `i` on sees slot `i` first. -/
theorem getElem?_of_drop {slots rest : List Slot} (h : slots.drop i = s :: rest) :
    slots[i]? = some s ∧ slots.drop (i + 1) = rest := by
  rw [← head?_drop, ← tail_drop, h]
  exact ⟨rfl, rfl⟩

section Header

variable {moving : List ℕ} {p : Page} {d : SlotDir}

theorem getHeaderSize_rep (h : RepExcept moving p d) : p.getHeaderSize = .ok d.headerSize := by
  unfold getHeaderSize
  rw [getNumSlots_eq, h.numSlots]
  rfl

theorem gap_rep (h : RepExcept moving p d) (hle : d.headerSize ≤ d.fsp) :
    subUsize (p.cell 1) d.headerSize = .ok d.gap := by
  rw [h.fsp]
  exact subUsize_of_le hle

theorem getFreeSpace_rep (h : RepExcept moving p d) (hle : d.headerSize ≤ d.fsp) :
    p.getFreeSpace = .ok d.freeSpace := by
  unfold getFreeSpace
  rw [getFreeSpacePtr_eq, getHeaderSize_rep h, getDeletedBytes_eq, checked_bind_ok,
    checked_bind_ok, gap_rep h hle, h.deletedBytes]
  rfl

variable {i : ℕ} {s : Slot}

section

variable (h : RepExcept moving p d)
include h

theorem readOffset_rep (hi : d.slots[i]? = some s) :
    p.readU16 (headerStart + i * slotMetadataSize) = .ok (p.cell (4 + 2 * i)) := by
  obtain ⟨-, -, hlt⟩ := h.index_lt hi
  refine readU16_cell (by omega) ?_
  simp only [headerStart, heapPageFixedMetadataSize, slotMetadataSize]
  omega

theorem readLength_rep (hi : d.slots[i]? = some s) :
    p.readU16 (headerStart + i * slotMetadataSize + offsetNumBytes) = .ok s.value.length := by
  obtain ⟨-, -, hlt⟩ := h.index_lt hi
  rw [← h.length i s hi]
  refine readU16_cell hlt ?_
  simp only [headerStart, heapPageFixedMetadataSize, slotMetadataSize, offsetNumBytes]
  omega

theorem findFreeLoop_rep (slots : List Slot)
    (hs : d.slots.drop i = slots) (hi : i ≤ d.slots.length) :
    p.findFreeLoop d.headerSize (headerStart + i * slotMetadataSize) =
      .ok (headerStart + (i + (slots.map Slot.value).findIdx (fun v => v.isEmpty)) *
        slotMetadataSize) := by
  induction slots generalizing i with
  | nil =>
    have hlen : d.slots.length = i := by
      have := congrArg List.length hs
      simp only [length_drop, length_nil] at this
      omega
    rw [findFreeLoop, if_neg (by unfold SlotDir.headerSize; rw [hlen]; omega)]
    unfold SlotDir.headerSize
    rw [hlen]
    rfl
  | cons s slots ih =>
    obtain ⟨hget, hdrop⟩ := getElem?_of_drop hs
    obtain ⟨hlt, -, -⟩ := h.index_lt hget
    have hbound : headerStart + i * slotMetadataSize < d.headerSize := by
      unfold SlotDir.headerSize
      simp only [slotMetadataSize]
      omega
    rw [findFreeLoop, if_pos hbound, readLength_rep h hget, checked_bind_ok, map_cons,
      findIdx_cons]
    by_cases hv : s.value = []
    · rw [if_pos (by rw [hv]; rfl), hv]
      rfl
    · have hlen : s.value.length ≠ 0 := fun hl => hv (length_eq_zero_iff.mp hl)
      have hemp : s.value.isEmpty = false := by
        rw [isEmpty_eq_false_iff]
        exact hv
      have hstep : headerStart + i * slotMetadataSize + slotMetadataSize =
          headerStart + (i + 1) * slotMetadataSize := by
        rw [add_mul]
        omega
      rw [if_neg hlen, hstep, ih hdrop hlt, hemp]
      simp only [cond_false]
      rw [add_right_comm, Nat.add_assoc]

theorem findNextFreeSlot_rep :
    p.findNextFreeSlot = .ok (headerStart + d.firstFree * slotMetadataSize) := by
  unfold findNextFreeSlot
  rw [getHeaderSize_rep h, checked_bind_ok]
  have := findFreeLoop_rep h d.slots (i := 0) rfl (Nat.zero_le _)
  rw [zero_mul, Nat.zero_add] at this
  exact this

theorem getSlotMetadataOffset_none {slotId : SlotId}
    (hs : d.slots[slotId.toNat]? = none) : p.getSlotMetadataOffset slotId = .ok (-1) := by
  unfold getSlotMetadataOffset
  rw [getNumSlots_eq, h.numSlots, checked_bind_ok, if_pos (List.getElem?_eq_none_iff.mp hs)]
  rfl

theorem getSlotMetadataOffset_some {slotId : SlotId}
    (hs : d.slots[slotId.toNat]? = some s) : p.getSlotMetadataOffset slotId =
      .ok ((headerStart + slotId.toNat * slotMetadataSize : ℕ) : ℤ) := by
  obtain ⟨hlt, -, -⟩ := h.index_lt hs
  unfold getSlotMetadataOffset
  rw [getNumSlots_eq, h.numSlots, checked_bind_ok, if_neg (by omega)]
  rfl

end

end Header

/-! ### Compaction -/

variable {p : Page} {d : SlotDir} {bytes : List UInt8}

theorem liveSlots_rep (h : Rep p d) (slots : List Slot) (hs : d.slots.drop i = slots) :
    p.liveSlots slots.length i = .ok (SlotDir.liveFrom slots i) := by
  induction slots generalizing i with
  | nil => rfl
  | cons s slots ih =>
    obtain ⟨hget, hdrop⟩ := getElem?_of_drop hs
    rw [length_cons, liveSlots]
    simp only [readOffset_rep h hget, readLength_rep h hget, checked_bind_ok]
    unfold SlotDir.liveFrom
    by_cases hv : s.value = []
    · rw [if_pos hv, if_neg (by rw [hv]; decide)]
      exact ih hdrop
    · have hab := h.above i s (not_mem_nil) hget hv
      rw [if_neg hv, if_pos (length_pos_iff.mpr hv),
        h.offset i s (not_mem_nil) hget hv,
        read_ok (by omega) hab.2, checked_bind_ok, ih hdrop,
        h.value i s (not_mem_nil) hget hv]
      rfl

theorem repack_rep (l : List (ℕ × List UInt8)) {fsp : ℕ} (h : RepExcept (l.map Prod.fst) p d)
    (hp : SlotDir.Packed (l.map Prod.fst) fsp d.slots)
    (hl : ∀ iv ∈ l, ∃ s, d.slots[iv.1]? = some s ∧ s.value = iv.2)
    (hsum : d.headerSize + (l.map (fun iv => iv.2.length)).sum ≤ fsp) (hfsp : fsp ≤ pageSize) :
    ∃ p', repack l fsp p = .ok ((SlotDir.repackSlots l fsp d.slots).1, p') ∧
      Rep p' { d with slots := (SlotDir.repackSlots l fsp d.slots).2 } := by
  induction l generalizing fsp p d with
  | nil => exact ⟨p, rfl, h⟩
  | cons iv l ih =>
    obtain ⟨i, v⟩ := iv
    simp only [map_cons, sum_cons] at hsum
    obtain ⟨s, hs, hsv⟩ := hl (i, v) mem_cons_self
    simp only at hs hsv
    subst hsv
    obtain ⟨-, -, hcell⟩ := h.index_lt hs
    -- the value goes directly below the packed ones, so it misses them
    have hend : fsp - s.value.length + s.value.length ≤ pageSize := by omega
    have hdata := h.putData hend (by omega) (fun j t hj ht hv => by
      have := (hp.inside j t hj ht hv).1
      omega)
    have hoff := hdata.putOffset hs (Or.inl mem_cons_self) (fsp - s.value.length) (by omega)
    have hlt : fsp - s.value.length < 65536 := by
      simp only [pageSize] at hfsp
      omega
    have hset := hoff.settle hs (by omega) hend (cell_putCell_same _ _ hlt) (by
      have hidx := (h.index_lt hs).2.1
      simp only [headerStart, heapPageFixedMetadataSize] at hidx
      rw [slice_putCell _ _ (by omega)]
      exact slice_put_same p _ _ rfl)
    have hhdr : SlotDir.headerSize
        { d with slots := d.slots.modify i (fun s' => { s' with offset := fsp - s.value.length }) } =
          d.headerSize := by
      unfold SlotDir.headerSize
      rw [length_modify]
    obtain ⟨p', hrun, hrep⟩ := ih hset (hp.place hs (by omega) hfsp)
      (fun jw hjw => modify_offset_getElem?_value (hl jw (mem_cons_of_mem _ hjw)))
      (by rw [hhdr]; omega) (by omega)
    refine ⟨p', ?_, hrep⟩
    rw [repack, subUsize_of_le (by omega), checked_bind_ok, write_ok hend, checked_bind_ok,
      writeU16_cell (k := 4 + 2 * i) _ (by omega) (by
        simp only [headerStart, heapPageFixedMetadataSize, slotMetadataSize]; omega),
      checked_bind_ok]
    exact hrun

theorem compactPage_rep (h : Rep p d) (hfits : d.headerSize + d.liveBytes ≤ pageSize) :
    ∃ p', p.compactPage = .ok p' ∧ Rep p' d.compact := by
  obtain ⟨p₁, hrun, hrep⟩ := repack_rep d.packOrder (h.weaken _) d.packed_packOrder
    (fun _ => d.packOrder_mem) (by rw [packOrder_sum]; omega) le_rfl
  have hfsp : (SlotDir.repackSlots d.packOrder pageSize d.slots).1 < 65536 := by
    rw [repackSlots_fst]
    simp only [pageSize]
    omega
  refine ⟨_, ?_, (hrep.setFsp hfsp).setDeletedBytes (n := 0) (by omega)⟩
  unfold compactPage
  rw [getNumSlots_eq, h.numSlots, checked_bind_ok, liveSlots_rep h d.slots rfl, checked_bind_ok]
  unfold SlotDir.packOrder at hrun
  simp only [hrun, checked_bind_ok, setFreeSpacePtr_eq, setDeletedBytes_eq]
  rfl

/-! ### Writing a value -/

/-- The writes of `writeValueAtSlot` once the gap is large enough. -/
theorem place_rep (h : Rep p d) (hw : d.WF) (hs : d.slots[i]? = some s) (hv : s.value = [])
    (hgap : bytes.length ≤ d.gap) : ∃ p', (do
        let currentFsp ← p.getFreeSpacePtr
        let newFsp ← subUsize currentFsp bytes.length
        let p ← p.write newFsp bytes
        let p ← p.setFreeSpacePtr newFsp
        let p ← p.writeU16 (headerStart + i * slotMetadataSize) newFsp
        p.writeU16 (headerStart + i * slotMetadataSize + offsetNumBytes) bytes.length) = .ok p' ∧
      Rep p' (d.place i bytes) := by
  have hhdr := hw.header_le
  have hfsp := hw.fsp_le
  unfold SlotDir.gap at hgap
  obtain ⟨-, hidx, hcell⟩ := h.index_lt hs
  simp only [headerStart, heapPageFixedMetadataSize] at hidx
  have hend : d.fsp - bytes.length + bytes.length ≤ pageSize := by omega
  have hlt : d.fsp - bytes.length < 65536 := by
    simp only [pageSize] at hfsp
    omega
  have hdata := h.putData hend (by omega) (fun j t _ ht htv => by
    have := (hw.inside t (mem_of_getElem? ht) htv).1
    omega)
  have hfsp' := hdata.setFsp hlt
  have hoff := hfsp'.putOffset (i := i) hs (Or.inr hv) (d.fsp - bytes.length) (by omega)
  have hlen := hoff.putLength (o := d.fsp - bytes.length) (v := bytes) hs
    (by simp only [pageSize] at hfsp; omega)
    (fun _ => ⟨by show d.headerSize ≤ _; omega, hend, cell_putCell_same _ _ hlt, by
      rw [slice_putCell _ _ (by omega), slice_putCell _ _ (by omega)]
      exact slice_put_same p _ _ rfl⟩) hcell
  refine ⟨_, ?_, hlen⟩
  rw [getFreeSpacePtr_eq, h.fsp, checked_bind_ok, subUsize_of_le (by omega), checked_bind_ok,
    write_ok hend, checked_bind_ok, setFreeSpacePtr_eq, checked_bind_ok,
    writeU16_cell (k := 4 + 2 * i) _ (by omega) (by
      simp only [headerStart, heapPageFixedMetadataSize, slotMetadataSize]; omega),
    checked_bind_ok,
    writeU16_cell (k := 5 + 2 * i) _ hcell (by
      simp only [headerStart, heapPageFixedMetadataSize, slotMetadataSize, offsetNumBytes]; omega)]

theorem writeValueAtSlot_rep (h : Rep p d) (hw : d.WF) (bytes : List UInt8)
    (hv : d.values[i]? = some []) (hroom : bytes.length ≤ d.freeSpace) :
    ∃ p', p.writeValueAtSlot (headerStart + i * slotMetadataSize) bytes = .ok p' ∧
      Rep p' (d.writeAt i bytes) := by
  unfold writeValueAtSlot
  rw [getFreeSpacePtr_eq, getHeaderSize_rep h, writeAt_eq]
  simp only [checked_bind_ok, gap_rep h hw.header_le]
  by_cases hgap : bytes.length > d.gap
  · rw [if_pos hgap, if_pos hgap]
    obtain ⟨p₁, hrun, hrep⟩ := compactPage_rep h hw.fits
    rw [← compact_values] at hv
    obtain ⟨s, hs, hsv⟩ := exists_slot_of_values hv
    rw [hrun, checked_bind_ok]
    exact place_rep hrep (compact_wf hw) hs hsv (by rw [compact_gap hw]; exact hroom)
  · rw [if_neg hgap, if_neg hgap]
    obtain ⟨s, hs, hsv⟩ := exists_slot_of_values hv
    exact place_rep h hw hs hsv (by omega)

/-! ### Adding -/

/-- The writes of `addValue` that make room for a new slot. -/
theorem grow_rep (h : Rep p d) (hw : d.WF) (hgap : slotMetadataSize ≤ d.gap) : ∃ p', (do
        let (_, p) ← p.incrementNumSlots
        p.write (headerStart + d.slots.length * slotMetadataSize)
          (List.replicate slotMetadataSize 0)) = .ok p' ∧ Rep p' d.grow := by
  have hfsp := hw.fsp_le
  have hle := hw.header_le
  unfold SlotDir.gap at hgap
  have hend : headerStart + d.slots.length * slotMetadataSize +
      (List.replicate slotMetadataSize (0 : UInt8)).length ≤ pageSize := by
    rw [length_replicate]
    unfold SlotDir.headerSize at hgap hle
    omega
  have hlen := hw.length_le
  refine ⟨(p.putCell 0 (d.slots.length + 1) (by decide)).put _ _ hend, ?_, ?_⟩
  · unfold incrementNumSlots
    rw [getNumSlots_eq, h.numSlots, checked_bind_ok, addU16_of_lt (by omega), checked_bind_ok,
      setNumSlots_eq]
    simp only [checked_bind_ok]
    exact write_ok hend
  · have hstart : headerStart + d.slots.length * slotMetadataSize =
        pageFixedHeaderLen + 2 * (4 + 2 * d.slots.length) := by
      simp only [headerStart, heapPageFixedMetadataSize, slotMetadataSize]
      omega
    have hhdr : d.grow.headerSize = d.headerSize + slotMetadataSize := by
      unfold SlotDir.headerSize SlotDir.grow
      rw [length_append, length_singleton, add_mul, one_mul, Nat.add_assoc]
    have hold : ∀ k, k ≠ 0 → k < 4 + 2 * d.slots.length →
        ((p.putCell 0 (d.slots.length + 1) (by decide)).put _ _ hend).cell k = p.cell k := by
      intro k h0 hk
      rw [cell_put _ _ _ (by omega), cell_putCell_ne _ _ h0]
    have hget : ∀ (i : ℕ) (s : Slot), d.grow.slots[i]? = some s → s.value ≠ [] →
        d.slots[i]? = some s ∧ i < d.slots.length := by
      intro i s hi hv
      unfold SlotDir.grow at hi
      rw [getElem?_append] at hi
      split_ifs at hi with hlt
      · exact ⟨hi, hlt⟩
      · rw [mem_singleton.mp (mem_of_getElem? hi)] at hv
        exact absurd rfl hv
    -- the live values lie above the free space pointer, so above the grown header
    have habove : ∀ s ∈ d.slots, s.value ≠ [] → d.headerSize + slotMetadataSize ≤ s.offset := by
      intro s hs hv
      have := (hw.inside s hs hv).1
      omega
    refine ⟨?_, ?_, ?_, ?_, ?_, ?_, ?_, ?_, ?_, ?_⟩
    · rw [getPageId_put _ _ _ (by omega), getPageId_putCell]
      exact h.pageId
    · rw [cell_put _ _ _ (by omega), cell_putCell_same _ _ (by omega)]
      unfold SlotDir.grow
      simp
    · rw [hold 1 (by omega) (by omega)]
      exact h.fsp
    · rw [hold 2 (by omega) (by omega)]
      exact h.deletedBytes
    · rw [hold 3 (by omega) (by omega)]
      exact h.deletedSlots
    · rw [hhdr]
      omega
    · intro i s hi
      unfold SlotDir.grow at hi
      rw [getElem?_append] at hi
      split_ifs at hi with hlt
      · rw [hold _ (by omega) (by omega)]
        exact h.length i s hi
      · have hi0 : i = d.slots.length := by
          obtain ⟨hlt', -⟩ := List.getElem?_eq_some_iff.mp hi
          rw [length_singleton] at hlt'
          omega
        rw [mem_singleton.mp (mem_of_getElem? hi), hi0]
        unfold cell
        have hz : slice ((p.putCell 0 (d.slots.length + 1) (by decide)).put _ _ hend).data
            (pageFixedHeaderLen + 2 * (5 + 2 * d.slots.length))
            (pageFixedHeaderLen + 2 * (5 + 2 * d.slots.length) + 2) = List.replicate 2 0 := by
          apply ext_getElem?
          intro j
          rw [slice_getElem?, put_getElem?, getElem?_replicate, getElem?_replicate,
            length_replicate]
          have h4 : slotMetadataSize = 4 := rfl
          by_cases hj : j < 2
          · rw [if_pos (by omega), if_pos (by omega), if_pos (by omega), if_pos hj]
          · rw [if_neg (by omega), if_neg hj]
        rw [hz]
        rfl
    · intro i s _ hi hv
      obtain ⟨hi', -⟩ := hget i s hi hv
      rw [hhdr]
      exact ⟨habove s (mem_of_getElem? hi') hv, (h.above i s not_mem_nil hi' hv).2⟩
    · intro i s _ hi hv
      obtain ⟨hi', hlt⟩ := hget i s hi hv
      rw [hold _ (by omega) (by omega)]
      exact h.offset i s not_mem_nil hi' hv
    · intro i s _ hi hv
      obtain ⟨hi', -⟩ := hget i s hi hv
      have hab := habove s (mem_of_getElem? hi') hv
      have h16 : pageFixedHeaderLen + 2 ≤ d.headerSize := by
        unfold SlotDir.headerSize
        simp only [headerStart, heapPageFixedMetadataSize]
        omega
      rw [slice_put_disjoint _ _ _ (Or.inr (by
        rw [length_replicate]; unfold SlotDir.headerSize at hab; omega)),
        slice_putCell _ _ (by omega)]
      exact h.value i s not_mem_nil hi' hv

/-- The same answer, with a page that spells the directory. -/
def SameAnswer {α : Type} (a : α × Page) (b : α × SlotDir) : Prop := a.1 = b.1 ∧ Rep a.2 b.2

theorem isNewSlot_iff (d : SlotDir) :
    headerStart + d.firstFree * slotMetadataSize ≥ d.headerSize ↔ d.firstFree = d.slots.length := by
  have := d.firstFree_le
  unfold SlotDir.headerSize
  simp only [slotMetadataSize]
  omega

/-- The page finds no room exactly when the directory has none. -/
theorem lacksRoom_rep (h : Rep p d) (hw : d.WF) (bytes : List UInt8) :
    p.lacksRoom (decide (d.firstFree = d.slots.length)) bytes = .ok (decide (¬ d.Room bytes)) := by
  have hle := hw.header_le
  unfold lacksRoom
  rw [getFreeSpacePtr_eq, getHeaderSize_rep h, getFreeSpace_rep h hle]
  simp only [checked_bind_ok, gap_rep h hle, decide_eq_true_eq]
  unfold SlotDir.Room
  split_ifs with h1 h2
  · have : ¬ (slotMetadataSize ≤ d.gap ∧ bytes.length + slotMetadataSize < d.freeSpace) := by omega
    simp only [this, not_false_eq_true, decide_true]
    rfl
  · have : bytes.length + slotMetadataSize ≥ d.freeSpace ↔
        ¬ (slotMetadataSize ≤ d.gap ∧ bytes.length + slotMetadataSize < d.freeSpace) := by omega
    simp only [this]
    rfl
  · have : bytes.length ≥ d.freeSpace ↔ ¬ bytes.length < d.freeSpace := by omega
    simp only [this]
    rfl

theorem claimSlot_rep (h : Rep p d) (hw : d.WF) (hr : d.Room bytes)
    (hdel : d.firstFree ≠ d.slots.length → d.deletedSlots ≠ 0) :
    ∃ p', p.claimSlot (decide (d.firstFree = d.slots.length))
        (headerStart + d.firstFree * slotMetadataSize) = .ok p' ∧ Rep p' d.addTarget := by
  unfold claimSlot SlotDir.addTarget
  simp only [decide_eq_true_eq]
  by_cases h1 : d.firstFree = d.slots.length
  · have hgap : slotMetadataSize ≤ d.gap := by
      unfold SlotDir.Room at hr
      rw [if_pos h1] at hr
      exact hr.1
    rw [if_pos h1, if_pos h1, h1]
    exact grow_rep h hw hgap
  · have hlt := h.deletedSlots ▸ p.cell_lt 3
    have hpos := hdel h1
    rw [if_neg h1, if_neg h1, getDeletedSlotCount_eq, h.deletedSlots, checked_bind_ok,
      subUsize_of_le (by omega), checked_bind_ok, setDeletedSlotCount_eq]
    exact ⟨_, rfl, h.setDeletedSlots (by omega)⟩

theorem addValue_rep (h : Rep p d) (hw : d.WF) (bytes : List UInt8) :
    Agree SameAnswer (p.addValue bytes) (d.add bytes) := by
  unfold addValue
  rw [findNextFreeSlot_rep h, getHeaderSize_rep h]
  simp only [checked_bind_ok, isNewSlot_iff, lacksRoom_rep h hw bytes]
  by_cases hr : d.Room bytes
  · simp only [hr, not_true_eq_false, decide_false, Bool.false_eq_true, if_false]
    rw [add_room hr]
    by_cases hdel : d.firstFree ≠ d.slots.length ∧ d.deletedSlots = 0
    · -- the one panic: a reused slot that the counter does not know of
      rw [if_pos hdel]
      have hrun : p.claimSlot (decide (d.firstFree = d.slots.length))
          (headerStart + d.firstFree * slotMetadataSize) = .error .overflow := by
        unfold claimSlot
        simp only [hdel.1, decide_false, Bool.false_eq_true, if_false]
        rw [getDeletedSlotCount_eq, h.deletedSlots, hdel.2]
        rfl
      rw [hrun]
      exact .error _
    · rw [if_neg hdel]
      obtain ⟨p₁, hrun, hrep⟩ := claimSlot_rep h hw hr (fun h1 h0 => hdel ⟨h1, h0⟩)
      obtain ⟨p', hrun', hrep'⟩ := writeValueAtSlot_rep hrep (addTarget_wf hw hr) bytes
        d.addTarget_getElem? (addTarget_freeSpace hr).le
      have hslot : (headerStart + d.firstFree * slotMetadataSize - pageFixedHeaderLen -
          heapPageFixedMetadataSize) / slotMetadataSize = d.firstFree := by
        simp only [headerStart, slotMetadataSize, heapPageFixedMetadataSize]
        omega
      rw [hrun, checked_bind_ok, subUsize_of_le (by simp only [headerStart]; omega),
        checked_bind_ok, subUsize_of_le (by simp only [headerStart]; omega), checked_bind_ok,
        hrun', checked_bind_ok, hslot]
      exact .ok ⟨rfl, hrep'⟩
  · simp only [hr, not_false_eq_true, decide_true, if_true]
    rw [add_noRoom hr]
    exact .ok ⟨rfl, h⟩

/-! ### Lookup -/

theorem getValue_rep (h : Rep p d) (slotId : SlotId) : p.getValue slotId = .ok (d.get slotId) := by
  unfold getValue SlotDir.get
  cases hs : d.slots[slotId.toNat]? with
  | none =>
    rw [getSlotMetadataOffset_none h hs]
    rfl
  | some s =>
    rw [getSlotMetadataOffset_some h hs, checked_bind_ok, if_neg (by omega), Int.toNat_natCast]
    simp only [readOffset_rep h hs, readLength_rep h hs, checked_bind_ok]
    by_cases hv : s.value = []
    · rw [if_pos hv, if_pos (Or.inl (by rw [hv]; rfl))]
      rfl
    · have hab := h.above _ s not_mem_nil hs hv
      have hlen : s.value.length ≠ 0 := fun hl => hv (length_eq_zero_iff.mp hl)
      rw [if_neg hv, h.offset _ s not_mem_nil hs hv, if_neg (by omega),
        read_ok (by omega) hab.2, checked_bind_ok, h.value _ s not_mem_nil hs hv]
      rfl

theorem iterNext_rep_dead (h : Rep p d) (hw : d.WF) (hi : d.slots[i]? = some s) (hv : s.value = []) :
    p.iterNext d.slots.length i = p.iterNext d.slots.length (i + 1) := by
  obtain ⟨hlt, -, -⟩ := h.index_lt hi
  have hget : d.get (UInt16.ofNat i) = none := by
    unfold SlotDir.get
    rw [toNat_slotId hw hlt.le, hi]
    exact if_pos hv
  conv_lhs => rw [iterNext]
  simp only [if_pos hlt, getValue_rep h, checked_bind_ok, hget]

theorem iterNext_rep_live (h : Rep p d) (hw : d.WF) (hi : d.slots[i]? = some s) (hv : s.value ≠ []) :
    p.iterNext d.slots.length i = .ok (some (s.value, UInt16.ofNat i), i + 1) := by
  obtain ⟨hlt, -, -⟩ := h.index_lt hi
  have hget : d.get (UInt16.ofNat i) = some s.value := by
    unfold SlotDir.get
    rw [toNat_slotId hw hlt.le, hi]
    exact if_neg hv
  rw [iterNext]
  simp only [if_pos hlt, getValue_rep h, checked_bind_ok, hget]
  rfl

theorem iterCollect_rep (h : Rep p d) (hw : d.WF) (slots : List Slot) {fuel : ℕ}
    (hs : d.slots.drop i = slots) (hfuel : slots.length < fuel) :
    p.iterCollect d.slots.length fuel i = .ok (SlotDir.iterFrom slots i) := by
  induction slots generalizing i fuel with
  | nil =>
    obtain ⟨f, rfl⟩ : ∃ f, fuel = f + 1 := ⟨fuel - 1, by omega⟩
    have hlen : d.slots.length ≤ i := drop_eq_nil_iff.mp hs
    rw [iterCollect, iterNext, if_neg (by omega)]
    rfl
  | cons s slots ih =>
    obtain ⟨hget, hdrop⟩ := getElem?_of_drop hs
    rw [length_cons] at hfuel
    obtain ⟨f, rfl⟩ : ∃ f, fuel = f + 1 := ⟨fuel - 1, by omega⟩
    unfold SlotDir.iterFrom
    by_cases hv : s.value = []
    · have hskip : p.iterCollect d.slots.length (f + 1) i =
          p.iterCollect d.slots.length (f + 1) (i + 1) := by
        simp only [iterCollect, iterNext_rep_dead h hw hget hv]
      rw [if_pos hv, hskip]
      exact ih hdrop (by omega)
    · rw [if_neg hv, iterCollect, iterNext_rep_live h hw hget hv, checked_bind_ok]
      simp only [ih hdrop (by omega : slots.length < f), checked_bind_ok]
      rfl

theorem iter_rep (h : Rep p d) (hw : d.WF) : p.iter = .ok d.iter := by
  unfold iter
  rw [getNumSlots_eq, h.numSlots, checked_bind_ok]
  exact iterCollect_rep h hw d.slots rfl (by omega)

/-! ### Deleting and updating -/

theorem reclaim_rep (h : Rep p { d with slots := d.slots.set i ⟨s.offset, []⟩ })
    (hend : s.offset + s.value.length < 65536) (hsum : d.deletedBytes + s.value.length < 65536) :
    ∃ p', p.reclaim s.offset s.value.length = .ok p' ∧ Rep p' (d.release i s) := by
  unfold reclaim SlotDir.release
  rw [getFreeSpacePtr_eq, h.fsp, checked_bind_ok]
  by_cases hlow : s.offset = d.fsp
  · rw [if_pos hlow, setFreeSpacePtr_eq]
    simp only [if_pos hlow]
    exact ⟨_, rfl, h.setFsp hend⟩
  · rw [if_neg hlow, getDeletedBytes_eq, h.deletedBytes, checked_bind_ok, addU16_of_lt hsum,
      checked_bind_ok, setDeletedBytes_eq]
    simp only [if_neg hlow]
    exact ⟨_, rfl, h.setDeletedBytes hsum⟩

/-- Freeing the value of slot `i`: its bytes are zeroed, its length is set to zero and the bytes
go back to the free space. -/
theorem release_rep (h : Rep p d) (hw : d.WF) (hs : d.slots[i]? = some s) (hv : s.value ≠ []) :
    ∃ p₁ p₂ p', p.write s.offset (List.replicate s.value.length 0) = .ok p₁ ∧
      p₁.writeU16 (headerStart + i * slotMetadataSize + offsetNumBytes) 0 = .ok p₂ ∧
      p₂.reclaim s.offset s.value.length = .ok p' ∧ Rep p' (d.release i s) := by
  have hmem := mem_of_getElem? hs
  have hin := hw.inside s hmem hv
  have hhdr := hw.header_le
  have hacc := hw.account
  obtain ⟨-, -, hcell⟩ := h.index_lt hs
  have hlive : s.value.length ≤ d.liveBytes := by
    unfold SlotDir.liveBytes SlotDir.values
    rw [map_map]
    exact single_le_sum (fun _ _ => Nat.zero_le _) _ (mem_map_of_mem hmem)
  have hend : s.offset + (List.replicate s.value.length (0 : UInt8)).length ≤ pageSize := by
    rw [length_replicate]
    exact hin.2
  -- until its length is zero the slot is moving: its bytes are no longer its value
  have hdata := (h.weaken [i]).putData hend (by omega) (fun j t hj ht htv => by
    rw [length_replicate]
    rcases hw.apart j i t s (by simpa using hj) ht hs with h1 | h1 | h1 | h1
    · exact absurd h1 htv
    · exact absurd h1 hv
    · exact Or.inl h1
    · exact Or.inr h1)
  have hzero := hdata.putLength (o := s.offset) (v := []) hs (by decide)
    (fun hne => absurd rfl hne) hcell
  have hrep : Rep ((p.put s.offset (List.replicate s.value.length 0) hend).putCell (5 + 2 * i) 0 hcell)
      { d with slots := d.slots.set i ⟨s.offset, []⟩ } := by
    refine hzero.strengthen ?_
    intro j t hj ht htv
    rcases getElem?_set_cases ht with ⟨-, ht⟩ | ⟨hji, -⟩
    · rw [ht] at htv
      exact absurd rfl htv
    · exact absurd (by simpa using hj) hji
  have h1 : p.write s.offset (List.replicate s.value.length 0) = .ok (p.put _ _ hend) := write_ok hend
  have h2 : (p.put s.offset (List.replicate s.value.length 0) hend).writeU16
      (headerStart + i * slotMetadataSize + offsetNumBytes) 0 = .ok (putCell _ (5 + 2 * i) 0 hcell) :=
    writeU16_cell 0 hcell (by
      simp only [headerStart, heapPageFixedMetadataSize, slotMetadataSize, offsetNumBytes]; omega)
  obtain ⟨p', h3, hrep'⟩ := reclaim_rep hrep (by
    simp only [pageSize] at hacc hin
    omega) (by
    simp only [pageSize] at hacc
    omega)
  exact ⟨_, _, p', h1, h2, h3, hrep'⟩

theorem deleteValue_rep (h : Rep p d) (hw : d.WF) (slotId : SlotId) :
    Agree SameAnswer (p.deleteValue slotId) (.ok (d.delete slotId)) := by
  unfold deleteValue SlotDir.delete
  cases hs : d.slots[slotId.toNat]? with
  | none =>
    rw [getSlotMetadataOffset_none h hs]
    exact .ok ⟨rfl, h⟩
  | some s =>
    rw [getSlotMetadataOffset_some h hs, checked_bind_ok, if_neg (by omega), Int.toNat_natCast]
    simp only [readOffset_rep h hs, readLength_rep h hs, checked_bind_ok]
    by_cases hv : s.value = []
    · rw [if_pos hv, if_pos (Or.inl (by rw [hv]; rfl))]
      exact .ok ⟨rfl, h⟩
    · have hab := h.above _ s not_mem_nil hs hv
      have hlen : s.value.length ≠ 0 := fun hl => hv (length_eq_zero_iff.mp hl)
      obtain ⟨p₁, p₂, p₃, h1, h2, h3, hrep⟩ := release_rep h hw hs hv
      have hcount : d.deletedSlots + 1 < 65536 := by
        have := hw.deleted_le
        have hz : d.zeroSlots ≤ d.slots.length := by
          rw [← values_length]
          exact countP_le_length
        have := hw.length_le
        omega
      have hdel : p₃.cell 3 = d.deletedSlots := hrep.deletedSlots
      rw [if_neg hv, h.offset _ s not_mem_nil hs hv, if_neg (by omega)]
      simp only [h1, h2, h3, checked_bind_ok, getDeletedSlotCount_eq, hdel, addU16_of_lt hcount,
        setDeletedSlotCount_eq]
      exact .ok ⟨rfl, hrep.setDeletedSlots hcount⟩

/-- The writes of `updateValue` for a value that is not longer than the old one. -/
theorem shrink_rep (h : Rep p d) (hw : d.WF) (hs : d.slots[i]? = some s) (hv : s.value ≠ [])
    (hlen : bytes.length ≤ s.value.length) :
    ∃ p₁ p₂ p', p.write s.offset (List.replicate s.value.length 0) = .ok p₁ ∧
      p₁.write s.offset bytes = .ok p₂ ∧
      p₂.writeU16 (headerStart + i * slotMetadataSize + offsetNumBytes) bytes.length = .ok p' ∧
      Rep p' { d with slots := d.slots.set i ⟨s.offset, bytes⟩ } := by
  have hin := hw.inside s (mem_of_getElem? hs) hv
  have hhdr := hw.header_le
  have hsize : pageSize = 4096 := rfl
  obtain ⟨-, hidx, hcell⟩ := h.index_lt hs
  have hend : s.offset + (List.replicate s.value.length (0 : UInt8)).length ≤ pageSize := by
    rw [length_replicate]
    exact hin.2
  have hend' : s.offset + bytes.length ≤ pageSize := by omega
  have hapart : ∀ (j : ℕ) (t : Slot), j ∉ [i] → d.slots[j]? = some t → t.value ≠ [] →
      t.offset + t.value.length ≤ s.offset ∨ s.offset + s.value.length ≤ t.offset := by
    intro j t hj ht htv
    rcases hw.apart j i t s (by simpa using hj) ht hs with h1 | h1 | h1 | h1
    · exact absurd h1 htv
    · exact absurd h1 hv
    · exact Or.inl h1
    · exact Or.inr h1
  have hdata := (h.weaken [i]).putData hend (by omega) (fun j t hj ht htv => by
    rw [length_replicate]
    exact hapart j t hj ht htv)
  have hdata' := hdata.putData hend' (by omega) (fun j t hj ht htv => by
    have := hapart j t hj ht htv
    omega)
  have hplace : bytes ≠ [] → d.headerSize ≤ s.offset ∧ s.offset + bytes.length ≤ pageSize ∧
      ((p.put s.offset _ hend).put s.offset bytes hend').cell (4 + 2 * i) = s.offset ∧
      slice ((p.put s.offset _ hend).put s.offset bytes hend').data s.offset
        (s.offset + bytes.length) = bytes := by
    intro _
    simp only [headerStart, heapPageFixedMetadataSize] at hidx
    refine ⟨by omega, hend', ?_, slice_put_same _ _ _ rfl⟩
    rw [cell_put _ _ _ (by omega), cell_put _ _ _ (by omega)]
    exact h.offset i s not_mem_nil hs hv
  have hset := hdata'.putLength (o := s.offset) (v := bytes) hs (by omega) hplace hcell
  refine ⟨_, _, _, write_ok hend, write_ok hend', writeU16_cell _ hcell (by
      simp only [headerStart, heapPageFixedMetadataSize, slotMetadataSize, offsetNumBytes]; omega),
    hset.strengthen ?_⟩
  intro j t hj ht htv
  obtain rfl : j = i := by simpa using hj
  have ht' : t = ⟨s.offset, bytes⟩ := by
    rcases getElem?_set_cases ht with ⟨-, ht⟩ | ⟨hne, -⟩
    · exact ht
    · exact absurd rfl hne
  subst ht'
  obtain ⟨ha, hb, hc, hd⟩ := hplace htv
  have hhdr' : SlotDir.headerSize { d with slots := d.slots.set j ⟨s.offset, bytes⟩ } =
      d.headerSize := by
    unfold SlotDir.headerSize
    rw [length_set]
  simp only [headerStart, heapPageFixedMetadataSize] at hidx
  refine ⟨by rw [hhdr']; exact ⟨ha, hb⟩, ?_, ?_⟩
  · rw [cell_putCell_ne _ _ (by omega)]
    exact hc
  · exact (slice_putCell _ _ (by show _ ≤ s.offset; omega)).trans hd

theorem updateValue_rep (h : Rep p d) (hw : d.WF) (slotId : SlotId) (bytes : List UInt8) :
    Agree SameAnswer (p.updateValue slotId bytes) (.ok (d.update slotId bytes)) := by
  unfold updateValue SlotDir.update
  cases hs : d.slots[slotId.toNat]? with
  | none =>
    rw [getSlotMetadataOffset_none h hs]
    exact .ok ⟨rfl, h⟩
  | some s =>
    rw [getSlotMetadataOffset_some h hs, checked_bind_ok, if_neg (by omega), Int.toNat_natCast]
    simp only [readOffset_rep h hs, readLength_rep h hs, checked_bind_ok,
      getFreeSpace_rep h hw.header_le]
    by_cases hv : s.value = []
    · rw [if_pos hv, if_pos (Or.inl (by rw [hv]; rfl))]
      exact .ok ⟨rfl, h⟩
    · have hab := h.above _ s not_mem_nil hs hv
      have hlen : s.value.length ≠ 0 := fun hl => hv (length_eq_zero_iff.mp hl)
      rw [if_neg hv, h.offset _ s not_mem_nil hs hv, if_neg (by omega)]
      by_cases hshort : bytes.length ≤ s.value.length
      · obtain ⟨p₁, p₂, p₃, h1, h2, h3, hrep⟩ := shrink_rep h hw hs hv hshort
        have hacc := (shrink_wf hw hs hv hshort).account
        have hsum : d.deletedBytes + (s.value.length - bytes.length) < 65536 := by
          simp only [pageSize] at hacc
          omega
        rw [if_pos hshort, if_pos hshort]
        simp only [h1, h2, h3, checked_bind_ok, subUsize_of_le hshort]
        by_cases hwaste : s.value.length - bytes.length > 0
        · rw [if_pos hwaste, getDeletedBytes_eq, hrep.deletedBytes]
          simp only [checked_bind_ok, addU16_of_lt hsum, setDeletedBytes_eq]
          exact .ok ⟨rfl, hrep.setDeletedBytes hsum⟩
        · have hz : s.value.length - bytes.length = 0 := by omega
          rw [if_neg hwaste, hz]
          exact .ok ⟨rfl, hrep⟩
      · rw [if_neg hshort, if_neg hshort]
        by_cases hroom : bytes.length ≥ d.freeSpace + s.value.length
        · rw [if_pos hroom, if_pos hroom]
          exact .ok ⟨rfl, h⟩
        · obtain ⟨p₁, p₂, p₃, h1, h2, h3, hrep⟩ := release_rep h hw hs hv
          have hlt : slotId.toNat < d.values.length := by
            rw [values_length]
            exact (h.index_lt hs).1
          obtain ⟨p', h4, hrep'⟩ := writeValueAtSlot_rep (i := slotId.toNat) hrep
            (release_wf hw hs hv) bytes
            (by rw [release_values, getElem?_set_self hlt])
            (by rw [release_freeSpace hw hs hv]; omega)
          rw [if_neg hroom, if_neg hroom]
          simp only [h1, h2, h3, h4, checked_bind_ok]
          exact .ok ⟨rfl, hrep'⟩

/-! ### A new page -/

theorem initHeapPage_new (pageId : PageId) :
    ∃ p, (new pageId).initHeapPage = .ok p ∧ Rep p (SlotDir.empty pageId) := by
  have hcell : ∀ k, k < 4 → (new pageId).cell k = 0 := by
    intro k hk
    unfold cell
    have h4 : pageIdSize ≤ pageFixedHeaderLen := by decide
    have h5 : pageFixedHeaderLen + 8 ≤ pageSize := by decide
    rw [new_slice pageId (by omega) (by omega), readLe_replicate_zero]
  have hzero : Rep (new pageId) ⟨pageId, [], 0, 0, 0⟩ :=
    ⟨new_getPageId pageId, hcell 0 (by omega), hcell 1 (by omega), hcell 2 (by omega),
      hcell 3 (by omega), by unfold SlotDir.headerSize; exact (by decide : headerStart ≤ pageSize),
      by simp, by simp, by simp, by simp⟩
  refine ⟨_, setFreeSpacePtr_eq _ _, hzero.setFsp (by decide)⟩

end CrustyDB.Page
