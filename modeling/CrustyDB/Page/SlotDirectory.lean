import CrustyDB.Page.HeapPage

/-! # The slot directory of a heap page

`SlotDir` is a heap page without its bytes: the list of slots, each with the offset and the
value it points at, and the four counters of the page header.  The operations repeat those of
`HeapPage.lean` on this view; the one outcome they cannot turn into a value is the decrement of
the deleted-slot counter, so they return in `Checked` as well.

`SlotDir.WF` is the layout invariant: the header ends below the free space pointer, the live
values lie above it and apart from each other, and the bytes of the data area are accounted
for.  Every operation keeps it and changes the value of one slot only: `Added`, `Deleted` and
`Updated` say so for a successful call (`add_some`, `delete_some`, `update_some`), and a call
that answers `none` returns the directory as it was. -/

namespace CrustyDB

open List

/-- A slot: where its value lies and the value; the empty value marks a deleted slot. -/
structure Slot where
  offset : ℕ
  value : List UInt8
deriving DecidableEq, Repr

/-- Two slots do not share a byte. -/
def Slot.Apart (s t : Slot) : Prop :=
  s.value = [] ∨ t.value = [] ∨ s.offset + s.value.length ≤ t.offset ∨
    t.offset + t.value.length ≤ s.offset

theorem Slot.Apart.symm {s t : Slot} (h : s.Apart t) : t.Apart s := by
  unfold Slot.Apart at h ⊢
  tauto

/-- A heap page as its slot directory. -/
structure SlotDir where
  pageId : PageId
  slots : List Slot
  fsp : ℕ
  deletedBytes : ℕ
  deletedSlots : ℕ
deriving DecidableEq, Repr

namespace SlotDir

/-! ### Operations -/

/-- The values of the slots, in slot order. -/
def values (d : SlotDir) : List (List UInt8) := d.slots.map Slot.value

def headerSize (d : SlotDir) : ℕ := Page.headerStart + d.slots.length * slotMetadataSize

/-- The bytes between the header and the lowest value. -/
def gap (d : SlotDir) : ℕ := d.fsp - d.headerSize

def freeSpace (d : SlotDir) : ℕ := d.gap + d.deletedBytes

/-- The number of bytes of the live values. -/
def liveBytes (d : SlotDir) : ℕ := (d.values.map List.length).sum

/-- The number of slots of length zero. -/
def zeroSlots (d : SlotDir) : ℕ := d.values.countP (fun v => v.isEmpty)

/-- The lowest slot of length zero, or the number of slots. -/
def firstFree (d : SlotDir) : ℕ := d.values.findIdx (fun v => v.isEmpty)

/-- An initialised heap page. -/
def empty (pageId : PageId) : SlotDir := ⟨pageId, [], pageSize, 0, 0⟩

/-- The live slots with their positions, counted from `i`. -/
def liveFrom : List Slot → ℕ → List (ℕ × List UInt8)
  | [], _ => []
  | s :: slots, i =>
    if s.value = [] then liveFrom slots (i + 1) else (i, s.value) :: liveFrom slots (i + 1)

/-- Place the listed values one below the other under `fsp`. -/
def repackSlots : List (ℕ × List UInt8) → ℕ → List Slot → ℕ × List Slot
  | [], fsp, slots => (fsp, slots)
  | (i, v) :: rest, fsp, slots =>
    repackSlots rest (fsp - v.length)
      (slots.modify i (fun s => { s with offset := fsp - v.length }))

/-- The order in which compaction places the live values. -/
def packOrder (d : SlotDir) : List (ℕ × List UInt8) :=
  (liveFrom d.slots 0).insertionSort (fun a b => a.2.length ≤ b.2.length)

def compact (d : SlotDir) : SlotDir :=
  { d with
    fsp := (repackSlots d.packOrder pageSize d.slots).1
    slots := (repackSlots d.packOrder pageSize d.slots).2
    deletedBytes := 0 }

/-- Put `bytes` into slot `i`, compacting first when the gap is too small. -/
def writeAt (d : SlotDir) (i : ℕ) (bytes : List UInt8) : SlotDir :=
  let d := if bytes.length > d.gap then d.compact else d
  { d with
    fsp := d.fsp - bytes.length
    slots := d.slots.set i ⟨d.fsp - bytes.length, bytes⟩ }

/-- The directory with one more slot, zeroed. -/
def grow (d : SlotDir) : SlotDir := { d with slots := d.slots ++ [⟨0, []⟩] }

def add (d : SlotDir) (bytes : List UInt8) : Checked (Option SlotId × SlotDir) :=
  if d.firstFree = d.slots.length then
    if d.gap < slotMetadataSize ∨ bytes.length + slotMetadataSize ≥ d.freeSpace then .ok (none, d)
    else .ok (some (UInt16.ofNat d.slots.length), d.grow.writeAt d.slots.length bytes)
  else if bytes.length ≥ d.freeSpace then .ok (none, d)
  else if d.deletedSlots = 0 then .error .overflow
  else .ok (some (UInt16.ofNat d.firstFree),
    writeAt { d with deletedSlots := d.deletedSlots - 1 } d.firstFree bytes)

def get (d : SlotDir) (slotId : SlotId) : Option (List UInt8) :=
  match d.slots[slotId.toNat]? with
  | none => none
  | some s => if s.value = [] then none else some s.value

/-- Free the value of slot `i`, which is `s`. -/
def release (d : SlotDir) (i : ℕ) (s : Slot) : SlotDir :=
  { d with
    slots := d.slots.set i ⟨s.offset, []⟩
    fsp := if s.offset = d.fsp then s.offset + s.value.length else d.fsp
    deletedBytes :=
      if s.offset = d.fsp then d.deletedBytes else d.deletedBytes + s.value.length }

def delete (d : SlotDir) (slotId : SlotId) : Option Unit × SlotDir :=
  match d.slots[slotId.toNat]? with
  | none => (none, d)
  | some s =>
    if s.value = [] then (none, d)
    else (some (), { d.release slotId.toNat s with deletedSlots := d.deletedSlots + 1 })

def update (d : SlotDir) (slotId : SlotId) (bytes : List UInt8) : Option Unit × SlotDir :=
  match d.slots[slotId.toNat]? with
  | none => (none, d)
  | some s =>
    if s.value = [] then (none, d)
    else if bytes.length ≤ s.value.length then
      (some (), { d with
        slots := d.slots.set slotId.toNat ⟨s.offset, bytes⟩
        deletedBytes := d.deletedBytes + (s.value.length - bytes.length) })
    else if bytes.length ≥ d.freeSpace + s.value.length then (none, d)
    else (some (), (d.release slotId.toNat s).writeAt slotId.toNat bytes)

/-- The live values with their slots, counted from `i`. -/
def iterFrom : List Slot → ℕ → List (List UInt8 × SlotId)
  | [], _ => []
  | s :: slots, i =>
    if s.value = [] then iterFrom slots (i + 1)
    else (s.value, UInt16.ofNat i) :: iterFrom slots (i + 1)

def iter (d : SlotDir) : List (List UInt8 × SlotId) := iterFrom d.slots 0

/-! ### The layout invariant -/

/-- The layout of a heap page. -/
structure WF (d : SlotDir) : Prop where
  header_le : d.headerSize ≤ d.fsp
  fsp_le : d.fsp ≤ pageSize
  inside : ∀ s ∈ d.slots, s.value ≠ [] → d.fsp ≤ s.offset ∧ s.offset + s.value.length ≤ pageSize
  apart : ∀ (i j : ℕ) (s t : Slot), i ≠ j → d.slots[i]? = some s → d.slots[j]? = some t → s.Apart t
  account : d.fsp + d.liveBytes + d.deletedBytes = pageSize
  deleted_le : d.deletedSlots ≤ d.zeroSlots

variable {d : SlotDir}

theorem WF.fits (h : d.WF) : d.headerSize + d.liveBytes ≤ pageSize := by
  have hhdr := h.header_le
  have hacc := h.account
  omega

theorem empty_wf (pageId : PageId) : (empty pageId).WF := by
  refine ⟨by simp [empty, headerSize]; decide, le_rfl, by simp [empty], by simp [empty], ?_, ?_⟩
  · simp [empty, liveBytes, values]
  · simp [empty, zeroSlots]

/-! ### Compaction -/

theorem modify_offset_values (slots : List Slot) (i o : ℕ) :
    (slots.modify i (fun s => { s with offset := o })).map Slot.value = slots.map Slot.value := by
  apply ext_getElem?
  intro j
  rw [getElem?_map, getElem?_map, getElem?_modify]
  cases slots[j]? with
  | none => rfl
  | some s => by_cases h : i = j <;> simp [h]

theorem repackSlots_values (l : List (ℕ × List UInt8)) (fsp : ℕ) (slots : List Slot) :
    (repackSlots l fsp slots).2.map Slot.value = slots.map Slot.value := by
  induction l generalizing fsp slots with
  | nil => rfl
  | cons iv l ih =>
    obtain ⟨i, v⟩ := iv
    rw [repackSlots, ih, modify_offset_values]

theorem repackSlots_fst (l : List (ℕ × List UInt8)) (fsp : ℕ) (slots : List Slot) :
    (repackSlots l fsp slots).1 = fsp - (l.map (fun iv => iv.2.length)).sum := by
  induction l generalizing fsp slots with
  | nil => rfl
  | cons iv l ih =>
    obtain ⟨i, v⟩ := iv
    rw [repackSlots, ih]
    simp only [map_cons, sum_cons]
    omega

/-- The slots outside `l` are in place: above `fsp` and apart from each other. -/
structure Packed (l : List ℕ) (fsp : ℕ) (slots : List Slot) : Prop where
  inside : ∀ (i : ℕ) (s : Slot), i ∉ l → slots[i]? = some s → s.value ≠ [] →
    fsp ≤ s.offset ∧ s.offset + s.value.length ≤ pageSize
  apart : ∀ (i j : ℕ) (s t : Slot), i ∉ l → j ∉ l → i ≠ j → slots[i]? = some s →
    slots[j]? = some t → s.Apart t

theorem WF.packed (h : d.WF) : Packed [] d.fsp d.slots :=
  ⟨fun _ s _ hs => h.inside s (mem_of_getElem? hs), fun i j s t _ _ => h.apart i j s t⟩

variable {i j : ℕ} {slots : List Slot} {s t : Slot} {v : List UInt8}

/-- Placing one more value directly below the packed ones. -/
theorem Packed.place {l : List ℕ} {fsp : ℕ} (h : Packed (i :: l) fsp slots)
    (hs : slots[i]? = some s) (hlen : s.value.length ≤ fsp) (hfsp : fsp ≤ pageSize) :
    Packed l (fsp - s.value.length)
      (slots.modify i (fun s' => { s' with offset := fsp - s.value.length })) := by
  -- a slot other than `i` keeps its place, which was already above `fsp`
  have hother : ∀ (j : ℕ) (t : Slot), j ≠ i →
      (slots.modify i (fun s' => { s' with offset := fsp - s.value.length }))[j]? = some t →
      slots[j]? = some t := by
    intro j t hj ht
    rwa [getElem?_modify_ne _ _ (Ne.symm hj)] at ht
  have hself : ∀ t : Slot,
      (slots.modify i (fun s' => { s' with offset := fsp - s.value.length }))[i]? = some t →
      t = { s with offset := fsp - s.value.length } := by
    intro t ht
    rw [getElem?_modify_eq, hs] at ht
    exact (Option.some.inj ht).symm
  have hnew : ∀ (j : ℕ) (t : Slot), j ∉ l → j ≠ i → slots[j]? = some t →
      Slot.Apart { s with offset := fsp - s.value.length } t := by
    intro j t hj hji ht
    by_cases hv : t.value = []
    · exact Or.inr (Or.inl hv)
    · have := h.inside j t (by simp [hj, hji]) ht hv
      refine Or.inr (Or.inr (Or.inl ?_))
      show fsp - s.value.length + s.value.length ≤ t.offset
      omega
  constructor
  · intro j t hj ht hv
    by_cases hji : j = i
    · subst hji
      rw [hself t ht]
      show fsp - s.value.length ≤ fsp - s.value.length ∧
        fsp - s.value.length + s.value.length ≤ pageSize
      omega
    · have := h.inside j t (by simp [hj, hji]) (hother j t hji ht) hv
      omega
  · intro j k t u hj hk hjk ht hu
    by_cases hji : j = i
    · subst hji
      rw [hself t ht]
      exact hnew k u hk (Ne.symm hjk) (hother k u (Ne.symm hjk) hu)
    · by_cases hki : k = i
      · subst hki
        rw [hself u hu]
        exact (hnew j t hj hji (hother j t hji ht)).symm
      · exact h.apart j k t u (by simp [hj, hji]) (by simp [hk, hki]) hjk (hother j t hji ht)
          (hother k u hki hu)

theorem modify_offset_getElem?_value {o : ℕ} (h : ∃ s, slots[j]? = some s ∧ s.value = v) :
    ∃ s, (slots.modify i (fun s => { s with offset := o }))[j]? = some s ∧ s.value = v := by
  obtain ⟨s, hs, rfl⟩ := h
  rw [getElem?_modify, hs]
  by_cases hij : i = j <;> simp [hij]

theorem repackSlots_packed (l : List (ℕ × List UInt8)) {fsp : ℕ}
    (h : Packed (l.map Prod.fst) fsp slots)
    (hl : ∀ iv ∈ l, ∃ s, slots[iv.1]? = some s ∧ s.value = iv.2)
    (hsum : (l.map (fun iv => iv.2.length)).sum ≤ fsp) (hfsp : fsp ≤ pageSize) :
    Packed [] (repackSlots l fsp slots).1 (repackSlots l fsp slots).2 := by
  induction l generalizing fsp slots with
  | nil => exact h
  | cons iv l ih =>
    obtain ⟨i, v⟩ := iv
    simp only [map_cons, sum_cons] at hsum
    obtain ⟨s, hs, rfl⟩ := hl (i, v) mem_cons_self
    rw [repackSlots]
    refine ih (h.place hs (by omega) hfsp) ?_ (by omega) (by omega)
    intro jw hjw
    exact modify_offset_getElem?_value (hl jw (mem_cons_of_mem _ hjw))

theorem mem_liveFrom (slots : List Slot) (k i : ℕ) (v : List UInt8) :
    (i, v) ∈ liveFrom slots k ↔
      ∃ j s, i = k + j ∧ slots[j]? = some s ∧ s.value = v ∧ v ≠ [] := by
  induction slots generalizing k with
  | nil => simp [liveFrom]
  | cons s slots ih =>
    have hrest : (i, v) ∈ liveFrom slots (k + 1) ↔
        ∃ j t, i = k + (j + 1) ∧ slots[j]? = some t ∧ t.value = v ∧ v ≠ [] := by
      rw [ih]
      constructor
      · rintro ⟨j, t, rfl, h⟩
        exact ⟨j, t, by omega, h⟩
      · rintro ⟨j, t, rfl, h⟩
        exact ⟨j, t, by omega, h⟩
    unfold liveFrom
    constructor
    · intro h
      by_cases hs : s.value = []
      · rw [if_pos hs, hrest] at h
        obtain ⟨j, t, hij, ht⟩ := h
        exact ⟨j + 1, t, hij, by simpa using ht⟩
      · rw [if_neg hs, mem_cons] at h
        rcases h with h | h
        · cases h
          exact ⟨0, s, rfl, rfl, rfl, hs⟩
        · obtain ⟨j, t, hij, ht⟩ := hrest.mp h
          exact ⟨j + 1, t, hij, by simpa using ht⟩
    · rintro ⟨j, t, hij, ht, hv, hne⟩
      cases j with
      | zero =>
        rw [getElem?_cons_zero] at ht
        cases ht
        rw [if_neg (by rw [hv]; exact hne), mem_cons]
        exact Or.inl (by rw [hij, hv]; rfl)
      | succ j =>
        have hm := hrest.mpr ⟨j, t, hij, by simpa using ht, hv, hne⟩
        by_cases hs : s.value = []
        · rwa [if_pos hs]
        · rw [if_neg hs]
          exact mem_cons_of_mem _ hm

theorem liveFrom_sum (slots : List Slot) (k : ℕ) :
    ((liveFrom slots k).map (fun iv => iv.2.length)).sum =
      ((slots.map Slot.value).map List.length).sum := by
  induction slots generalizing k with
  | nil => rfl
  | cons s slots ih =>
    unfold liveFrom
    by_cases hs : s.value = []
    · rw [if_pos hs, ih]
      simp [hs]
    · rw [if_neg hs, map_cons, sum_cons, ih]
      simp

theorem packOrder_perm (d : SlotDir) : d.packOrder.Perm (liveFrom d.slots 0) :=
  perm_insertionSort _ _

theorem packOrder_sum (d : SlotDir) :
    (d.packOrder.map (fun iv => iv.2.length)).sum = d.liveBytes := by
  rw [(d.packOrder_perm.map _).sum_eq, liveFrom_sum]
  rfl

theorem packOrder_mem (d : SlotDir) {iv : ℕ × List UInt8} (h : iv ∈ d.packOrder) :
    ∃ s, d.slots[iv.1]? = some s ∧ s.value = iv.2 := by
  obtain ⟨j, s, hij, hs, hv, -⟩ := (mem_liveFrom _ _ _ _).mp (d.packOrder_perm.mem_iff.mp h)
  rw [Nat.zero_add] at hij
  exact ⟨s, hij ▸ hs, hv⟩

theorem mem_packOrder (d : SlotDir) (hs : d.slots[i]? = some s) (hv : s.value ≠ []) :
    i ∈ d.packOrder.map Prod.fst := by
  have : (i, s.value) ∈ d.packOrder := by
    rw [d.packOrder_perm.mem_iff, mem_liveFrom]
    exact ⟨i, s, (Nat.zero_add i).symm, hs, rfl, hv⟩
  exact mem_map_of_mem this

theorem packed_packOrder (d : SlotDir) : Packed (d.packOrder.map Prod.fst) pageSize d.slots := by
  constructor
  · intro i s hi hs hv
    exact absurd (d.mem_packOrder hs hv) hi
  · intro i j s t hi _ _ hs _
    by_contra h
    exact hi (d.mem_packOrder hs (fun hv => h (Or.inl hv)))

theorem compact_values (d : SlotDir) : d.compact.values = d.values :=
  repackSlots_values _ _ _

theorem compact_length (d : SlotDir) : d.compact.slots.length = d.slots.length := by
  have := congrArg List.length d.compact_values
  simpa [values] using this

theorem compact_fsp (d : SlotDir) : d.compact.fsp = pageSize - d.liveBytes := by
  show (repackSlots d.packOrder pageSize d.slots).1 = _
  rw [repackSlots_fst, packOrder_sum]

theorem compact_headerSize (d : SlotDir) : d.compact.headerSize = d.headerSize := by
  unfold headerSize
  rw [compact_length]

theorem compact_liveBytes (d : SlotDir) : d.compact.liveBytes = d.liveBytes := by
  unfold liveBytes
  rw [compact_values]

theorem compact_zeroSlots (d : SlotDir) : d.compact.zeroSlots = d.zeroSlots := by
  unfold zeroSlots
  rw [compact_values]

/-- After the compaction every slot is in place. -/
theorem compact_packed (hfits : d.liveBytes ≤ pageSize) : Packed [] d.compact.fsp d.compact.slots :=
  repackSlots_packed d.packOrder d.packed_packOrder (fun _ => d.packOrder_mem)
    (by rw [packOrder_sum]; exact hfits) le_rfl

theorem compact_wf (h : d.WF) : d.compact.WF := by
  have hacc := h.account
  have hhdr := h.header_le
  have hp := compact_packed (d := d) (by omega)
  refine ⟨?_, ?_, ?_, ?_, ?_, ?_⟩
  · rw [compact_headerSize, compact_fsp]
    omega
  · rw [compact_fsp]
    omega
  · intro s hs hv
    obtain ⟨i, hi⟩ := mem_iff_getElem?.mp hs
    exact hp.inside i s (by simp) hi hv
  · intro i j s t hij hs ht
    exact hp.apart i j s t (by simp) (by simp) hij hs ht
  · rw [compact_fsp, compact_liveBytes]
    show pageSize - d.liveBytes + d.liveBytes + 0 = pageSize
    omega
  · rw [compact_zeroSlots]
    exact h.deleted_le

/-! ### Changing one slot -/

theorem sum_length_set {l : List (List UInt8)} {w : List UInt8} (v : List UInt8)
    (h : l[i]? = some w) :
    ((l.set i v).map List.length).sum + w.length = (l.map List.length).sum + v.length := by
  obtain ⟨l₁, l₂, hl, hset⟩ := set_split h
  rw [hset, hl]
  simp only [map_append, map_cons, sum_append, sum_cons]
  omega

theorem countP_isEmpty_set {l : List (List UInt8)} {w : List UInt8} (v : List UInt8)
    (h : l[i]? = some w) : (l.set i v).countP (fun v => v.isEmpty) + (if w.isEmpty then 1 else 0) =
      l.countP (fun v => v.isEmpty) + (if v.isEmpty then 1 else 0) := by
  obtain ⟨l₁, l₂, hl, hset⟩ := set_split h
  rw [hset, hl]
  simp only [countP_append, countP_cons]
  omega

theorem values_getElem? (h : d.slots[i]? = some s) : d.values[i]? = some s.value := by
  unfold values
  rw [getElem?_map, h]
  rfl

/-- A slot of the directory after one slot was set is that slot or an old one. -/
theorem getElem?_set_cases (h : (slots.set i s)[j]? = some t) :
    (j = i ∧ t = s) ∨ (j ≠ i ∧ slots[j]? = some t) := by
  by_cases hij : j = i
  · subst hij
    rw [getElem?_set_self'] at h
    left
    refine ⟨rfl, ?_⟩
    cases hs : slots[j]? with
    | none => rw [hs] at h; cases h
    | some u => rw [hs] at h; exact (Option.some.inj h).symm
  · rw [getElem?_set_ne (Ne.symm hij)] at h
    exact Or.inr ⟨hij, h⟩

/-- If the new slot `t` is apart from every other slot, setting it keeps all slots apart. -/
theorem apart_set
    (h : ∀ (j k : ℕ) (u v : Slot), j ≠ k → slots[j]? = some u → slots[k]? = some v → u.Apart v)
    (ht : ∀ (j : ℕ) (u : Slot), j ≠ i → slots[j]? = some u → t.Apart u) :
    ∀ (j k : ℕ) (u v : Slot), j ≠ k → (slots.set i t)[j]? = some u →
      (slots.set i t)[k]? = some v → u.Apart v := by
  intro j k u v hjk hu hv
  rcases getElem?_set_cases hu with ⟨hj, hu'⟩ | ⟨hj, hu'⟩
  · rcases getElem?_set_cases hv with ⟨hk, -⟩ | ⟨hk, hv'⟩
    · exact absurd (hj.trans hk.symm) hjk
    · rw [hu']
      exact ht k v hk hv'
  · rcases getElem?_set_cases hv with ⟨-, hv'⟩ | ⟨-, hv'⟩
    · rw [hv']
      exact (ht j u hj hu').symm
    · exact h j k u v hjk hu' hv'

/-! ### Writing and releasing a value -/

/-- Write a value directly below the free space pointer into a free slot. -/
def place (d : SlotDir) (i : ℕ) (bytes : List UInt8) : SlotDir :=
  { d with
    fsp := d.fsp - bytes.length
    slots := d.slots.set i ⟨d.fsp - bytes.length, bytes⟩ }

theorem writeAt_eq (d : SlotDir) (i : ℕ) (bytes : List UInt8) :
    d.writeAt i bytes = (if bytes.length > d.gap then d.compact else d).place i bytes := rfl

variable {bytes : List UInt8}

theorem place_wf (h : d.WF) (hs : d.slots[i]? = some s) (hv : s.value = [])
    (hgap : bytes.length ≤ d.gap) (hdel : d.deletedSlots + 1 ≤ d.zeroSlots) :
    (d.place i bytes).WF := by
  have hhdr := h.header_le
  have hfsp := h.fsp_le
  have hacc := h.account
  unfold gap at hgap
  have hval := values_getElem? hs
  have hsum := sum_length_set bytes hval
  have hcnt := countP_isEmpty_set bytes hval
  refine ⟨?_, ?_, ?_, ?_, ?_, ?_⟩
  · unfold place headerSize at *
    simp only [length_set]
    omega
  · unfold place
    simp only
    omega
  · intro t ht htv
    obtain ⟨j, hj⟩ := mem_iff_getElem?.mp ht
    rcases getElem?_set_cases hj with ⟨-, rfl⟩ | ⟨-, hj⟩
    · unfold place
      simp only
      omega
    · have := h.inside t (mem_of_getElem? hj) htv
      unfold place
      simp only
      omega
  · refine apart_set h.apart ?_
    intro j u _ hu
    by_cases huv : u.value = []
    · exact Or.inr (Or.inl huv)
    · have := (h.inside u (mem_of_getElem? hu) huv).1
      refine Or.inr (Or.inr (Or.inl ?_))
      simp only
      omega
  · unfold place liveBytes values at *
    simp only [map_set] at *
    rw [hv, length_nil] at hsum
    omega
  · unfold place zeroSlots values at *
    simp only [map_set] at *
    rw [hv] at hcnt
    simp only [isEmpty_nil, if_true] at hcnt
    omega

theorem compact_gap (h : d.WF) : d.compact.gap = d.freeSpace := by
  have hhdr := h.header_le
  have hacc := h.account
  unfold gap freeSpace gap
  rw [compact_headerSize, compact_fsp]
  omega

theorem exists_slot_of_values (h : d.values[i]? = some v) :
    ∃ s, d.slots[i]? = some s ∧ s.value = v := by
  unfold values at h
  rw [getElem?_map, Option.map_eq_some_iff] at h
  exact h

theorem writeAt_wf (h : d.WF) (hv : d.values[i]? = some []) (hroom : bytes.length ≤ d.freeSpace)
    (hdel : d.deletedSlots + 1 ≤ d.zeroSlots) : (d.writeAt i bytes).WF := by
  rw [writeAt_eq]
  split_ifs with hc
  · rw [← compact_values] at hv
    obtain ⟨s, hs, hsv⟩ := exists_slot_of_values hv
    refine place_wf (compact_wf h) hs hsv ?_ ?_
    · rw [compact_gap h]
      exact hroom
    · rw [compact_zeroSlots]
      exact hdel
  · obtain ⟨s, hs, hsv⟩ := exists_slot_of_values hv
    exact place_wf h hs hsv (by omega) hdel

theorem writeAt_values (d : SlotDir) (i : ℕ) (bytes : List UInt8) :
    (d.writeAt i bytes).values = d.values.set i bytes := by
  rw [writeAt_eq]
  split_ifs with hc
  · rw [← d.compact_values]
    exact map_set
  · exact map_set

theorem writeAt_pageId (d : SlotDir) (i : ℕ) (bytes : List UInt8) :
    (d.writeAt i bytes).pageId = d.pageId := by
  rw [writeAt_eq]
  split_ifs <;> rfl

theorem release_wf (h : d.WF) (hs : d.slots[i]? = some s) (hv : s.value ≠ []) :
    (d.release i s).WF := by
  have hhdr := h.header_le
  have hfsp := h.fsp_le
  have hacc := h.account
  have hdel := h.deleted_le
  have hin := h.inside s (mem_of_getElem? hs) hv
  have hval := values_getElem? hs
  have hsum := sum_length_set [] hval
  have hcnt := countP_isEmpty_set [] hval
  have hother : ∀ (j : ℕ) (t : Slot), j ≠ i → d.slots[j]? = some t → t.value ≠ [] →
      s.offset = d.fsp → s.offset + s.value.length ≤ t.offset := by
    intro j t hj ht htv he
    have hti := h.inside t (mem_of_getElem? ht) htv
    have htpos := length_pos_iff.mpr htv
    rcases h.apart i j s t (Ne.symm hj) hs ht with h1 | h1 | h1 | h1
    · exact absurd h1 hv
    · exact absurd h1 htv
    · exact h1
    · omega
  unfold release
  refine ⟨?_, ?_, ?_, ?_, ?_, ?_⟩
  · unfold headerSize at *
    simp only [length_set]
    split_ifs <;> omega
  · simp only
    split_ifs <;> omega
  · intro t ht htv
    obtain ⟨j, hj⟩ := mem_iff_getElem?.mp ht
    rcases getElem?_set_cases hj with ⟨-, rfl⟩ | ⟨hji, hj⟩
    · exact absurd rfl htv
    · have := h.inside t (mem_of_getElem? hj) htv
      simp only
      split_ifs with he
      · exact ⟨hother j t hji hj htv he, this.2⟩
      · exact this
  · exact apart_set h.apart (fun _ _ _ _ => Or.inl rfl)
  · unfold liveBytes values at *
    simp only [map_set, length_nil] at *
    split_ifs <;> omega
  · unfold zeroSlots values at *
    simp only [map_set] at *
    simp only [isEmpty_nil, if_true, List.isEmpty_iff, hv, if_false] at hcnt
    omega

theorem release_values (d : SlotDir) (i : ℕ) (s : Slot) :
    (d.release i s).values = d.values.set i [] := map_set

theorem release_freeSpace (h : d.WF) (hs : d.slots[i]? = some s) (hv : s.value ≠ []) :
    (d.release i s).freeSpace = d.freeSpace + s.value.length := by
  have h1 := (release_wf h hs hv).account
  have h2 := h.account
  have h3 := (release_wf h hs hv).header_le
  have h4 := h.header_le
  have hsum := sum_length_set [] (values_getElem? hs)
  have hl : (d.release i s).headerSize = d.headerSize := by
    simp [headerSize, release]
  unfold liveBytes at h1 h2
  rw [release_values] at h1
  unfold freeSpace gap
  rw [length_nil] at hsum
  omega

theorem release_zeroSlots (hs : d.slots[i]? = some s) (hv : s.value ≠ []) :
    (d.release i s).zeroSlots = d.zeroSlots + 1 := by
  have hcnt := countP_isEmpty_set [] (values_getElem? hs)
  unfold zeroSlots
  rw [release_values]
  simp only [isEmpty_nil, if_true, List.isEmpty_iff, hv, if_false] at hcnt
  omega

/-! ### The operations keep the layout -/

theorem WF.length_le (h : d.WF) : d.slots.length ≤ 1018 := by
  have h1 := h.header_le
  have h2 := h.fsp_le
  unfold headerSize at h1
  simp only [Page.headerStart, pageFixedHeaderLen, heapPageFixedMetadataSize, slotMetadataSize,
    pageSize] at h1 h2
  omega

theorem values_length (d : SlotDir) : d.values.length = d.slots.length := length_map _

theorem firstFree_le (d : SlotDir) : d.firstFree ≤ d.slots.length := by
  rw [← values_length]
  exact findIdx_le_length

theorem firstFree_getElem? (h : d.firstFree ≠ d.slots.length) :
    d.values[d.firstFree]? = some [] := by
  have hlt : d.firstFree < d.values.length := by
    have := d.firstFree_le
    rw [values_length]
    omega
  have := findIdx_getElem (w := hlt)
  rw [getElem?_eq_getElem hlt]
  exact congrArg some (List.isEmpty_iff.mp this)

theorem ne_nil_of_lt_firstFree (h : j < d.firstFree) (hj : d.values[j]? = some v) : v ≠ [] := by
  obtain ⟨hlt, rfl⟩ := List.getElem?_eq_some_iff.mp hj
  intro he
  have := not_of_lt_findIdx h
  rw [he] at this
  cases this

theorem toNat_slotId (h : d.WF) (hi : i ≤ d.slots.length) : (UInt16.ofNat i).toNat = i := by
  have := h.length_le
  rw [UInt16.toNat_ofNat']
  exact Nat.mod_eq_of_lt (by omega)

/-- There is room for `bytes`: below the slots when a new one is needed, and in all. -/
def Room (d : SlotDir) (bytes : List UInt8) : Prop :=
  if d.firstFree = d.slots.length then
    slotMetadataSize ≤ d.gap ∧ bytes.length + slotMetadataSize < d.freeSpace
  else bytes.length < d.freeSpace

instance (d : SlotDir) (bytes : List UInt8) : Decidable (d.Room bytes) := by
  unfold Room
  infer_instance

theorem grow_values (d : SlotDir) : d.grow.values = d.values ++ [[]] := by
  simp [grow, values]

theorem grow_wf (h : d.WF) (hgap : slotMetadataSize ≤ d.gap) : d.grow.WF := by
  have hhdr := h.header_le
  have hacc := h.account
  have hdel := h.deleted_le
  unfold gap at hgap
  refine ⟨?_, h.fsp_le, ?_, ?_, ?_, ?_⟩
  · unfold headerSize at *
    simp only [grow, length_append, length_singleton, Nat.add_mul, Nat.one_mul]
    omega
  · intro t ht htv
    rcases mem_append.mp ht with ht | ht
    · exact h.inside t ht htv
    · rw [mem_singleton.mp ht] at htv
      exact absurd rfl htv
  · intro i j u v hij hu hv
    simp only [grow, getElem?_append] at hu hv
    split_ifs at hu hv with hi hj hj
    · exact h.apart i j u v hij hu hv
    · rw [(mem_singleton.mp (mem_of_getElem? hv))]
      exact Or.inr (Or.inl rfl)
    · rw [(mem_singleton.mp (mem_of_getElem? hu))]
      exact Or.inl rfl
    · rw [(mem_singleton.mp (mem_of_getElem? hu))]
      exact Or.inl rfl
  · unfold liveBytes at *
    rw [grow_values]
    simpa [grow] using hacc
  · unfold zeroSlots at *
    rw [grow_values]
    simp only [grow, countP_append]
    omega

theorem grow_freeSpace (hgap : slotMetadataSize ≤ d.gap) :
    d.grow.freeSpace + slotMetadataSize = d.freeSpace := by
  unfold freeSpace gap headerSize at *
  simp only [grow, length_append, length_singleton, Nat.add_mul, Nat.one_mul]
  omega

theorem grow_zeroSlots (d : SlotDir) : d.grow.zeroSlots = d.zeroSlots + 1 := by
  unfold zeroSlots
  rw [grow_values, countP_append]
  rfl

theorem zeroSlots_pos (h : d.firstFree ≠ d.slots.length) : 0 < d.zeroSlots := by
  have := mem_of_getElem? (firstFree_getElem? h)
  exact countP_pos_iff.mpr ⟨[], this, rfl⟩

/-- Without room the page is returned as it was. -/
theorem add_noRoom (h : ¬ d.Room bytes) : d.add bytes = .ok (none, d) := by
  unfold Room at h
  unfold add
  split_ifs at h ⊢ with h1 h2 h2 h3
  · rfl
  · omega
  · rfl
  · omega
  · omega

/-- The directory in which `add` writes its value. -/
def addTarget (d : SlotDir) : SlotDir :=
  if d.firstFree = d.slots.length then d.grow else { d with deletedSlots := d.deletedSlots - 1 }

theorem add_room (h : d.Room bytes) : d.add bytes =
      if d.firstFree ≠ d.slots.length ∧ d.deletedSlots = 0 then .error .overflow
      else .ok (some (UInt16.ofNat d.firstFree), d.addTarget.writeAt d.firstFree bytes) := by
  unfold Room at h
  unfold add addTarget
  by_cases h1 : d.firstFree = d.slots.length
  · rw [if_pos h1] at h
    rw [if_pos h1, if_neg (by omega), if_neg (by omega), if_pos h1, h1]
  · rw [if_neg h1] at h
    rw [if_neg h1, if_neg (by omega), if_neg h1]
    by_cases h2 : d.deletedSlots = 0
    · rw [if_pos h2, if_pos ⟨h1, h2⟩]
    · rw [if_neg h2, if_neg (by omega)]

/-- What a successful `add` does. -/
structure Added (d : SlotDir) (bytes : List UInt8) (s : SlotId) (d' : SlotDir) : Prop where
  room : d.Room bytes
  slot : s.toNat = d.firstFree
  wf : d'.WF
  pageId : d'.pageId = d.pageId
  values : ∀ j, d'.values[j]? = if j = d.firstFree then some bytes else d.values[j]?

theorem addTarget_wf (h : d.WF) (hr : d.Room bytes) : d.addTarget.WF := by
  unfold Room at hr
  unfold addTarget
  split_ifs at hr ⊢ with h1
  · exact grow_wf h hr.1
  · have := h.deleted_le
    exact ⟨h.header_le, h.fsp_le, h.inside, h.apart, h.account, by
      show d.deletedSlots - 1 ≤ d.zeroSlots
      omega⟩

theorem addTarget_getElem? (d : SlotDir) : d.addTarget.values[d.firstFree]? = some [] := by
  unfold addTarget
  split_ifs with h1
  · rw [grow_values, h1, ← values_length]
    simp
  · exact firstFree_getElem? h1

theorem addTarget_freeSpace (hr : d.Room bytes) : bytes.length < d.addTarget.freeSpace := by
  unfold Room at hr
  unfold addTarget
  split_ifs at hr ⊢ with h1
  · have := grow_freeSpace hr.1
    omega
  · exact hr

variable {d' : SlotDir}

theorem add_some {s : SlotId} (h : d.WF) (ha : d.add bytes = .ok (some s, d')) :
    d.Added bytes s d' := by
  by_cases hr : d.Room bytes
  · rw [add_room hr] at ha
    split_ifs at ha with h2
    obtain ⟨hs, hd⟩ := Prod.mk.inj (Except.ok.inj ha)
    refine ⟨hr, ?_, ?_, ?_, ?_⟩
    · rw [← Option.some.inj hs]
      exact toNat_slotId h d.firstFree_le
    · rw [← hd]
      have hw := h.deleted_le
      refine writeAt_wf (addTarget_wf h hr) d.addTarget_getElem? (addTarget_freeSpace hr).le ?_
      unfold addTarget
      split_ifs with h1
      · rw [grow_zeroSlots]
        show d.deletedSlots + 1 ≤ _
        omega
      · show d.deletedSlots - 1 + 1 ≤ d.zeroSlots
        have := zeroSlots_pos h1
        omega
    · rw [← hd, writeAt_pageId]
      unfold addTarget grow
      split_ifs <;> rfl
    · intro j
      rw [← hd, writeAt_values, getElem?_set]
      have hlt : d.firstFree < d.addTarget.values.length := by
        obtain ⟨hlt, -⟩ := List.getElem?_eq_some_iff.mp d.addTarget_getElem?
        exact hlt
      by_cases hj : j = d.firstFree
      · rw [if_pos hj.symm, if_pos hlt, if_pos hj]
      · rw [if_neg (Ne.symm hj), if_neg hj]
        unfold addTarget
        split_ifs with h1
        · rw [grow_values, getElem?_append, values_length]
          split_ifs with h3
          · rfl
          · have h4 : d.values.length ≤ j := by
              rw [values_length]
              omega
            rw [getElem?_eq_none h4]
            exact getElem?_eq_none (by simp only [length_singleton]; omega)
        · rfl
  · rw [add_noRoom hr] at ha
    cases ha

theorem add_none (ha : d.add bytes = .ok (none, d')) : ¬ d.Room bytes ∧ d' = d := by
  by_cases hr : d.Room bytes
  · rw [add_room hr] at ha
    split_ifs at ha
    cases ha
  · rw [add_noRoom hr] at ha
    exact ⟨hr, (Prod.mk.inj (Except.ok.inj ha)).2.symm⟩

/-! ### Lookups, deletions and updates -/

theorem get_eq (d : SlotDir) (s : SlotId) :
    d.get s = (d.values[s.toNat]?).bind (fun v => if v = [] then none else some v) := by
  unfold get values
  rw [getElem?_map]
  cases d.slots[s.toNat]? <;> rfl

theorem get_eq_some {s : SlotId} : d.get s = some v ↔ d.values[s.toNat]? = some v ∧ v ≠ [] := by
  rw [get_eq]
  cases h : d.values[s.toNat]? with
  | none => simp
  | some w =>
    simp only [Option.bind_some]
    split_ifs with hw
    · simp only [Option.some.injEq, false_iff, not_and, not_not]
      rintro rfl
      exact hw
    · simp only [Option.some.injEq]
      constructor
      · rintro rfl
        exact ⟨rfl, hw⟩
      · exact fun h => h.1

theorem delete_none {s : SlotId} (h : d.delete s = (none, d')) : d.get s = none ∧ d' = d := by
  unfold delete at h
  unfold get
  cases hs : d.slots[s.toNat]? with
  | none => rw [hs] at h; exact ⟨rfl, (Prod.mk.inj h).2.symm⟩
  | some t =>
    rw [hs] at h
    simp only at h ⊢
    split_ifs at h ⊢ with hv
    · exact ⟨rfl, (Prod.mk.inj h).2.symm⟩
    · cases h

/-- What a successful `delete` does. -/
structure Deleted (d : SlotDir) (s : SlotId) (d' : SlotDir) : Prop where
  live : ∃ v, d.get s = some v
  wf : d'.WF
  pageId : d'.pageId = d.pageId
  values : d'.values = d.values.set s.toNat []

theorem delete_some {s : SlotId} (h : d.WF) (hd : d.delete s = (some (), d')) : d.Deleted s d' := by
  unfold delete at hd
  cases hs : d.slots[s.toNat]? with
  | none => rw [hs] at hd; cases hd
  | some t =>
    rw [hs] at hd
    simp only at hd
    rcases eq_or_ne t.value [] with hv | hv
    · rw [if_pos hv] at hd
      cases hd
    rw [if_neg hv] at hd
    have he := (Prod.mk.inj hd).2
    have hrel := release_wf h hs hv
    have hz := release_zeroSlots hs hv
    have hdel := h.deleted_le
    refine ⟨⟨t.value, get_eq_some.mpr ⟨values_getElem? hs, hv⟩⟩, ?_, ?_, ?_⟩
    · rw [← he]
      refine ⟨hrel.header_le, hrel.fsp_le, hrel.inside, hrel.apart, hrel.account, ?_⟩
      show d.deletedSlots + 1 ≤ (d.release s.toNat t).zeroSlots
      omega
    · rw [← he]
      rfl
    · rw [← he]
      exact d.release_values s.toNat t

/-- What a successful `update` does. -/
structure Updated (d : SlotDir) (s : SlotId) (bytes : List UInt8) (d' : SlotDir) : Prop where
  live : ∃ v, d.get s = some v
  wf : d'.WF
  pageId : d'.pageId = d.pageId
  values : d'.values = d.values.set s.toNat bytes

/-- A value that is not longer than the old one is written over it. -/
theorem shrink_wf (h : d.WF) (hs : d.slots[i]? = some t) (hv : t.value ≠ [])
    (hlen : bytes.length ≤ t.value.length) : WF { d with
      slots := d.slots.set i ⟨t.offset, bytes⟩
      deletedBytes := d.deletedBytes + (t.value.length - bytes.length) } := by
  have hin := h.inside t (mem_of_getElem? hs) hv
  have hval := values_getElem? hs
  have hsum := sum_length_set bytes hval
  have hcnt := countP_isEmpty_set bytes hval
  have hacc := h.account
  have hdel := h.deleted_le
  refine ⟨?_, h.fsp_le, ?_, ?_, ?_, ?_⟩
  · have := h.header_le
    unfold headerSize at *
    simpa using this
  · intro u hu huv
    obtain ⟨j, hj⟩ := mem_iff_getElem?.mp hu
    rcases getElem?_set_cases hj with ⟨-, rfl⟩ | ⟨-, hj⟩
    · simp only
      omega
    · exact h.inside u (mem_of_getElem? hj) huv
  · refine apart_set h.apart ?_
    intro j u hj hu
    rcases h.apart i j t u (Ne.symm hj) hs hu with h1 | h1 | h1 | h1
    · exact absurd h1 hv
    · exact Or.inr (Or.inl h1)
    · refine Or.inr (Or.inr (Or.inl ?_))
      simp only
      omega
    · exact Or.inr (Or.inr (Or.inr h1))
  · unfold liveBytes values at *
    simp only [map_set] at *
    omega
  · unfold zeroSlots values at *
    simp only [map_set] at *
    simp only [List.isEmpty_iff, hv, if_false] at hcnt
    omega

theorem update_none {s : SlotId} (h : d.update s bytes = (none, d')) : d' = d := by
  unfold update at h
  cases hs : d.slots[s.toNat]? with
  | none => rw [hs] at h; exact (Prod.mk.inj h).2.symm
  | some t =>
    rw [hs] at h
    simp only at h
    split_ifs at h
    · exact (Prod.mk.inj h).2.symm
    · cases h
    · exact (Prod.mk.inj h).2.symm
    · cases h

theorem update_some {s : SlotId} (h : d.WF) (hd : d.update s bytes = (some (), d')) :
    d.Updated s bytes d' := by
  unfold update at hd
  cases hs : d.slots[s.toNat]? with
  | none => rw [hs] at hd; cases hd
  | some t =>
    rw [hs] at hd
    simp only at hd
    split_ifs at hd with hv hlen hroom
    · cases hd
    · refine ⟨⟨t.value, get_eq_some.mpr ⟨values_getElem? hs, hv⟩⟩, ?_, ?_, ?_⟩
      · rw [← (Prod.mk.inj hd).2]
        exact shrink_wf h hs hv hlen
      · rw [← (Prod.mk.inj hd).2]
      · rw [← (Prod.mk.inj hd).2]
        exact map_set
    · cases hd
    · have he := (Prod.mk.inj hd).2
      refine ⟨⟨t.value, get_eq_some.mpr ⟨values_getElem? hs, hv⟩⟩, ?_, ?_, ?_⟩
      · rw [← he]
        have hlt : s.toNat < d.values.length := by
          obtain ⟨hlt, -⟩ := List.getElem?_eq_some_iff.mp (values_getElem? hs)
          exact hlt
        refine writeAt_wf (release_wf h hs hv) ?_ ?_ ?_
        · rw [release_values, getElem?_set_self hlt]
        · rw [release_freeSpace h hs hv]
          omega
        · rw [release_zeroSlots hs hv]
          have := h.deleted_le
          show d.deletedSlots + 1 ≤ _
          omega
      · rw [← he, writeAt_pageId]
        rfl
      · rw [← he, writeAt_values, release_values, set_set]

/-! ### The deleted-slot counter

The counter is decremented whenever a slot of length zero is reused.  As long as no empty value
is stored, it counts exactly these slots, and the decrement cannot underflow. -/

/-- The deleted-slot counter counts the slots of length zero. -/
def Exact (d : SlotDir) : Prop := d.deletedSlots = d.zeroSlots

theorem empty_exact (pageId : PageId) : (empty pageId).Exact := rfl

theorem writeAt_deletedSlots (d : SlotDir) (i : ℕ) (bytes : List UInt8) :
    (d.writeAt i bytes).deletedSlots = d.deletedSlots := by
  rw [writeAt_eq]
  split_ifs <;> rfl

/-- A value written into a free slot leaves one zero-length slot less. -/
theorem writeAt_zeroSlots (hv : d.values[i]? = some []) (hb : bytes ≠ []) :
    (d.writeAt i bytes).zeroSlots + 1 = d.zeroSlots := by
  have hcnt := countP_isEmpty_set bytes hv
  unfold zeroSlots
  rw [writeAt_values]
  simp only [isEmpty_nil, if_true, List.isEmpty_iff, hb, if_false] at hcnt
  omega

theorem add_ok (h : d.Exact) (bytes : List UInt8) : ∃ r, d.add bytes = .ok r := by
  by_cases hr : d.Room bytes
  · rw [add_room hr, if_neg]
    · exact ⟨_, rfl⟩
    · rintro ⟨h1, h2⟩
      have := zeroSlots_pos h1
      unfold Exact at h
      omega
  · exact ⟨_, add_noRoom hr⟩

theorem addTarget_deletedSlots (h : d.Exact) :
    d.addTarget.deletedSlots + 1 = d.addTarget.zeroSlots := by
  unfold Exact at h
  unfold addTarget
  split_ifs with h1
  · rw [grow_zeroSlots, ← h]
    rfl
  · have := zeroSlots_pos h1
    show d.deletedSlots - 1 + 1 = d.zeroSlots
    omega

theorem add_exact {r : Option SlotId} (h : d.Exact) (hb : bytes ≠ [])
    (ha : d.add bytes = .ok (r, d')) : d'.Exact := by
  by_cases hr : d.Room bytes
  · rw [add_room hr] at ha
    split_ifs at ha with h2
    have hd := (Prod.mk.inj (Except.ok.inj ha)).2
    have h3 := addTarget_deletedSlots h
    have h4 := writeAt_zeroSlots d.addTarget_getElem? hb
    unfold Exact
    rw [← hd, writeAt_deletedSlots]
    omega
  · rw [add_noRoom hr] at ha
    rw [← (Prod.mk.inj (Except.ok.inj ha)).2]
    exact h

theorem delete_exact {s : SlotId} {r : Option Unit} (h : d.Exact) (hd : d.delete s = (r, d')) :
    d'.Exact := by
  unfold delete at hd
  cases hs : d.slots[s.toNat]? with
  | none => rw [hs] at hd; rw [← (Prod.mk.inj hd).2]; exact h
  | some t =>
    rw [hs] at hd
    simp only at hd
    split_ifs at hd with hv
    · rw [← (Prod.mk.inj hd).2]
      exact h
    · rw [← (Prod.mk.inj hd).2]
      show d.deletedSlots + 1 = (d.release s.toNat t).zeroSlots
      rw [release_zeroSlots hs hv, h]

theorem update_exact {s : SlotId} {r : Option Unit} (h : d.Exact) (hb : bytes ≠ [])
    (hd : d.update s bytes = (r, d')) : d'.Exact := by
  unfold update at hd
  cases hs : d.slots[s.toNat]? with
  | none => rw [hs] at hd; rw [← (Prod.mk.inj hd).2]; exact h
  | some t =>
    rw [hs] at hd
    simp only at hd
    split_ifs at hd with hv hlen hroom
    · rw [← (Prod.mk.inj hd).2]
      exact h
    · have hcnt := countP_isEmpty_set bytes (values_getElem? hs)
      simp only [List.isEmpty_iff, hv, hb, if_false] at hcnt
      rw [← (Prod.mk.inj hd).2]
      unfold Exact zeroSlots values at *
      simp only [map_set] at *
      omega
    · rw [← (Prod.mk.inj hd).2]
      exact h
    · have hlt : s.toNat < d.values.length := by
        obtain ⟨hlt, -⟩ := List.getElem?_eq_some_iff.mp (values_getElem? hs)
        exact hlt
      have h1 : (d.release s.toNat t).values[s.toNat]? = some [] := by
        rw [release_values, getElem?_set_self hlt]
      have h2 := writeAt_zeroSlots h1 hb
      rw [release_zeroSlots hs hv] at h2
      rw [← (Prod.mk.inj hd).2]
      unfold Exact at h ⊢
      rw [writeAt_deletedSlots]
      show d.deletedSlots = _
      omega

end SlotDir

end CrustyDB
