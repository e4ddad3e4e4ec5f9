import CrustyDB.Page.Basic

/-! # Field values, keys and record ids

`Field` is a column value, with the order its `derive(PartialOrd, Ord)` gives it: the variant
first, then the contents.  The order is pulled back along `Field.code`, which spells a field as a
list of integers, so that an index key (a list of fields) is ordered lexicographically.
`ValueId` names a stored record. -/

namespace CrustyDB

/-- A column value. -/
inductive Field where
  | bigInt (v : Int64)
  | int (v : Int32)
  | smallInt (v : Int16)
  | char (len : UInt8) (v : String)
  | string (v : String)
  | decimal (whole : Int64) (scale : UInt32)
  | date (days : Int64)
  | bool (b : Bool)
  | null
deriving DecidableEq, Repr

namespace Field

/-- The characters of a string, as numbers. -/
def chars (s : String) : List ℤ := s.toList.map (fun c => (c.toNat : ℤ))

/-- The variant of a field and its contents. -/
def code : Field → List ℤ
  | bigInt v => [0, v.toInt]
  | int v => [1, v.toInt]
  | smallInt v => [2, v.toInt]
  | char len v => 3 :: (len.toNat : ℤ) :: chars v
  | string v => 4 :: chars v
  | decimal whole scale => [5, whole.toInt, (scale.toNat : ℤ)]
  | date days => [6, days.toInt]
  | bool b => [7, if b then 1 else 0]
  | null => [8]

theorem chars_injective : Function.Injective chars := by
  intro s t h
  have hinj : Function.Injective (fun c : Char => (c.toNat : ℤ)) := by
    intro c c' hc
    exact Char.toNat_inj.mp (Int.ofNat.inj hc)
  exact String.toList_inj.mp (List.map_injective_iff.mpr hinj h)

theorem code_injective : Function.Injective code := by
  intro a b h
  cases a <;> cases b <;>
    simp only [code, List.cons.injEq, and_true, true_and, reduceCtorEq, Int.natCast_inj,
      Int64.toInt_inj, Int32.toInt_inj, Int16.toInt_inj, UInt8.toNat_inj, UInt32.toNat_inj,
      Int.reduceEq, false_and] at h
  case char.char =>
    obtain ⟨rfl, hs⟩ := h
    rw [chars_injective hs]
  case string.string => rw [chars_injective h]
  case decimal.decimal =>
    obtain ⟨rfl, rfl⟩ := h
    rfl
  case bool.bool b b' => cases b <;> cases b' <;> simp_all
  all_goals first | rfl | rw [h]

instance : LinearOrder Field := LinearOrder.lift' code code_injective

end Field

/-- A key of an index: the values of its columns, compared lexicographically. -/
abbrev IndexKey := List Field

/-- The identifier of a segment of a container (`u8`). -/
abbrev SegmentId := UInt8

/-- Where a record is stored. -/
structure ValueId where
  containerId : ContainerId
  segmentId : Option SegmentId
  pageId : Option PageId
  slotId : Option SlotId
deriving DecidableEq, Repr

/-- A record id with a page and a slot. -/
def ValueId.newSlot (containerId : ContainerId) (pageId : PageId) (slotId : SlotId) : ValueId :=
  ⟨containerId, none, some pageId, some slotId⟩

/-- The part of a record id by which entries of equal key are ordered; the segment is left out. -/
def ValueId.ridKey (v : ValueId) : List ℤ :=
  [(v.containerId.toNat : ℤ), v.pageId.elim (-1) (fun p => (p.toNat : ℤ)),
    v.slotId.elim (-1) (fun s => (s.toNat : ℤ))]

end CrustyDB
