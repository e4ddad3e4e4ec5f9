import CrustyDB.Page.Basic

/-! # The heap page: values in slots

The operations of the `HeapPage` trait on the bytes of a page, as `heap_page.rs` computes
them.  After the fixed page header come four `u16` counters (number of slots, free space
pointer, bytes in holes, deleted slots) and then four bytes of metadata per slot (offset and
length of its value).  Values are written from the end of the page towards the slots; a slot
of length zero is a deleted one.

Every function returns in `Checked`, so a subtraction that would underflow, a counter that
would overflow and a slice outside the page are visible outcomes of the model.  The state of
the page is passed explicitly: an operation returns its answer together with the new page. -/

namespace CrustyDB.Page

open ByteBuffer

/-- Position of the slot count, relative to the end of the fixed page header. -/
def numSlotsOffset : ℕ := 0
def freeSpacePtrOffset : ℕ := numSlotsOffset + 2
def deletedBytesOffset : ℕ := freeSpacePtrOffset + 2
def deletedSlotCountOffset : ℕ := deletedBytesOffset + 2

/-- Where the slot metadata starts. -/
def headerStart : ℕ := pageFixedHeaderLen + heapPageFixedMetadataSize

/-! ### Counters -/

def getNumSlots (p : Page) : Checked ℕ := p.readU16 (pageFixedHeaderLen + numSlotsOffset)

def setNumSlots (p : Page) (numSlots : ℕ) : Checked Page :=
  p.writeU16 (pageFixedHeaderLen + numSlotsOffset) numSlots

/-- Increment the number of slots and return the new count. -/
def incrementNumSlots (p : Page) : Checked (ℕ × Page) := do
  let newCount ← addU16 (← p.getNumSlots) 1
  let p ← p.setNumSlots newCount
  pure (newCount, p)

def getFreeSpacePtr (p : Page) : Checked ℕ := p.readU16 (pageFixedHeaderLen + freeSpacePtrOffset)

def setFreeSpacePtr (p : Page) (ptr : ℕ) : Checked Page :=
  p.writeU16 (pageFixedHeaderLen + freeSpacePtrOffset) ptr

def getDeletedBytes (p : Page) : Checked ℕ := p.readU16 (pageFixedHeaderLen + deletedBytesOffset)

def setDeletedBytes (p : Page) (bytes : ℕ) : Checked Page :=
  p.writeU16 (pageFixedHeaderLen + deletedBytesOffset) bytes

def getDeletedSlotCount (p : Page) : Checked ℕ :=
  p.readU16 (pageFixedHeaderLen + deletedSlotCountOffset)

def setDeletedSlotCount (p : Page) (count : ℕ) : Checked Page :=
  p.writeU16 (pageFixedHeaderLen + deletedSlotCountOffset) count

/-- The size of the header: the fixed part and the metadata of every slot. -/
def getHeaderSize (p : Page) : Checked ℕ := do
  pure (pageFixedHeaderLen + heapPageFixedMetadataSize + (← p.getNumSlots) * slotMetadataSize)

/-- The free bytes of the page, holes included. -/
def getFreeSpace (p : Page) : Checked ℕ := do
  let gap ← subUsize (← p.getFreeSpacePtr) (← p.getHeaderSize)
  pure (gap + (← p.getDeletedBytes))

/-! ### Slots -/

/-- The loop of `findNextFreeSlot`: the first offset in `[offset, stop)` whose slot has length
zero, or `stop`. -/
def findFreeLoop (p : Page) (stop offset : ℕ) : Checked ℕ :=
  if offset < stop then do
    let length ← p.readU16 (offset + offsetNumBytes)
    if length = 0 then pure offset else findFreeLoop p stop (offset + slotMetadataSize)
  else pure stop
termination_by stop - offset
decreasing_by simp only [slotMetadataSize]; omega

/-- The offset of the first slot whose length is zero, or the end of the header. -/
def findNextFreeSlot (p : Page) : Checked ℕ := do
  let stop ← p.getHeaderSize
  p.findFreeLoop stop headerStart

/-- The offset of a slot's metadata, or `-1` when the page has no such slot. -/
def getSlotMetadataOffset (p : Page) (slotId : SlotId) : Checked ℤ := do
  let numSlots ← p.getNumSlots
  if slotId.toNat ≥ numSlots then pure (-1)
  else pure ((headerStart + slotId.toNat * slotMetadataSize : ℕ) : ℤ)

/-! ### Compaction -/

/-- The live slots among the `n` slots from `i` on, with their bytes. -/
def liveSlots (p : Page) : ℕ → ℕ → Checked (List (ℕ × List UInt8))
  | 0, _ => pure []
  | n + 1, i => do
    let metaOffset := headerStart + i * slotMetadataSize
    let dataOffset ← p.readU16 metaOffset
    let dataLength ← p.readU16 (metaOffset + offsetNumBytes)
    if dataLength > 0 then
      let data ← p.read dataOffset (dataOffset + dataLength)
      let rest ← liveSlots p n (i + 1)
      pure ((i, data) :: rest)
    else liveSlots p n (i + 1)

/-- Write the values one below the other, starting under `newFsp`, and point their slots at
them. -/
def repack : List (ℕ × List UInt8) → ℕ → Page → Checked (ℕ × Page)
  | [], newFsp, p => pure (newFsp, p)
  | (slotIndex, data) :: rest, newFsp, p => do
    let newFsp ← subUsize newFsp data.length
    let p ← p.write newFsp data
    let p ← p.writeU16 (headerStart + slotIndex * slotMetadataSize) newFsp
    repack rest newFsp p

/-- Repack all live values contiguously from the end of the page, shortest first. -/
def compactPage (p : Page) : Checked Page := do
  let numSlots ← p.getNumSlots
  let live ← p.liveSlots numSlots 0
  let sorted := live.insertionSort (fun a b => a.2.length ≤ b.2.length)
  let (newFsp, p) ← repack sorted pageSize p
  let p ← p.setFreeSpacePtr newFsp
  p.setDeletedBytes 0

/-- Write `bytes` below the free space pointer and point the slot at `slotOffset` to them,
compacting first when the gap is too small. -/
def writeValueAtSlot (p : Page) (slotOffset : ℕ) (bytes : List UInt8) : Checked Page := do
  let gap ← subUsize (← p.getFreeSpacePtr) (← p.getHeaderSize)
  let p ← if bytes.length > gap then p.compactPage else pure p
  let currentFsp ← p.getFreeSpacePtr
  let newFsp ← subUsize currentFsp bytes.length
  let p ← p.write newFsp bytes
  let p ← p.setFreeSpacePtr newFsp
  let p ← p.writeU16 slotOffset newFsp
  p.writeU16 (slotOffset + offsetNumBytes) bytes.length

/-! ### The operations of the trait -/

/-- Make a page with zeroed heap metadata an empty heap page. -/
def initHeapPage (p : Page) : Checked Page := p.setFreeSpacePtr pageSize

/-- The test of `addValue` for a page that cannot take `bytes`: a new slot needs its metadata in
the gap, and the value has to fit into the free bytes. -/
def lacksRoom (p : Page) (isNewSlot : Bool) (bytes : List UInt8) : Checked Bool := do
  if isNewSlot then
    let gap ← subUsize (← p.getFreeSpacePtr) (← p.getHeaderSize)
    if gap < slotMetadataSize then pure true
    else pure (decide (bytes.length + slotMetadataSize ≥ (← p.getFreeSpace)))
  else pure (decide (bytes.length ≥ (← p.getFreeSpace)))

/-- The part of `addValue` that claims its slot: a new one is counted and zeroed, a reused one is
taken off the deleted slots. -/
def claimSlot (p : Page) (isNewSlot : Bool) (slotOffset : ℕ) : Checked Page := do
  if isNewSlot then
    let (_, p) ← p.incrementNumSlots
    p.write slotOffset (List.replicate slotMetadataSize 0)
  else
    let count ← subUsize (← p.getDeletedSlotCount) 1
    p.setDeletedSlotCount count

/-- Add a value in the lowest free slot; `none` when there is no room. -/
def addValue (p : Page) (bytes : List UInt8) : Checked (Option SlotId × Page) := do
  let slotOffset ← p.findNextFreeSlot
  let isNewSlot := decide (slotOffset ≥ (← p.getHeaderSize))
  if ← p.lacksRoom isNewSlot bytes then pure (none, p)
  else do
    let p ← p.claimSlot isNewSlot slotOffset
    let slotId := (← subUsize (← subUsize slotOffset pageFixedHeaderLen)
      heapPageFixedMetadataSize) / slotMetadataSize
    let p ← p.writeValueAtSlot slotOffset bytes
    pure (some (UInt16.ofNat slotId), p)

/-- The bytes of a slot; `none` for a deleted slot and for one the page does not have. -/
def getValue (p : Page) (slotId : SlotId) : Checked (Option (List UInt8)) := do
  let offset ← p.getSlotMetadataOffset slotId
  if offset < 0 then pure none
  else do
    let metaOffset := offset.toNat
    let dataOffset ← p.readU16 metaOffset
    let dataLength ← p.readU16 (metaOffset + offsetNumBytes)
    if dataLength = 0 ∨ dataOffset + dataLength > pageSize then pure none
    else do
      let bytes ← p.read dataOffset (dataOffset + dataLength)
      pure (some bytes)

/-- Return the bytes `[ptr, ptr + len)` to the free space: move the free space pointer over them
when they are the lowest value, count them as a hole otherwise. -/
def reclaim (p : Page) (ptr len : ℕ) : Checked Page := do
  if ptr = (← p.getFreeSpacePtr) then p.setFreeSpacePtr (ptr + len)
  else p.setDeletedBytes (← addU16 (← p.getDeletedBytes) len)

/-- Delete the value of a slot; `none` when the slot holds no value. -/
def deleteValue (p : Page) (slotId : SlotId) : Checked (Option Unit × Page) := do
  let offset ← p.getSlotMetadataOffset slotId
  if offset < 0 then pure (none, p)
  else do
    let metaOffset := offset.toNat
    let dataOffset ← p.readU16 metaOffset
    let dataLength ← p.readU16 (metaOffset + offsetNumBytes)
    if dataLength = 0 ∨ dataOffset + dataLength > pageSize then pure (none, p)
    else do
      let p ← p.write dataOffset (List.replicate dataLength 0)
      let p ← p.writeU16 (metaOffset + offsetNumBytes) 0
      let p ← p.reclaim dataOffset dataLength
      let p ← p.setDeletedSlotCount (← addU16 (← p.getDeletedSlotCount) 1)
      pure (some (), p)

/-- Replace the value of a slot; `none`, with the page unchanged, when the slot holds no value or
the new value does not fit. -/
def updateValue (p : Page) (slotId : SlotId) (bytes : List UInt8) :
    Checked (Option Unit × Page) := do
  let offset ← p.getSlotMetadataOffset slotId
  if offset < 0 then pure (none, p)
  else do
    let metaOffset := offset.toNat
    let freedPtr ← p.readU16 metaOffset
    let freedLen ← p.readU16 (metaOffset + offsetNumBytes)
    if freedLen = 0 ∨ freedPtr + freedLen > pageSize then pure (none, p)
    else if bytes.length ≤ freedLen then do
      let p ← p.write freedPtr (List.replicate freedLen 0)
      let p ← p.write freedPtr bytes
      let p ← p.writeU16 (metaOffset + offsetNumBytes) bytes.length
      let waste ← subUsize freedLen bytes.length
      let p ← if waste > 0 then do p.setDeletedBytes (← addU16 (← p.getDeletedBytes) waste)
        else pure p
      pure (some (), p)
    else if bytes.length ≥ (← p.getFreeSpace) + freedLen then pure (none, p)
    else do
      let p ← p.write freedPtr (List.replicate freedLen 0)
      let p ← p.writeU16 (metaOffset + offsetNumBytes) 0
      let p ← p.reclaim freedPtr freedLen
      let p ← p.writeValueAtSlot metaOffset bytes
      pure (some (), p)

/-! ### The iterator -/

/-- `HeapPageIter::next`: the first value at or after the slot `current`, with its slot id and the
position of the iterator after the call. -/
def iterNext (p : Page) (numSlots current : ℕ) :
    Checked (Option (List UInt8 × SlotId) × ℕ) :=
  if current < numSlots then do
    let slotId := UInt16.ofNat current
    match ← p.getValue slotId with
    | some bytes => pure (some (bytes, slotId), current + 1)
    | none => iterNext p numSlots (current + 1)
  else pure (none, current)
termination_by numSlots - current

/-- Call `next` until it returns `none`, at most `fuel` times. -/
def iterCollect (p : Page) (numSlots : ℕ) : ℕ → ℕ → Checked (List (List UInt8 × SlotId))
  | 0, _ => pure []
  | fuel + 1, current => do
    match ← p.iterNext numSlots current with
    | (some item, current') => do
      let rest ← iterCollect p numSlots fuel current'
      pure (item :: rest)
    | (none, _) => pure []

/-- What a loop over `page.iter()` sees; a page with `n` slots yields at most `n` values. -/
def iter (p : Page) : Checked (List (List UInt8 × SlotId)) := do
  let numSlots ← p.getNumSlots
  p.iterCollect numSlots (numSlots + 1) 0

end CrustyDB.Page
