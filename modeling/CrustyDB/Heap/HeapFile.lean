import CrustyDB.Pool.BufferPool
import CrustyDB.Data.Value

/-! # The heap file

The functions of `heap_file.rs`, as programs over what a heap file calls: the functions of the
`MemPool` trait, and the operations on the pages whose guards it holds.  The container of a heap
file starts with a header page, which is created and never initialised; the records are on the
pages from 1 on.

A guard is named by its page, and a program says when it drops one.  The helpers
`get_page_for_read` and `get_page_for_write` unwrap the answer of the pool, so a refused request is
a panic.  A new data page is initialised while its guard is held, before anything else happens to
it, which `createHeapPage` does in one call.

The loop of the iterator runs on fuel, one round for every slot a container can have
(`HeapFileIter.rounds`). -/

namespace CrustyDB

open Program

/-- The calls of a heap file. -/
inductive MemOp where
  | getMaxPageId (c : ContainerId)
  | createNewPageForWrite (c : ContainerId)
  | createHeapPage (c : ContainerId)
  | getPageForWrite (key : ContainerPageId)
  | getPageForRead (key : ContainerPageId)
  | dropWriteGuard (key : ContainerPageId)
  | dropReadGuard (key : ContainerPageId)
  | addValue (key : ContainerPageId) (bytes : List UInt8)
  | getValue (key : ContainerPageId) (slotId : SlotId)
  | updateValue (key : ContainerPageId) (slotId : SlotId) (bytes : List UInt8)
  | deleteValue (key : ContainerPageId) (slotId : SlotId)
  | getNumSlots (key : ContainerPageId)

/-- What a call answers. -/
def MemOp.Ans : MemOp → Type
  | getMaxPageId _ => Option PageId
  | createNewPageForWrite _ => Except MemPoolStatus PageId
  | createHeapPage _ => Except MemPoolStatus PageId
  | getPageForWrite _ => Unit
  | getPageForRead _ => Unit
  | dropWriteGuard _ => Unit
  | dropReadGuard _ => Unit
  | addValue _ _ => Option SlotId
  | getValue _ _ => Option (List UInt8)
  | updateValue _ _ _ => Option Unit
  | deleteValue _ _ => Option Unit
  | getNumSlots _ => ℕ

def memInterface : Interface := ⟨MemOp, MemOp.Ans⟩

/-- A program that uses the pages of a pool. -/
abbrev HeapProg := Prog memInterface CrustyError

namespace HeapProg

def getMaxPageId (c : ContainerId) : HeapProg (Option PageId) :=
  Prog.op (I := memInterface) (.getMaxPageId c)

def createNewPageForWrite (c : ContainerId) : HeapProg (Except MemPoolStatus PageId) :=
  Prog.op (I := memInterface) (.createNewPageForWrite c)

def createHeapPage (c : ContainerId) : HeapProg (Except MemPoolStatus PageId) :=
  Prog.op (I := memInterface) (.createHeapPage c)

def getPageForWrite (key : ContainerPageId) : HeapProg Unit :=
  Prog.op (I := memInterface) (.getPageForWrite key)

def getPageForRead (key : ContainerPageId) : HeapProg Unit :=
  Prog.op (I := memInterface) (.getPageForRead key)

def dropWriteGuard (key : ContainerPageId) : HeapProg Unit :=
  Prog.op (I := memInterface) (.dropWriteGuard key)

def dropReadGuard (key : ContainerPageId) : HeapProg Unit :=
  Prog.op (I := memInterface) (.dropReadGuard key)

def addValue (key : ContainerPageId) (bytes : List UInt8) : HeapProg (Option SlotId) :=
  Prog.op (I := memInterface) (.addValue key bytes)

def getValue (key : ContainerPageId) (slotId : SlotId) : HeapProg (Option (List UInt8)) :=
  Prog.op (I := memInterface) (.getValue key slotId)

def updateValue (key : ContainerPageId) (slotId : SlotId) (bytes : List UInt8) :
    HeapProg (Option Unit) :=
  Prog.op (I := memInterface) (.updateValue key slotId bytes)

def deleteValue (key : ContainerPageId) (slotId : SlotId) : HeapProg (Option Unit) :=
  Prog.op (I := memInterface) (.deleteValue key slotId)

def getNumSlots (key : ContainerPageId) : HeapProg ℕ :=
  Prog.op (I := memInterface) (.getNumSlots key)

end HeapProg

open HeapProg

namespace HeapFile

variable (cId : ContainerId)

/-- A heap file for a new container: its header page. -/
def new : HeapProg Unit := do
  match ← createNewPageForWrite cId with
  | .error e => Prog.fail (.pool "" e)
  | .ok pageId => dropWriteGuard ⟨cId, pageId⟩

def numPages : HeapProg PageId := do
  pure ((← getMaxPageId cId).getD 0)

def getVal (pageId : PageId) (slotId : SlotId) : HeapProg (List UInt8) := do
  if pageId ≥ (← numPages cId) then Prog.fail (.crusty "Page not found")
  else do
    getPageForRead ⟨cId, pageId⟩
    let v ← getValue ⟨cId, pageId⟩ slotId
    dropReadGuard ⟨cId, pageId⟩
    match v with
    | some v => pure v
    | none => Prog.fail (.crusty "Value not found")

def deleteVal (pageId : PageId) (slotId : SlotId) : HeapProg Unit := do
  if pageId ≥ (← numPages cId) then Prog.fail (.crusty "Page not found")
  else do
    getPageForWrite ⟨cId, pageId⟩
    let u ← deleteValue ⟨cId, pageId⟩ slotId
    dropWriteGuard ⟨cId, pageId⟩
    match u with
    | some _ => pure ()
    | none => Prog.fail (.crusty "Value not found or already deleted")

/-- The loop of `addVal` over the data pages: the first one that has room. -/
def tryPages (val : List UInt8) : List PageId → HeapProg (Option ValueId)
  | [] => pure none
  | pageId :: rest => do
    getPageForWrite ⟨cId, pageId⟩
    let s ← addValue ⟨cId, pageId⟩ val
    dropWriteGuard ⟨cId, pageId⟩
    match s with
    | some slotId => pure (some (ValueId.newSlot cId pageId slotId))
    | none => tryPages val rest

/-- `1..num_pages`. -/
def dataPages (numPages : PageId) : List PageId :=
  (List.range' 1 (numPages.toNat - 1)).map UInt32.ofNat

/-- Put the value on a new page. -/
def addOnNewPage (val : List UInt8) : HeapProg ValueId := do
  match ← createHeapPage cId with
  | .error e => Prog.fail (.pool "" e)
  | .ok pageId => do
    let s ← addValue ⟨cId, pageId⟩ val
    dropWriteGuard ⟨cId, pageId⟩
    match s with
    | some slotId => pure (ValueId.newSlot cId pageId slotId)
    | none => Prog.fail (.crusty "Value too large to fit in a single page")

def addVal (val : List UInt8) : HeapProg ValueId := do
  match ← tryPages cId val (dataPages (← numPages cId)) with
  | some id => pure id
  | none => addOnNewPage cId val

def addVals : List (List UInt8) → HeapProg (List ValueId)
  | [] => pure []
  | val :: vals => do
    let id ← addVal cId val
    let ids ← addVals vals
    pure (id :: ids)

/-- Replace a value: on its page when the page has room, and elsewhere otherwise. -/
def updateVal (pageId : PageId) (slotId : SlotId) (val : List UInt8) : HeapProg ValueId := do
  if pageId ≥ (← numPages cId) then Prog.fail (.crusty "Page not found")
  else do
    getPageForWrite ⟨cId, pageId⟩
    match ← updateValue ⟨cId, pageId⟩ slotId val with
    | some _ => do
      dropWriteGuard ⟨cId, pageId⟩
      pure (ValueId.newSlot cId pageId slotId)
    | none => do
      match ← getValue ⟨cId, pageId⟩ slotId with
      | none => do
        dropWriteGuard ⟨cId, pageId⟩
        Prog.fail (.crusty "Update failed: slot not found")
      | some _ => do
        let u ← deleteValue ⟨cId, pageId⟩ slotId
        dropWriteGuard ⟨cId, pageId⟩
        match u with
        | none => Prog.fail (.crusty "Delete failed during update fallback")
        | some _ => addVal cId val

end HeapFile

/-! ### The iterator -/

/-- The iterator over the records of a heap file.  `currentPage` is the page it has a guard of. -/
structure HeapFileIter where
  cId : ContainerId
  initialized : Bool
  finished : Bool
  firstPage : PageId
  currentPageId : PageId
  currentSlotId : SlotId
  currentPage : Option PageId

namespace HeapFileIter

def newFrom (cId : ContainerId) (pageId : PageId) (slotId : SlotId) : HeapFileIter :=
  ⟨cId, false, false, pageId, pageId, slotId, none⟩

/-- `HeapFile::iter`. -/
def iter (cId : ContainerId) : HeapFileIter := newFrom cId 1 0

/-- Get the guard of the first page; the source calls this `initialize`. -/
def setUp (it : HeapFileIter) : HeapProg HeapFileIter := do
  if it.initialized then pure it
  else if it.firstPage < (← HeapFile.numPages it.cId) then do
    getPageForRead ⟨it.cId, it.firstPage⟩
    pure { it with currentPage := some it.firstPage, initialized := true }
  else pure { it with finished := true, initialized := true }

/-- The loop of `next`. -/
def nextLoop : ℕ → HeapFileIter → HeapProg (Option (List UInt8 × ValueId) × HeapFileIter)
  | 0, _ => Prog.fail .diverges
  | fuel + 1, it => do
    match it.currentPage with
    | none => pure (none, it)
    | some pageId => do
      let numSlots ← getNumSlots ⟨it.cId, pageId⟩
      if it.currentSlotId.toNat < numSlots then do
        let slotId := it.currentSlotId
        let it := { it with currentSlotId := slotId + 1 }
        match ← getValue ⟨it.cId, pageId⟩ slotId with
        | some val => pure (some (val, ValueId.newSlot it.cId it.currentPageId slotId), it)
        | none => nextLoop fuel it
      else do
        dropReadGuard ⟨it.cId, pageId⟩
        let it := { it with
          currentSlotId := 0, currentPage := none, currentPageId := it.currentPageId + 1 }
        if it.currentPageId ≥ (← HeapFile.numPages it.cId) then
          pure (none, { it with finished := true })
        else do
          getPageForRead ⟨it.cId, it.currentPageId⟩
          nextLoop fuel { it with currentPage := some it.currentPageId }

/-- Rounds enough for a container with `k` pages: a page has less than `2 ^ 16` slots. -/
def rounds (k : PageId) : ℕ := (k.toNat + 1) * 2 ^ 16

def next (it : HeapFileIter) : HeapProg (Option (List UInt8 × ValueId) × HeapFileIter) := do
  let it ← it.setUp
  if it.finished then pure (none, it)
  else do
    let k ← HeapFile.numPages it.cId
    nextLoop (rounds k) it

/-- The iterator goes out of scope, and its guard with it. -/
def drop (it : HeapFileIter) : HeapProg Unit :=
  match it.currentPage with
  | none => pure ()
  | some pageId => dropReadGuard ⟨it.cId, pageId⟩

/-- Call `next` until it returns `none`, but at most `k` times, and drop the iterator. -/
def take : ℕ → HeapFileIter → HeapProg (List (List UInt8 × ValueId))
  | 0, it => do
    it.drop
    pure []
  | k + 1, it => do
    match ← it.next with
    | (none, it) => do
      it.drop
      pure []
    | (some item, it) => do
      let rest ← take k it
      pure (item :: rest)

/-- Run the iterator to its end. -/
def collect (it : HeapFileIter) : HeapProg (List (List UInt8 × ValueId)) := do
  it.take (rounds (← HeapFile.numPages it.cId))

end HeapFileIter

end CrustyDB
