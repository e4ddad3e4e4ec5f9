import CrustyDB.Page.PagePool
import CrustyDB.Lib.Stateful

/-! # The buffer pool

The pool keeps pages of the container files in a fixed number of frames.  A map leads from the
key of a page (its container and its page id) to the frame that holds it, and every frame stores
the key of its page; a queue of hints names frames that may be taken for another page.

* **Frames.**  A frame has a latch: a client that holds a guard has it shared or exclusively, and
  a call that needs a latch it cannot get returns an error (`tryRead`, `tryWrite`), passes over
  the frame (`chooseVictim`), or spins for ever (`flushAll`, `reset`).
* **Containers.**  A container file is a list of pages.  A write past its end extends it with
  zeros, a read past its end fails.  A temporary container ignores writes.  The counter of its
  pages is a `u32` that wraps around.
* **Disk.**  Any access to a file may fail; a failed read leaves any bytes in the frame.
* **Calls** run one after the other.  A call returns an answer or an error, panics, or does not
  return (`Stop`).  Clients keep the guards they get as long as they like; that they drop one,
  with any bytes left in the page, is an event of its own.

Frame numbers are positions in the vector of frames, and a frame reports its own number as a
`u32` (`frameId`).

The pool is that of a release build: the assertions of `base_file.rs` that are checked in debug builds
only (a page that is read or written has its id in its first bytes, and is not past the end of the
file) are left out, and sums of page ids wrap around.  A debug build panics where one of these
assertions fails and does the same everywhere else.  The page counter is an atomic and wraps around
in both.  The modules on pages, indexes and queries follow a debug build, where an overflow is a
panic. -/

namespace CrustyDB

open ByteBuffer

/-- A page among the pages of all containers. -/
structure ContainerPageId where
  cId : ContainerId
  pageId : PageId
deriving DecidableEq, Repr

/-! ### Frames -/

/-- A frame.  `cnt` is the state of its latch: the number of readers, or `-1` for a writer. -/
structure BufferFrame where
  key : Option ContainerPageId
  isDirty : Bool
  cnt : ℤ
  page : Page

namespace BufferFrame

def new : BufferFrame := ⟨none, false, 0, Page.new 0⟩

/-- Take the latch shared. -/
def tryRead (fr : BufferFrame) : Option BufferFrame :=
  if fr.cnt < 0 then none else some { fr with cnt := fr.cnt + 1 }

/-- Take the latch exclusively. -/
def tryWrite (makeDirty : Bool) (fr : BufferFrame) : Option BufferFrame :=
  if fr.cnt = 0 then some { fr with cnt := -1, isDirty := makeDirty || fr.isDirty } else none

def downgrade (fr : BufferFrame) : BufferFrame := { fr with cnt := 1 }

def releaseShared (fr : BufferFrame) : BufferFrame := { fr with cnt := fr.cnt - 1 }

def releaseExclusive (fr : BufferFrame) : BufferFrame := { fr with cnt := 0 }

/-- Forget the page.  Its bytes stay. -/
def clear (fr : BufferFrame) : BufferFrame := { fr with isDirty := false, key := none }

end BufferFrame

/-! ### Containers -/

/-- A container: the number of its pages, whether it is temporary, and the pages of its file. -/
structure Container where
  pageCount : PageId
  isTemp : Bool
  file : List Page

namespace Container

def new (file : List Page) : Container := ⟨UInt32.ofNat file.length, false, file⟩

def newTemp (file : List Page) : Container := ⟨UInt32.ofNat file.length, true, file⟩

/-- The file after a page is written at position `i`. -/
def writeAt (file : List Page) (i : ℕ) (p : Page) : List Page :=
  if i < file.length then file.set i p
  else file ++ List.replicate (i - file.length) Page.zeros ++ [p]

end Container

/-- The behaviour of the disk: which accesses fail, the bytes a failed read leaves behind, and the
error messages. -/
structure Disk where
  fault : ℕ → Option Page
  osError : ℕ → String

/-! ### The pool -/

/-- A pool of `n` frames over the containers. -/
structure BufferPool (n : ℕ) where
  frames : Fin n → BufferFrame
  pageToFrame : AList (fun _ : ContainerPageId => Fin n)
  evictionHints : List (Fin n)
  containers : ContainerId → Option Container
  accesses : ℕ
  disk : Disk

/-- Why a call gives no answer: it returns an error, it panics, or it never returns. -/
inductive Stop where
  | status (e : MemPoolStatus)
  | panic
  | blocks
deriving DecidableEq, Repr

/-- The calls of the pool change its state and give an answer or stop. -/
abbrev PoolCall (n : ℕ) := EStateM Stop (BufferPool n)

namespace BufferPool

variable {n : ℕ}

/-- `BufferPool::new` over the containers of a catalog. -/
def new (containers : ContainerId → Option Container) (disk : Disk) : BufferPool n where
  frames _ := .new
  pageToFrame := ∅
  evictionHints := List.finRange n
  containers := containers
  accesses := 0
  disk := disk

/-- The number a frame reports: its position as a `u32`. -/
def frameId (i : Fin n) : Fin n := ⟨i % 2 ^ 32, (Nat.mod_le _ _).trans_lt i.isLt⟩

def setFrame (s : BufferPool n) (i : Fin n) (fr : BufferFrame) : BufferPool n :=
  { s with frames := Function.update s.frames i fr }

def setContainer (s : BufferPool n) (c : ContainerId) (ct : Container) : BufferPool n :=
  { s with containers := Function.update s.containers c (some ct) }

/-- Change one frame. -/
def onFrame (i : Fin n) (f : BufferFrame → BufferFrame) : PoolCall n Unit :=
  modify fun s => s.setFrame i (f (s.frames i))

/-- The pool after a change of some frames. -/
def mapFrames (s : BufferPool n) (is : List (Fin n)) (f : BufferFrame → BufferFrame) : BufferPool n :=
  { s with frames := fun i => if i ∈ is then f (s.frames i) else s.frames i }

/-- The pool after the write guards of some frames are dropped. -/
def dropGuards (s : BufferPool n) (is : List (Fin n)) : BufferPool n := s.mapFrames is .releaseExclusive

/-- A function that holds the write guards of some frames drops them when it fails. -/
def dropOnError {α : Type} (is : List (Fin n)) (x : PoolCall n α) : PoolCall n α := fun s =>
  match x s with
  | .ok a s' => .ok a s'
  | .error e s' => .error e (s'.dropGuards is)

/-- `unwrap` of a result. -/
def unwrap {α : Type} (x : PoolCall n α) : PoolCall n α := fun s =>
  match x s with
  | .ok a s' => .ok a s'
  | .error (.status _) s' => .error .panic s'
  | .error e s' => .error e s'

/-! ### Containers and files -/

/-- The container, which is created with an empty file when there is none. -/
def getContainer (c : ContainerId) : PoolCall n Container := do
  match (← get).containers c with
  | some ct => pure ct
  | none => do
    modify fun s => s.setContainer c (.new [])
    pure (.new [])

def registerContainer (c : ContainerId) (isTemp : Bool) : PoolCall n Unit :=
  modify fun s =>
    match s.containers c with
    | some _ => s
    | none => s.setContainer c (if isTemp then .newTemp [] else .new [])

/-- Add to the page counter; the answer is its value before. -/
def incPageCount (c : ContainerId) (count : ℕ) : PoolCall n PageId := do
  let ct ← getContainer c
  modify fun s => s.setContainer c { ct with pageCount := ct.pageCount + UInt32.ofNat count }
  pure ct.pageCount

/-- One access to a file: whether it fails, and the message if it does. -/
def access : PoolCall n (Option Page × String) := do
  let s ← get
  set { s with accesses := s.accesses + 1 }
  pure (s.disk.fault s.accesses, s.disk.osError s.accesses)

/-- `Container::write_page`. -/
def writePage (key : ContainerPageId) (page : Page) : PoolCall n Unit := do
  let ct ← getContainer key.cId
  if ct.isTemp then pure ()
  else do
    match ← access with
    | (some _, msg) => throw (.status (.baseFileError msg))
    | (none, _) =>
      modify fun s => s.setContainer key.cId
        { ct with file := Container.writeAt ct.file key.pageId.toNat page }

/-- `Container::read_page` into a frame. -/
def readPage (key : ContainerPageId) (i : Fin n) : PoolCall n Unit := do
  let ct ← getContainer key.cId
  match ← access with
  | (some garbage, msg) => do
    onFrame i (fun fr => { fr with page := garbage })
    throw (.status (.baseFileError msg))
  | (none, msg) =>
    match ct.file[key.pageId.toNat]? with
    | none => throw (.status (.baseFileError msg))
    | some p => onFrame i (fun fr => { fr with page := p })

/-! ### Victims -/

/-- No eviction policy is implemented. -/
def chooseEvictionCandidate : PoolCall n (Option (Fin n)) := pure none

/-- The loop of `chooseVictim` over the hints: frames that are latched are passed over. -/
def popVictim : List (Fin n) → PoolCall n (Option (Fin n))
  | [] => do
    modify fun s => { s with evictionHints := [] }
    chooseEvictionCandidate
  | i :: rest => do
    modify fun s => { s with evictionHints := rest }
    match ((← get).frames i).tryWrite false with
    | some fr => do
      modify fun s => s.setFrame i fr
      pure (some i)
    | none => popVictim rest

/-- A frame for another page, write-latched. -/
def chooseVictim : PoolCall n (Option (Fin n)) := do
  popVictim (← get).evictionHints

/-- The loop of `chooseVictims`. -/
def popVictims (numVictims : ℕ) : List (Fin n) → List (Fin n) → PoolCall n (List (Fin n))
  | [], victims => do
    modify fun s => { s with evictionHints := [] }
    pure victims
  | i :: rest, victims => do
    modify fun s => { s with evictionHints := rest }
    match ((← get).frames i).tryWrite false with
    | some fr => do
      modify fun s => s.setFrame i fr
      if (victims ++ [i]).length = numVictims then pure (victims ++ [i])
      else popVictims numVictims rest (victims ++ [i])
    | none => popVictims numVictims rest victims

/-- Up to `numVictims` frames for other pages, write-latched. -/
def chooseVictims (numVictims : ℕ) : PoolCall n (List (Fin n)) := do
  popVictims (min n numVictims) (← get).evictionHints []

/-- Write the page of a frame to its file when the frame is dirty, and mark it clean. -/
def writeVictimToDiskIfDirty (i : Fin n) : PoolCall n Unit := do
  let fr := (← get).frames i
  match fr.key with
  | none => pure ()
  | some key =>
    if fr.isDirty then do
      onFrame i (fun fr => { fr with isDirty := false })
      writePage key fr.page
    else pure ()

/-- Take the page of a frame out of the map. -/
def removeOldMapping (i : Fin n) : PoolCall n Unit := do
  let s ← get
  match (s.frames i).key with
  | none => pure ()
  | some old =>
    match s.pageToFrame.lookup old with
    | none => throw .panic
    | some _ => set { s with pageToFrame := s.pageToFrame.erase old }

/-- `PageToFrame::insert`, which panics when the page is in the map already. -/
def insertMapping (key : ContainerPageId) (i : Fin n) : PoolCall n Unit := do
  let s ← get
  match s.pageToFrame.lookup key with
  | some _ => throw .panic
  | none => set { s with pageToFrame := s.pageToFrame.insert key i }

/-- Make a frame hold a new page. -/
def holdNewPage (key : ContainerPageId) (fr : BufferFrame) : BufferFrame :=
  { fr with page := fr.page.setPageId key.pageId, key := some key, isDirty := true }

/-! ### The calls -/

def createContainer (c : ContainerId) (isTemp : Bool) : PoolCall n Unit := registerContainer c isTemp

/-- `drop_container`.  The frames of the container are pushed in the order in which the hash map
is traversed, which is any order; a list in no such order is not a run of the call. -/
def dropContainer (c : ContainerId) (order : List (Fin n)) : PoolCall n Unit := do
  let ct ← getContainer c
  modify fun s => s.setContainer c { ct with isTemp := true }
  let s ← get
  let inMap := (s.pageToFrame.entries.filter (fun e => e.1.cId = c)).map (fun e => e.2)
  if order.Perm inMap then set { s with evictionHints := s.evictionHints ++ order }
  else throw .panic

/-- Put the next page of the container into the victim. -/
def allocate (c : ContainerId) (victim : Fin n) : PoolCall n (Fin n) := do
  removeOldMapping victim
  let pageId ← incPageCount c 1
  insertMapping ⟨c, pageId⟩ (frameId victim)
  onFrame victim (holdNewPage ⟨c, pageId⟩)
  pure victim

def createNewPageForWrite (c : ContainerId) : PoolCall n (Fin n) := do
  match ← chooseVictim with
  | none => throw (.status .cannotEvictPage)
  | some victim => dropOnError [victim] do
      writeVictimToDiskIfDirty victim
      allocate c victim

/-- Put the next pages of the container into the victims. -/
def allocateAll (c : ContainerId) (numPages : ℕ) (victims : List (Fin n)) :
    PoolCall n (List (Fin n)) := do
  victims.forM removeOldMapping
  let startPageId ← incPageCount c numPages
  (victims.zipIdx.take numPages).forM fun v =>
    insertMapping ⟨c, startPageId + UInt32.ofNat v.2⟩ (frameId v.1)
  victims.zipIdx.forM fun v => onFrame v.1 (holdNewPage ⟨c, startPageId + UInt32.ofNat v.2⟩)
  pure victims

def createNewPagesForWrite (c : ContainerId) (numPages : ℕ) : PoolCall n (List (Fin n)) := do
  if numPages = 0 then throw .panic
  else do
    let victims ← chooseVictims numPages
    if victims.isEmpty then throw (.status .cannotEvictPage)
    else dropOnError victims do
      victims.forM writeVictimToDiskIfDirty
      allocateAll c numPages victims

/-- Read a page that is not in the pool into the victim. -/
def fetch (finish : BufferFrame → BufferFrame) (key : ContainerPageId) (victim : Fin n) :
    PoolCall n (Fin n) := do
  removeOldMapping victim
  insertMapping key (frameId victim)
  readPage key victim
  onFrame victim (fun fr => { fr with key := some key })
  onFrame victim finish
  pure victim

/-- The common part of `get_page_for_write` and `get_page_for_read`: `grant` latches the frame of
a page that is in the pool, `finish` is applied to the frame of a page that was read.  The second
look at the map matters only when another thread has read the page in the meantime. -/
def getPage (grant : Fin n → PoolCall n (Fin n)) (finish : BufferFrame → BufferFrame)
    (key : ContainerPageId) : PoolCall n (Fin n) := do
  match (← get).pageToFrame.lookup key with
  | some index => grant index
  | none => do
    match ← chooseVictim with
    | none => throw (.status .cannotEvictPage)
    | some victim => dropOnError [victim] do
        unwrap (writeVictimToDiskIfDirty victim)
        if ((← get).frames victim).isDirty then throw .panic
        else do
          match (← get).pageToFrame.lookup key with
          | some index => do
            let guard ← grant index
            modify fun s => { s with evictionHints := s.evictionHints ++ [index] }
            onFrame victim .releaseExclusive
            pure guard
          | none => fetch finish key victim

/-- Latch a frame, or return the error. -/
def grantLatch (try_ : BufferFrame → Option BufferFrame) (denied : MemPoolStatus) (i : Fin n) :
    PoolCall n (Fin n) := do
  match try_ ((← get).frames i) with
  | some fr => do
    modify fun s => s.setFrame i fr
    pure i
  | none => throw (.status denied)

def getPageForWrite (key : ContainerPageId) : PoolCall n (Fin n) :=
  getPage (grantLatch (BufferFrame.tryWrite true) .frameWriteLatchGrantFailed)
    (fun fr => { fr with isDirty := true }) key

def getPageForRead (key : ContainerPageId) : PoolCall n (Fin n) :=
  getPage (grantLatch BufferFrame.tryRead .frameReadLatchGrantFailed) .downgrade key

/-- Write every dirty page to its file.  The call spins on a frame that is latched exclusively. -/
def flushAll : PoolCall n Unit :=
  (List.finRange n).forM fun i => do
    if ((← get).frames i).cnt < 0 then throw .blocks
    else writeVictimToDiskIfDirty i

/-- Empty the map and make every frame a hint again. -/
def forgetPages : PoolCall n Unit :=
  modify fun s => { s with pageToFrame := ∅, evictionHints := List.finRange n }

/-- A loop over all frames that spins on every frame that is latched. -/
def forFrames (x : Fin n → PoolCall n Unit) : PoolCall n Unit :=
  (List.finRange n).forM fun i => do
    if ((← get).frames i).cnt = 0 then x i
    else throw .blocks

def reset : PoolCall n Unit := do
  forFrames fun i => onFrame i .clear
  forgetPages

def flushAllAndReset : PoolCall n Unit := do
  forFrames fun i => do
    writeVictimToDiskIfDirty i
    onFrame i .clear
  forgetPages

def clearDirtyFlags : PoolCall n Unit :=
  forFrames fun i => onFrame i (fun fr => { fr with isDirty := false })

def isInMem (key : ContainerPageId) (hint : ℕ) : PoolCall n Bool := do
  let s ← get
  let fast := if h : hint < n then
      decide (0 ≤ (s.frames ⟨hint, h⟩).cnt ∧ (s.frames ⟨hint, h⟩).key = some key)
    else false
  pure (fast || (s.pageToFrame.lookup key).isSome)

def getMaxPageId (c : ContainerId) : PoolCall n (Option PageId) := do
  pure (((← get).containers c).map (·.pageCount))

def getPageIdsInMem (c : ContainerId) : PoolCall n (List (ContainerPageId × Fin n)) := do
  pure (((← get).pageToFrame.entries.filter (fun e => e.1.cId = c)).map (fun e => (e.1, e.2)))

/-- The statistics, which are not modelled, are collected with every frame latched shared. -/
def stats : PoolCall n Unit :=
  (List.finRange n).forM fun i => do
    if ((← get).frames i).cnt < 0 then throw .blocks
    else pure ()

/-- A client drops a read guard. -/
def dropReadGuard (i : Fin n) : PoolCall n Unit := do
  if 0 < ((← get).frames i).cnt then onFrame i .releaseShared else throw .panic

/-- A client drops a write guard and has left `page` in the frame. -/
def dropWriteGuard (i : Fin n) (page : Page) : PoolCall n Unit := do
  if ((← get).frames i).cnt < 0 then onFrame i (fun fr => { fr.releaseExclusive with page := page })
  else throw .panic

end BufferPool

/-- What clients do with a pool of `n` frames. -/
inductive Call (n : ℕ) where
  | createContainer (c : ContainerId) (isTemp : Bool)
  | dropContainer (c : ContainerId) (order : List (Fin n))
  | createNewPageForWrite (c : ContainerId)
  | createNewPagesForWrite (c : ContainerId) (numPages : ℕ)
  | isInMem (key : ContainerPageId) (hint : ℕ)
  | getMaxPageId (c : ContainerId)
  | getPageIdsInMem (c : ContainerId)
  | getPageForWrite (key : ContainerPageId)
  | getPageForRead (key : ContainerPageId)
  | prefetchPage (key : ContainerPageId)
  | flushAll
  | fastEvict (frameId : ℕ)
  | stats
  | reset
  | resetStats
  | flushAllAndReset
  | clearDirtyFlags
  | dropReadGuard (i : Fin n)
  | dropWriteGuard (i : Fin n) (page : Page)

/-- What a call answers. -/
inductive Answer (n : ℕ) where
  | done
  | guard (i : Fin n)
  | guards (is : List (Fin n))
  | bool (b : Bool)
  | pageId (o : Option PageId)
  | pageIds (l : List (ContainerPageId × Fin n))

namespace Call

variable {n : ℕ}

open BufferPool

/-- The effect of a call. -/
def exec : Call n → PoolCall n (Answer n)
  | createContainer c isTemp => do
    BufferPool.createContainer c isTemp
    pure .done
  | dropContainer c order => do
    BufferPool.dropContainer c order
    pure .done
  | createNewPageForWrite c => do pure (.guard (← BufferPool.createNewPageForWrite c))
  | createNewPagesForWrite c k => do pure (.guards (← BufferPool.createNewPagesForWrite c k))
  | isInMem key hint => do pure (.bool (← BufferPool.isInMem key hint))
  | getMaxPageId c => do pure (.pageId (← BufferPool.getMaxPageId c))
  | getPageIdsInMem c => do pure (.pageIds (← BufferPool.getPageIdsInMem c))
  | getPageForWrite key => do pure (.guard (← BufferPool.getPageForWrite key))
  | getPageForRead key => do pure (.guard (← BufferPool.getPageForRead key))
  | prefetchPage _ => pure .done
  | flushAll => do
    BufferPool.flushAll
    pure .done
  | fastEvict _ => pure .done
  | stats => do
    BufferPool.stats
    pure .done
  | reset => do
    BufferPool.reset
    pure .done
  | resetStats => pure .done
  | flushAllAndReset => do
    BufferPool.flushAllAndReset
    pure .done
  | clearDirtyFlags => do
    BufferPool.clearDirtyFlags
    pure .done
  | dropReadGuard i => do
    BufferPool.dropReadGuard i
    pure .done
  | dropWriteGuard i page => do
    BufferPool.dropWriteGuard i page
    pure .done

end Call

end CrustyDB
