import CrustyDB.Page.PagePool
import CrustyDB.Data.Value

/-! # The B+tree index

The functions of `tree.rs` as programs over the pages of a container.  A node is a heap page whose
values are encoded entries; the order of its keys is recovered by sorting them whenever the node
is read.  Page 0 holds the id of the root page.

A guard is a page id the program has acquired, and every change of a page goes to the pool at
once, so the pages a failed call leaves behind are those of the source.  Loops and recursions of
the source run on fuel: the public functions give them one round per page of the container (and
one more), and running out is the failure `diverges`, which `TreeRuns.lean` rules out. -/

namespace CrustyDB

open Program

/-- A value of a node page; `metadata` is the source's `Meta`. -/
inductive NodeEntry where
  | metadata (isLeaf : Bool) (leftSibling rightSibling : Option PageId)
  | internal (key : Option IndexKey) (child : PageId)
  | leaf (key : IndexKey) (rid : ValueId)
deriving DecidableEq, Repr

/-- The serialiser of node entries, a library outside this repository. -/
structure Codec where
  toVec : NodeEntry → Option (List UInt8)
  fromSlice : List UInt8 → Option NodeEntry

namespace TreeIndex

/-- The order of internal entries: `None` comes first. -/
def keyLe : Option IndexKey → Option IndexKey → Prop
  | none, _ => True
  | some _, none => False
  | some a, some b => a ≤ b

instance : DecidableRel keyLe := by
  intro a b
  cases a <;> cases b <;> unfold keyLe <;> infer_instance

/-- The order of leaf entries: by key, then by the id of the record. -/
def leafLe (a b : IndexKey × ValueId) : Prop := a.1 < b.1 ∨ (a.1 = b.1 ∧ a.2.ridKey ≤ b.2.ridKey)

instance : DecidableRel leafLe := by
  intro a b
  unfold leafLe
  infer_instance

/-- `entries.sort_by(|a, b| a.0.cmp(&b.0))`, a stable sort. -/
def sortInternal (entries : List (Option IndexKey × PageId)) : List (Option IndexKey × PageId) :=
  entries.insertionSort (fun a b => keyLe a.1 b.1)

/-- `entries.sort_by(|a, b| a.0.cmp(&b.0).then_with(|| rid_key(&a.1).cmp(&rid_key(&b.1))))`. -/
def sortLeaf (entries : List (IndexKey × ValueId)) : List (IndexKey × ValueId) :=
  entries.insertionSort leafLe

section Reading

variable (C : Codec)

def encode (entry : NodeEntry) : Except CrustyError (List UInt8) :=
  match C.toVec entry with
  | some bytes => .ok bytes
  | none => .error (.crusty "index entry encode error")

def decode (bytes : List UInt8) : Except CrustyError NodeEntry :=
  match C.fromSlice bytes with
  | some entry => .ok entry
  | none => .error (.crusty "index entry decode error")

/-- The loop of `read_is_leaf` and `set_leaf_left_sibling`: the first `Meta` entry, its slot and its
contents. -/
def firstMeta : List (List UInt8 × SlotId) →
    Except CrustyError (Option (SlotId × Bool × Option PageId × Option PageId))
  | [] => .ok none
  | (bytes, slotId) :: rest => do
    match ← decode C bytes with
    | .metadata isLeaf left right => pure (some (slotId, isLeaf, left, right))
    | _ => firstMeta rest

/-- Whether the values are those of a leaf page. -/
def readIsLeaf (values : List (List UInt8 × SlotId)) : Except CrustyError Bool := do
  match ← firstMeta C values with
  | some (_, isLeaf, _) => pure isLeaf
  | none => .error (.crusty "index node missing meta entry")

/-- The internal entries in slot order. -/
def internalEntries : List (List UInt8 × SlotId) →
    Except CrustyError (List (Option IndexKey × PageId))
  | [] => .ok []
  | (bytes, _) :: rest => do
    match ← decode C bytes with
    | .internal key child => do
      let entries ← internalEntries rest
      pure ((key, child) :: entries)
    | _ => internalEntries rest

def readInternalEntries (values : List (List UInt8 × SlotId)) :
    Except CrustyError (List (Option IndexKey × PageId)) := do
  pure (sortInternal (← internalEntries C values))

/-- The loop of `read_leaf_entries` and `drain_leaf`: siblings, from the last `Meta` entry seen, and
entries in slot order. -/
def leafEntries (left right : Option PageId) : List (List UInt8 × SlotId) →
    Except CrustyError (Option PageId × Option PageId × List (IndexKey × ValueId))
  | [] => .ok (left, right, [])
  | (bytes, _) :: rest => do
    match ← decode C bytes with
    | .metadata _ l r => leafEntries l r rest
    | .leaf key rid => do
      let (l, r, entries) ← leafEntries left right rest
      pure (l, r, (key, rid) :: entries)
    | .internal _ _ => .error (.crusty "expected leaf node")

/-- Siblings and sorted entries of a leaf page. -/
def readLeafEntries (values : List (List UInt8 × SlotId)) :
    Except CrustyError (Option PageId × Option PageId × List (IndexKey × ValueId)) := do
  let (left, right, entries) ← leafEntries C none none values
  pure (left, right, sortLeaf entries)

/-- The loop of `delete` over a leaf: the first slot with the entry. -/
def findEntry (key : IndexKey) (rid : ValueId) : List (List UInt8 × SlotId) →
    Except CrustyError (Option SlotId)
  | [] => .ok none
  | (bytes, slotId) :: rest => do
    match ← decode C bytes with
    | .leaf k r => if k = key ∧ r = rid then pure (some slotId) else findEntry key rid rest
    | _ => findEntry key rid rest

/-- Whether the last of the sorted entries has this key. -/
def lastMatches (key : IndexKey) (entries : List (IndexKey × ValueId)) : Bool :=
  match entries.getLast? with
  | some (k, _) => decide (k = key)
  | none => false

/-- The loop of `find_child`. -/
def findChildLoop (key : IndexKey) : PageId → List (Option IndexKey × PageId) → PageId
  | result, [] => result
  | _, (none, child) :: rest => findChildLoop key child rest
  | result, (some k, child) :: rest => if k ≤ key then findChildLoop key child rest else result

/-- The child to follow for `key`: the last one whose separator is not above it. -/
def findChild (entries : List (Option IndexKey × PageId)) (key : IndexKey) :
    Except CrustyError PageId :=
  match entries with
  | [] => .error (.panic .index)
  | (_, child) :: _ => .ok (findChildLoop key child entries)

end Reading

/-! ### Access to the pages -/

def getPageForRead (pageId : PageId) : PoolProg Unit := do
  match ← PoolProg.acquire pageId with
  | .ok _ => pure ()
  | .error e => Prog.fail (.pool "index page read error" e)

def getPageForWrite (pageId : PageId) : PoolProg Unit := do
  match ← PoolProg.acquire pageId with
  | .ok _ => pure ()
  | .error e => Prog.fail (.pool "index page write error" e)

/-- `create_new_page_for_write`, then `init_heap_page`. -/
def createPage : PoolProg PageId := do
  match ← PoolProg.create with
  | .ok pageId => pure pageId
  | .error e => Prog.fail (.pool "" e)

/-- `page.add_value(&encode(entry)?)`. -/
def addEntry (C : Codec) (pageId : PageId) (entry : NodeEntry) : PoolProg (Option SlotId) := do
  let bytes ← Prog.ofExcept (encode C entry)
  PoolProg.addValue pageId bytes

/-- Add the entries one after the other; the answers of `add_value` are ignored. -/
def addEntries (C : Codec) (pageId : PageId) : List NodeEntry → PoolProg Unit
  | [] => pure ()
  | entry :: rest => do
    let _ ← addEntry C pageId entry
    addEntries C pageId rest

def deleteSlots (pageId : PageId) : List SlotId → PoolProg Unit
  | [] => pure ()
  | slotId :: rest => do
    let _ ← PoolProg.deleteValue pageId slotId
    deleteSlots pageId rest

/-- The rounds a loop over the pages of the container may take. -/
def rounds : PoolProg ℕ := do
  let n ← PoolProg.pageCount
  pure (n + 1)

/-- A page id in the header page. -/
def toLeBytes (pageId : PageId) : List UInt8 := ByteBuffer.leBytes pageIdSize pageId.toNat

def fromLeBytes (bytes : List UInt8) : PageId := UInt32.ofNat (ByteBuffer.readLe bytes)

def getRootPageId : PoolProg PageId := do
  getPageForRead 0
  match ← PoolProg.getValue 0 0 with
  | none => Prog.fail (.crusty "index header missing root pointer")
  | some bytes =>
    if bytes.length = pageIdSize then pure (fromLeBytes bytes)
    else Prog.fail (.crusty "corrupt index header")

def setRootPageId (newRoot : PageId) : PoolProg Unit := do
  getPageForWrite 0
  match ← PoolProg.updateValue 0 0 (toLeBytes newRoot) with
  | none => Prog.fail (.crusty "failed to update index root pointer")
  | some _ => pure ()

section Programs

variable (C : Codec)

/-- A new, empty tree in a container without pages. -/
def new : PoolProg Unit := do
  let header ← createPage
  let root ← createPage
  let _ ← addEntry C root (.metadata true none none)
  let _ ← PoolProg.addValue header (toLeBytes root)
  pure ()

/-! ### Lookup -/

def findLeaf (key : IndexKey) : ℕ → PageId → PoolProg PageId
  | 0, _ => Prog.fail .diverges
  | fuel + 1, pageId => do
    getPageForRead pageId
    let values ← PoolProg.iter pageId
    let isLeaf ← Prog.ofExcept (readIsLeaf C values)
    if isLeaf then pure pageId
    else do
      let entries ← Prog.ofExcept (readInternalEntries C values)
      let child ← Prog.ofExcept (findChild entries key)
      findLeaf key fuel child

/-- Walk left along the chain while the leaf before ends with the key. -/
def leftmostRunLeaf (key : IndexKey) : ℕ → PageId → PoolProg PageId
  | 0, _ => Prog.fail .diverges
  | fuel + 1, current => do
    getPageForRead current
    let values ← PoolProg.iter current
    let (left, _, _) ← Prog.ofExcept (readLeafEntries C values)
    match left with
    | none => pure current
    | some prev => do
      getPageForRead prev
      let prevValues ← PoolProg.iter prev
      let (_, _, prevEntries) ← Prog.ofExcept (readLeafEntries C prevValues)
      if lastMatches key prevEntries then leftmostRunLeaf key fuel prev
      else pure current

/-- Collect the record ids under the key, walking right while a leaf ends with the key. -/
def collectRun (key : IndexKey) : ℕ → Option PageId → PoolProg (List ValueId)
  | _, none => pure []
  | 0, some _ => Prog.fail .diverges
  | fuel + 1, some pageId => do
    getPageForRead pageId
    let values ← PoolProg.iter pageId
    let (_, right, entries) ← Prog.ofExcept (readLeafEntries C values)
    let found := (entries.filter (fun e => e.1 = key)).map Prod.snd
    let rest ← collectRun key fuel (if lastMatches key entries then right else none)
    pure (found ++ rest)

def search (key : IndexKey) : PoolProg (List ValueId) := do
  let fuel ← rounds
  let root ← getRootPageId
  let landed ← findLeaf C key fuel root
  let start ← leftmostRunLeaf C key fuel landed
  collectRun C key fuel (some start)

/-! ### Insertion -/

/-- Point the left sibling of a leaf at a new page. -/
def setLeafLeftSibling (leafId : PageId) (newLeft : Option PageId) : PoolProg Unit := do
  getPageForWrite leafId
  let values ← PoolProg.iter leafId
  match ← Prog.ofExcept (firstMeta C values) with
  | none => Prog.fail (.crusty "index node missing meta entry")
  | some (slotId, isLeaf, _, right) => do
    let newMeta ← Prog.ofExcept (encode C (.metadata isLeaf newLeft right))
    match ← PoolProg.updateValue leafId slotId newMeta with
    | none => Prog.fail (.crusty "failed to re-thread leaf sibling pointer")
    | some _ => pure ()

/-- Take every value off a leaf page. -/
def drainLeaf (pageId : PageId) :
    PoolProg (Option PageId × Option PageId × List (IndexKey × ValueId)) := do
  let values ← PoolProg.iter pageId
  let drained ← Prog.ofExcept (leafEntries C none none values)
  deleteSlots pageId (values.map Prod.snd)
  pure drained

/-- Take every value off an internal page. -/
def drainInternal (pageId : PageId) : PoolProg (List (Option IndexKey × PageId)) := do
  let values ← PoolProg.iter pageId
  let entries ← Prog.ofExcept (internalEntries C values)
  deleteSlots pageId (values.map Prod.snd)
  pure (sortInternal entries)

/-- The leaf is full: drain it and deal its entries out to it and to a new page on its right. -/
def splitLeaf (pageId : PageId) (key : IndexKey) (rid : ValueId) :
    PoolProg (Option (IndexKey × PageId)) := do
  let (left, oldRight, drained) ← drainLeaf C pageId
  let entries := sortLeaf (drained ++ [(key, rid)])
  let mid := entries.length / 2
  let leftEntries := entries.take mid
  let rightEntries := entries.drop mid
  match rightEntries with
  | [] => Prog.fail (.panic .index)
  | (separator, _) :: _ => do
    let rightPage ← createPage
    addEntries C rightPage
      (.metadata true (some pageId) oldRight :: rightEntries.map (fun e => .leaf e.1 e.2))
    addEntries C pageId
      (.metadata true left (some rightPage) :: leftEntries.map (fun e => .leaf e.1 e.2))
    match oldRight with
    | none => pure ()
    | some oldRightId => setLeafLeftSibling C oldRightId (some rightPage)
    pure (some (separator, rightPage))

/-- Add an entry to a leaf; a split returns the separator and the new page. -/
def insertIntoLeaf (pageId : PageId) (key : IndexKey) (rid : ValueId) :
    PoolProg (Option (IndexKey × PageId)) := do
  getPageForWrite pageId
  let slot ← addEntry C pageId (.leaf key rid)
  if slot.isSome then pure none else splitLeaf C pageId key rid

/-- The node is full: the middle entry goes up, those after it move to a new page. -/
def splitInternal (pageId : PageId) (sepKey : IndexKey) (newChild : PageId) :
    PoolProg (Option (IndexKey × PageId)) := do
  let drained ← drainInternal C pageId
  let entries := sortInternal (drained ++ [(some sepKey, newChild)])
  let mid := entries.length / 2
  match entries.drop mid with
  | [] => Prog.fail (.panic .index)
  | (none, _) :: _ =>
    Prog.fail (.crusty "internal split picked the leftmost sentinel as separator")
  | (some separator, midChild) :: rightRest => do
    let rightPage ← createPage
    addEntries C rightPage
      (.metadata false none none :: .internal none midChild ::
        rightRest.map (fun e => .internal e.1 e.2))
    addEntries C pageId
      (.metadata false none none :: (entries.take mid).map (fun e => .internal e.1 e.2))
    pure (some (separator, rightPage))

/-- Add a child to an internal node; a split returns the separator and the new page. -/
def insertIntoInternal (pageId : PageId) (sepKey : IndexKey) (newChild : PageId) :
    PoolProg (Option (IndexKey × PageId)) := do
  getPageForWrite pageId
  let slot ← addEntry C pageId (.internal (some sepKey) newChild)
  if slot.isSome then pure none else splitInternal C pageId sepKey newChild

def insertRecursive (key : IndexKey) (rid : ValueId) :
    ℕ → PageId → PoolProg (Option (IndexKey × PageId))
  | 0, _ => Prog.fail .diverges
  | fuel + 1, pageId => do
    getPageForRead pageId
    let values ← PoolProg.iter pageId
    let isLeaf ← Prog.ofExcept (readIsLeaf C values)
    if isLeaf then insertIntoLeaf C pageId key rid
    else do
      getPageForRead pageId
      let values ← PoolProg.iter pageId
      let entries ← Prog.ofExcept (readInternalEntries C values)
      let child ← Prog.ofExcept (findChild entries key)
      match ← insertRecursive key rid fuel child with
      | some (sepKey, newChild) => insertIntoInternal C pageId sepKey newChild
      | none => pure none

/-- Insert an entry; when the root splits, a new root with two children is built over it. -/
def insert (key : IndexKey) (rid : ValueId) : PoolProg Unit := do
  let fuel ← rounds
  let root ← getRootPageId
  match ← insertRecursive C key rid fuel root with
  | none => pure ()
  | some (sepKey, newPage) => do
    let newRoot ← createPage
    addEntries C newRoot
      [.metadata false none none, .internal none root, .internal (some sepKey) newPage]
    setRootPageId newRoot

/-! ### Deletion -/

/-- Walk right from `current` to the entry and delete it; nothing happens when the run of the key
ends first. -/
def deleteRun (key : IndexKey) (rid : ValueId) : ℕ → PageId → PoolProg Unit
  | 0, _ => Prog.fail .diverges
  | fuel + 1, current => do
    getPageForRead current
    let values ← PoolProg.iter current
    let found ← Prog.ofExcept (findEntry C key rid values)
    let (_, right, entries) ← Prog.ofExcept (readLeafEntries C values)
    match found with
    | some slotId => do
      getPageForWrite current
      let _ ← PoolProg.deleteValue current slotId
      pure ()
    | none =>
      match lastMatches key entries, right with
      | true, some next => deleteRun key rid fuel next
      | _, _ => pure ()

/-- Remove one entry; a node that becomes empty stays in the tree. -/
def delete (key : IndexKey) (rid : ValueId) : PoolProg Unit := do
  let fuel ← rounds
  let root ← getRootPageId
  let landed ← findLeaf C key fuel root
  let start ← leftmostRunLeaf C key fuel landed
  deleteRun C key rid fuel start

end Programs

end TreeIndex

end CrustyDB
