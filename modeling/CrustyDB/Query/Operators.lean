import CrustyDB.Data.Bytecode

/-! # The operators of a query

The read-only operators as pull iterators.  An operator is given by its parameters, by the methods
of its children and by a state of its own, which holds the states of the children; `open`, `next`,
`close`, `rewind` and `configure` follow the source method by method.  What the scans read from the
storage and from the indexes is the parameter `Managers`, which no read-only operator changes.

An operator tree is an `OperatorTree`: `OperatorTree.State` is the state of the whole tree and
`OperatorTree.iter` are its methods. -/

namespace CrustyDB

open Pull

inductive AggOp where
  | avg | count | max | min | sum
deriving DecidableEq, Repr

/-- The storage and the indexes, as far as the operators read them. -/
structure Managers where
  floats : Floats
  /-- The records of a container. -/
  getIterator : ContainerId → List (ValueId × Tuple)
  /-- The records of a container from a record on. -/
  getIteratorFrom : ContainerId → ValueId → List (ValueId × Tuple)
  /-- The records an index has under a key. -/
  search : ContainerId → IndexKey → Except String (List ValueId)
  getValue : ValueId → Except String Tuple

/-- An operator over a state. -/
abbrev Operator (σ : Type) := OpIterator ExecError σ Tuple

/-- A method of an operator. -/
abbrev Method (σ α : Type) := Timed ExecError σ α

def notOpened : ExecError := .abort "Operator has not been opened"

/-- The check at the start of `next` and `rewind`. -/
def require {σ : Type} (b : Bool) (e : ExecError) : EStateM ExecError σ Unit :=
  if b then pure () else throw e

/-- A result of the storage or of an index. -/
def ofStorage {α : Type} : Except String α → Except ExecError α
  | .ok a => .ok a
  | .error msg => .error (.crusty msg)

variable {σ τ α : Type} (m : Managers)

/-! ### Scans -/

structure SeqScan where
  isOpen : Bool
  /-- The last record that was returned. -/
  index : Option ValueId
  fileIter : Option (List (ValueId × Tuple))

namespace SeqScan

def new : SeqScan := ⟨false, none, none⟩

/-- The fields that are kept of a tuple; the record id is kept with them. -/
def projected (projection : Option (List ByteCodeExpr)) (tuple : Tuple) : Except ExecError Tuple :=
  match projection with
  | none => .ok tuple
  | some exprs => do
    let vals ← ByteCodeExpr.evalAll m.floats exprs tuple
    pure { Tuple.new vals with valueId := tuple.valueId }

/-- What the scan returns for a record. -/
def emit (filter : Option ByteCodeExpr) (projection : Option (List ByteCodeExpr))
    (record : ValueId × Tuple) : Except ExecError (Option Tuple) :=
  let tuple := { record.2 with valueId := some record.1 }
  match filter with
  | none => (projected m projection tuple).map some
  | some expr => do
    match ← expr.eval m.floats tuple with
    | .bool true => (projected m projection tuple).map some
    | .bool false => pure none
    | _ => .error (.abort "Filter must evaluate to a boolean")

def openIter (containerId : ContainerId) : Method SeqScan Unit := fun _ => do
  let s ← get
  if s.isOpen then pure ()
  else
    let records := match s.index with
      | some index => m.getIteratorFrom containerId index
      | none => m.getIterator containerId
    set { s with fileIter := some records, isOpen := true }

/-- One round of the loop over the file. -/
def step (filter : Option ByteCodeExpr) (projection : Option (List ByteCodeExpr)) :
    Method SeqScan (Option (Option Tuple)) := fun _ => do
  let s ← get
  match s.fileIter with
  | none => throw (.abort "File iterator should be set on open")
  | some [] => pure (some none)
  | some (record :: rest) => do
    set { s with fileIter := some rest, index := some record.1 }
    match ← attempt (emit m filter projection record) with
    | some tuple => pure (some (some tuple))
    | none => pure none

def next (filter : Option ByteCodeExpr) (projection : Option (List ByteCodeExpr)) :
    Method SeqScan (Option Tuple) := fun n => do
  let s ← get
  require s.isOpen notOpened
  loop .diverges (step m filter projection) n

def close : Method SeqScan Unit := fun _ =>
  modify (fun s => { s with fileIter := none, index := none, isOpen := false })

def rewind (containerId : ContainerId) : Method SeqScan Unit := fun _ => do
  let s ← get
  require s.isOpen notOpened
  set { s with fileIter := some (m.getIterator containerId), index := none }

def iter (containerId : ContainerId) (filter : Option ByteCodeExpr)
    (projection : Option (List ByteCodeExpr)) : Operator SeqScan :=
  ⟨fun _ s => s, openIter m containerId, next m filter projection, close, rewind m containerId⟩

end SeqScan

structure IndexScan where
  isOpen : Bool
  /-- The records under the key. -/
  found : List ValueId
  nextIdx : ℕ

namespace IndexScan

def new : IndexScan := ⟨false, [], 0⟩

def openIter (indexId : ContainerId) (key : IndexKey) : Method IndexScan Unit := fun _ => do
  let s ← get
  if s.isOpen then pure ()
  else do
    let found ← attempt (ofStorage (m.search indexId key))
    set { s with found := found, nextIdx := 0, isOpen := true }

def next : Method IndexScan (Option Tuple) := fun _ => do
  let s ← get
  require s.isOpen notOpened
  match s.found[s.nextIdx]? with
  | none => pure none
  | some id => do
    set { s with nextIdx := s.nextIdx + 1 }
    let tuple ← attempt (ofStorage (m.getValue id))
    pure (some { tuple with valueId := some id })

def close : Method IndexScan Unit := fun _ => set (⟨false, [], 0⟩ : IndexScan)

def rewind : Method IndexScan Unit := fun _ => do
  let s ← get
  require s.isOpen notOpened
  set { s with nextIdx := 0 }

def iter (indexId : ContainerId) (key : IndexKey) : Operator IndexScan :=
  ⟨fun _ s => s, openIter m indexId key, next m, close, rewind⟩

end IndexScan

/-- Take the next element from the back of a buffer, with the buffer and the position after it.  For
a later rewind the buffer is kept and the position moves; otherwise the element is removed. -/
def takeBack (willRewind : Bool) (data : List α) (index : ℕ) : Option α × List α × ℕ :=
  if willRewind then
    if index = 0 then (none, data, index) else (data[index - 1]?, data, index - 1)
  else (data.getLast?, data.dropLast, index)

structure TupleIterator where
  /-- The tuples, last one first. -/
  tuples : List Tuple
  willRewind : Bool
  isOpen : Bool
  /-- How many of the tuples are still to be returned. -/
  index : ℕ

namespace TupleIterator

def new (tuples : List Tuple) : TupleIterator := ⟨tuples.reverse, true, false, tuples.length⟩

def openIter : Method TupleIterator Unit := fun _ => modify (fun s => { s with isOpen := true })

def next : Method TupleIterator (Option Tuple) := fun _ => do
  let s ← get
  require s.isOpen notOpened
  let (t, tuples, index) := takeBack s.willRewind s.tuples s.index
  set { s with tuples := tuples, index := index }
  pure t

def close : Method TupleIterator Unit := fun _ =>
  modify (fun s => { s with index := 0, isOpen := false })

def rewind : Method TupleIterator Unit := fun _ => do
  let s ← get
  require s.isOpen notOpened
  require s.willRewind (.abort "Cannot rewind a TupleIterator with will_rewind set to false")
  set { s with index := s.tuples.length }

def iter : Operator TupleIterator :=
  ⟨fun willRewind s => { s with willRewind := willRewind }, openIter, next, close, rewind⟩

end TupleIterator

/-! ### Filter and project -/

/-- The state of an operator with one child and no buffer. -/
structure Unary (σ : Type) where
  child : σ
  isOpen : Bool

namespace Unary

/-- A call of the child. -/
def onChild (x : EStateM ExecError σ α) : EStateM ExecError (Unary σ) α :=
  zoom Unary.child (fun t s => { s with child := t }) x

def new (child : σ) : Unary σ := ⟨child, false⟩

def configure (child : Operator σ) (willRewind : Bool) (s : Unary σ) : Unary σ :=
  { s with child := child.configure willRewind s.child }

def openIter (child : Operator σ) : Method (Unary σ) Unit := fun n => do
  let s ← get
  if s.isOpen then pure ()
  else do
    onChild (child.openIter n)
    modify (fun s => { s with isOpen := true })

def close (child : Operator σ) : Method (Unary σ) Unit := fun n => do
  onChild (child.close n)
  modify (fun s => { s with isOpen := false })

def rewind (child : Operator σ) : Method (Unary σ) Unit := fun n => do
  let s ← get
  require s.isOpen notOpened
  onChild (child.rewind n)

end Unary

namespace Filter

/-- Whether a tuple is kept. -/
def emit (predicate : ByteCodeExpr) (t : Tuple) : Except ExecError (Option Tuple) := do
  match ← predicate.eval m.floats t with
  | .bool true => pure (some t)
  | .bool false => pure none
  | _ => .error (.crusty "Predicate did not evaluate to a boolean")

/-- One round of the loop over the child. -/
def step (predicate : ByteCodeExpr) (child : Operator σ) : Method (Unary σ) (Option (Option Tuple)) :=
  fun n => do
    match ← Unary.onChild (child.next n) with
    | none => pure (some none)
    | some t => do
      match ← attempt (emit m predicate t) with
      | some t => pure (some (some t))
      | none => pure none

def next (predicate : ByteCodeExpr) (child : Operator σ) : Method (Unary σ) (Option Tuple) :=
  fun n => do
    let s ← get
    require s.isOpen notOpened
    loop .diverges (step m predicate child) n

def iter (predicate : ByteCodeExpr) (child : Operator σ) : Operator (Unary σ) :=
  ⟨Unary.configure child, Unary.openIter child, next m predicate child, Unary.close child,
    Unary.rewind child⟩

end Filter

namespace Project

def emit (fields : List ByteCodeExpr) (t : Tuple) : Except ExecError (Option Tuple) := do
  let vals ← ByteCodeExpr.evalAll m.floats fields t
  pure (some (Tuple.new vals))

def next (fields : List ByteCodeExpr) (child : Operator σ) : Method (Unary σ) (Option Tuple) :=
  fun n => do
    let s ← get
    require s.isOpen notOpened
    match ← Unary.onChild (child.next n) with
    | none => pure none
    | some t => attempt (emit m fields t)

def iter (fields : List ByteCodeExpr) (child : Operator σ) : Operator (Unary σ) :=
  ⟨Unary.configure child, Unary.openIter child, next m fields child, Unary.close child,
    Unary.rewind child⟩

end Project

/-! ### Joins by nested loops -/

/-- The state of `CrossJoin` and of `NestedLoopJoin`. -/
structure LoopJoin (σ τ : Type) where
  leftChild : σ
  rightChild : τ
  isOpen : Bool
  /-- The current tuple of the left child. -/
  currentTuple : Option Tuple

namespace LoopJoin

def onLeft (x : EStateM ExecError σ α) : EStateM ExecError (LoopJoin σ τ) α :=
  zoom LoopJoin.leftChild (fun t s => { s with leftChild := t }) x

def onRight (x : EStateM ExecError τ α) : EStateM ExecError (LoopJoin σ τ) α :=
  zoom LoopJoin.rightChild (fun t s => { s with rightChild := t }) x

def new (left : σ) (right : τ) : LoopJoin σ τ := ⟨left, right, false, none⟩

/-- The right child is rewound for every left tuple. -/
def configure (left : Operator σ) (right : Operator τ) (willRewind : Bool) (s : LoopJoin σ τ) :
    LoopJoin σ τ :=
  { s with leftChild := left.configure willRewind s.leftChild
           rightChild := right.configure true s.rightChild }

def openIter (left : Operator σ) (right : Operator τ) : Method (LoopJoin σ τ) Unit := fun n => do
  let s ← get
  if s.isOpen then pure ()
  else do
    onLeft (left.openIter n)
    onRight (right.openIter n)
    let t ← onLeft (left.next n)
    modify (fun s => { s with currentTuple := t, isOpen := true })

/-- What a pair of tuples comes to. -/
def emit (test : Tuple → Tuple → Except ExecError Bool) (leftTuple rightTuple : Tuple) :
    Except ExecError (Option Tuple) :=
  (test leftTuple rightTuple).map (fun b =>
    if b then some (leftTuple.merge rightTuple) else none)

/-- One round of the loop. -/
def step (test : Tuple → Tuple → Except ExecError Bool) (left : Operator σ) (right : Operator τ) :
    Method (LoopJoin σ τ) (Option (Option Tuple)) := fun n => do
  let s ← get
  match s.currentTuple with
  | none => pure (some none)
  | some leftTuple => do
    match ← onRight (right.next n) with
    | some rightTuple => do
      match ← attempt (emit test leftTuple rightTuple) with
      | some t => pure (some (some t))
      | none => pure none
    | none => do
      onRight (right.rewind n)
      let t ← onLeft (left.next n)
      modify (fun s => { s with currentTuple := t })
      pure none

def next (closed : ExecError) (test : Tuple → Tuple → Except ExecError Bool) (left : Operator σ)
    (right : Operator τ) : Method (LoopJoin σ τ) (Option Tuple) := fun n => do
  let s ← get
  require s.isOpen closed
  loop .diverges (step test left right) n

/-- The current tuple is kept. -/
def close (left : Operator σ) (right : Operator τ) : Method (LoopJoin σ τ) Unit := fun n => do
  onLeft (left.close n)
  onRight (right.close n)
  modify (fun s => { s with isOpen := false })

def rewind (left : Operator σ) (right : Operator τ) : Method (LoopJoin σ τ) Unit := fun n => do
  onLeft (left.rewind n)
  onRight (right.rewind n)
  let t ← onLeft (left.next n)
  modify (fun s => { s with currentTuple := t })

end LoopJoin

namespace CrossJoin

/-- `rewind` does not check that the operator is open. -/
def iter (left : Operator σ) (right : Operator τ) : Operator (LoopJoin σ τ) :=
  ⟨LoopJoin.configure left right, LoopJoin.openIter left right,
    LoopJoin.next (.abort "Iterator is not open") (fun _ _ => .ok true) left right,
    LoopJoin.close left right, LoopJoin.rewind left right⟩

end CrossJoin

namespace NestedLoopJoin

/-- The condition of the join. -/
def test (op : BinaryOp) (leftExpr rightExpr : ByteCodeExpr) (leftTuple rightTuple : Tuple) :
    Except ExecError Bool := do
  let leftVal ← leftExpr.eval m.floats leftTuple
  let rightVal ← rightExpr.eval m.floats rightTuple
  compareFields op leftVal rightVal

def rewind (left : Operator σ) (right : Operator τ) : Method (LoopJoin σ τ) Unit := fun n => do
  let s ← get
  require s.isOpen notOpened
  LoopJoin.rewind left right n

def iter (op : BinaryOp) (leftExpr rightExpr : ByteCodeExpr) (left : Operator σ)
    (right : Operator τ) : Operator (LoopJoin σ τ) :=
  ⟨LoopJoin.configure left right, LoopJoin.openIter left right,
    LoopJoin.next notOpened (test m op leftExpr rightExpr) left right, LoopJoin.close left right,
    rewind left right⟩

end NestedLoopJoin

/-! ### Hash join -/

structure HashEqJoin (σ τ : Type) where
  leftChild : σ
  rightChild : τ
  isOpen : Bool
  /-- The left tuples by key; the order of the keys is never used. -/
  joinMap : List (Field × List Tuple)
  currentTuple : Option Tuple
  /-- The place of the next match in the bucket of the current tuple. -/
  currentIdx : ℕ

namespace HashEqJoin

def onLeft (x : EStateM ExecError σ α) : EStateM ExecError (HashEqJoin σ τ) α :=
  zoom HashEqJoin.leftChild (fun t s => { s with leftChild := t }) x

def onRight (x : EStateM ExecError τ α) : EStateM ExecError (HashEqJoin σ τ) α :=
  zoom HashEqJoin.rightChild (fun t s => { s with rightChild := t }) x

def new (left : σ) (right : τ) : HashEqJoin σ τ := ⟨left, right, false, [], none, 0⟩

def configure (left : Operator σ) (right : Operator τ) (willRewind : Bool) (s : HashEqJoin σ τ) :
    HashEqJoin σ τ :=
  { s with leftChild := left.configure false s.leftChild
           rightChild := right.configure willRewind s.rightChild }

/-- Put a tuple at the end of the bucket of its key. -/
def push (key : Field) (t : Tuple) : List (Field × List Tuple) → List (Field × List Tuple)
  | [] => [(key, [t])]
  | (k, bucket) :: rest =>
    if k = key then (k, bucket ++ [t]) :: rest else (k, bucket) :: push key t rest

/-- The left tuples of a key. -/
def bucket (joinMap : List (Field × List Tuple)) (key : Field) : List Tuple :=
  (joinMap.lookup key).getD []

/-- A left tuple goes into the map. -/
def insert (leftExpr : ByteCodeExpr) (joinMap : List (Field × List Tuple)) (t : Tuple) :
    Except ExecError (List (Field × List Tuple)) :=
  (leftExpr.eval m.floats t).map (fun key => push key t joinMap)

/-- A left tuple is taken in. -/
def absorb (leftExpr : ByteCodeExpr) (t : Tuple) : EStateM ExecError (HashEqJoin σ τ) Unit := do
  let s ← get
  let joinMap ← attempt (insert m leftExpr s.joinMap t)
  set { s with joinMap := joinMap }

def openIter (leftExpr : ByteCodeExpr) (left : Operator σ) (right : Operator τ) :
    Method (HashEqJoin σ τ) Unit := fun n => do
  let s ← get
  if s.isOpen then pure ()
  else do
    onLeft (left.openIter n)
    drain .diverges HashEqJoin.leftChild (fun t s => { s with leftChild := t }) left.next
      (absorb m leftExpr) n
    onRight (right.openIter n)
    let t ← onRight (right.next n)
    modify (fun s => { s with currentTuple := t, currentIdx := 0, isOpen := true })

/-- One round of the loop. -/
def step (rightExpr : ByteCodeExpr) (right : Operator τ) :
    Method (HashEqJoin σ τ) (Option (Option Tuple)) := fun n => do
  let s ← get
  match s.currentTuple with
  | none => pure (some none)
  | some rightTuple => do
    let rightKey ← attempt (rightExpr.eval m.floats rightTuple)
    match (bucket s.joinMap rightKey)[s.currentIdx]? with
    | some leftTuple => do
      set { s with currentIdx := s.currentIdx + 1 }
      pure (some (some (leftTuple.merge rightTuple)))
    | none => do
      let t ← onRight (right.next n)
      modify (fun s => { s with currentTuple := t, currentIdx := 0 })
      pure none

def next (rightExpr : ByteCodeExpr) (right : Operator τ) : Method (HashEqJoin σ τ) (Option Tuple) :=
  fun n => do
    let s ← get
    require s.isOpen notOpened
    loop .diverges (step m rightExpr right) n

def close (left : Operator σ) (right : Operator τ) : Method (HashEqJoin σ τ) Unit := fun n => do
  onLeft (left.close n)
  onRight (right.close n)
  modify (fun s => { s with joinMap := [], currentTuple := none, currentIdx := 0, isOpen := false })

def rewind (right : Operator τ) : Method (HashEqJoin σ τ) Unit := fun n => do
  let s ← get
  require s.isOpen notOpened
  onRight (right.rewind n)
  let t ← onRight (right.next n)
  modify (fun s => { s with currentTuple := t, currentIdx := 0 })

def iter (leftExpr rightExpr : ByteCodeExpr) (left : Operator σ) (right : Operator τ) :
    Operator (HashEqJoin σ τ) :=
  ⟨configure left right, openIter m leftExpr left right, next m rightExpr right, close left right,
    rewind right⟩

end HashEqJoin

/-! ### Sort -/

/-- A tuple with its sort key. -/
abbrev Keyed := List Field × Tuple

/-- The order of two keys under the ascending flags.  A key has one field for every flag; a shorter
one, which no operator makes, is put first. -/
def compareKeys : List Bool → List Field → List Field → Ordering
  | asc :: ascs, a :: as, b :: bs =>
    (if asc then compare a b else compare b a).then (compareKeys ascs as bs)
  | [], _, _ => .eq
  | _, [], [] => .eq
  | _, [], _ => .lt
  | _, _, [] => .gt

/-- The stable sort by key. -/
def sortByKey (ascs : List Bool) (data : List Keyed) : List Keyed :=
  data.insertionSort (fun a b => (compareKeys ascs a.1 b.1).isLE)

/-- A tuple goes to the end of the data, with its key. -/
def pushKeyed (exprs : List (ByteCodeExpr × Bool)) (data : List Keyed) (t : Tuple) :
    Except ExecError (List Keyed) :=
  (ByteCodeExpr.evalAll m.floats (exprs.map Prod.fst) t).map (fun key => data ++ [(key, t)])

structure SortOp (σ : Type) where
  child : σ
  willRewind : Bool
  isOpen : Bool
  sortedData : List Keyed
  /-- How many of the tuples are still to be returned. -/
  index : ℕ

namespace SortOp

def onChild (x : EStateM ExecError σ α) : EStateM ExecError (SortOp σ) α :=
  zoom SortOp.child (fun t s => { s with child := t }) x

def new (child : σ) : SortOp σ := ⟨child, true, false, [], 0⟩

def configure (child : Operator σ) (willRewind : Bool) (s : SortOp σ) : SortOp σ :=
  { s with willRewind := willRewind, child := child.configure false s.child }

def absorb (fields : List (ByteCodeExpr × Bool)) (t : Tuple) : EStateM ExecError (SortOp σ) Unit := do
  let s ← get
  let data ← attempt (pushKeyed m fields s.sortedData t)
  set { s with sortedData := data }

/-- The data is sorted in reverse, to be returned from the back. -/
def openIter (fields : List (ByteCodeExpr × Bool)) (child : Operator σ) : Method (SortOp σ) Unit :=
  fun n => do
    let s ← get
    if s.isOpen then pure ()
    else do
      onChild (child.openIter n)
      drain .diverges SortOp.child (fun t s => { s with child := t }) child.next (absorb m fields) n
      onChild (child.close n)
      modify (fun s =>
        { s with sortedData := sortByKey (fields.map (fun f => !f.2)) s.sortedData
                 index := s.sortedData.length
                 isOpen := true })

def next : Method (SortOp σ) (Option Tuple) := fun _ => do
  let s ← get
  require s.isOpen notOpened
  let (t, sortedData, index) := takeBack s.willRewind s.sortedData s.index
  set { s with sortedData := sortedData, index := index }
  pure (t.map Prod.snd)

def close (child : Operator σ) : Method (SortOp σ) Unit := fun n => do
  onChild (child.close n)
  modify (fun s => { s with sortedData := [], index := 0, isOpen := false })

def rewind : Method (SortOp σ) Unit := fun _ => do
  let s ← get
  require s.isOpen notOpened
  require s.willRewind (.abort "Cannot rewind a Sort operator with will_rewind set to false")
  set { s with index := s.sortedData.length }

def iter (fields : List (ByteCodeExpr × Bool)) (child : Operator σ) : Operator (SortOp σ) :=
  ⟨configure child, openIter m fields child, next, close child, rewind⟩

end SortOp

/-! ### Sort-merge join -/

/-- The sort keys of a sort-merge join, as its constructor accepts them. -/
structure MergeKeys where
  left : List (ByteCodeExpr × Bool)
  right : List (ByteCodeExpr × Bool)
  same_length : left.length = right.length
  left_ne_nil : left ≠ []

/-- One side of a sort-merge join: its child, and the tuples of the child once they were read. -/
structure MergeInput (σ : Type) where
  child : σ
  childRead : Bool
  sortedData : List Keyed

namespace MergeInput

def onChild (x : EStateM ExecError σ α) : EStateM ExecError (MergeInput σ) α :=
  zoom MergeInput.child (fun t s => { s with child := t }) x

def absorb (exprs : List (ByteCodeExpr × Bool)) (t : Tuple) : EStateM ExecError (MergeInput σ) Unit := do
  let s ← get
  let data ← attempt (pushKeyed m exprs s.sortedData t)
  set { s with sortedData := data }

/-- Read and sort the child, once. -/
def read (exprs : List (ByteCodeExpr × Bool)) (child : Operator σ) : Method (MergeInput σ) Unit :=
  fun n => do
    let s ← get
    if s.childRead then pure ()
    else do
      onChild (child.openIter n)
      drain .diverges MergeInput.child (fun t s => { s with child := t }) child.next (absorb m exprs) n
      onChild (child.close n)
      modify (fun s =>
        { s with childRead := true, sortedData := sortByKey (exprs.map Prod.snd) s.sortedData })

end MergeInput

structure SortMergeJoin (σ τ : Type) where
  left : MergeInput σ
  right : MergeInput τ
  willRewind : Bool
  isOpen : Bool
  lFirst : ℕ
  rFirst : ℕ
  lEnd : ℕ
  rEnd : ℕ
  lCursor : ℕ
  rCursor : ℕ

namespace SortMergeJoin

def onLeft (x : EStateM ExecError (MergeInput σ) α) : EStateM ExecError (SortMergeJoin σ τ) α :=
  zoom SortMergeJoin.left (fun t s => { s with left := t }) x

def onRight (x : EStateM ExecError (MergeInput τ) α) : EStateM ExecError (SortMergeJoin σ τ) α :=
  zoom SortMergeJoin.right (fun t s => { s with right := t }) x

def new (left : σ) (right : τ) : SortMergeJoin σ τ :=
  ⟨⟨left, false, []⟩, ⟨right, false, []⟩, true, false, 0, 0, 0, 0, 0, 0⟩

def configure (left : Operator σ) (right : Operator τ) (willRewind : Bool)
    (s : SortMergeJoin σ τ) : SortMergeJoin σ τ :=
  { s with willRewind := willRewind
           left := { s.left with child := left.configure false s.left.child }
           right := { s.right with child := right.configure false s.right.child } }

def openIter (keys : MergeKeys) (left : Operator σ) (right : Operator τ) :
    Method (SortMergeJoin σ τ) Unit := fun n => do
  let s ← get
  if s.isOpen then pure ()
  else do
    onLeft (MergeInput.read m keys.left left n)
    onRight (MergeInput.read m keys.right right n)
    modify (fun s => { s with isOpen := true })

/-- Where a run of keys equal to the given one ends, if it starts at a position. -/
def runEnd (ascs : List Bool) (key : List Field) (data : List Keyed) (start : ℕ) : ℕ :=
  start + ((data.drop start).takeWhile (fun t => compareKeys ascs key t.1 = .eq)).length

/-- The search for the next pair of equal keys, from a pair of positions on: where it ends, and
whether there is one.  Every round advances, so as many rounds as there are tuples are enough. -/
def seek (ascs : List Bool) (left right : List Keyed) : ℕ → ℕ → ℕ → ℕ × ℕ × Bool
  | 0, l, r => (l, r, false)
  | rounds + 1, l, r =>
    match left[l]?, right[r]? with
    | some a, some b =>
      match compareKeys ascs a.1 b.1 with
      | .lt => seek ascs left right rounds (l + 1) r
      | .gt => seek ascs left right rounds l (r + 1)
      | .eq => (l, r, true)
    | _, _ => (l, r, false)

/-- The next range of equal keys. -/
def nextRange (ascs : List Bool) (s : SortMergeJoin σ τ) : SortMergeJoin σ τ :=
  match seek ascs s.left.sortedData s.right.sortedData
      (s.left.sortedData.length + s.right.sortedData.length + 1) s.lFirst s.rFirst with
  | (l, r, false) => { s with lFirst := l, rFirst := r }
  | (l, r, true) =>
    match s.left.sortedData[l]?, s.right.sortedData[r]? with
    | some a, some b =>
      { s with lFirst := l, rFirst := r
               lEnd := runEnd ascs a.1 s.left.sortedData l
               rEnd := runEnd ascs b.1 s.right.sortedData r
               lCursor := l, rCursor := r }
    | _, _ => { s with lFirst := l, rFirst := r }

/-- Leave the current range; without a later rewind its tuples are removed. -/
def leaveRange (s : SortMergeJoin σ τ) : Except ExecError (SortMergeJoin σ τ) :=
  if s.willRewind then
    .ok { s with lFirst := s.lEnd, lCursor := s.lEnd, rFirst := s.rEnd, rCursor := s.rEnd }
  else if s.left.sortedData.length < s.lEnd ∨ s.right.sortedData.length < s.rEnd then
    .error (.panic .index)
  else
    .ok { s with left := { s.left with sortedData := s.left.sortedData.drop s.lEnd }
                 lFirst := 0, lEnd := 0, lCursor := 0
                 right := { s.right with sortedData := s.right.sortedData.drop s.rEnd }
                 rFirst := 0, rEnd := 0, rCursor := 0 }

/-- The cursors after a pair was returned. -/
def advance (s : SortMergeJoin σ τ) : SortMergeJoin σ τ :=
  if s.rCursor + 1 = s.rEnd then { s with rCursor := s.rFirst, lCursor := s.lCursor + 1 }
  else { s with rCursor := s.rCursor + 1 }

/-- One round of the loop. -/
def step (ascs : List Bool) : Method (SortMergeJoin σ τ) (Option (Option Tuple)) := fun _ => do
  let s ← get
  if s.lFirst ≤ s.lCursor ∧ s.lCursor < s.lEnd ∧ s.rFirst ≤ s.rCursor ∧ s.rCursor < s.rEnd then
    match s.left.sortedData[s.lCursor]?, s.right.sortedData[s.rCursor]? with
    | some l, some r => do
      set s.advance
      pure (some (some (l.2.merge r.2)))
    | _, _ => throw (.panic .index)
  else do
    let s ← attempt s.leaveRange
    let s := s.nextRange ascs
    set s
    if s.lFirst = s.left.sortedData.length ∨ s.rFirst = s.right.sortedData.length then
      pure (some none)
    else pure none

def next (keys : MergeKeys) : Method (SortMergeJoin σ τ) (Option Tuple) := fun n => do
  let s ← get
  require s.isOpen notOpened
  loop .diverges (step (keys.left.map Prod.snd)) n

/-- The ends of the ranges, the cursors and the flags of the children are kept. -/
def close : Method (SortMergeJoin σ τ) Unit := fun _ =>
  modify (fun s =>
    { s with rFirst := 0, lFirst := 0, right := { s.right with sortedData := [] }
             left := { s.left with sortedData := [] }, isOpen := false })

def rewind : Method (SortMergeJoin σ τ) Unit := fun _ => do
  let s ← get
  require s.isOpen notOpened
  set { s with lFirst := 0, lEnd := 0, lCursor := 0, rFirst := 0, rEnd := 0, rCursor := 0 }

def iter (keys : MergeKeys) (left : Operator σ) (right : Operator τ) :
    Operator (SortMergeJoin σ τ) :=
  ⟨configure left right, openIter m keys left right, next keys, close, rewind⟩

end SortMergeJoin

/-! ### Aggregate -/

/-- A group: its key, the number of its tuples and the accumulated values. -/
abbrev Group := List Field × ℕ × List Field

structure Aggregate (σ : Type) where
  child : σ
  willRewind : Bool
  isOpen : Bool
  acc : List Group
  accIter : List Tuple
  index : ℕ

namespace Aggregate

def onChild (x : EStateM ExecError σ α) : EStateM ExecError (Aggregate σ) α :=
  zoom Aggregate.child (fun t s => { s with child := t }) x

def new (child : σ) : Aggregate σ := ⟨child, true, false, [], [], 0⟩

def configure (child : Operator σ) (willRewind : Bool) (s : Aggregate σ) : Aggregate σ :=
  { s with willRewind := willRewind, child := child.configure false s.child }

/-- The accumulated value after another value. -/
def mergeFields (op : AggOp) (fieldVal acc : Field) : Except ExecError Field :=
  match op with
  | .count => acc.add (.bigInt 1)
  | .max => .ok (max acc fieldVal)
  | .min => .ok (min acc fieldVal)
  | .sum | .avg => acc.add fieldVal

def mergeAll : List AggOp → List Field → List Field → Except ExecError (List Field)
  | op :: ops, val :: vals, acc :: accs => do
    let merged ← mergeFields op val acc
    let rest ← mergeAll ops vals accs
    pure (merged :: rest)
  | [], _, _ => .ok []
  | _, _, _ => .error (.panic .index)

/-- The first value of a group. -/
def initial (op : AggOp) (val : Field) : Field :=
  match op with
  | .count => .bigInt 1
  | _ => val

/-- Merge the values into the group with the key, or add a group. -/
def mergeIntoGroup (ops : List AggOp) (key vals : List Field) :
    List Group → Except ExecError (List Group)
  | [] => .ok [(key, 1, List.zipWith initial ops vals)]
  | (k, count, accs) :: groups =>
    if k = key then do
      let accs ← mergeAll ops vals accs
      pure ((k, count + 1, accs) :: groups)
    else do
      let rest ← mergeIntoGroup ops key vals groups
      pure ((k, count, accs) :: rest)

def mergeTupleIntoGroup (groupbyExpr aggExpr : List ByteCodeExpr) (ops : List AggOp)
    (acc : List Group) (tuple : Tuple) : Except ExecError (List Group) := do
  let groupKey ← ByteCodeExpr.evalAll m.floats groupbyExpr tuple
  let aggVals ← ByteCodeExpr.evalAll m.floats aggExpr tuple
  mergeIntoGroup ops groupKey aggVals acc

/-- The value of an aggregate at the end: the mean has four digits behind the point. -/
def finalAgg (count : ℕ) (op : AggOp) (val : Field) : Except ExecError Field :=
  match op with
  | .avg =>
    match val with
    | .bigInt v => .ok (.decimal (m.floats.mean v.toInt count) 4)
    | .int v => .ok (.decimal (m.floats.mean v.toInt count) 4)
    | .smallInt v => .ok (.decimal (m.floats.mean v.toInt count) 4)
    | _ => .error (.abort "AVG requires numeric fields")
  | _ => .ok val

/-- The tuple of a group. -/
def groupTuple (ops : List AggOp) (group : Group) : Except ExecError Tuple := do
  let vals ← (ops.zip group.2.2).mapM (fun p => finalAgg m group.2.1 p.1 p.2)
  pure (Tuple.new (group.1 ++ vals))

/-- The tuples of the groups, in the order of the keys. -/
def groupTuples (ops : List AggOp) (acc : List Group) : Except ExecError (List Tuple) :=
  (acc.insertionSort (fun a b => a.1 ≤ b.1)).mapM (groupTuple m ops)

def absorb (groupbyExpr aggExpr : List ByteCodeExpr) (ops : List AggOp) (t : Tuple) :
    EStateM ExecError (Aggregate σ) Unit := do
  let s ← get
  let acc ← attempt (mergeTupleIntoGroup m groupbyExpr aggExpr ops s.acc t)
  set { s with acc := acc }

def openIter (groupbyExpr aggExpr : List ByteCodeExpr) (ops : List AggOp) (child : Operator σ) :
    Method (Aggregate σ) Unit := fun n => do
  let s ← get
  if s.isOpen then pure ()
  else do
    onChild (child.openIter n)
    drain .diverges Aggregate.child (fun t s => { s with child := t }) child.next
      (absorb m groupbyExpr aggExpr ops) n
    let s ← get
    let tuples ← attempt (groupTuples m ops s.acc)
    set { s with accIter := s.accIter ++ tuples, index := 0, isOpen := true }

def next : Method (Aggregate σ) (Option Tuple) := fun _ => do
  let s ← get
  require s.isOpen notOpened
  match s.accIter[s.index]? with
  | some t => do
    set { s with index := s.index + 1 }
    pure (some t)
  | none => pure none

def close (child : Operator σ) : Method (Aggregate σ) Unit := fun n => do
  onChild (child.close n)
  modify (fun s => { s with acc := [], accIter := [], index := 0, isOpen := false })

def rewind : Method (Aggregate σ) Unit := fun _ => do
  let s ← get
  require s.isOpen notOpened
  require s.willRewind (.abort "Cannot rewind a Aggregate with will_rewind set to false")
  set { s with index := 0 }

def iter (groupbyExpr aggExpr : List ByteCodeExpr) (ops : List AggOp) (child : Operator σ) :
    Operator (Aggregate σ) :=
  ⟨configure child, openIter m groupbyExpr aggExpr ops child, next, close child, rewind⟩

end Aggregate

/-! ### Operator trees -/

/-- A tree of read-only operators. -/
inductive OperatorTree where
  | seqScan (containerId : ContainerId) (filter : Option ByteCodeExpr)
      (projection : Option (List ByteCodeExpr))
  | indexScan (indexId : ContainerId) (key : IndexKey)
  | tupleIterator (tuples : List Tuple)
  | filter (predicate : ByteCodeExpr) (child : OperatorTree)
  | project (fields : List ByteCodeExpr) (child : OperatorTree)
  | crossJoin (left right : OperatorTree)
  | nestedLoopJoin (op : BinaryOp) (leftExpr rightExpr : ByteCodeExpr) (left right : OperatorTree)
  | hashEqJoin (leftExpr rightExpr : ByteCodeExpr) (left right : OperatorTree)
  | sortMergeJoin (keys : MergeKeys) (left right : OperatorTree)
  | sort (fields : List (ByteCodeExpr × Bool)) (child : OperatorTree)
  /-- The constructor asserts that there is one operation for every aggregated field. -/
  | aggregate (groupbyExpr aggExpr : List ByteCodeExpr) (ops : List AggOp)
      (same_length : ops.length = aggExpr.length) (child : OperatorTree)

namespace OperatorTree

/-- The state of the operators of a tree. -/
def State : OperatorTree → Type
  | seqScan .. => SeqScan
  | indexScan .. => IndexScan
  | tupleIterator _ => TupleIterator
  | filter _ child => Unary child.State
  | project _ child => Unary child.State
  | crossJoin left right => LoopJoin left.State right.State
  | nestedLoopJoin _ _ _ left right => LoopJoin left.State right.State
  | hashEqJoin _ _ left right => HashEqJoin left.State right.State
  | sortMergeJoin _ left right => SortMergeJoin left.State right.State
  | sort _ child => SortOp child.State
  | aggregate _ _ _ _ child => Aggregate child.State

/-- The tree as it is constructed. -/
def new : (tree : OperatorTree) → tree.State
  | seqScan .. => SeqScan.new
  | indexScan .. => IndexScan.new
  | tupleIterator tuples => TupleIterator.new tuples
  | filter _ child => Unary.new child.new
  | project _ child => Unary.new child.new
  | crossJoin left right => LoopJoin.new left.new right.new
  | nestedLoopJoin _ _ _ left right => LoopJoin.new left.new right.new
  | hashEqJoin _ _ left right => HashEqJoin.new left.new right.new
  | sortMergeJoin _ left right => SortMergeJoin.new left.new right.new
  | sort _ child => SortOp.new child.new
  | aggregate _ _ _ _ child => Aggregate.new child.new

/-- The methods of the operator at the top of the tree. -/
def iter : (tree : OperatorTree) → Operator tree.State
  | seqScan containerId predicate projection => SeqScan.iter m containerId predicate projection
  | indexScan indexId key => IndexScan.iter m indexId key
  | tupleIterator _ => TupleIterator.iter
  | filter predicate child => Filter.iter m predicate child.iter
  | project fields child => Project.iter m fields child.iter
  | crossJoin left right => CrossJoin.iter left.iter right.iter
  | nestedLoopJoin op leftExpr rightExpr left right =>
    NestedLoopJoin.iter m op leftExpr rightExpr left.iter right.iter
  | hashEqJoin leftExpr rightExpr left right =>
    HashEqJoin.iter m leftExpr rightExpr left.iter right.iter
  | sortMergeJoin keys left right => SortMergeJoin.iter m keys left.iter right.iter
  | sort fields child => SortOp.iter m fields child.iter
  | aggregate groupbyExpr aggExpr ops _ child =>
    Aggregate.iter m groupbyExpr aggExpr ops child.iter

end OperatorTree

end CrustyDB
