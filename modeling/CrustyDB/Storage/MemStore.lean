import CrustyDB.Data.Value
import CrustyDB.Lib.Stateful

/-! # The storage manager in main memory

The functions of `memstore`: a container is a map from record ids to bytes, the slot of the next
record comes from a second map with the id of the last one, and the containers are written to files
when the manager is shut down and read back when it is created again.

* **Slots** are `u16`; the addition that gives the next one panics when it overflows.
* **Locks.**  A panic of `insertValue` happens while it holds the locks of the maps for writing, so
  it poisons them, and from then on every call that needs them panics.
* **Files.**  The library that turns a container into bytes and back is a parameter (`Serde`), which
  reads back a container it has written, with the records in any order (`Serde.RoundTrips`).
  Creating the directory and the files succeeds.
* **Iterators** are run by one call, which calls `next` up to `k` times. -/

namespace CrustyDB

open Stateful

/-- The records of a container. -/
abbrev ContainerMap := AList (fun _ : ValueId => List UInt8)

/-- How a container is turned into the bytes of a file, and a file into a container. -/
structure Serde where
  toWriter : ContainerMap → List UInt8
  fromReader : List UInt8 → Option ContainerMap

/-- A container that is written is read back, in some order. -/
def Serde.RoundTrips (serde : Serde) : Prop :=
  ∀ vals, ∃ vals', serde.fromReader (serde.toWriter vals) = some vals' ∧
    vals'.entries.Perm vals.entries

/-- Why a call gives no answer. -/
inductive MemError where
  | crusty (msg : String)
  | execution (msg : String)
  | panic (msg : String)
deriving DecidableEq, Repr

/-- The manager with the files in its directory. -/
structure MemStore where
  containers : AList (fun _ : ContainerId => ContainerMap)
  lastInsert : AList (fun _ : ContainerId => ValueId)
  containerNames : AList (fun _ : String => ContainerId)
  /-- Whether there is a directory to persist the containers in. -/
  persisted : Bool
  files : AList (fun _ : ContainerId => List UInt8)
  poisoned : Bool

abbrev MemCall := EStateM MemError MemStore

/-- `ValueId::new`. -/
def ValueId.new (c : ContainerId) : ValueId := ⟨c, none, none, none⟩

/-- The id of the record in a slot of a container in main memory. -/
def ValueId.memSlot (c : ContainerId) (slot : SlotId) : ValueId := ⟨c, none, none, some slot⟩

/-- A record id as it is shown in messages. -/
def ValueId.debug (id : ValueId) : String :=
  "<c_id:" ++ toString id.containerId ++
    id.segmentId.elim "" (fun s => ",seg_id:" ++ toString s) ++
    id.pageId.elim "" (fun p => ",p_id:" ++ toString p) ++
    id.slotId.elim "" (fun s => ",slot_id:" ++ toString s) ++ ">"

/-- `slot + 1`. -/
def nextU16 (slot : SlotId) : Except String SlotId :=
  if slot.toNat + 1 < 65536 then .ok (slot + 1) else .error "attempt to add with overflow"

/-! ### Iterators -/

/-- An iterator over a container. -/
structure MemIterator where
  tracker : ValueId
  max : SlotId
  current : SlotId

namespace MemIterator

def new (c : ContainerId) (max : SlotId) : MemIterator := ⟨.memSlot c 0, max, 0⟩

/-- Both counters go on by one. -/
def advance (it : MemIterator) : Except String MemIterator :=
  match it.tracker.slotId with
  | none => .error "called Option::unwrap() on a None value"
  | some slot => do
    let slot ← nextU16 slot
    let current ← nextU16 it.current
    pure { it with tracker := { it.tracker with slotId := some slot }, current := current }

theorem advance_current {it it' : MemIterator} (h : it.advance = .ok it') :
    it'.current.toNat = it.current.toNat + 1 := by
  have hnext : ∀ {slot slot' : SlotId}, nextU16 slot = .ok slot' → slot'.toNat = slot.toNat + 1 := by
    intro slot slot' hs
    unfold nextU16 at hs
    split_ifs at hs with hlt
    rw [← Except.ok.inj hs, UInt16.toNat_add]
    exact Nat.mod_eq_of_lt hlt
  unfold advance at h
  cases hslot : it.tracker.slotId with
  | none =>
    rw [hslot] at h
    cases h
  | some slot =>
    rw [hslot] at h
    cases h₁ : nextU16 slot with
    | error msg =>
      simp only [h₁] at h
      cases h
    | ok slot' =>
      cases h₂ : nextU16 it.current with
      | error msg =>
        simp only [h₁, h₂] at h
        cases h
      | ok current =>
        simp only [h₁, h₂] at h
        rw [← Except.ok.inj h]
        exact hnext h₂

/-- The next record. -/
def next (vals : ContainerMap) (it : MemIterator) :
    Except String (Option (List UInt8 × ValueId) × MemIterator) :=
  if it.current ≤ it.max then
    match vals.lookup it.tracker with
    | some res => do
      let it ← it.advance
      pure (some (res, it.tracker), it)
    | none =>
      match _hit : it.advance with
      | .error msg => .error msg
      | .ok it' => next vals it'
  else .ok (none, it)
termination_by 65536 - it.current.toNat
decreasing_by
  have hcur := advance_current _hit
  have hlt := it'.current.toNat_lt
  omega

/-- The records that up to `k` calls of `next` give. -/
def take (vals : ContainerMap) : ℕ → MemIterator → Except String (List (List UInt8 × ValueId))
  | 0, _ => .ok []
  | k + 1, it => do
    match ← next vals it with
    | (none, _) => pure []
    | (some record, it) => do pure (record :: (← take vals k it))

end MemIterator

/-! ### The calls -/

namespace MemStore

/-- `StorageManager::new` without a directory yet, or `new_test_sm`. -/
def new (persisted : Bool) : MemStore := ⟨∅, ∅, ∅, persisted, ∅, false⟩

/-- A call that takes the lock of the containers. -/
def locked {α : Type} (x : MemStore → MemCall α) : MemCall α := do
  let s ← get
  if s.poisoned then throw (.panic "PoisonError") else x s

/-- A panic with the maps locked for writing. -/
def poison {α : Type} (msg : String) : MemCall α := do
  modify fun s => { s with poisoned := true }
  throw (.panic msg)

/-- The slot for the next record. -/
def nextSlot (last : Option ValueId) : Except String SlotId :=
  match last with
  | none => .ok 0
  | some id =>
    match id.slotId with
    | none => .error "Missing SlotId"
    | some slot => nextU16 slot

def insertValue (c : ContainerId) (value : List UInt8) : MemCall ValueId :=
  locked fun s =>
    match s.containers.lookup c with
    | none => poison "Container ID Missing on insert"
    | some vals =>
      match nextSlot (s.lastInsert.lookup c) with
      | .error msg => poison msg
      | .ok slot => do
        set { s with
          containers := s.containers.insert c (vals.insert (.memSlot c slot) value)
          lastInsert := s.lastInsert.insert c (.memSlot c slot) }
        pure (.memSlot c slot)

def insertValues (c : ContainerId) : List (List UInt8) → MemCall (List ValueId)
  | [] => pure []
  | value :: values => do
    let id ← insertValue c value
    pure (id :: (← insertValues c values))

def deleteValue (id : ValueId) : MemCall Unit :=
  locked fun s =>
    match s.containers.lookup id.containerId with
    | none => throw (.crusty "File ID not found for recordID")
    | some vals => set { s with containers := s.containers.insert id.containerId (vals.erase id) }

def updateValue (value : List UInt8) (id : ValueId) : MemCall ValueId := do
  deleteValue id
  insertValue id.containerId value

/-- The part of `create_container` after the name is entered. -/
def addContainer (c : ContainerId) : MemCall Unit :=
  locked fun s =>
    match s.containers.lookup c with
    | some _ => pure ()
    | none => set { s with containers := s.containers.insert c ∅ }

def createContainer (c : ContainerId) (name : Option String) (dependencies : Option (List ContainerId)) :
    MemCall Unit := do
  match name with
  | none => pure ()
  | some cName => do
    let s ← get
    match s.containerNames.lookup cName with
    | some _ => throw (.execution "Container with name already exists")
    | none => set { s with containerNames := s.containerNames.insert cName c }
  if dependencies.isSome then throw (.panic "not implemented") else addContainer c

def createTable (c : ContainerId) : MemCall Unit := createContainer c none none

/-- `remove_container`.  The id of the last record is kept. -/
def removeContainer (c : ContainerId) : MemCall Unit :=
  locked fun s => set { s with containers := s.containers.erase c }

/-- An iterator of a container, with the records it reads. -/
def getIterator (c : ContainerId) : MemCall (ContainerMap × MemIterator) :=
  locked fun s =>
    match s.containers.lookup c with
    | none => throw (.panic "called Option::unwrap() on a None value")
    | some vals =>
      let max := (((s.lastInsert.lookup c).getD (.new c)).slotId).getD 0
      pure (vals, .new c max)

/-- What up to `k` calls of `next` on a new iterator give. -/
def iterate (c : ContainerId) (k : ℕ) : MemCall (List (List UInt8 × ValueId)) := do
  let it ← getIterator c
  match it.2.take it.1 k with
  | .ok records => pure records
  | .error msg => throw (.panic msg)

def getValue (id : ValueId) : MemCall (List UInt8) :=
  locked fun s =>
    match s.containers.lookup id.containerId with
    | none => throw (.execution ("File ID not found " ++ id.debug))
    | some vals =>
      match vals.lookup id with
      | none => throw (.execution ("Record ID not found " ++ id.debug))
      | some value => pure value

def reset : MemCall Unit :=
  locked fun s => set { s with containers := ∅, lastInsert := ∅, containerNames := ∅ }

section Persistence

variable (serde : Serde)

/-- The files after the containers are written. -/
def persist (files : AList (fun _ : ContainerId => List UInt8)) :
    List (Sigma fun _ : ContainerId => ContainerMap) → AList (fun _ : ContainerId => List UInt8)
  | [] => files
  | ⟨c, vals⟩ :: rest => persist (files.insert c (serde.toWriter vals)) rest

/-- `shutdown`.  Files of containers that do not exist any more stay in the directory. -/
def shutdown : MemCall Unit := do
  let s ← get
  if s.persisted then
    locked fun s => set { s with files := persist serde s.files s.containers.entries }
  else pure ()

/-- A round of the loop that looks for the highest slot. -/
def higherKey (maxVal key : ValueId) : ValueId :=
  match key.slotId with
  | none => maxVal
  | some slot => if maxVal.slotId.getD 0 < slot then key else maxVal

/-- The key with the highest slot, starting from slot 0 of the container. -/
def maxKey (c : ContainerId) (keys : List ValueId) : ValueId := keys.foldl higherKey (.memSlot c 0)

/-- The containers in the files and their last ids. -/
def readFiles : List (Sigma fun _ : ContainerId => List UInt8) →
    AList (fun _ : ContainerId => ContainerMap) → AList (fun _ : ContainerId => ValueId) →
    Except String (AList (fun _ : ContainerId => ContainerMap) × AList (fun _ : ContainerId => ValueId))
  | [], containerMap, lastIns => .ok (containerMap, lastIns)
  | ⟨c, bytes⟩ :: rest, containerMap, lastIns =>
    match serde.fromReader bytes with
    | none => .error "cannot read file"
    | some container =>
      readFiles rest (containerMap.insert c container)
        (lastIns.insert c (maxKey c container.keys))

/-- The manager is dropped and created again over its directory. -/
def load : MemCall Unit := do
  let s ← get
  match readFiles serde s.files.entries ∅ ∅ with
  | .error msg => throw (.panic msg)
  | .ok (containers, lastInsert) =>
    set (⟨containers, lastInsert, ∅, s.persisted, s.files, false⟩ : MemStore)

end Persistence

end MemStore

/-- What is done with a manager. -/
inductive MemStoreOp where
  | insertValue (c : ContainerId) (value : List UInt8)
  | insertValues (c : ContainerId) (values : List (List UInt8))
  | deleteValue (id : ValueId)
  | updateValue (value : List UInt8) (id : ValueId)
  | createContainer (c : ContainerId) (name : Option String) (dependencies : Option (List ContainerId))
  | createTable (c : ContainerId)
  | removeContainer (c : ContainerId)
  | iterate (c : ContainerId) (k : ℕ)
  | getValue (id : ValueId)
  | reset
  | clearCache
  | shutdown
  | load
deriving DecidableEq, Repr

/-- The effect of a call; what it answers is of no concern here. -/
def MemStoreOp.exec (serde : Serde) : MemStoreOp → MemCall Unit
  | insertValue c value => do let _ ← MemStore.insertValue c value
  | insertValues c values => do let _ ← MemStore.insertValues c values
  | deleteValue id => MemStore.deleteValue id
  | updateValue value id => do let _ ← MemStore.updateValue value id
  | createContainer c name dependencies => MemStore.createContainer c name dependencies
  | createTable c => MemStore.createTable c
  | removeContainer c => MemStore.removeContainer c
  | iterate c k => do let _ ← MemStore.iterate c k
  | getValue id => do let _ ← MemStore.getValue id
  | reset => MemStore.reset
  | clearCache => pure ()
  | shutdown => MemStore.shutdown serde
  | load => MemStore.load serde

namespace MemStore

/-- The manager after a call, which may have failed or panicked. -/
def after (serde : Serde) (s : MemStore) (op : MemStoreOp) : MemStore :=
  match op.exec serde s with
  | .ok _ t => t
  | .error _ t => t

/-- The manager after a run. -/
def run (serde : Serde) (s : MemStore) (ops : List MemStoreOp) : MemStore := ops.foldl (after serde) s

end MemStore

end CrustyDB
