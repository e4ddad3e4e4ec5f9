import CrustyDB.Heap.HeapFile
import Mathlib.Data.Finset.Insert

/-! # The storage manager

The functions of `storage_manager.rs`: a buffer pool, the catalog of container files behind it, and
the table of the heap files that exist.  A heap file runs on the pool through
`BufferPool.memHandler`, which gives each call of a heap file its meaning on the frames.

* **Guards.**  A page that is held is found through the map of the pool, which does not change its
  entry as long as a guard is held (`BufferPool.held`).  A panic drops the guard of the page it happened on.
* **The table of heap files** is behind a lock, which is poisoned when a heap file cannot be created
  because of a panic; from then on every call panics.
* **Iterators** are run by one call, `take k` of the iterator, which calls `next` up to `k` times and
  drops the iterator.
* **Removing the files** of the catalog (`reset`) succeeds. -/

namespace CrustyDB

open Program

/-- The number of frames of a storage manager. -/
def bpFrames : ℕ := 1000

/-! ### Heap files on the frames -/

/-- A guard goes out of scope. -/
def BufferFrame.release (fr : BufferFrame) : BufferFrame :=
  if fr.cnt < 0 then fr.releaseExclusive else fr.releaseShared

namespace BufferPool

variable {n : ℕ} {α : Type}

/-- A request for a guard of a page, with the answer unwrapped. -/
def request (x : PoolCall n (Fin n)) (s : BufferPool n) : Except CrustyError Unit × BufferPool n :=
  match x s with
  | .ok _ s' => (.ok (), s')
  | .error .blocks s' => (.error .diverges, s')
  | .error _ s' => (.error (.panic .unwrap), s')

/-- A request for a new page, to which `f` is applied at once. -/
def requestNew (x : PoolCall n (Fin n)) (f : Page → Checked Page) (s : BufferPool n) :
    Except CrustyError (Except MemPoolStatus PageId) × BufferPool n :=
  match x s with
  | .ok i s' =>
    match f (s'.frames i).page with
    | .ok p => (.ok (.ok p.getPageId), s'.setFrame i { s'.frames i with page := p })
    | .error e => (.error (.panic e), s'.setFrame i (s'.frames i).release)
  | .error (.status e) s' => (.ok (.error e), s')
  | .error .panic s' => (.error (.panic .unwrap), s')
  | .error .blocks s' => (.error .diverges, s')

/-- The frame of a page that is held. -/
def held (key : ContainerPageId) (s : BufferPool n) : Option (Fin n) :=
  match s.pageToFrame.lookup key with
  | none => none
  | some i => if (s.frames i).cnt = 0 then none else some i

theorem held_eq_some {key : ContainerPageId} {s : BufferPool n} {i : Fin n} :
    s.held key = some i ↔ s.pageToFrame.lookup key = some i ∧ (s.frames i).cnt ≠ 0 := by
  unfold held
  cases s.pageToFrame.lookup key with
  | none => simp
  | some j =>
    dsimp only
    split_ifs with hj
    · refine ⟨fun h => (nomatch h), fun ⟨hji, hi⟩ => ?_⟩
      rw [Option.some.inj hji] at hj
      exact absurd hj hi
    · refine ⟨fun h => ⟨h, ?_⟩, fun h => h.1⟩
      rw [← Option.some.inj h]
      exact hj

/-- Drop the guard of a page. -/
def dropGuard (key : ContainerPageId) (s : BufferPool n) : Except CrustyError Unit × BufferPool n :=
  match s.held key with
  | none => (.error (.panic .unwrap), s)
  | some i => (.ok (), s.setFrame i (s.frames i).release)

/-- An operation on a page that is held. -/
def onPage (key : ContainerPageId) (f : Page → Checked (α × Page)) (s : BufferPool n) :
    Except CrustyError α × BufferPool n :=
  match s.held key with
  | none => (.error (.panic .unwrap), s)
  | some i =>
    match f (s.frames i).page with
    | .ok (a, p) => (.ok a, s.setFrame i { s.frames i with page := p })
    | .error e => (.error (.panic e), s.setFrame i (s.frames i).release)

/-- An operation that leaves the page as it is. -/
def keeps (f : Page → Checked α) (p : Page) : Checked (α × Page) := (f p).map (fun a => (a, p))

/-- The calls of a heap file on a pool. -/
def memHandler : Handler memInterface CrustyError (BufferPool n)
  | .getMaxPageId c, s => (.ok ((s.containers c).map (·.pageCount)), s)
  | .createNewPageForWrite c, s => requestNew (createNewPageForWrite c) .ok s
  | .createHeapPage c, s => requestNew (createNewPageForWrite c) Page.initHeapPage s
  | .getPageForWrite key, s => request (getPageForWrite key) s
  | .getPageForRead key, s => request (getPageForRead key) s
  | .dropWriteGuard key, s => dropGuard key s
  | .dropReadGuard key, s => dropGuard key s
  | .addValue key bytes, s => onPage key (fun p => p.addValue bytes) s
  | .getValue key slotId, s => onPage key (keeps fun p => p.getValue slotId) s
  | .updateValue key slotId bytes, s => onPage key (fun p => p.updateValue slotId bytes) s
  | .deleteValue key slotId, s => onPage key (fun p => p.deleteValue slotId) s
  | .getNumSlots key, s => onPage key (keeps Page.getNumSlots) s

end BufferPool

/-! ### The manager -/

/-- A storage manager: the pool with the catalog, and the containers that have a heap file. -/
structure StorageManager (n : ℕ) where
  bp : BufferPool n
  heapfiles : Finset ContainerId
  poisoned : Bool

/-- `unwrap` of a result. -/
def unwrapResult {α : Type} : Except CrustyError α → Except CrustyError α
  | .ok a => .ok a
  | .error (.panic p) => .error (.panic p)
  | .error .diverges => .error .diverges
  | .error _ => .error (.panic .unwrap)

/-- A call of the storage manager. -/
inductive StorageOp where
  | createTable (c : ContainerId)
  | insertValue (c : ContainerId) (value : List UInt8)
  | insertValues (c : ContainerId) (values : List (List UInt8))
  | deleteValue (id : ValueId)
  | updateValue (value : List UInt8) (id : ValueId)
  | getValue (id : ValueId)
  | iterate (c : ContainerId) (k : ℕ)
  | iterateFrom (c : ContainerId) (start : ValueId) (k : ℕ)
  | reset
  | clearCache
  | shutdown
deriving DecidableEq, Repr

/-- A call on tables and records. -/
def StorageOp.Plain : StorageOp → Prop
  | .reset | .clearCache | .shutdown => False
  | _ => True

instance (op : StorageOp) : Decidable op.Plain := by
  cases op <;> unfold StorageOp.Plain <;> infer_instance

/-- What a call returns. -/
inductive StorageAnswer where
  | done
  | id (id : ValueId)
  | ids (ids : List ValueId)
  | value (val : List UInt8)
  | records (l : List (List UInt8 × ValueId))
deriving DecidableEq, Repr

namespace StorageManager

variable {n : ℕ} {α β : Type}

/-- `StorageManager::new` over the files of a directory. -/
def new (ids : Finset ContainerId) (files : ContainerId → List Page) (disk : Disk) :
    StorageManager n :=
  ⟨.new (fun c => if c ∈ ids then some (.new (files c)) else none) disk, ids, false⟩

/-- A computation that may change the manager. -/
abbrev Call (n : ℕ) (α : Type) := StorageManager n → Except CrustyError α × StorageManager n

/-- Run a program of a heap file on the pool. -/
def onPool (x : HeapProg α) : Call n α := fun s =>
  ((run BufferPool.memHandler x s.bp).1, { s with bp := (run BufferPool.memHandler x s.bp).2 })

def getHeapfile (c : ContainerId) (s : StorageManager n) : Except CrustyError Unit :=
  if s.poisoned then .error (.panic .unwrap)
  else if c ∈ s.heapfiles then .ok ()
  else .error (.crusty ("Container " ++ toString c ++ " not found"))

/-- Look up the heap file of a container and run a program of it. -/
def onFile (c : ContainerId) (x : HeapProg α) : Call n α := fun s =>
  match s.getHeapfile c with
  | .ok _ => s.onPool x
  | .error e => (.error e, s)

/-- A call whose result is unwrapped. -/
def unwrapped (x : Call n α) : Call n α := fun s => (unwrapResult (x s).1, (x s).2)

/-- The page and the slot of a record id. -/
def pageAndSlot (id : ValueId) : Except CrustyError (PageId × SlotId) :=
  match id.pageId, id.slotId with
  | none, _ => .error (.crusty "Need page id")
  | some _, none => .error (.crusty "Need slot id")
  | some p, some s => .ok (p, s)

/-- A call on a record. -/
def onRecord (id : ValueId) (x : PageId → SlotId → HeapProg α) : Call n α := fun s =>
  match pageAndSlot id with
  | .ok (p, slot) => s.onFile id.containerId (x p slot)
  | .error e => (.error e, s)

def insertValue (c : ContainerId) (value : List UInt8) : Call n ValueId :=
  unwrapped (onFile c (HeapFile.addVal c value))

def insertValues (c : ContainerId) (values : List (List UInt8)) : Call n (List ValueId) :=
  unwrapped (onFile c (HeapFile.addVals c values))

def deleteValue (id : ValueId) : Call n Unit := onRecord id (HeapFile.deleteVal id.containerId)

def updateValue (value : List UInt8) (id : ValueId) : Call n ValueId :=
  onRecord id (fun p slot => HeapFile.updateVal id.containerId p slot value)

def getValue (id : ValueId) : Call n (List UInt8) := onRecord id (HeapFile.getVal id.containerId)

/-- Create the heap file of a container.  A panic poisons the lock of the table. -/
def createContainer (c : ContainerId) : Call n Unit := fun s =>
  if s.poisoned then (.error (.panic .unwrap), s)
  else if c ∈ s.heapfiles then (.error (.crusty "Container already exists"), s)
  else
    match s.onPool (HeapFile.new c) with
    | (.ok _, s') => (.ok (), { s' with heapfiles := insert c s'.heapfiles })
    | (.error (.panic p), s') => (.error (.panic p), { s' with poisoned := true })
    | (.error e, s') => (.error e, s')

def createTable (c : ContainerId) : Call n Unit := createContainer c

/-- Get an iterator and call `next` up to `k` times. -/
def iterate (c : ContainerId) (k : ℕ) : Call n (List (List UInt8 × ValueId)) :=
  unwrapped (onFile c ((HeapFileIter.iter c).take k))

/-- The same from a record on. -/
def iterateFrom (c : ContainerId) (start : ValueId) (k : ℕ) :
    Call n (List (List UInt8 × ValueId)) := fun s =>
  if start.containerId = c then
    unwrapped (onRecord start (fun p slot => (HeapFileIter.newFrom c p slot).take k)) s
  else (.error (.panic .unwrap), s)

/-- A call of the pool, with the answer unwrapped. -/
def onFrames (x : PoolCall n Unit) : Call n Unit := fun s =>
  match x s.bp with
  | .ok _ bp => (.ok (), { s with bp := bp })
  | .error .blocks bp => (.error .diverges, { s with bp := bp })
  | .error _ bp => (.error (.panic .unwrap), { s with bp := bp })

/-- `reset`: no heap file, an empty pool, and no containers. -/
def reset : Call n Unit := fun s =>
  if s.poisoned then (.error (.panic .unwrap), s)
  else
    match onFrames BufferPool.reset { s with heapfiles := ∅ } with
    | (.ok _, s') => (.ok (), { s' with bp := { s'.bp with containers := fun _ => none } })
    | (.error e, s') => (.error e, s')

def clearCache : Call n Unit := onFrames BufferPool.reset

def shutdown : Call n Unit := onFrames BufferPool.flushAll

/-- A call with its answer. -/
def answer (f : α → StorageAnswer) (x : Call n α) : Call n StorageAnswer := fun s =>
  ((x s).1.map f, (x s).2)

/-- The effect of a call. -/
def exec : StorageOp → Call n StorageAnswer
  | .createTable c => answer (fun _ => .done) (createTable c)
  | .insertValue c value => answer .id (insertValue c value)
  | .insertValues c values => answer .ids (insertValues c values)
  | .deleteValue id => answer (fun _ => .done) (deleteValue id)
  | .updateValue value id => answer .id (updateValue value id)
  | .getValue id => answer .value (getValue id)
  | .iterate c k => answer .records (iterate c k)
  | .iterateFrom c start k => answer .records (iterateFrom c start k)
  | .reset => answer (fun _ => .done) reset
  | .clearCache => answer (fun _ => .done) clearCache
  | .shutdown => answer (fun _ => .done) shutdown

/-- A sequence of calls with their results. -/
def execAll : List StorageOp → StorageManager n → List (Except CrustyError StorageAnswer) × StorageManager n
  | [], s => ([], s)
  | op :: ops, s => ((exec op s).1 :: (execAll ops (exec op s).2).1, (execAll ops (exec op s).2).2)

/-! ### Two managers -/

/-- Managers with related pools and the same table of heap files. -/
structure Related (R : BufferPool n → BufferPool n → Prop) (s t : StorageManager n) : Prop where
  bp : R s.bp t.bp
  heapfiles : s.heapfiles = t.heapfiles
  poisoned : s.poisoned = t.poisoned

/-- The call returns the same on related managers, and leaves them related. -/
def CallFollows (R : BufferPool n → BufferPool n → Prop) (x : Call n α) : Prop :=
  ∀ s t, Related R s t → Follows (Related R) (x s) (x t)

section Follows

variable {R : BufferPool n → BufferPool n → Prop}

theorem onPool_follows {x : HeapProg α} (hx : ∀ s t, R s t →
    Follows R (run BufferPool.memHandler x s) (run BufferPool.memHandler x t)) :
    CallFollows R (onPool x) := by
  intro s t h
  obtain ⟨hres, hbp⟩ := hx s.bp t.bp h.bp
  exact ⟨hres, hbp, h.heapfiles, h.poisoned⟩

theorem onFile_follows {x : HeapProg α} (hx : CallFollows R (onPool x)) (c : ContainerId) :
    CallFollows R (onFile c x) := by
  intro s t h
  unfold onFile getHeapfile
  rw [h.poisoned, h.heapfiles]
  split_ifs
  · exact ⟨rfl, h⟩
  · exact hx s t h
  · exact ⟨rfl, h⟩

theorem onRecord_follows {id : ValueId} {x : PageId → SlotId → HeapProg α}
    (hx : ∀ p slot, CallFollows R (onPool (x p slot))) : CallFollows R (onRecord id x) := by
  intro s t h
  unfold onRecord
  cases pageAndSlot id with
  | ok ps => exact onFile_follows (hx ps.1 ps.2) id.containerId s t h
  | error e => exact ⟨rfl, h⟩

theorem unwrapped_follows {x : Call n α} (hx : CallFollows R x) : CallFollows R (unwrapped x) := by
  intro s t h
  obtain ⟨hres, hst⟩ := hx s t h
  exact ⟨congrArg unwrapResult hres, hst⟩

theorem answer_follows {x : Call n α} (hx : CallFollows R x) (f : α → StorageAnswer) :
    CallFollows R (answer f x) := by
  intro s t h
  obtain ⟨hres, hst⟩ := hx s t h
  exact ⟨congrArg (Except.map f) hres, hst⟩

theorem iterateFrom_follows {c : ContainerId} {start : ValueId} {k : ℕ}
    (hx : ∀ p slot, CallFollows R (onPool ((HeapFileIter.newFrom c p slot).take k))) :
    CallFollows R (iterateFrom c start k) := by
  intro s t h
  unfold iterateFrom
  split_ifs
  · exact unwrapped_follows (onRecord_follows hx) s t h
  · exact ⟨rfl, h⟩

theorem createContainer_follows {c : ContainerId} (hx : CallFollows R (onPool (HeapFile.new c))) :
    CallFollows R (createContainer c) := by
  intro s t h
  unfold createContainer
  rw [h.poisoned, h.heapfiles]
  split_ifs
  · exact ⟨rfl, h⟩
  · exact ⟨rfl, h⟩
  · obtain ⟨hres, hst⟩ := hx s t h
    generalize onPool (HeapFile.new c) s = x at hres hst ⊢
    generalize onPool (HeapFile.new c) t = y at hres hst ⊢
    obtain ⟨a, u⟩ := x
    obtain ⟨b, v⟩ := y
    dsimp only at hres hst
    subst hres
    cases a with
    | ok a => exact ⟨rfl, hst.bp, congrArg (insert c) hst.heapfiles, hst.poisoned⟩
    | error e =>
      cases e with
      | panic p => exact ⟨rfl, hst.bp, hst.heapfiles, rfl⟩
      | crusty msg => exact ⟨rfl, hst⟩
      | pool msg e => exact ⟨rfl, hst⟩
      | diverges => exact ⟨rfl, hst⟩

/-- A sequence of calls returns the same results. -/
theorem execAll_follows {ops : List StorageOp} (hops : ∀ op ∈ ops, CallFollows R (exec op))
    {s t : StorageManager n} (h : Related R s t) : (execAll ops s).1 = (execAll ops t).1 := by
  induction ops generalizing s t with
  | nil => rfl
  | cons op ops ih =>
    obtain ⟨hres, hst⟩ := hops op List.mem_cons_self s t h
    have hrest := ih (fun o ho => hops o (List.mem_cons_of_mem _ ho)) hst
    rw [execAll, execAll, hres, hrest]

/-- A call on tables and records does what the programs it runs do. -/
theorem exec_follows (hx : ∀ {α : Type} (x : HeapProg α), CallFollows R (onPool x))
    {op : StorageOp} (hop : op.Plain) : CallFollows R (exec op) := by
  have hfile {α : Type} (c : ContainerId) (x : HeapProg α) := onFile_follows (hx x) c
  have hrecord {α : Type} (id : ValueId) (x : PageId → SlotId → HeapProg α) :
      CallFollows R (onRecord id x) := onRecord_follows (fun p slot => hx (x p slot))
  cases op with
  | createTable c => exact answer_follows (createContainer_follows (hx _)) _
  | insertValue c value => exact answer_follows (unwrapped_follows (hfile c _)) _
  | insertValues c values => exact answer_follows (unwrapped_follows (hfile c _)) _
  | deleteValue id => exact answer_follows (hrecord id _) _
  | updateValue value id => exact answer_follows (hrecord id _) _
  | getValue id => exact answer_follows (hrecord id _) _
  | iterate c k => exact answer_follows (unwrapped_follows (hfile c _)) _
  | iterateFrom c start k => exact answer_follows (iterateFrom_follows (fun p slot => hx _)) _
  | reset => exact hop.elim
  | clearCache => exact hop.elim
  | shutdown => exact hop.elim

end Follows

end StorageManager

end CrustyDB
