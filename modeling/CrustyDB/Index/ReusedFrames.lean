import CrustyDB.Index.TreeRuns
import CrustyDB.Storage.StorageManager

/-! # Trees in frames that have been used

A pool that is reset forgets its pages, but their bytes stay in the frames.  The pages of a tree that is
built afterwards start with the slots of the old pages, because `init_heap_page` only sets the free
space pointer.

Here the old page is the data page of a table with two records, the first of which has been deleted.
The tree puts its metadata into the slot of the first one and keeps the second one: a record that reads
as an entry is an entry of the tree (`order_lost`), and one that reads as the metadata of a leaf links
the leaf to any page (`leafChain_lost`). -/

namespace CrustyDB

open BTree Program TreeIndex List

/-- A table with two records, the first of which is deleted. -/
def twoRecords (value : List UInt8) : HeapProg Unit := do
  HeapFile.new 0
  let _ ← HeapFile.addVal 0 (List.replicate 200 0)
  let _ ← HeapFile.addVal 0 value
  HeapFile.deleteVal 0 1 0

/-- The pool after the table was filled. -/
def tablePool (value : List UInt8) : BufferPool 2 :=
  (run BufferPool.memHandler (twoRecords value)
    (BufferPool.new (fun _ => none) ⟨fun _ => none, fun _ => ""⟩)).2

/-- The bytes in its frames, which a reset leaves alone; the requests 0 and 1 take the frames in order. -/
def tableFrames (value : List UInt8) (i : ℕ) : Page :=
  ((tablePool value).frames ⟨i % 2, Nat.mod_lt i Nat.two_pos⟩).page

/-- The bytes of the first two new pages after the pool has been reset. -/
def newPages (s : BufferPool 2) (c : ContainerId) : Option (List UInt8 × List UInt8) :=
  match (do
    BufferPool.reset
    let i ← BufferPool.createNewPageForWrite c
    let j ← BufferPool.createNewPageForWrite c
    pure (i, j)) s with
  | .ok (i, j) t => some ((t.frames i).page.data, (t.frames j).page.data)
  | .error _ _ => none

/-- One insertion into a new tree. -/
def oneInsert : List TreeOp := [.insert [.bigInt 5] (.newSlot 1 1 1)]

theorem freshInserts_one : FreshInserts oneInsert := FreshInserts.of_nodup (by decide)

/-- The insertion in the frames of the table. -/
def reuse (value : List UInt8) : Except CrustyError Unit × Pool Page :=
  Pool.execOn (tableFrames value) (history cbor oneInsert) ⟨[], 0, fun _ => none⟩

theorem run_reuse {value : List UInt8} (h : (reuse value).1 = .ok ()) :
    Run cbor (tableFrames value) (fun _ => none) oneInsert (reuse value).2 := Prod.ext h rfl

/-- A leaf as a tuple. -/
def leafOf : Option (Node IndexKey ValueId PageId) →
    Option (Option PageId × Option PageId × Multiset (IndexKey × ValueId))
  | some (.leaf l r es) => some (l, r, es)
  | _ => none

theorem leaf_of_leafOf {nd : Option (Node IndexKey ValueId PageId)} {l r : Option PageId}
    {es : Multiset (IndexKey × ValueId)} (h : leafOf nd = some (l, r, es)) : nd = some (.leaf l r es) := by
  cases nd with
  | none => cases h
  | some nd =>
    cases nd with
    | leaf l' r' es' =>
      cases h
      rfl
    | inner es' => cases h

/-- A record that reads as an entry with key 5. -/
def entryRecord : List UInt8 := cbor.bytes (.leaf [.bigInt 5] (.newSlot 1 1 0))

/-- A tree of one leaf that holds the key 5 twice after it was inserted once. -/
theorem order_lost : newPages (tablePool entryRecord) 1 =
      some (((tableFrames entryRecord 0).setPageId 0).data,
        ((tableFrames entryRecord 1).setPageId 1).data) ∧
    (∀ op ∈ oneInsert, BigIntKey op.key) ∧ FreshInserts oneInsert ∧
    ∃ s : Pool Page, Run cbor (tableFrames entryRecord) (fun _ => none) oneInsert s ∧
      rootOf s.pages = some 1 ∧ Shape (storeOf cbor s.pages) 0 1 ∧
      ¬ (keysAlong (storeOf cbor s.pages) (leaves (storeOf cbor s.pages) 0 1)).Pairwise (· < ·) := by
  have ⟨hrun, hroot, hleaf⟩ : (reuse entryRecord).1 = .ok () ∧
      rootOf (reuse entryRecord).2.pages = some 1 ∧
      leafOf (storeOf cbor (reuse entryRecord).2.pages 1) =
        some (none, none, {([.bigInt 5], .newSlot 1 1 0), ([.bigInt 5], .newSlot 1 1 1)}) := by
    decide +kernel
  replace hleaf := leaf_of_leafOf hleaf
  refine ⟨eq_of_beq (by decide +kernel), bigIntKey_of_all (by decide), freshInserts_one, _,
    run_reuse hrun, hroot, ⟨_, _, _, hleaf⟩, ?_⟩
  intro hlt
  change (keysAlong (storeOf cbor (reuse entryRecord).2.pages) [1]).Pairwise (· < ·) at hlt
  unfold keysAlong at hlt
  rw [flatMap_singleton, entriesAt_leaf hleaf] at hlt
  have hnodup := Multiset.coe_nodup.mpr (hlt.imp fun h => ne_of_lt h)
  rw [Multiset.sort_eq] at hnodup
  exact absurd hnodup (by decide)

/-- A record that reads as the metadata of a leaf whose right sibling is page 1. -/
def metaRecord : List UInt8 := cbor.bytes (.metadata true none (some 1))

/-- A tree of one leaf that is its own right sibling. -/
theorem leafChain_lost : newPages (tablePool metaRecord) 1 =
      some (((tableFrames metaRecord 0).setPageId 0).data,
        ((tableFrames metaRecord 1).setPageId 1).data) ∧
    (∀ op ∈ oneInsert, BigIntKey op.key) ∧
    ∃ s : Pool Page, Run cbor (tableFrames metaRecord) (fun _ => none) oneInsert s ∧
      rootOf s.pages = some 1 ∧ Shape (storeOf cbor s.pages) 0 1 ∧
      Relation.TransGen (fun x y => rightSibling (storeOf cbor s.pages) x = some y) 1 1 := by
  have ⟨hrun, hroot, hleaf⟩ : (reuse metaRecord).1 = .ok () ∧
      rootOf (reuse metaRecord).2.pages = some 1 ∧
      leafOf (storeOf cbor (reuse metaRecord).2.pages 1) =
        some (none, some 1, {([.bigInt 5], .newSlot 1 1 1)}) := by
    decide +kernel
  replace hleaf := leaf_of_leafOf hleaf
  exact ⟨eq_of_beq (by decide +kernel), bigIntKey_of_all (by decide), _, run_reuse hrun, hroot,
    ⟨_, _, _, hleaf⟩, .single (rightSibling_leaf hleaf)⟩

end CrustyDB
