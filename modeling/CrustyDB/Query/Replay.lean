import CrustyDB.Query.SortMerge

/-! # Rewinding and reopening an operator tree

Every operator tree keeps the iterator contract, in both modes (`OperatorTree.exists_contract`):
`OperatorTree.opening` is what the tree returns, computed from the leaves up.  So a tree that is
configured for it can be rewound at any time, whatever its operators are.

To close a tree and open it again is another matter.  A tuple iterator that is closed puts its position
to the end and is not put back when it is opened, and a sort-merge join drops its buffers but
remembers that its children were read.  `replays_iff` says that these two operators are the only
ones: a set of operators gives trees that can be reopened exactly if it has neither of them. -/

namespace CrustyDB

open Pull List

/-- The operators. -/
inductive OperatorKind where
  | seqScan | indexScan | tupleIterator | filter | project | crossJoin | nestedLoopJoin | hashEqJoin
  | sortMergeJoin | sort | aggregate
deriving DecidableEq, Repr

namespace OperatorTree

variable (m : Managers)

/-- The operators of a tree. -/
def kinds : OperatorTree → List OperatorKind
  | seqScan .. => [.seqScan]
  | indexScan .. => [.indexScan]
  | tupleIterator _ => [.tupleIterator]
  | filter _ child => .filter :: child.kinds
  | project _ child => .project :: child.kinds
  | crossJoin left right => .crossJoin :: (left.kinds ++ right.kinds)
  | nestedLoopJoin _ _ _ left right => .nestedLoopJoin :: (left.kinds ++ right.kinds)
  | hashEqJoin _ _ left right => .hashEqJoin :: (left.kinds ++ right.kinds)
  | sortMergeJoin _ left right => .sortMergeJoin :: (left.kinds ++ right.kinds)
  | sort _ child => .sort :: child.kinds
  | aggregate _ _ _ _ child => .aggregate :: child.kinds

/-- What the first opening of a tree comes to: the tuples it returns, or the error of the opening. -/
def opening : OperatorTree → Opening
  | seqScan containerId predicate projection =>
    .ok ((Pull.Trace.ofList (m.getIterator containerId)).filterMap (SeqScan.emit m predicate projection))
  | indexScan indexId key =>
    (ofStorage (m.search indexId key)).map (fun ids => (Pull.Trace.ofList ids).filterMap (IndexScan.emit m))
  | tupleIterator tuples => .ok (Pull.Trace.ofList tuples)
  | filter predicate child => child.opening >>= fun t => .ok (t.filterMap (Filter.emit m predicate))
  | project fields child => child.opening >>= fun t => .ok (t.filterMap (Project.emit m fields))
  | crossJoin left right => left.opening >>= fun tl => right.opening >>= fun tr =>
    openingOn tl (LoopJoin.rows (fun _ _ => .ok true) tl tr)
  | nestedLoopJoin op leftExpr rightExpr left right =>
    left.opening >>= fun tl => right.opening >>= fun tr =>
      openingOn tl (LoopJoin.rows (NestedLoopJoin.test m op leftExpr rightExpr) tl tr)
  | hashEqJoin leftExpr rightExpr left right =>
    (left.opening >>= fun tl => tl.fold (HashEqJoin.insert m leftExpr) []) >>= fun joinMap =>
      right.opening >>= fun tr => openingOn tr (HashEqJoin.rows m rightExpr joinMap tr)
  | sortMergeJoin keys left right =>
    readSorted m keys.left (keys.left.map Prod.snd) left.opening >>= fun l =>
      readSorted m keys.right (keys.right.map Prod.snd) right.opening >>= fun r =>
        .ok (Pull.Trace.ofList (SortMergeJoin.merged (keys.left.map Prod.snd) l r))
  | sort fields child =>
    readSorted m fields (fields.map (fun f => !f.2)) child.opening >>= fun data =>
      .ok (Pull.Trace.ofList (data.reverse.map Prod.snd))
  | aggregate groupbyExpr aggExpr ops _ child =>
    Aggregate.rows m groupbyExpr aggExpr ops child.opening >>= fun tuples =>
      .ok (Pull.Trace.ofList tuples)

/-- The tree has no operator that cannot be reopened. -/
def Reopenable (tree : OperatorTree) : Prop :=
  .tupleIterator ∉ tree.kinds ∧ .sortMergeJoin ∉ tree.kinds

theorem Reopenable.of_subset {tree child : OperatorTree} (h : tree.Reopenable)
    (hsub : child.kinds ⊆ tree.kinds) : child.Reopenable :=
  ⟨fun hc => h.1 (hsub hc), fun hc => h.2 (hsub hc)⟩

theorem left_subset (k : OperatorKind) (left right : OperatorTree) :
    left.kinds ⊆ k :: (left.kinds ++ right.kinds) :=
  subset_cons_of_subset k (subset_append_left _ _)

theorem right_subset (k : OperatorKind) (left right : OperatorTree) :
    right.kinds ⊆ k :: (left.kinds ++ right.kinds) :=
  subset_cons_of_subset k (subset_append_right _ _)

/-- Every tree keeps the contract, in both modes. -/
theorem exists_contract (tree : OperatorTree) (willRewind : Bool) :
    ∃ c : Contract (tree.iter m) willRewind (tree.opening m),
      c.Ready ((tree.iter m).configure willRewind tree.new) ∧ (tree.Reopenable → c.Reopens) := by
  induction tree generalizing willRewind with
  | seqScan containerId predicate projection =>
    exact ⟨SeqScan.contract m containerId predicate projection willRewind, ⟨rfl, rfl⟩,
      fun _ s hs => hs⟩
  | indexScan indexId key =>
    exact ⟨IndexScan.contract m indexId key willRewind, rfl, fun _ s hs => hs⟩
  | tupleIterator tuples =>
    refine ⟨TupleIterator.contract tuples willRewind, ⟨rfl, rfl, rfl, rfl⟩, fun h => ?_⟩
    exact absurd mem_cons_self h.1
  | filter predicate child ih =>
    obtain ⟨c, hready, hreopen⟩ := ih willRewind
    refine ⟨Filter.contract m c predicate, ⟨rfl, hready⟩, fun h s hs => ⟨hs.1, ?_⟩⟩
    exact hreopen (h.of_subset (subset_cons_self _ _)) _ hs.2
  | project fields child ih =>
    obtain ⟨c, hready, hreopen⟩ := ih willRewind
    refine ⟨Project.contract m c fields, ⟨rfl, hready⟩, fun h s hs => ⟨hs.1, ?_⟩⟩
    exact hreopen (h.of_subset (subset_cons_self _ _)) _ hs.2
  | crossJoin left right ihl ihr =>
    obtain ⟨cl, hreadyl, hreopenl⟩ := ihl willRewind
    obtain ⟨cr, hreadyr, hreopenr⟩ := ihr true
    refine ⟨CrossJoin.contract cl cr, ⟨rfl, hreadyl, hreadyr⟩, fun h s hs => ⟨hs.1, ?_, ?_⟩⟩
    · exact hreopenl (h.of_subset (left_subset _ left right)) _ hs.2.1
    · exact hreopenr (h.of_subset (right_subset _ left right)) _ hs.2.2
  | nestedLoopJoin op leftExpr rightExpr left right ihl ihr =>
    obtain ⟨cl, hreadyl, hreopenl⟩ := ihl willRewind
    obtain ⟨cr, hreadyr, hreopenr⟩ := ihr true
    refine ⟨NestedLoopJoin.contract m cl cr op leftExpr rightExpr, ⟨rfl, hreadyl, hreadyr⟩,
      fun h s hs => ⟨hs.1, ?_, ?_⟩⟩
    · exact hreopenl (h.of_subset (left_subset _ left right)) _ hs.2.1
    · exact hreopenr (h.of_subset (right_subset _ left right)) _ hs.2.2
  | hashEqJoin leftExpr rightExpr left right ihl ihr =>
    obtain ⟨cl, hreadyl, hreopenl⟩ := ihl false
    obtain ⟨cr, hreadyr, hreopenr⟩ := ihr willRewind
    refine ⟨HashEqJoin.contract m cl cr leftExpr rightExpr, ⟨rfl, rfl, hreadyl, hreadyr⟩,
      fun h s hs => ⟨hs.1, hs.2.1, ?_, ?_⟩⟩
    · exact hreopenl (h.of_subset (left_subset _ left right)) _ hs.2.2.1
    · exact hreopenr (h.of_subset (right_subset _ left right)) _ hs.2.2.2
  | sortMergeJoin keys left right ihl ihr =>
    obtain ⟨cl, hreadyl, -⟩ := ihl false
    obtain ⟨cr, hreadyr, -⟩ := ihr false
    refine ⟨SortMergeJoin.contract m cl cr keys,
      ⟨rfl, rfl, ⟨_, rfl, hreadyl⟩, ⟨_, rfl, hreadyr⟩, rfl, rfl, rfl, rfl, rfl, rfl⟩, fun h => ?_⟩
    exact absurd mem_cons_self h.2
  | sort fields child ih =>
    obtain ⟨c, hready, hreopen⟩ := ih false
    refine ⟨SortOp.contract m c fields, ⟨rfl, rfl, rfl, hready⟩,
      fun h s hs => ⟨hs.1, hs.2.1, hs.2.2.1, ?_⟩⟩
    exact hreopen (h.of_subset (subset_cons_self _ _)) _ hs.2.2.2
  | aggregate groupbyExpr aggExpr ops same_length child ih =>
    obtain ⟨c, hready, hreopen⟩ := ih false
    refine ⟨Aggregate.contract m c groupbyExpr aggExpr ops, ⟨rfl, rfl, rfl, rfl, hready⟩,
      fun h s hs => ⟨hs.1, hs.2.1, hs.2.2.1, hs.2.2.2.1, ?_⟩⟩
    exact hreopen (h.of_subset (subset_cons_self _ _)) _ hs.2.2.2.2

end OperatorTree

/-! ### The operators that cannot be reopened -/

/-- The state of a tree that is configured to be rewound. -/
def OperatorTree.configured (m : Managers) (tree : OperatorTree) : tree.State :=
  (tree.iter m).configure true tree.new

/-- What the calls of `next` return, from a state on, has one beginning. -/
theorem not_replays {σ : Type} {it : Operator σ} {s₀ : σ} (s₁ s₂ s₃ s₄ : σ) (a : Tuple)
    (hopen : Ends it.openIter s₀ (.ok () s₁)) (hfirst : Ends it.next s₁ (.ok (some a) s₂))
    (hreopen : Ends (it.reset .reopen) s₁ (.ok () s₃)) (hempty : Ends it.next s₃ (.ok none s₄)) :
    ¬ Replays it (fun _ => True) s₀ := by
  intro h
  obtain ⟨t, ht, hreplay⟩ := h s₁ hopen
  obtain ⟨s, hs, ht'⟩ := hreplay s₁ .refl .reopen trivial
  cases hreopen.unique hs
  cases t with
  | done =>
    obtain ⟨s', hs'⟩ := ht
    cases hfirst.unique hs'
  | fail e =>
    obtain ⟨s', hs'⟩ := ht
    cases hfirst.unique hs'
  | item b t =>
    obtain ⟨s', hs', -⟩ := ht'
    cases hempty.unique hs'

/-- A record of one field. -/
def oneTuple : Tuple := .new [.null]

/-- A storage that has one record in every container. -/
def oneRecord : Managers where
  floats := ⟨fun _ _ => 0, fun _ _ => 0⟩
  getIterator _ := [(.newSlot 0 0 0, oneTuple)]
  getIteratorFrom _ _ := []
  search _ _ := .ok []
  getValue _ := .ok oneTuple

/-- The only column of two tables is joined. -/
def columnKeys : MergeKeys := ⟨[(.colidx 0, true)], [(.colidx 0, true)], rfl, by simp⟩

theorem not_replays_tupleIterator (m : Managers) :
    ¬ Replays ((OperatorTree.tupleIterator [oneTuple]).iter m) (fun _ => True)
      ((OperatorTree.tupleIterator [oneTuple]).configured m) :=
  not_replays ⟨[oneTuple], true, true, 1⟩ ⟨[oneTuple], true, true, 0⟩ ⟨[oneTuple], true, true, 0⟩
    ⟨[oneTuple], true, true, 0⟩ oneTuple (Ends.of_eq (fun _ => rfl)) (Ends.of_eq (fun _ => rfl))
    (Ends.of_eq (fun _ => rfl)) (Ends.of_eq (fun _ => rfl))

/-- Opened once, a tuple iterator returns its tuple; closed and opened again, it returns nothing. -/
theorem tupleIterator_reopened_empty :
    ∃ s₁ s₂ s₃ s₄ : TupleIterator,
      Ends ((OperatorTree.tupleIterator [oneTuple]).iter oneRecord).openIter
        ((OperatorTree.tupleIterator [oneTuple]).configured oneRecord) (.ok () s₁) ∧
      Ends ((OperatorTree.tupleIterator [oneTuple]).iter oneRecord).next s₁ (.ok (some oneTuple) s₂) ∧
      Ends (((OperatorTree.tupleIterator [oneTuple]).iter oneRecord).reset .reopen) s₁ (.ok () s₃) ∧
      Ends ((OperatorTree.tupleIterator [oneTuple]).iter oneRecord).next s₃ (.ok none s₄) :=
  ⟨⟨[oneTuple], true, true, 1⟩, ⟨[oneTuple], true, true, 0⟩, ⟨[oneTuple], true, true, 0⟩,
    ⟨[oneTuple], true, true, 0⟩, Ends.of_eq (fun _ => rfl), Ends.of_eq (fun _ => rfl),
    Ends.of_eq (fun _ => rfl), Ends.of_eq (fun _ => rfl)⟩

/-- A join of two scans. -/
def scanJoin : OperatorTree :=
  .sortMergeJoin columnKeys (.seqScan 0 none none) (.seqScan 0 none none)

/-- The join after its first opening: both buffers hold the record. -/
def scanJoinOpen : SortMergeJoin SeqScan SeqScan :=
  let input : MergeInput SeqScan :=
    ⟨⟨false, none, none⟩, true, [([.null], { oneTuple with valueId := some (.newSlot 0 0 0) })]⟩
  ⟨input, input, true, true, 0, 0, 0, 0, 0, 0⟩

/-- The join after it was closed and opened again: the buffers are empty. -/
def scanJoinReopened : SortMergeJoin SeqScan SeqScan :=
  ⟨⟨⟨false, none, none⟩, true, []⟩, ⟨⟨false, none, none⟩, true, []⟩, true, true, 0, 0, 0, 0, 0, 0⟩

theorem not_replays_sortMergeJoin :
    ¬ Replays (scanJoin.iter oneRecord) (fun _ => True) (scanJoin.configured oneRecord) := by
  refine not_replays scanJoinOpen { scanJoinOpen with lEnd := 1, rEnd := 1, lCursor := 1 }
    scanJoinReopened scanJoinReopened (.new [.null, .null]) ⟨3, fun n hn => ?_⟩ ⟨3, fun n hn => ?_⟩ (Ends.of_eq (fun _ => rfl)) ⟨1, fun n hn => ?_⟩
  · obtain ⟨k, rfl⟩ := Nat.exists_eq_add_of_le' hn
    rfl
  · obtain ⟨k, rfl⟩ := Nat.exists_eq_add_of_le' hn
    rfl
  · obtain ⟨k, rfl⟩ := Nat.exists_eq_add_of_le' hn
    rfl

/-! ### What can be replayed -/

/-- Every tree can be rewound, and a set of operators (the scans always allowed) gives trees that can
be closed and opened again exactly if it has neither the tuple iterator nor the sort-merge
join. -/
theorem replays_iff (K : OperatorKind → Prop) :
    (∀ (m : Managers) (tree : OperatorTree),
      Replays (tree.iter m) (fun r => r = .rewind) (tree.configured m)) ∧
    ((∀ (m : Managers) (tree : OperatorTree),
        (∀ k ∈ tree.kinds, k = .seqScan ∨ k = .indexScan ∨ K k) →
          Replays (tree.iter m) (fun _ => True) (tree.configured m)) ↔
      ¬ K .tupleIterator ∧ ¬ K .sortMergeJoin) := by
  refine ⟨fun m tree => ?_, fun h => ⟨fun hK => ?_, fun hK => ?_⟩, fun hK m tree htree => ?_⟩
  · obtain ⟨c, hready, -⟩ := tree.exists_contract m true
    exact c.replays rfl (fun h => nomatch h) hready
  · refine not_replays_tupleIterator oneRecord (h oneRecord _ (fun k hk => ?_))
    rw [List.mem_singleton.mp hk]
    exact .inr (.inr hK)
  · refine not_replays_sortMergeJoin (h oneRecord scanJoin (fun k hk => ?_))
    obtain rfl | rfl | rfl : k = .sortMergeJoin ∨ k = .seqScan ∨ k = .seqScan := by
      simpa [scanJoin, OperatorTree.kinds] using hk
    · exact .inr (.inr hK)
    · exact .inl rfl
    · exact .inl rfl
  · obtain ⟨c, hready, hreopen⟩ := tree.exists_contract m true
    refine c.replays rfl (fun _ => hreopen ⟨fun hk => ?_, fun hk => ?_⟩) hready
    · obtain h | h | h := htree _ hk
      · cases h
      · cases h
      · exact hK.1 h
    · obtain h | h | h := htree _ hk
      · cases h
      · cases h
      · exact hK.2 h

end CrustyDB
