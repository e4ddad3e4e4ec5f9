import CrustyDB.Query.Replay

/-! # The three equi-joins agree

A nested loop join with `=`, a hash join and a sort-merge join of the same inputs on the same keys return
the same bag of tuples: every concatenation of a left and a right tuple with equal keys, and then the
end (`equiJoins_agree`).  The inputs are any two operators that keep the iterator contract.

The nested loop join makes the pairs from the left, the hash join from the right, and the sort-merge
join is a merge of two sorted lists; the order of keys under the ascending flags is a total preorder in
which two keys are equal exactly if their fields are (`compareKeys_eq_iff`).  A sort on its own returns
its input in that order (`sort_returns`). -/

namespace CrustyDB

open Pull MergeJoin List Pull.Trace Std.TransCmp

variable {σ τ : Type} (m : Managers)

/-! ### The order of keys -/

instance : Std.TransOrd Field :=
  have h : ∀ (α : Type) [LinearOrder α], Std.TransOrd α := fun _ => inferInstance
  h Field

instance : Std.LawfulEqOrd Field :=
  have h : ∀ (α : Type) [LinearOrder α], Std.LawfulEqOrd α := fun _ => inferInstance
  h Field

/-- The order of two fields under an ascending flag. -/
def compareField (asc : Bool) (a b : Field) : Ordering := if asc then compare a b else compare b a

instance (asc : Bool) : Std.TransCmp (compareField asc) where
  eq_swap := by
    intro a b
    cases asc with
    | true =>
      change compare a b = (compare b a).swap
      exact Std.OrientedCmp.eq_swap
    | false =>
      change compare b a = (compare a b).swap
      exact Std.OrientedCmp.eq_swap
  isLE_trans := by
    intro a b c hab hbc
    cases asc with
    | true =>
      change (compare a b).isLE = true at hab
      change (compare b c).isLE = true at hbc
      change (compare a c).isLE = true
      exact Std.TransCmp.isLE_trans hab hbc
    | false =>
      change (compare b a).isLE = true at hab
      change (compare c b).isLE = true at hbc
      change (compare c a).isLE = true
      exact Std.TransCmp.isLE_trans hbc hab

theorem compareKeys_cons (asc : Bool) (ascs : List Bool) (a b : Field) (as bs : List Field) :
    compareKeys (asc :: ascs) (a :: as) (b :: bs) =
      (compareField asc a b).then (compareKeys ascs as bs) := by
  rw [compareKeys, compareField]

theorem compareField_eq_iff {asc : Bool} {a b : Field} : compareField asc a b = .eq ↔ a = b := by
  cases asc with
  | true => exact Std.compare_eq_iff_eq
  | false => exact Std.compare_eq_iff_eq.trans eq_comm

theorem compareKeys_swap (ascs : List Bool) (a b : List Field) :
    compareKeys ascs a b = (compareKeys ascs b a).swap := by
  induction ascs generalizing a b with
  | nil => cases a <;> cases b <;> rfl
  | cons asc ascs ih =>
    cases a with
    | nil => cases b <;> rfl
    | cons x a =>
      cases b with
      | nil => rfl
      | cons y b =>
        rw [compareKeys_cons, compareKeys_cons, Ordering.swap_then, ← ih a b,
          ← Std.OrientedCmp.eq_swap]

theorem compareKeys_trans (ascs : List Bool) {a b c : List Field}
    (hab : (compareKeys ascs a b).isLE = true) (hbc : (compareKeys ascs b c).isLE = true) :
    (compareKeys ascs a c).isLE = true := by
  induction ascs generalizing a b c with
  | nil => cases a <;> cases c <;> rfl
  | cons asc ascs ih =>
    cases a with
    | nil => cases c <;> rfl
    | cons x a =>
      cases b with
      | nil => cases hab
      | cons y b =>
        cases c with
        | nil => cases hbc
        | cons z c =>
          rw [compareKeys_cons, Ordering.isLE_then_iff_or] at hab hbc ⊢
          obtain hxy | ⟨hxy, hab⟩ := hab
          · obtain hyz | ⟨hyz, hbc⟩ := hbc
            · exact .inl (lt_trans hxy hyz)
            · exact .inl (lt_of_lt_of_eq hxy hyz)
          · obtain hyz | ⟨hyz, hbc⟩ := hbc
            · exact .inl (lt_of_eq_of_lt hxy hyz)
            · exact .inr ⟨eq_trans hxy hyz, ih hab hbc⟩

instance (ascs : List Bool) : Std.TransCmp (compareKeys ascs) where
  eq_swap := compareKeys_swap ascs _ _
  isLE_trans := compareKeys_trans ascs

/-- Keys with a field for every flag are equal in the order if they are equal. -/
theorem compareKeys_eq_iff {ascs : List Bool} {a b : List Field} (ha : a.length = ascs.length)
    (hb : b.length = ascs.length) : compareKeys ascs a b = .eq ↔ a = b := by
  induction ascs generalizing a b with
  | nil =>
    rw [length_eq_zero_iff.mp ha, length_eq_zero_iff.mp hb]
    simp [compareKeys]
  | cons asc ascs ih =>
    cases a with
    | nil => cases ha
    | cons x a =>
      cases b with
      | nil => cases hb
      | cons y b =>
        rw [compareKeys_cons, Ordering.then_eq_eq, compareField_eq_iff,
          ih (Nat.succ.inj ha) (Nat.succ.inj hb), List.cons.injEq]

/-- The order under the opposite flags is the opposite order. -/
theorem compareKeys_not {fields : List (ByteCodeExpr × Bool)} {a b : List Field}
    (ha : a.length = fields.length) (hb : b.length = fields.length) :
    compareKeys (fields.map (fun f => !f.2)) a b = compareKeys (fields.map Prod.snd) b a := by
  induction fields generalizing a b with
  | nil => rfl
  | cons field fields ih =>
    cases a with
    | nil => cases ha
    | cons x a =>
      cases b with
      | nil => cases hb
      | cons y b =>
        obtain ⟨expr, asc⟩ := field
        rw [map_cons, map_cons, compareKeys_cons, compareKeys_cons,
          ih (Nat.succ.inj ha) (Nat.succ.inj hb)]
        cases asc <;> rfl

/-- The sorted data is sorted. -/
theorem sortedBy_sortByKey (ascs : List Bool) (data : List Keyed) :
    SortedBy (compareKeys ascs) Prod.fst (sortByKey ascs data) := by
  have htotal : Std.Total (fun a b : Keyed => (compareKeys ascs a.1 b.1).isLE = true) := by
    refine ⟨fun a b => ?_⟩
    rw [compareKeys_swap ascs b.1 a.1]
    cases compareKeys ascs a.1 b.1 <;> simp
  have htrans : IsTrans Keyed (fun a b => (compareKeys ascs a.1 b.1).isLE = true) :=
    ⟨fun _ _ _ => compareKeys_trans ascs⟩
  exact pairwise_insertionSort _ data

/-! ### The inputs -/

/-- An operator that keeps the iterator contract and returns a list of tuples, in both modes. -/
structure Supplies (it : Operator σ) (s : σ) (rows : List Tuple) where
  contract : ∀ willRewind, Contract it willRewind (.ok (Pull.Trace.ofList rows))
  ready : ∀ willRewind, (contract willRewind).Ready (it.configure willRewind s)

/-- A tuple iterator supplies its tuples. -/
def TupleIterator.supplies (rows : List Tuple) : Supplies iter (new rows) rows where
  contract := TupleIterator.contract rows
  ready _ := ⟨rfl, rfl, rfl, rfl⟩

/-- Configured and opened, the operator returns these tuples and then the end. -/
def Returns (it : Operator σ) (willRewind : Bool) (s : σ) (rows : List Tuple) : Prop :=
  ∃ s', Ends it.openIter (it.configure willRewind s) (.ok () s') ∧ Produces it (Pull.Trace.ofList rows) s'

theorem Returns.of_contract {it : Operator σ} {willRewind : Bool} {first : Opening} {s : σ}
    (c : Contract it willRewind first) (hready : c.Ready (it.configure willRewind s)) {rows : List Tuple}
    (hfirst : first = .ok (Pull.Trace.ofList rows)) : Returns it willRewind s rows := by
  obtain ⟨s', hopen, hat⟩ := (c.starts hready).ok hfirst
  exact ⟨s', hopen, c.produces _ hat⟩

theorem openingOn_ofList (rows : Pull.Trace ExecError Tuple) (l : List Tuple) :
    openingOn (Pull.Trace.ofList l) rows = .ok rows := by
  cases l with
  | nil => rfl
  | cons a l => rfl

section Joins

variable {left : Operator σ} {right : Operator τ} {l : σ} {r : τ} {L R : List Tuple}
  {leftExpr rightExpr : ByteCodeExpr} {kl kr : Tuple → Field}

/-! ### The nested loop join -/

/-- The nested loop join makes the pairs from the left. -/
theorem nestedLoopJoin_returns (hL : Supplies left l L) (hR : Supplies right r R)
    (hkl : ∀ t ∈ L, leftExpr.eval m.floats t = .ok (kl t))
    (hkr : ∀ t ∈ R, rightExpr.eval m.floats t = .ok (kr t)) (willRewind : Bool) :
    Returns (NestedLoopJoin.iter m .eq leftExpr rightExpr left right) willRewind (LoopJoin.new l r)
      (L.flatMap (fun a => (R.filter (fun b => kl a = kr b)).map (fun b => a.merge b))) := by
  refine Returns.of_contract (s := LoopJoin.new l r)
    (NestedLoopJoin.contract m (hL.contract willRewind) (hR.contract true) .eq leftExpr rightExpr)
    ⟨rfl, hL.ready willRewind, hR.ready true⟩ ?_
  change openingOn (Pull.Trace.ofList L) _ = _
  rw [openingOn_ofList]
  refine congrArg Except.ok (flatMap_ofList L (fun a ha => ?_))
  have hemit : ∀ b ∈ R, LoopJoin.emit (NestedLoopJoin.test m .eq leftExpr rightExpr) a b =
      .ok (if kl a = kr b then some (a.merge b) else none) := by
    intro b hb
    unfold LoopJoin.emit NestedLoopJoin.test
    rw [hkl a ha, hkr b hb]
    change Except.ok (if decide (kl a = kr b) = true then some (a.merge b) else none) = _
    simp only [decide_eq_true_eq]
  rw [filterMap_ofList R hemit, ← filterMap_eq_map, filterMap_filter]
  simp only [decide_eq_true_eq, Function.comp]

/-! ### The hash join -/

theorem bucket_cons (key key' : Field) (ts : List Tuple) (joinMap : List (Field × List Tuple)) :
    HashEqJoin.bucket ((key, ts) :: joinMap) key' =
      if key = key' then ts else HashEqJoin.bucket joinMap key' := by
  unfold HashEqJoin.bucket
  by_cases h : key = key'
  · simp [h]
  · rw [lookup_cons, beq_eq_false_iff_ne.mpr (Ne.symm h), if_neg h]

theorem bucket_push (key key' : Field) (t : Tuple) (joinMap : List (Field × List Tuple)) :
    HashEqJoin.bucket (HashEqJoin.push key t joinMap) key' =
      HashEqJoin.bucket joinMap key' ++ if key = key' then [t] else [] := by
  induction joinMap with
  | nil =>
    rw [HashEqJoin.push, bucket_cons]
    rfl
  | cons entry joinMap ih =>
    obtain ⟨k, ts⟩ := entry
    rw [HashEqJoin.push]
    by_cases hk : k = key
    · subst hk
      rw [if_pos rfl, bucket_cons, bucket_cons]
      by_cases h : k = key'
      · rw [if_pos h, if_pos h, if_pos h]
      · rw [if_neg h, if_neg h, if_neg h, append_nil]
    · rw [if_neg hk, bucket_cons, bucket_cons, ih]
      by_cases h : k = key'
      · have hne : key ≠ key' := fun he => hk (h.trans he.symm)
        rw [if_pos h, if_pos h, if_neg hne, append_nil]
      · rw [if_neg h, if_neg h]

/-- The bucket of a key has the left tuples with that key, in their order. -/
theorem bucket_foldl (L : List Tuple) (joinMap : List (Field × List Tuple)) (key : Field) :
    HashEqJoin.bucket (L.foldl (fun joinMap t => HashEqJoin.push (kl t) t joinMap) joinMap) key =
      HashEqJoin.bucket joinMap key ++ L.filter (fun t => kl t = key) := by
  induction L generalizing joinMap with
  | nil => simp
  | cons t L ih =>
    rw [foldl_cons, ih, bucket_push, append_assoc, filter_cons]
    by_cases h : kl t = key
    · simp [h]
    · simp [h]

/-- The hash join makes the pairs from the right. -/
theorem hashEqJoin_returns (hL : Supplies left l L) (hR : Supplies right r R)
    (hkl : ∀ t ∈ L, leftExpr.eval m.floats t = .ok (kl t))
    (hkr : ∀ t ∈ R, rightExpr.eval m.floats t = .ok (kr t)) (willRewind : Bool) :
    Returns (HashEqJoin.iter m leftExpr rightExpr left right) willRewind (HashEqJoin.new l r)
      (R.flatMap (fun b => (L.filter (fun a => kl a = kr b)).map (fun a => a.merge b))) := by
  refine Returns.of_contract (s := HashEqJoin.new l r)
    (HashEqJoin.contract m (hL.contract false) (hR.contract willRewind) leftExpr rightExpr)
    ⟨rfl, rfl, hL.ready false, hR.ready willRewind⟩ ?_
  have hfold : (Pull.Trace.ofList L).fold (HashEqJoin.insert m leftExpr) [] =
      .ok (L.foldl (fun joinMap t => HashEqJoin.push (kl t) t joinMap) []) := by
    refine fold_ofList L (fun joinMap t ht => ?_) []
    unfold HashEqJoin.insert
    rw [hkl t ht]
    rfl
  change ((Pull.Trace.ofList L).fold (HashEqJoin.insert m leftExpr) [] >>= _) = _
  rw [hfold]
  change openingOn (Pull.Trace.ofList R) _ = _
  rw [openingOn_ofList]
  refine congrArg Except.ok (flatMap_ofList R (fun b hb => ?_))
  unfold HashEqJoin.probeFrom
  rw [hkr b hb]
  dsimp only
  rw [drop_zero, bucket_foldl]
  rfl

/-! ### The sort and the sort-merge join -/

/-- A tuple with its key. -/
def keyed (k : Tuple → List Field) (t : Tuple) : Keyed := (k t, t)

theorem readSorted_ofList {exprs : List (ByteCodeExpr × Bool)} {k : Tuple → List Field}
    (hk : ∀ t ∈ L, ByteCodeExpr.evalAll m.floats (exprs.map Prod.fst) t = .ok (k t))
    (ascs : List Bool) :
    readSorted m exprs ascs (.ok (Pull.Trace.ofList L)) = .ok (sortByKey ascs (L.map (keyed k))) := by
  have hfold : (Pull.Trace.ofList L).fold (pushKeyed m exprs) [] =
      .ok (L.foldl (fun data t => data ++ [keyed k t]) []) := by
    refine fold_ofList L (fun data t ht => ?_) []
    unfold pushKeyed
    rw [hk t ht]
    rfl
  have hmap : ∀ (L : List Tuple) (data : List Keyed),
      L.foldl (fun data t => data ++ [keyed k t]) data = data ++ L.map (keyed k) := by
    intro L
    induction L with
    | nil => simp
    | cons t L ih =>
      intro data
      rw [foldl_cons, ih, append_assoc, map_cons, singleton_append]
  rw [hmap] at hfold
  exact readSorted_of_fold m ascs rfl hfold

theorem length_evalAll {floats : Floats} {exprs : List ByteCodeExpr} {t : Tuple} {vals : List Field}
    (h : ByteCodeExpr.evalAll floats exprs t = .ok vals) : vals.length = exprs.length := by
  unfold ByteCodeExpr.evalAll at h
  induction exprs generalizing vals with
  | nil =>
    cases h
    rfl
  | cons expr exprs ih =>
    rw [mapM_cons] at h
    obtain ⟨v, -, h⟩ := bind_eq_ok.mp h
    obtain ⟨vs, hvs, h⟩ := bind_eq_ok.mp h
    cases h
    rw [length_cons, length_cons, ih hvs]

/-- A sort returns its input in the order of the keys, the same sequence in both modes. -/
theorem sort_returns (hL : Supplies left l L) (fields : List (ByteCodeExpr × Bool))
    (k : Tuple → List Field)
    (hk : ∀ t ∈ L, ByteCodeExpr.evalAll m.floats (fields.map Prod.fst) t = .ok (k t)) :
    ∃ rows : List Tuple, rows.Perm L ∧
      rows.Pairwise (fun a b => (compareKeys (fields.map Prod.snd) (k a) (k b)).isLE = true) ∧
      ∀ willRewind, Returns (SortOp.iter m fields left) willRewind (SortOp.new l) rows := by
  have hperm := perm_insertionSort (fun a b : Keyed =>
    (compareKeys (fields.map (fun f => !f.2)) a.1 b.1).isLE = true) (L.map (keyed k))
  refine ⟨(sortByKey (fields.map (fun f => !f.2)) (L.map (keyed k))).reverse.map Prod.snd, ?_, ?_,
    fun willRewind => Returns.of_contract (s := SortOp.new l)
      (SortOp.contract m (hL.contract false) fields) ⟨rfl, rfl, rfl, hL.ready false⟩ ?_⟩
  · have hrows := ((reverse_perm _).trans hperm).map Prod.snd
    have hid : Prod.snd ∘ keyed k = id := rfl
    rwa [map_map, hid, map_id] at hrows
  · -- the data is sorted under the opposite flags and returned from the back
    rw [pairwise_map, pairwise_reverse]
    refine (sortedBy_sortByKey _ _).imp_of_mem (fun {x y} hx hy h => ?_)
    obtain ⟨a, ha, rfl⟩ := mem_map.mp (hperm.mem_iff.mp hx)
    obtain ⟨b, hb, rfl⟩ := mem_map.mp (hperm.mem_iff.mp hy)
    have hlength : ∀ t ∈ L, (k t).length = fields.length := by
      intro t ht
      rw [length_evalAll (hk t ht), length_map]
    rwa [keyed, keyed, compareKeys_not (hlength a ha) (hlength b hb)] at h
  · rw [readSorted_ofList m hk]
    rfl

theorem sort_returns_mixed :
    ∃ rows : List Tuple, rows.Perm [.new [.bool true, .bool true], .new [.bool true, .bool false]] ∧
      rows.Pairwise (fun a b => (compareKeys [false, true] a.fieldVals b.fieldVals).isLE = true) ∧
      ∀ willRewind, Returns (SortOp.iter oneRecord [(.colidx 0, false), (.colidx 1, true)]
        TupleIterator.iter) willRewind
          (SortOp.new (.new [.new [.bool true, .bool true], .new [.bool true, .bool false]])) rows := by
  refine sort_returns oneRecord (TupleIterator.supplies _) [(.colidx 0, false), (.colidx 1, true)]
    Tuple.fieldVals ?_
  decide

/-- The sort-merge join returns the pairs in the order of the keys. -/
theorem sortMergeJoin_returns (hL : Supplies left l L) (hR : Supplies right r R) (keys : MergeKeys)
    (hflags : keys.left.map Prod.snd = keys.right.map Prod.snd) {kl kr : Tuple → List Field}
    (hkl : ∀ t ∈ L, ByteCodeExpr.evalAll m.floats (keys.left.map Prod.fst) t = .ok (kl t))
    (hkr : ∀ t ∈ R, ByteCodeExpr.evalAll m.floats (keys.right.map Prod.fst) t = .ok (kr t))
    (willRewind : Bool) :
    ∃ rows, Returns (SortMergeJoin.iter m keys left right) willRewind (SortMergeJoin.new l r) rows ∧
      (rows : Multiset Tuple) = matching Tuple.merge (fun a b => kl a = kr b) (L : Multiset Tuple) R := by
  have hreturns : Returns (SortMergeJoin.iter m keys left right) willRewind (SortMergeJoin.new l r)
      (SortMergeJoin.merged (keys.left.map Prod.snd)
        (sortByKey (keys.left.map Prod.snd) (L.map (keyed kl)))
        (sortByKey (keys.left.map Prod.snd) (R.map (keyed kr)))) := by
    refine Returns.of_contract (s := SortMergeJoin.new l r)
      (SortMergeJoin.contract m (hL.contract false) (hR.contract false) keys)
      ⟨rfl, rfl, ⟨_, rfl, hL.ready false⟩, ⟨_, rfl, hR.ready false⟩, rfl, rfl, rfl, rfl, rfl, rfl⟩ ?_
    rw [← hflags, readSorted_ofList m hkl, readSorted_ofList m hkr]
    rfl
  refine ⟨_, hreturns, ?_⟩
  have hsort : ∀ data : List Keyed,
      (sortByKey (keys.left.map Prod.snd) data : Multiset Keyed) = (data : Multiset Keyed) :=
    fun data => Multiset.coe_eq_coe.mpr (perm_insertionSort _ data)
  rw [SortMergeJoin.merged, join_eq_equiJoin _ _ (sortedBy_sortByKey _ _) (sortedBy_sortByKey _ _),
    equiJoin, coe_flatMap_left, hsort, hsort, ← Multiset.map_coe, ← Multiset.map_coe]
  refine matching_map _ _ _ _ (fun a ha b hb => ?_) (fun a b => rfl)
  have hla := length_evalAll (hkl a ha)
  have hlb := length_evalAll (hkr b hb)
  have hlength := congrArg List.length hflags
  simp only [length_map] at hla hlb hlength
  refine compareKeys_eq_iff ?_ ?_
  · rw [length_map]
    exact hla
  · rw [length_map, hlength]
    exact hlb

/-- The sort keys of a join on one key. -/
def MergeKeys.single (leftExpr rightExpr : ByteCodeExpr) (asc : Bool) : MergeKeys :=
  ⟨[(leftExpr, asc)], [(rightExpr, asc)], rfl, by simp⟩

theorem evalAll_single {floats : Floats} {expr : ByteCodeExpr} {t : Tuple} {v : Field}
    (h : expr.eval floats t = .ok v) : ByteCodeExpr.evalAll floats [expr] t = .ok [v] := by
  rw [ByteCodeExpr.evalAll, mapM_cons, h]
  rfl

/-- On the same key, the three joins return the same bag: the concatenations of a left and a right tuple
with equal keys.  A sort-merge join on several keys, with the same flags on both sides, returns those
whose keys are all equal. -/
theorem equiJoins_agree (kl kr : Tuple → Field) (hL : Supplies left l L) (hR : Supplies right r R)
    (hkl : ∀ t ∈ L, leftExpr.eval m.floats t = .ok (kl t))
    (hkr : ∀ t ∈ R, rightExpr.eval m.floats t = .ok (kr t)) (asc willRewind : Bool) :
    (∃ rows₁ rows₂ rows₃ : List Tuple,
      Returns (NestedLoopJoin.iter m .eq leftExpr rightExpr left right) willRewind (LoopJoin.new l r)
        rows₁ ∧
      Returns (HashEqJoin.iter m leftExpr rightExpr left right) willRewind (HashEqJoin.new l r) rows₂ ∧
      Returns (SortMergeJoin.iter m (.single leftExpr rightExpr asc) left right) willRewind
        (SortMergeJoin.new l r) rows₃ ∧
      (rows₁ : Multiset Tuple) = matching Tuple.merge (fun a b => kl a = kr b) (L : Multiset Tuple) R ∧
      (rows₂ : Multiset Tuple) = matching Tuple.merge (fun a b => kl a = kr b) (L : Multiset Tuple) R ∧
      (rows₃ : Multiset Tuple) = matching Tuple.merge (fun a b => kl a = kr b) (L : Multiset Tuple) R) ∧
    ∀ (keys : MergeKeys) (kls krs : Tuple → List Field),
      keys.left.map Prod.snd = keys.right.map Prod.snd →
      (∀ t ∈ L, ByteCodeExpr.evalAll m.floats (keys.left.map Prod.fst) t = .ok (kls t)) →
      (∀ t ∈ R, ByteCodeExpr.evalAll m.floats (keys.right.map Prod.fst) t = .ok (krs t)) →
      ∃ rows, Returns (SortMergeJoin.iter m keys left right) willRewind (SortMergeJoin.new l r) rows ∧
        (rows : Multiset Tuple) =
          matching Tuple.merge (fun a b => kls a = krs b) (L : Multiset Tuple) R := by
  refine ⟨?_, fun keys kls krs hflags hkls hkrs =>
    sortMergeJoin_returns m hL hR keys hflags hkls hkrs willRewind⟩
  have hmerge : ∃ rows, Returns (SortMergeJoin.iter m (.single leftExpr rightExpr asc) left right)
      willRewind (SortMergeJoin.new l r) rows ∧ (rows : Multiset Tuple) =
        matching Tuple.merge (fun a b => [kl a] = [kr b]) (L : Multiset Tuple) R :=
    sortMergeJoin_returns m hL hR (.single leftExpr rightExpr asc) rfl
      (fun t ht => evalAll_single (hkl t ht)) (fun t ht => evalAll_single (hkr t ht)) willRewind
  obtain ⟨rows, hrows, hbag⟩ := hmerge
  refine ⟨_, _, rows, nestedLoopJoin_returns m hL hR hkl hkr willRewind,
    hashEqJoin_returns m hL hR hkl hkr willRewind, hrows, coe_flatMap_left _ _ L R,
    coe_flatMap_right _ _ L R, ?_⟩
  rw [hbag]
  congr 1
  funext a b
  simp

end Joins

theorem equiJoins_agree_booleans :
    ∃ rows₁ rows₂ rows₃ : List Tuple,
      Returns (NestedLoopJoin.iter oneRecord .eq (.colidx 0) (.colidx 0) TupleIterator.iter
        TupleIterator.iter) false (LoopJoin.new (.new [.new [.bool true], .new [.bool false]])
          (.new [.new [.bool true]])) rows₁ ∧
      Returns (HashEqJoin.iter oneRecord (.colidx 0) (.colidx 0) TupleIterator.iter
        TupleIterator.iter) false (HashEqJoin.new (.new [.new [.bool true], .new [.bool false]])
          (.new [.new [.bool true]])) rows₂ ∧
      Returns (SortMergeJoin.iter oneRecord (.single (.colidx 0) (.colidx 0) true) TupleIterator.iter
        TupleIterator.iter) false (SortMergeJoin.new (.new [.new [.bool true], .new [.bool false]])
          (.new [.new [.bool true]])) rows₃ ∧
      (rows₁ : Multiset Tuple) = {.new [.bool true, .bool true]} ∧
      (rows₂ : Multiset Tuple) = {.new [.bool true, .bool true]} ∧
      (rows₃ : Multiset Tuple) = {.new [.bool true, .bool true]} :=
  (equiJoins_agree oneRecord (fun t => t.fieldVals.headD .null) (fun t => t.fieldVals.headD .null)
    (TupleIterator.supplies [.new [.bool true], .new [.bool false]])
    (TupleIterator.supplies [.new [.bool true]]) (by decide) (by decide) true false).1

end CrustyDB
