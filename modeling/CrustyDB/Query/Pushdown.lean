import CrustyDB.Query.PlanSemantics

/-! # Selection pushdown

`Plan.select` puts a selection on a plan and `Plan.join` joins two plans; both move the predicates as
far down as they can.  They call each other, a selection on a join being pushed into the inputs of
the join, so `join` is given the selections on its two inputs.

On plans of inner joins the result denotes what filtering the plan denotes (`select_filtered`,
`join_filtered`, by one induction over the plan). -/

namespace CrustyDB

open MergeJoin Binding LogicalRelExpr Finset

inductive Rule where
  | hoist | decorrelate | selectionPushdown | projectionPushdown
deriving DecidableEq, Repr

/-- The rules that are enabled. -/
abbrev Rules := Finset Rule

namespace Plan

/-! ### The rewrites -/

/-- `select` without optimization. -/
def selectNode (self : LogicalRelExpr) (predicates : List (Expression LogicalRelExpr)) :
    LogicalRelExpr :=
  if predicates = [] then self
  else .select self (predicates.flatMap Expression.splitConjunction)

/-- `join` without optimization. -/
def joinNode (joinType : JoinType) (self other : LogicalRelExpr)
    (predicates : List (Expression LogicalRelExpr)) : LogicalRelExpr :=
  .join joinType self other (predicates.flatMap Expression.splitConjunction)

/-- `map` without optimization. -/
def mapNode (self : LogicalRelExpr) (exprs : List (ColumnId × Expression LogicalRelExpr)) :
    LogicalRelExpr :=
  if exprs = [] then self else .map self exprs

/-- A predicate that is a new column becomes the expression of the column. -/
def inlineMaps (input : LogicalRelExpr) (exprs : List (ColumnId × Expression LogicalRelExpr))
    (predicates : List (Expression LogicalRelExpr)) : List (Expression LogicalRelExpr) :=
  exprs.foldl (fun predicates p => predicates.map (fun pred =>
    match pred with
    | .colRef id => if id = p.1 ∧ boundBy p.2 input then p.2 else pred
    | _ => pred)) predicates

/-- `join` with optimization, given the selections on the two inputs. -/
def joinWith (selectLeft selectRight : List (Expression LogicalRelExpr) → Except ExecError LogicalRelExpr)
    (joinType : JoinType) (self other : LogicalRelExpr)
    (predicates : List (Expression LogicalRelExpr)) : Except ExecError LogicalRelExpr :=
  if predicates = [] then .ok (.join joinType self other [])
  else
    let predicates := predicates.flatMap Expression.splitConjunction
    let pushDownToLeft := predicates.filter (fun pred => boundBy pred self)
    let rest := predicates.filter (fun pred => ¬ boundBy pred self)
    let pushDownToRight := rest.filter (fun pred => boundBy pred other)
    let keep := rest.filter (fun pred => ¬ boundBy pred other)
    if (joinType = .inner ∨ joinType = .leftOuter ∨ joinType = .crossJoin) ∧
        (pushDownToLeft ≠ [] ∨ pushDownToRight ≠ []) then do
      let isInner := ∀ pred ∈ keep, intersectWith pred other
      let joinType := if isInner ∧ joinType = .crossJoin then .inner else joinType
      let left ← selectLeft pushDownToLeft
      let right ← selectRight pushDownToRight
      pure (joinNode joinType left right keep)
    else
      let pushDown := predicates.filter (fun pred => boundBy pred other)
      let keep := predicates.filter (fun pred => ¬ boundBy pred other)
      if (joinType = .inner ∨ joinType = .rightOuter ∨ joinType = .crossJoin) ∧ pushDown ≠ [] then do
        let right ← selectRight pushDown
        pure (joinNode joinType self right keep)
      else if joinType = .crossJoin then
        -- the assertion of a debug build
        if freeExprs predicates ⊆ self.att ∪ other.att then
          .ok (joinNode .inner self other predicates)
        else .error (.abort "assertion failed: free.is_subset(&atts)")
      else .ok (.join joinType self other predicates)

/-- Apply a selection to a plan, with optimization. -/
def select (rules : Rules) : LogicalRelExpr → List (Expression LogicalRelExpr) →
    Except ExecError LogicalRelExpr
  | self, predicates =>
    if predicates = [] then .ok self
    else
      let predicates := predicates.flatMap Expression.splitConjunction
      if .selectionPushdown ∈ rules then
        match self with
        | .select src preds => select rules src (preds ++ predicates)
        | .join joinType left right preds =>
          joinWith (select rules left) (select rules right) joinType left right (preds ++ predicates)
        | .aggregate src groupBy aggrs => do
          -- what is bound by the grouping columns goes to the source
          let pushDown := predicates.filter (fun pred => freeExpr pred ⊆ groupBy.toFinset)
          let keep := predicates.filter (fun pred => ¬ freeExpr pred ⊆ groupBy.toFinset)
          let src ← select rules src pushDown
          pure (selectNode (.aggregate src groupBy aggrs) keep)
        | .map input exprs => do
          let predicates := inlineMaps input exprs predicates
          let atts := (exprs.map Prod.fst).toFinset
          let pushDown := predicates.filter (fun pred => Disjoint (freeExpr pred) atts)
          let keep := predicates.filter (fun pred => ¬ Disjoint (freeExpr pred) atts)
          let input ← select rules input pushDown
          pure (selectNode (mapNode input exprs) keep)
        | self => .ok (selectNode self predicates)
      else .ok (.select self predicates)

/-- Join two plans, with optimization. -/
def join (rules : Rules) (joinType : JoinType) (self other : LogicalRelExpr)
    (predicates : List (Expression LogicalRelExpr)) : Except ExecError LogicalRelExpr :=
  joinWith (select rules self) (select rules other) joinType self other predicates

/-! ### Lists of predicates -/

section Predicates

variable (m : Managers) (catalog : Catalog) {preds : List (Expression LogicalRelExpr)}
  {env : Binding}

theorem holdsAll_iff :
    holdsAll m catalog preds env = true ↔ ∀ p ∈ preds, eval m catalog p env = some (.bool true) := by
  induction preds with
  | nil => simp [holdsAll]
  | cons pred preds ih => simp [holdsAll, ih]

theorem scopedExprs_iff {exprs : List (Expression LogicalRelExpr)} :
    ScopedExprs exprs ↔ ∀ e ∈ exprs, ScopedExpr e := by
  induction exprs with
  | nil => simp [ScopedExprs]
  | cons e exprs ih => simp [ScopedExprs, ih]

/-- A conjunction is true if both sides are. -/
theorem eval_and_eq_true {left right : Expression LogicalRelExpr} :
    eval m catalog (.binary .and left right) env = some (.bool true) ↔
      eval m catalog left env = some (.bool true) ∧ eval m catalog right env = some (.bool true) := by
  rw [eval]
  cases hl : eval m catalog left env with
  | none => simp
  | some l =>
    cases hr : eval m catalog right env with
    | none => simp
    | some r =>
      cases l <;> cases r <;>
        simp [BinaryOp.apply, BinaryOp.opcode, ByteCodeExpr.dispatch, Field.connect, Except.toOption]

theorem forall_splitConjunction {e : Expression LogicalRelExpr} :
    (∀ p ∈ e.splitConjunction, eval m catalog p env = some (.bool true)) ↔
      eval m catalog e env = some (.bool true) := by
  fun_induction Expression.splitConjunction e with
  | case1 left right ihl ihr =>
    rw [eval_and_eq_true, ← ihl, ← ihr]
    simp only [List.mem_append, or_imp, forall_and]
  | case2 e _ => simp

theorem holdsAll_split : holdsAll m catalog (preds.flatMap Expression.splitConjunction) env =
      holdsAll m catalog preds env := by
  rw [Bool.eq_iff_iff, holdsAll_iff, holdsAll_iff]
  simp only [List.mem_flatMap, forall_exists_index, and_imp]
  rw [forall_comm]
  refine forall_congr' (fun e => ?_)
  rw [← forall_splitConjunction]
  constructor
  · intro h he p hp
    exact h p he hp
  · intro h p he hp
    exact h he p hp

theorem scopedExpr_split {e : Expression LogicalRelExpr} (h : ScopedExpr e) :
    ScopedExprs e.splitConjunction := by
  fun_induction Expression.splitConjunction e with
  | case1 left right ihl ihr =>
    rw [ScopedExpr] at h
    rw [scopedExprs_iff] at ihl ihr ⊢
    intro e he
    obtain he | he := List.mem_append.mp he
    · exact ihl h.1 e he
    · exact ihr h.2 e he
  | case2 e _ => exact ⟨h, trivial⟩

theorem scopedExprs_split (h : ScopedExprs preds) :
    ScopedExprs (preds.flatMap Expression.splitConjunction) := by
  rw [scopedExprs_iff] at h ⊢
  intro e he
  obtain ⟨pred, hpred, he⟩ := List.mem_flatMap.mp he
  exact scopedExprs_iff.mp (scopedExpr_split (h pred hpred)) e he

theorem freeExprs_split (preds : List (Expression LogicalRelExpr)) :
    freeExprs (preds.flatMap Expression.splitConjunction) = freeExprs preds := by
  ext c
  rw [mem_freeExprs, mem_freeExprs]
  constructor
  · rintro ⟨e, he, hc⟩
    obtain ⟨pred, hpred, he⟩ := List.mem_flatMap.mp he
    refine ⟨pred, hpred, ?_⟩
    rw [← freeExprs_splitConjunction]
    exact mem_freeExprs.mpr ⟨e, he, hc⟩
  · rintro ⟨pred, hpred, hc⟩
    rw [← freeExprs_splitConjunction] at hc
    obtain ⟨e, he, hc⟩ := mem_freeExprs.mp hc
    exact ⟨e, List.mem_flatMap.mpr ⟨pred, hpred, he⟩, hc⟩

theorem scopedExprs_append {preds' : List (Expression LogicalRelExpr)} (h : ScopedExprs preds)
    (h' : ScopedExprs preds') : ScopedExprs (preds ++ preds') := by
  rw [scopedExprs_iff] at h h' ⊢
  intro e he
  obtain he | he := List.mem_append.mp he
  · exact h e he
  · exact h' e he

theorem freeExprs_append (preds preds' : List (Expression LogicalRelExpr)) :
    freeExprs (preds ++ preds') = freeExprs preds ∪ freeExprs preds' := by
  ext c
  simp only [Finset.mem_union, mem_freeExprs, List.mem_append, or_and_right, exists_or]

theorem holdsAll_append {preds' : List (Expression LogicalRelExpr)} :
    holdsAll m catalog (preds ++ preds') env = true ↔
      holdsAll m catalog preds env = true ∧ holdsAll m catalog preds' env = true := by
  simp only [holdsAll_iff, List.mem_append, or_imp, forall_and]

/-- The predicates of a partition. -/
theorem holdsAll_partition (preds : List (Expression LogicalRelExpr))
    (q : Expression LogicalRelExpr → Prop) [DecidablePred q] : holdsAll m catalog preds env = true ↔
      holdsAll m catalog (preds.filter (fun p => ¬ q p)) env = true ∧
        holdsAll m catalog (preds.filter (fun p => q p)) env = true := by
  simp only [holdsAll_iff, List.mem_filter, decide_eq_true_eq, and_imp]
  constructor
  · intro h
    exact ⟨fun p hp _ => h p hp, fun p hp _ => h p hp⟩
  · rintro ⟨hn, hy⟩ p hp
    by_cases hq : q p
    · exact hy p hp hq
    · exact hn p hp hq

theorem scopedExprs_filter (h : ScopedExprs preds) (q : Expression LogicalRelExpr → Bool) :
    ScopedExprs (preds.filter q) := by
  rw [scopedExprs_iff] at h ⊢
  exact fun e he => h e (List.mem_of_mem_filter he)

theorem freeExprs_filter_subset (q : Expression LogicalRelExpr → Bool) :
    freeExprs (preds.filter q) ⊆ freeExprs preds := by
  rw [freeExprs_subset]
  intro e he c hc
  exact mem_freeExprs.mpr ⟨e, List.mem_of_mem_filter he, hc⟩

end Predicates

/-! ### Filtered plans -/

/-- Every join that a selection reaches is an inner or a cross join, and the predicates are over the
columns of their inputs. -/
def Pushable : LogicalRelExpr → Prop
  | .select src predicates => Pushable src ∧ freeExprs predicates ⊆ src.att
  | .join joinType left right predicates =>
    (joinType = .inner ∨ joinType = .crossJoin) ∧ Pushable left ∧ Pushable right ∧
      freeExprs predicates ⊆ left.att ∪ right.att
  | .aggregate src _ _ => Pushable src
  | .map input _ => Pushable input
  | _ => True

section Filtered

variable (m : Managers) (catalog : Catalog)

/-- The plan `q` is the plan `p` with a selection. -/
structure Filtered (p : LogicalRelExpr) (preds : List (Expression LogicalRelExpr))
    (q : LogicalRelExpr) : Prop where
  wellScoped : q.WellScoped
  pushable : Pushable q
  att : q.att = p.att
  free : q.free ⊆ p.free
  denote : ∀ env, denote m catalog q env = (LogicalRelExpr.denote m catalog p env).filter
    (fun r => holdsAll m catalog preds (overlay p.att r env) = true)

/-- A selection on the plan, for predicates over its columns. -/
def Selects (p : LogicalRelExpr)
    (select : List (Expression LogicalRelExpr) → Except ExecError LogicalRelExpr) : Prop :=
  ∀ preds, ScopedExprs preds → freeExprs preds ⊆ p.att →
    ∃ q, select preds = .ok q ∧ Filtered m catalog p preds q

variable {m catalog} {p q : LogicalRelExpr} {preds preds' : List (Expression LogicalRelExpr)}

theorem Filtered.congr (h : Filtered m catalog p preds q)
    (hholds : ∀ env, holdsAll m catalog preds env = holdsAll m catalog preds' env) :
    Filtered m catalog p preds' q := by
  refine ⟨h.wellScoped, h.pushable, h.att, h.free, fun env => ?_⟩
  rw [h.denote]
  refine Multiset.filter_congr (fun r _ => ?_)
  rw [hholds]

variable (m catalog) in
theorem Filtered.nil (hp : p.WellScoped) (hpush : Pushable p) : Filtered m catalog p [] p := by
  refine ⟨hp, hpush, rfl, fun _ hc => hc, fun env => ?_⟩
  exact (Multiset.filter_eq_self.mpr (fun r _ => by rw [holdsAll])).symm

variable (m catalog) in
/-- A selection that is not pushed down. -/
theorem selectNode_filtered (hp : p.WellScoped) (hpush : Pushable p) (hpreds : ScopedExprs preds)
    (hfree : freeExprs preds ⊆ p.att) : Filtered m catalog p preds (selectNode p preds) := by
  unfold selectNode
  split_ifs with hnil
  · rw [hnil]
    exact Filtered.nil m catalog hp hpush
  · refine ⟨?_, ?_, ?_, ?_, fun env => ?_⟩
    · rw [WellScoped]
      exact ⟨hp, scopedExprs_split hpreds⟩
    · rw [Pushable, freeExprs_split]
      exact ⟨hpush, hfree⟩
    · rw [LogicalRelExpr.att]
    · rw [LogicalRelExpr.free, freeExprs_split]
      intro c hc
      obtain ⟨hc, hnot⟩ := mem_sdiff.mp hc
      exact (Finset.mem_union.mp hc).resolve_right (fun hmem => hnot (hfree hmem))
    · rw [LogicalRelExpr.denote]
      refine Multiset.filter_congr (fun r _ => ?_)
      rw [holdsAll_split]

/-- One selection after another. -/
theorem Filtered.trans {q' : LogicalRelExpr} (h : Filtered m catalog p preds q)
    (h' : Filtered m catalog q preds' q') : Filtered m catalog p (preds ++ preds') q' := by
  refine ⟨h'.wellScoped, h'.pushable, h'.att.trans h.att, h'.free.trans h.free, fun env => ?_⟩
  rw [h'.denote, h.denote, h.att, Multiset.filter_filter]
  refine Multiset.filter_congr (fun r _ => ?_)
  rw [holdsAll_append, and_comm]

/-! ### Select -/

variable {src : LogicalRelExpr} {groupBy : List ColumnId}

/-- A selection on a selection is one with the predicates of both. -/
theorem Filtered.of_select (hp : (LogicalRelExpr.select src preds).WellScoped)
    (h : Filtered m catalog src (preds ++ preds') q) :
    Filtered m catalog (.select src preds) preds' q := by
  rw [WellScoped] at hp
  refine ⟨h.wellScoped, h.pushable, ?_, ?_, fun env => ?_⟩
  · rw [h.att, LogicalRelExpr.att]
  · rw [LogicalRelExpr.free, union_sdiff_distrib,
      sdiff_eq_self_of_disjoint (disjoint_free_att src hp.1)]
    exact h.free.trans subset_union_left
  · rw [h.denote, LogicalRelExpr.denote, LogicalRelExpr.att, Multiset.filter_filter]
    refine Multiset.filter_congr (fun r _ => ?_)
    rw [holdsAll_append, and_comm]

/-! ### Aggregate -/

/-- The grouping columns of a row, from the key of its group. -/
theorem holdsAll_groupKey (hpreds : ScopedExprs preds) (hfree : freeExprs preds ⊆ groupBy.toFinset)
    (hgroup : groupBy.toFinset ⊆ src.att) (env r : Binding) :
    holdsAll m catalog preds (overlay src.att r env) = holdsAll m catalog preds (overlay groupBy.toFinset
      (fun c => ((groupBy.zip (groupBy.map r)).lookup c).getD none) env) := by
  refine holdsAll_congr m catalog preds hpreds (fun c hc => ?_)
  have hmem := hfree hc
  rw [overlay_of_mem (hgroup hmem), overlay_of_mem hmem, lookup_zip_map (List.mem_toFinset.mp hmem)]

/-- A selection on grouping columns commutes with the aggregation. -/
theorem aggregateRows_filter {aggrs : List (ColumnId × ColumnId × AggOp)}
    (hp : (LogicalRelExpr.aggregate src groupBy aggrs).WellScoped) (hpreds : ScopedExprs preds)
    (hfree : freeExprs preds ⊆ groupBy.toFinset) (env : Binding) (rows : Multiset Binding) :
    aggregateRows m groupBy aggrs
        (rows.filter (fun r => holdsAll m catalog preds (overlay src.att r env) = true)) =
      (aggregateRows m groupBy aggrs rows).filter (fun r => holdsAll m catalog preds
        (overlay (LogicalRelExpr.aggregate src groupBy aggrs).att r env) = true) := by
  rw [WellScoped] at hp
  obtain ⟨-, hgroup, hdest, -⟩ := hp
  unfold aggregateRows
  -- whether a group is kept can be read from its key
  have hkey : ∀ g : List (Option Field) × Multiset Binding, holdsAll m catalog preds
      (overlay (LogicalRelExpr.aggregate src groupBy aggrs).att (groupRow m groupBy aggrs g) env) =
        holdsAll m catalog preds (overlay groupBy.toFinset
          (fun c => ((groupBy.zip g.1).lookup c).getD none) env) := by
    intro g
    refine holdsAll_congr m catalog preds hpreds (fun c hc => ?_)
    have hmem := hfree hc
    have hnot : c ∉ aggrs.map Prod.fst := fun hc' =>
      disjoint_left.mp hdest (List.mem_toFinset.mpr hc') hmem
    rw [overlay_of_mem (by rw [LogicalRelExpr.att]; exact mem_union_left _ hmem),
      overlay_of_mem hmem, groupRow_of_notMem m hnot]
  simp only [holdsAll_groupKey hpreds hfree hgroup]
  rw [← Bag.filter_groups (fun r : Binding => groupBy.map r) (fun k : List (Option Field) =>
      holdsAll m catalog preds (overlay groupBy.toFinset
        (fun c => ((groupBy.zip k).lookup c).getD none) env) = true), Multiset.filter_map]
  refine congrArg _ (Multiset.filter_congr (fun g _ => ?_))
  rw [Function.comp_apply, hkey]

/-- A selection on grouping columns goes below the aggregation. -/
theorem Filtered.aggregate {aggrs : List (ColumnId × ColumnId × AggOp)}
    (hp : (LogicalRelExpr.aggregate src groupBy aggrs).WellScoped) (hpreds : ScopedExprs preds)
    (hfree : freeExprs preds ⊆ groupBy.toFinset) (h : Filtered m catalog src preds q) :
    Filtered m catalog (.aggregate src groupBy aggrs) preds (.aggregate q groupBy aggrs) := by
  have hsub : (LogicalRelExpr.aggregate q groupBy aggrs).free ⊆
      (LogicalRelExpr.aggregate src groupBy aggrs).free := by
    rw [LogicalRelExpr.free, LogicalRelExpr.free, h.att]
    refine sdiff_subset_sdiff ?_ (Finset.Subset.refl _)
    exact union_subset_union_left (union_subset_union_left h.free)
  have hp' := hp
  rw [WellScoped] at hp'
  refine ⟨?_, ?_, ?_, hsub, fun env => ?_⟩
  · rw [WellScoped, h.att]
    exact ⟨h.wellScoped, hp'.2.1, hp'.2.2.1, disjoint_of_subset_right hsub hp'.2.2.2⟩
  · rw [Pushable]
    exact h.pushable
  · rw [LogicalRelExpr.att, LogicalRelExpr.att]
  · rw [LogicalRelExpr.denote, h.denote, LogicalRelExpr.denote]
    exact aggregateRows_filter hp hpreds hfree env _

/-! ### Map -/

/-- What becomes of one predicate. -/
def inlinePred (input : LogicalRelExpr) (exprs : List (ColumnId × Expression LogicalRelExpr))
    (pred : Expression LogicalRelExpr) : Expression LogicalRelExpr :=
  exprs.foldl (fun pred p =>
    match pred with
    | .colRef id => if id = p.1 ∧ boundBy p.2 input then p.2 else pred
    | _ => pred) pred

theorem inlineMaps_eq_map (input : LogicalRelExpr) (exprs : List (ColumnId × Expression LogicalRelExpr))
    (preds : List (Expression LogicalRelExpr)) :
    inlineMaps input exprs preds = preds.map (inlinePred input exprs) := by
  induction exprs generalizing preds with
  | nil => exact (List.map_id _).symm
  | cons p exprs ih =>
    have hstep := ih (preds.map (fun pred =>
      match pred with
      | .colRef id => if id = p.1 ∧ boundBy p.2 input then p.2 else pred
      | _ => pred))
    rw [List.map_map] at hstep
    exact hstep

variable {input : LogicalRelExpr} {exprs : List (ColumnId × Expression LogicalRelExpr)}

/-- A column of the input is not replaced. -/
theorem inlinePred_bound {pred : Expression LogicalRelExpr} (hbound : boundBy pred input)
    (hfresh : Disjoint (exprs.map Prod.fst).toFinset input.att) :
    inlinePred input exprs pred = pred := by
  induction exprs with
  | nil => rfl
  | cons p exprs ih =>
    have hfresh' : Disjoint (exprs.map Prod.fst).toFinset input.att := by
      refine disjoint_of_subset_left (fun c hc => ?_) hfresh
      rw [List.map_cons, List.toFinset_cons]
      exact mem_insert_of_mem hc
    have hstep : inlinePred input (p :: exprs) pred = inlinePred input exprs pred := by
      unfold inlinePred
      rw [List.foldl_cons]
      cases pred with
      | colRef id =>
        dsimp only
        rw [if_neg]
        rintro ⟨rfl, -⟩
        have hatt : p.1 ∈ input.att := hbound (by simp [freeExpr])
        refine disjoint_left.mp hfresh ?_ hatt
        rw [List.map_cons, List.toFinset_cons]
        exact mem_insert_self _ _
      | field val => rfl
      | binary op left right => rfl
      | case expr whens elseExpr => rfl
      | subquery expr => rfl
    rw [hstep]
    exact ih hfresh'

/-- A predicate is kept, or it is a new column and replaced by the expression of that column. -/
theorem inlinePred_cases (hfresh : Disjoint (exprs.map Prod.fst).toFinset input.att)
    (pred : Expression LogicalRelExpr) :
    inlinePred input exprs pred = pred ∨ ∃ id expr, pred = .colRef id ∧ (id, expr) ∈ exprs ∧
      boundBy expr input ∧ inlinePred input exprs pred = expr := by
  induction exprs with
  | nil => exact Or.inl rfl
  | cons p exprs ih =>
    have hfresh' : Disjoint (exprs.map Prod.fst).toFinset input.att := by
      refine disjoint_of_subset_left (fun c hc => ?_) hfresh
      rw [List.map_cons, List.toFinset_cons]
      exact mem_insert_of_mem hc
    -- the first expression of the map replaces the predicate, or leaves it to the others
    by_cases hhit : ∃ id, pred = .colRef id ∧ id = p.1 ∧ boundBy p.2 input
    · obtain ⟨id, rfl, rfl, hbound⟩ := hhit
      have hstep : inlinePred input (p :: exprs) (.colRef p.1) = inlinePred input exprs p.2 := by
        unfold inlinePred
        rw [List.foldl_cons]
        dsimp only
        rw [if_pos ⟨rfl, hbound⟩]
      rw [hstep, inlinePred_bound hbound hfresh']
      exact Or.inr ⟨p.1, p.2, rfl, List.mem_cons_self, hbound, rfl⟩
    · have hstep : inlinePred input (p :: exprs) pred = inlinePred input exprs pred := by
        unfold inlinePred
        rw [List.foldl_cons]
        cases pred with
        | colRef id =>
          dsimp only
          rw [if_neg (fun h => hhit ⟨id, rfl, h⟩)]
        | field val => rfl
        | binary op left right => rfl
        | case expr whens elseExpr => rfl
        | subquery expr => rfl
      rw [hstep]
      obtain h | ⟨id, expr, hid, hmem, hbound, he⟩ := ih hfresh'
      · exact Or.inl h
      · exact Or.inr ⟨id, expr, hid, List.mem_cons_of_mem p hmem, hbound, he⟩

theorem scopedMaps_mem (h : ScopedMaps exprs) {id : ColumnId} {expr : Expression LogicalRelExpr}
    (hmem : (id, expr) ∈ exprs) : ScopedExpr expr := by
  induction exprs with
  | nil => cases hmem
  | cons p exprs ih =>
    rw [ScopedMaps] at h
    obtain rfl | hmem := List.mem_cons.mp hmem
    · exact h.1
    · exact ih h.2 hmem

section Map

variable {input : LogicalRelExpr} {exprs : List (ColumnId × Expression LogicalRelExpr)}

/-- The columns of the input in a row of the map. -/
theorem overlay_mapRow_agree {s : Finset ColumnId} (hs : Disjoint s (exprs.map Prod.fst).toFinset)
    (env r : Binding) : Agree s
      (overlay (LogicalRelExpr.map input exprs).att
        (mapRow m catalog exprs (overlay input.att r env) r) env) (overlay input.att r env) := by
  intro c hc
  have hnot : c ∉ exprs.map Prod.fst := fun h =>
    disjoint_left.mp hs hc (List.mem_toFinset.mpr h)
  by_cases hin : c ∈ input.att
  · rw [overlay_of_mem (by rw [LogicalRelExpr.att]; exact mem_union_left _ hin),
      overlay_of_mem hin, mapRow_of_notMem m catalog hnot]
  · rw [overlay_of_notMem, overlay_of_notMem hin]
    rw [LogicalRelExpr.att, Finset.mem_union, List.mem_toFinset, not_or]
    exact ⟨hin, hnot⟩

variable (hp : (LogicalRelExpr.map input exprs).WellScoped)
include hp

theorem map_fresh : Disjoint (exprs.map Prod.fst).toFinset input.att := by
  rw [WellScoped] at hp
  exact (disjoint_union_right.mp hp.2.2.2).1

/-- On the rows of the map the predicates say the same as before. -/
theorem holdsAll_inlineMaps (env r : Binding) :
    holdsAll m catalog (inlineMaps input exprs preds) (overlay (LogicalRelExpr.map input exprs).att
        (mapRow m catalog exprs (overlay input.att r env) r) env) =
      holdsAll m catalog preds (overlay (LogicalRelExpr.map input exprs).att
        (mapRow m catalog exprs (overlay input.att r env) r) env) := by
  have hfresh := map_fresh hp
  rw [WellScoped] at hp
  rw [inlineMaps_eq_map, Bool.eq_iff_iff, holdsAll_iff, holdsAll_iff, List.forall_mem_map]
  refine forall_congr' (fun pred => forall_congr' (fun _ => ?_))
  obtain h | ⟨id, expr, rfl, hmem, hbound, he⟩ := inlinePred_cases hfresh pred
  · rw [h]
  · have hid : id ∈ (LogicalRelExpr.map input exprs).att := by
      rw [LogicalRelExpr.att]
      exact mem_union_right _ (List.mem_toFinset.mpr (List.mem_map.mpr ⟨_, hmem, rfl⟩))
    have hdisjoint : Disjoint (freeExpr expr) (exprs.map Prod.fst).toFinset :=
      (disjoint_of_subset_right hbound hfresh).symm
    rw [he, eval_congr m catalog expr (scopedMaps_mem hp.2.1 hmem) (overlay_mapRow_agree hdisjoint env r),
      eval, overlay_of_mem hid, mapRow_of_mem m catalog hp.2.2.1 hmem]

theorem scopedExprs_inlineMaps (hpreds : ScopedExprs preds) :
    ScopedExprs (inlineMaps input exprs preds) := by
  have hfresh := map_fresh hp
  rw [WellScoped] at hp
  rw [scopedExprs_iff] at hpreds ⊢
  rw [inlineMaps_eq_map, List.forall_mem_map]
  intro pred hpred
  obtain h | ⟨id, expr, -, hmem, -, he⟩ := inlinePred_cases hfresh pred
  · rw [h]
    exact hpreds pred hpred
  · rw [he]
    exact scopedMaps_mem hp.2.1 hmem

theorem freeExprs_inlineMaps (hfree : freeExprs preds ⊆ (LogicalRelExpr.map input exprs).att) :
    freeExprs (inlineMaps input exprs preds) ⊆ (LogicalRelExpr.map input exprs).att := by
  have hfresh := map_fresh hp
  rw [freeExprs_subset] at hfree ⊢
  rw [inlineMaps_eq_map, List.forall_mem_map]
  intro pred hpred
  obtain h | ⟨id, expr, -, -, hbound, he⟩ := inlinePred_cases hfresh pred
  · rw [h]
    exact hfree pred hpred
  · rw [he, LogicalRelExpr.att]
    exact hbound.trans subset_union_left

/-- A selection on columns of the input goes below the map. -/
theorem Filtered.map (hpreds : ScopedExprs preds) (hfree : freeExprs preds ⊆ input.att)
    (h : Filtered m catalog input preds q) :
    Filtered m catalog (.map input exprs) preds (mapNode q exprs) := by
  have hfresh := map_fresh hp
  unfold mapNode
  split_ifs with hnil
  · -- without new columns there is nothing to do
    subst hnil
    refine ⟨h.wellScoped, h.pushable, ?_, ?_, fun env => ?_⟩
    · rw [h.att, LogicalRelExpr.att]
      simp
    · rw [WellScoped] at hp
      rw [LogicalRelExpr.free, freeMaps, union_empty,
        sdiff_eq_self_of_disjoint (disjoint_free_att input hp.1)]
      exact h.free
    · rw [h.denote, LogicalRelExpr.denote, LogicalRelExpr.att]
      simp [mapRow]
  · have hsub : (LogicalRelExpr.map q exprs).free ⊆ (LogicalRelExpr.map input exprs).free := by
      rw [LogicalRelExpr.free, LogicalRelExpr.free, h.att]
      exact sdiff_subset_sdiff (union_subset_union_left h.free) (Finset.Subset.refl _)
    have hp' := hp
    rw [WellScoped] at hp'
    refine ⟨?_, ?_, ?_, hsub, fun env => ?_⟩
    · rw [WellScoped, h.att]
      refine ⟨h.wellScoped, hp'.2.1, hp'.2.2.1, ?_⟩
      exact disjoint_of_subset_right (union_subset_union_right hsub) hp'.2.2.2
    · rw [Pushable]
      exact h.pushable
    · rw [LogicalRelExpr.att, LogicalRelExpr.att, h.att]
    · have hdisjoint : Disjoint (freeExprs preds) (exprs.map Prod.fst).toFinset :=
        (disjoint_of_subset_right hfree hfresh).symm
      rw [LogicalRelExpr.denote, LogicalRelExpr.denote, h.denote, h.att, Multiset.filter_map]
      refine congrArg _ (Multiset.filter_congr (fun r _ => ?_))
      rw [Function.comp_apply, holdsAll_congr m catalog preds hpreds (overlay_mapRow_agree hdisjoint env r)]

end Map

/-! ### Join -/

section Join

variable {left right left' right' : LogicalRelExpr} {joinType joinType' : JoinType}

/-- An inner join has the pairs only. -/
theorem joinRows_inner (hjoin : joinType = .inner ∨ joinType = .crossJoin) (s t : Finset ColumnId)
    (keep : Binding → Bool) (l r : Multiset Binding) :
    joinRows joinType s t keep l r =
      matching (mergeRows t) (fun a b => keep (mergeRows t a b) = true) l r := by
  obtain rfl | rfl := hjoin <;> simp [joinRows, Bag.outerJoin, JoinType.keepsLeft, JoinType.keepsRight]

/-- The columns of the left row in a pair. -/
theorem overlay_merge_left {s t u : Finset ColumnId} (hst : Disjoint s t) (hu : u ⊆ s)
    (a b env : Binding) :
    Agree u (overlay (s ∪ t) (mergeRows t a b) env) (overlay s a env) := by
  intro c hc
  have hs := hu hc
  rw [overlay_of_mem (mem_union_left t hs), overlay_of_mem hs, mergeRows,
    overlay_of_notMem (disjoint_left.mp hst hs)]

/-- The columns of the right row in a pair. -/
theorem overlay_merge_right {s t u : Finset ColumnId} (hu : u ⊆ t) (a b env : Binding) :
    Agree u (overlay (s ∪ t) (mergeRows t a b) env) (overlay t b env) := by
  intro c hc
  have ht := hu hc
  rw [overlay_of_mem (mem_union_right s ht), overlay_of_mem ht, mergeRows, overlay_of_mem ht]

theorem wellScoped_join (hp : (LogicalRelExpr.join joinType left right preds).WellScoped)
    (hpreds : ScopedExprs preds') : (LogicalRelExpr.join joinType' left right preds').WellScoped := by
  rw [WellScoped] at hp ⊢
  exact ⟨hp.1, hp.2.1, hpreds, hp.2.2.2⟩

/-- The free columns of the inputs are free in the join. -/
theorem join_free (hp : (LogicalRelExpr.join joinType left right preds).WellScoped) :
    left.free ∪ right.free ⊆ (LogicalRelExpr.join joinType left right preds).free := by
  rw [WellScoped] at hp
  have hdisjoint : Disjoint (left.free ∪ right.free) (left.att ∪ right.att) := by
    rw [disjoint_union_left, disjoint_union_right, disjoint_union_right]
    exact ⟨⟨disjoint_free_att left hp.1, hp.2.2.2.2.1⟩, hp.2.2.2.2.2, disjoint_free_att right hp.2.1⟩
  rw [LogicalRelExpr.free, union_sdiff_distrib, sdiff_eq_self_of_disjoint hdisjoint]
  exact subset_union_left

section

variable (hjoin : joinType = .inner ∨ joinType = .crossJoin)
include hjoin

/-- Predicates on the left row, on the right row and on the pair, from all of them. -/
theorem Filtered.join (hjoin' : joinType' = .inner ∨ joinType' = .crossJoin)
    (hp : (LogicalRelExpr.join joinType left right []).WellScoped) {pl pr keep : List (Expression LogicalRelExpr)}
    (hl : Filtered m catalog left pl left') (hr : Filtered m catalog right pr right')
    (hpl : ScopedExprs pl) (hpr : ScopedExprs pr) (hkeep : ScopedExprs keep)
    (hpl' : freeExprs pl ⊆ left.att) (hpr' : freeExprs pr ⊆ right.att)
    (hkeep' : freeExprs keep ⊆ left.att ∪ right.att) :
    Filtered m catalog (.join joinType left right []) (keep ++ (pl ++ pr))
      (joinNode joinType' left' right' keep) := by
  have hscope := hp
  rw [WellScoped] at hscope
  obtain ⟨-, -, -, hatt, hlr, hrl⟩ := hscope
  unfold joinNode
  refine ⟨?_, ?_, ?_, ?_, fun env => ?_⟩
  · rw [WellScoped, hl.att, hr.att]
    exact ⟨hl.wellScoped, hr.wellScoped, scopedExprs_split hkeep, hatt,
      disjoint_of_subset_left hl.free hlr, disjoint_of_subset_left hr.free hrl⟩
  · rw [Pushable, hl.att, hr.att, freeExprs_split]
    exact ⟨hjoin', hl.pushable, hr.pushable, hkeep'⟩
  · rw [LogicalRelExpr.att, LogicalRelExpr.att, hl.att, hr.att]
  · refine Finset.Subset.trans (fun c hc => ?_) (join_free hp)
    rw [LogicalRelExpr.free, freeExprs_split, hl.att, hr.att, mem_sdiff, Finset.mem_union] at hc
    obtain ⟨hc | hc, hnot⟩ := hc
    · exact union_subset_union hl.free hr.free hc
    · exact absurd (hkeep' hc) hnot
  · rw [LogicalRelExpr.denote, LogicalRelExpr.denote, joinRows_inner hjoin', joinRows_inner hjoin,
      hl.denote, hr.denote, hl.att, hr.att, Bag.matching_filter, Bag.filter_matching]
    refine Bag.matching_congr (fun a _ b _ => ?_) (fun _ _ _ _ => rfl)
    rw [holdsAll_split, LogicalRelExpr.att, holdsAll_append, holdsAll_append,
      holdsAll_congr m catalog pl hpl (overlay_merge_left hatt hpl' a b env),
      holdsAll_congr m catalog pr hpr (overlay_merge_right hpr' a b env)]
    simp [holdsAll]

/-- The predicates of an inner join are a selection on the pairs. -/
theorem Filtered.of_join (hp : (LogicalRelExpr.join joinType left right preds).WellScoped)
    (h : Filtered m catalog (.join joinType left right []) (preds ++ preds') q) :
    Filtered m catalog (.join joinType left right preds) preds' q := by
  refine ⟨h.wellScoped, h.pushable, ?_, ?_, fun env => ?_⟩
  · rw [h.att, LogicalRelExpr.att, LogicalRelExpr.att]
  · refine h.free.trans ?_
    rw [LogicalRelExpr.free, freeExprs, union_empty]
    exact sdiff_subset.trans (join_free hp)
  · rw [h.denote, LogicalRelExpr.denote, LogicalRelExpr.denote, joinRows_inner hjoin,
      joinRows_inner hjoin, Bag.filter_matching, Bag.filter_matching]
    refine Bag.matching_congr (fun a _ b _ => ?_) (fun _ _ _ _ => rfl)
    rw [LogicalRelExpr.att, holdsAll_append, LogicalRelExpr.att]
    simp [holdsAll]

/-- The result of `joinWith` is the product with a selection. -/
theorem joinWith_filtered (hp : (LogicalRelExpr.join joinType left right []).WellScoped) (hpushl : Pushable left)
    (hpushr : Pushable right)
    {selectLeft selectRight : List (Expression LogicalRelExpr) → Except ExecError LogicalRelExpr}
    (hl : Selects m catalog left selectLeft) (hr : Selects m catalog right selectRight)
    (hpreds : ScopedExprs preds) (hfree : freeExprs preds ⊆ left.att ∪ right.att) :
    ∃ q, joinWith selectLeft selectRight joinType left right preds = .ok q ∧
      Filtered m catalog (.join joinType left right []) preds q := by
  have hscope := hp
  rw [WellScoped] at hscope
  have hleft := Filtered.nil m catalog hscope.1 hpushl
  have hright := Filtered.nil m catalog hscope.2.1 hpushr
  unfold joinWith
  by_cases hnil : preds = []
  · rw [if_pos hnil, hnil]
    refine ⟨_, rfl, Filtered.nil m catalog hp ?_⟩
    rw [Pushable, freeExprs]
    exact ⟨hjoin, hpushl, hpushr, empty_subset _⟩
  rw [if_neg hnil]
  have hsplit := scopedExprs_split hpreds
  have hfree' : freeExprs (preds.flatMap Expression.splitConjunction) ⊆ left.att ∪ right.att := by
    rw [freeExprs_split]
    exact hfree
  have hcongr : ∀ q, Filtered m catalog (.join joinType left right [])
      (preds.flatMap Expression.splitConjunction) q →
      Filtered m catalog (.join joinType left right []) preds q :=
    fun q h => h.congr (fun env => holdsAll_split m catalog)
  generalize preds.flatMap Expression.splitConjunction = P at hsplit hfree' hcongr
  dsimp only
  by_cases hpush : P.filter (fun pred => boundBy pred left) ≠ [] ∨
      (P.filter (fun pred => ¬ boundBy pred left)).filter (fun pred => boundBy pred right) ≠ []
  · -- predicates on one side go into that side
    rw [if_pos ⟨by tauto, hpush⟩]
    have hpl' : freeExprs (P.filter (fun pred => boundBy pred left)) ⊆ left.att := by
      rw [freeExprs_subset]
      exact fun e he => of_decide_eq_true (List.mem_filter.mp he).2
    have hpr' : freeExprs ((P.filter (fun pred => ¬ boundBy pred left)).filter
        (fun pred => boundBy pred right)) ⊆ right.att := by
      rw [freeExprs_subset]
      exact fun e he => of_decide_eq_true (List.mem_filter.mp he).2
    obtain ⟨left', hleft', hl'⟩ := hl _ (scopedExprs_filter hsplit _) hpl'
    obtain ⟨right', hright', hr'⟩ := hr _ (scopedExprs_filter (scopedExprs_filter hsplit _) _) hpr'
    rw [hleft', hright']
    refine ⟨_, rfl, hcongr _ ?_⟩
    refine (Filtered.join hjoin ?_ hp hl' hr' (scopedExprs_filter hsplit _) (scopedExprs_filter (scopedExprs_filter hsplit _) _)
      (scopedExprs_filter (scopedExprs_filter hsplit _) _) hpl' hpr' ?_).congr (fun env => ?_)
    · split_ifs
      · exact Or.inl rfl
      · exact hjoin
    · exact (freeExprs_filter_subset _).trans ((freeExprs_filter_subset _).trans hfree')
    · rw [Bool.eq_iff_iff, holdsAll_append, holdsAll_append,
        holdsAll_partition m catalog P (fun pred => boundBy pred left),
        holdsAll_partition m catalog (P.filter (fun pred => ¬ boundBy pred left))
          (fun pred => boundBy pred right)]
      tauto
  · -- the other predicates stay with the join
    obtain ⟨hpl, hpr⟩ := not_or.mp hpush
    rw [not_not] at hpl hpr
    have hright' : P.filter (fun pred => boundBy pred right) = [] := by
      rw [List.filter_eq_nil_iff] at hpl hpr ⊢
      intro e he hb
      refine hpr e (List.mem_filter.mpr ⟨he, ?_⟩) hb
      have hn := hpl e he
      simpa using hn
    have hkeep : ∀ joinType', joinType' = .inner ∨ joinType' = .crossJoin →
        Filtered m catalog (.join joinType left right []) P (joinNode joinType' left right P) := by
      intro joinType' hjoin'
      have h := Filtered.join hjoin hjoin' hp hleft hright trivial trivial hsplit
        (empty_subset _) (empty_subset _) hfree'
      simpa using h
    rw [if_neg (fun h => hpush h.2), if_neg (fun h => h.2 hright')]
    obtain rfl | rfl := hjoin
    · rw [if_neg (by simp)]
      refine ⟨_, rfl, hcongr _ ?_⟩
      refine ⟨wellScoped_join hp hsplit, ?_, ?_, ?_, fun env => ?_⟩
      · rw [Pushable]
        exact ⟨Or.inl rfl, hpushl, hpushr, hfree'⟩
      · rw [LogicalRelExpr.att, LogicalRelExpr.att]
      · have h := (hkeep .inner (Or.inl rfl)).free
        unfold joinNode at h
        rw [LogicalRelExpr.free, freeExprs_split] at h
        rw [LogicalRelExpr.free]
        exact h
      · have h := (hkeep .inner (Or.inl rfl)).denote env
        unfold joinNode at h
        rw [LogicalRelExpr.denote] at h
        simp only [holdsAll_split] at h
        rw [LogicalRelExpr.denote]
        exact h
    · rw [if_pos rfl, if_pos hfree']
      exact ⟨_, rfl, hcongr _ (hkeep .inner (Or.inl rfl))⟩

end

end Join

/-! ### The whole plan -/

/-- The predicates of a split list in one or the other part. -/
theorem congr_partition (preds : List (Expression LogicalRelExpr))
    (s : Expression LogicalRelExpr → Prop) [DecidablePred s] {q : LogicalRelExpr}
    (h : Filtered m catalog p (preds.filter (fun pred => s pred) ++ preds.filter (fun pred => ¬ s pred)) q) :
    Filtered m catalog p preds q := by
  refine h.congr (fun env => ?_)
  rw [Bool.eq_iff_iff, holdsAll_append, holdsAll_partition m catalog preds s, and_comm]

theorem Filtered.of_inlineMaps (hp : (LogicalRelExpr.map input exprs).WellScoped)
    (h : Filtered m catalog (.map input exprs) (inlineMaps input exprs preds) q) :
    Filtered m catalog (.map input exprs) preds q := by
  refine ⟨h.wellScoped, h.pushable, h.att, h.free, fun env => ?_⟩
  rw [h.denote, LogicalRelExpr.denote, Multiset.filter_map, Multiset.filter_map]
  refine congrArg _ (Multiset.filter_congr (fun r _ => ?_))
  rw [Function.comp_apply, Function.comp_apply, holdsAll_inlineMaps hp]

/-- A selection that is pushed down denotes the filtered plan. -/
theorem select_filtered (m : Managers) (catalog : Catalog) {rules : Rules} (hrule : .selectionPushdown ∈ rules) :
    ∀ p : LogicalRelExpr, p.WellScoped → Pushable p → Selects m catalog p (select rules p)
  | p, hp, hpush, preds, hpreds, hfree => by
    rw [select]
    by_cases hnil : preds = []
    · rw [if_pos hnil, hnil]
      exact ⟨p, rfl, Filtered.nil m catalog hp hpush⟩
    rw [if_neg hnil]
    dsimp only
    rw [if_pos hrule]
    have hsplit := scopedExprs_split hpreds
    have hfree' : freeExprs (preds.flatMap Expression.splitConjunction) ⊆ p.att := by
      rw [freeExprs_split]
      exact hfree
    have hcongr : ∀ q, Filtered m catalog p (preds.flatMap Expression.splitConjunction) q →
        Filtered m catalog p preds q := fun q h => h.congr (fun env => holdsAll_split m catalog)
    generalize preds.flatMap Expression.splitConjunction = P at hsplit hfree' hcongr
    have hnode : ∃ q, (Except.ok (selectNode p P) : Except ExecError LogicalRelExpr) = .ok q ∧
        Filtered m catalog p preds q :=
      ⟨_, rfl, hcongr _ (selectNode_filtered m catalog hp hpush hsplit hfree')⟩
    cases p with
    | select src preds' =>
      have hp' := hp
      rw [WellScoped] at hp'
      rw [Pushable] at hpush
      rw [LogicalRelExpr.att] at hfree'
      obtain ⟨q, hq, h⟩ := select_filtered m catalog hrule src hp'.1 hpush.1 (preds' ++ P)
        (scopedExprs_append hp'.2 hsplit)
        (by rw [freeExprs_append]; exact Finset.union_subset hpush.2 hfree')
      exact ⟨q, hq, hcongr q (Filtered.of_select hp h)⟩
    | join joinType left right preds' =>
      have hp' := hp
      rw [WellScoped] at hp'
      rw [Pushable] at hpush
      rw [LogicalRelExpr.att] at hfree'
      obtain ⟨q, hq, h⟩ := joinWith_filtered hpush.1 (wellScoped_join hp trivial) hpush.2.1 hpush.2.2.1
        (select_filtered m catalog hrule left hp'.1 hpush.2.1) (select_filtered m catalog hrule right hp'.2.1 hpush.2.2.1)
        (scopedExprs_append hp'.2.2.1 hsplit)
        (by rw [freeExprs_append]; exact Finset.union_subset hpush.2.2.2 hfree')
      exact ⟨q, hq, hcongr q (Filtered.of_join hpush.1 hp h)⟩
    | aggregate src groupBy aggrs =>
      have hp' := hp
      rw [WellScoped] at hp'
      rw [Pushable] at hpush
      have hdown : freeExprs (P.filter (fun pred => freeExpr pred ⊆ groupBy.toFinset)) ⊆
          groupBy.toFinset := by
        rw [freeExprs_subset]
        exact fun e he => of_decide_eq_true (List.mem_filter.mp he).2
      obtain ⟨q, hq, h⟩ := select_filtered m catalog hrule src hp'.1 hpush
        (P.filter (fun pred => freeExpr pred ⊆ groupBy.toFinset)) (scopedExprs_filter hsplit _)
        (hdown.trans hp'.2.1)
      have hagg := Filtered.aggregate hp (scopedExprs_filter hsplit _) hdown h
      have hkeep := selectNode_filtered m catalog hagg.wellScoped hagg.pushable
        (scopedExprs_filter hsplit (fun pred => ¬ freeExpr pred ⊆ groupBy.toFinset))
        (by rw [hagg.att]; exact (freeExprs_filter_subset _).trans hfree')
      dsimp only
      rw [hq]
      exact ⟨_, rfl, hcongr _ (congr_partition P _ (hagg.trans hkeep))⟩
    | map input exprs =>
      have hp' := hp
      rw [WellScoped] at hp'
      rw [Pushable] at hpush
      have hscoped := scopedExprs_inlineMaps hp hsplit
      have hinline := freeExprs_inlineMaps hp hfree'
      have hdown : freeExprs ((inlineMaps input exprs P).filter
          (fun pred => Disjoint (freeExpr pred) (exprs.map Prod.fst).toFinset)) ⊆ input.att := by
        rw [freeExprs_subset] at hinline ⊢
        intro e he c hc
        obtain ⟨he, hdisjoint⟩ := List.mem_filter.mp he
        have hmem := hinline e he hc
        rw [LogicalRelExpr.att, Finset.mem_union] at hmem
        exact hmem.resolve_right (disjoint_left.mp (of_decide_eq_true hdisjoint) hc)
      obtain ⟨q, hq, h⟩ := select_filtered m catalog hrule input hp'.1 hpush _ (scopedExprs_filter hscoped _) hdown
      have hmap := Filtered.map hp (scopedExprs_filter hscoped _) hdown h
      have hkeep := selectNode_filtered m catalog hmap.wellScoped hmap.pushable
        (scopedExprs_filter hscoped
          (fun pred => ¬ Disjoint (freeExpr pred) (exprs.map Prod.fst).toFinset))
        (by rw [hmap.att]; exact (freeExprs_filter_subset _).trans hinline)
      dsimp only
      rw [hq]
      exact ⟨_, rfl, hcongr _ (Filtered.of_inlineMaps hp (congr_partition _ _ (hmap.trans hkeep)))⟩
    | scan _ _ _ => exact hnode
    | indexScan _ _ _ _ _ => exact hnode
    | delete _ _ => exact hnode
    | update _ _ _ => exact hnode
    | project _ _ => exact hnode
    | orderBy _ _ => exact hnode
    | flatMap _ _ => exact hnode
    | rename _ _ => exact hnode

end Filtered

/-! ### Plans of inner joins -/

/-- The plan is built from scans, renames, selections, maps, aggregations and inner or cross joins.
The predicates are over the columns of their inputs: only a map may refer to an outer column. -/
def Basic : LogicalRelExpr → Prop
  | .scan .. => True
  | .rename src _ => Basic src
  | .select src predicates => Basic src ∧ freeExprs predicates ⊆ src.att
  | .map input _ => Basic input
  | .aggregate src _ _ => Basic src
  | .join joinType left right predicates =>
    (joinType = .inner ∨ joinType = .crossJoin) ∧ Basic left ∧ Basic right ∧
      freeExprs predicates ⊆ left.att ∪ right.att
  | _ => False

theorem Basic.pushable : ∀ {p : LogicalRelExpr}, Basic p → Pushable p
  | .scan .., _ => by simp [Pushable]
  | .rename .., _ => by simp [Pushable]
  | .select src _, h => by
    rw [Basic] at h
    rw [Pushable]
    exact ⟨Basic.pushable h.1, h.2⟩
  | .map input _, h => by
    rw [Basic] at h
    rw [Pushable]
    exact Basic.pushable h
  | .aggregate src _ _, h => by
    rw [Basic] at h
    rw [Pushable]
    exact Basic.pushable h
  | .join _ left right _, h => by
    rw [Basic] at h
    rw [Pushable]
    exact ⟨h.1, Basic.pushable h.2.1, Basic.pushable h.2.2.1, h.2.2.2⟩

mutual

/-- The expression has no subquery. -/
def subqueryFree : Expression LogicalRelExpr → Bool
  | .colRef _ => true
  | .field _ => true
  | .binary _ left right => subqueryFree left && subqueryFree right
  | .case expr whens elseExpr => subqueryFree expr && subqueryFreeWhens whens && subqueryFree elseExpr
  | .subquery _ => false

def subqueryFreeWhens : List (Expression LogicalRelExpr × Expression LogicalRelExpr) → Bool
  | [] => true
  | (when, result) :: whens => subqueryFree when && subqueryFree result && subqueryFreeWhens whens

end

mutual

theorem scopedExpr_of_subqueryFree : ∀ e : Expression LogicalRelExpr, subqueryFree e = true → ScopedExpr e
  | .colRef _, _ => by rw [ScopedExpr]; trivial
  | .field _, _ => by rw [ScopedExpr]; trivial
  | .binary _ left right, h => by
    rw [subqueryFree, Bool.and_eq_true] at h
    rw [ScopedExpr]
    exact ⟨scopedExpr_of_subqueryFree left h.1, scopedExpr_of_subqueryFree right h.2⟩
  | .case expr whens elseExpr, h => by
    rw [subqueryFree, Bool.and_eq_true, Bool.and_eq_true] at h
    rw [ScopedExpr]
    exact ⟨scopedExpr_of_subqueryFree expr h.1.1, scopedWhens_of_subqueryFree whens h.1.2,
      scopedExpr_of_subqueryFree elseExpr h.2⟩

theorem scopedWhens_of_subqueryFree :
    ∀ whens : List (Expression LogicalRelExpr × Expression LogicalRelExpr),
      subqueryFreeWhens whens = true → ScopedWhens whens
  | [], _ => by rw [ScopedWhens]; trivial
  | (when, result) :: whens, h => by
    rw [subqueryFreeWhens, Bool.and_eq_true, Bool.and_eq_true] at h
    rw [ScopedWhens]
    exact ⟨scopedExpr_of_subqueryFree when h.1.1, scopedExpr_of_subqueryFree result h.1.2,
      scopedWhens_of_subqueryFree whens h.2⟩

end

/-- Selections and joins of plans of inner joins: the plan that is built has the columns of the plan
and denotes its rows, respectively the pairs of rows, on which all predicates are true. -/
theorem pushdown_sound (m : Managers) (catalog : Catalog) (rules : Rules)
    (hrule : .selectionPushdown ∈ rules) :
    (∀ (plan : LogicalRelExpr) (preds : List (Expression LogicalRelExpr)), Basic plan → plan.WellScoped →
      (∀ pred ∈ preds, subqueryFree pred = true ∧ freeExpr pred ⊆ plan.att) →
      ∃ q, select rules plan preds = .ok q ∧ q.att = plan.att ∧
        ∀ env, denote m catalog q env = (denote m catalog plan env).filter
          (fun r => ∀ pred ∈ preds, eval m catalog pred (overlay plan.att r env) = some (.bool true))) ∧
    ∀ (joinType : JoinType) (left right : LogicalRelExpr) (preds : List (Expression LogicalRelExpr)),
      (joinType = .inner ∨ joinType = .crossJoin) → Basic left → Basic right →
      (LogicalRelExpr.join joinType left right []).WellScoped →
      (∀ pred ∈ preds, subqueryFree pred = true ∧ freeExpr pred ⊆ left.att ∪ right.att) →
      ∃ q, join rules joinType left right preds = .ok q ∧ q.att = left.att ∪ right.att ∧
        ∀ env, denote m catalog q env = matching (mergeRows right.att)
          (fun a b => ∀ pred ∈ preds, eval m catalog pred
            (overlay (left.att ∪ right.att) (mergeRows right.att a b) env) = some (.bool true))
          (denote m catalog left env) (denote m catalog right env) := by
  have hscoped : ∀ {preds : List (Expression LogicalRelExpr)} {s : Finset ColumnId},
      (∀ pred ∈ preds, subqueryFree pred = true ∧ freeExpr pred ⊆ s) →
      ScopedExprs preds ∧ freeExprs preds ⊆ s := by
    intro preds s h
    exact ⟨scopedExprs_iff.mpr (fun e he => scopedExpr_of_subqueryFree e (h e he).1),
      freeExprs_subset.mpr (fun e he => (h e he).2)⟩
  constructor
  · intro plan preds hbasic hscope hpreds
    obtain ⟨q, hq, h⟩ := select_filtered m catalog hrule plan hscope hbasic.pushable
      preds (hscoped hpreds).1 (hscoped hpreds).2
    refine ⟨q, hq, h.att, fun env => ?_⟩
    rw [h.denote]
    exact Multiset.filter_congr (fun r _ => holdsAll_iff m catalog)
  · intro joinType left right preds hjoin hleft hright hscope hpreds
    have hscope' := hscope
    rw [WellScoped] at hscope'
    obtain ⟨q, hq, h⟩ := joinWith_filtered hjoin hscope hleft.pushable hright.pushable
      (select_filtered m catalog hrule left hscope'.1 hleft.pushable)
      (select_filtered m catalog hrule right hscope'.2.1 hright.pushable) (hscoped hpreds).1 (hscoped hpreds).2
    refine ⟨q, hq, h.att, fun env => ?_⟩
    rw [h.denote, LogicalRelExpr.denote, joinRows_inner hjoin, Bag.filter_matching]
    refine Bag.matching_congr (fun a _ b _ => ?_) (fun _ _ _ _ => rfl)
    rw [LogicalRelExpr.att, ← holdsAll_iff m catalog, holdsAll]
    simp

/-- Two rows of the first table and one of the second. -/
def twoTables : ContainerId → List (List Field) := fun cid =>
  if cid = 0 then [[.bigInt 7, .bigInt 5], [.bigInt 8, .bigInt 4]] else [[.bigInt 7]]

/-- A cross join with a predicate on the left input and one on both inputs: one of the two pairs of
rows is left. -/
theorem pushdown_sound_twoScans :
    ∃ q, join {.selectionPushdown} .crossJoin (.scan 0 "r" [0, 1]) (.scan 1 "s" [100])
        [.binary .and (.binary .eq (.colRef 0) (.colRef 100)) (.binary .eq (.colRef 1) (.int 5))] = .ok q ∧
      q.att = {0, 1, 100} ∧ ∀ env, denote (.ofTables twoTables) .new q env =
        {mergeRows {100} (labelled [0, 1] [.bigInt 7, .bigInt 5]) (labelled [100] [.bigInt 7])} := by
  obtain ⟨q, hq, hatt, hrows⟩ := (pushdown_sound (.ofTables twoTables) .new {.selectionPushdown}
    (by decide)).2 .crossJoin (.scan 0 "r" [0, 1]) (.scan 1 "s" [100])
      [.binary .and (.binary .eq (.colRef 0) (.colRef 100)) (.binary .eq (.colRef 1) (.int 5))]
      (Or.inr rfl) trivial trivial (by simp [WellScoped, LogicalRelExpr.att, LogicalRelExpr.free, ScopedExprs])
      (by decide)
  refine ⟨q, hq, hatt, fun env => ?_⟩
  have hleft : denote (.ofTables twoTables) .new (.scan 0 "r" [0, 1]) env =
      labelled [0, 1] [.bigInt 7, .bigInt 5] ::ₘ {labelled [0, 1] [.bigInt 8, .bigInt 4]} := by
    rw [denote]
    rfl
  have hright : denote (.ofTables twoTables) .new (.scan 1 "s" [100]) env =
      {labelled [100] [.bigInt 7]} := by
    rw [denote]
    rfl
  rw [hrows, hleft, hright, MergeJoin.matching_eq_bind_left, Multiset.cons_bind,
    Multiset.singleton_bind, Multiset.filter_singleton, Multiset.filter_singleton, if_pos ?_, if_neg ?_]
  · rfl
  · simp only [List.mem_singleton, forall_eq]
    rw [eval_and_eq_true]
    rintro ⟨h, -⟩
    rw [eval, eval, eval] at h
    have hfalse : some (Field.bool false) = some (.bool true) := h
    exact absurd hfalse (by decide)
  · simp only [List.mem_singleton, forall_eq]
    rw [eval_and_eq_true]
    constructor
    · rw [eval, eval, eval]
      rfl
    · rw [eval, eval]
      rfl

end Plan

end CrustyDB
