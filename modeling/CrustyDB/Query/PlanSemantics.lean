import CrustyDB.Query.ExprCompiler
import CrustyDB.Lib.Bag

/-! # What a logical plan denotes

A row of a plan is labelled with column ids, and a plan denotes a bag of rows.  A plan with free columns
denotes a bag in an environment, which gives the values of the outer columns; rows and environments
are both partial functions on the column ids (`Binding`).  An expression that cannot be evaluated has
no value, and a predicate keeps the rows on which its value is `true`.

The bag of a plan and the value of an expression depend on the free columns only (`denote_congr`,
`eval_congr`), if no outer column is hidden by a column of the plan (`WellScoped`).

`IndexScan` denotes the rows of the table with the key in the columns of the index; `Delete` and
`Update` denote the rows they change. -/

namespace CrustyDB

open MergeJoin Finset

/-- The values of some columns: a row, or an environment. -/
abbrev Binding := ColumnId → Option Field

/-- The row `r` on the columns `s`, and `env` elsewhere. -/
def Binding.overlay (s : Finset ColumnId) (r env : Binding) : Binding := s.piecewise r env

namespace Binding

variable {s t : Finset ColumnId} {r r' env : Binding} {c : ColumnId}

theorem overlay_of_mem (h : c ∈ s) : overlay s r env c = r c := piecewise_eq_of_mem s r env h

theorem overlay_of_notMem (h : c ∉ s) : overlay s r env c = env c := piecewise_eq_of_notMem s r env h

/-- No columns. -/
def empty : Binding := fun _ => none

/-- Two bindings agree on some columns. -/
def Agree (s : Finset ColumnId) (r r' : Binding) : Prop := ∀ c ∈ s, r c = r' c

theorem Agree.mono (h : Agree s r r') (hst : t ⊆ s) : Agree t r r' := fun c hc => h c (hst hc)

/-- Rows with the same columns over environments that agree outside. -/
theorem Agree.overlay {env' : Binding} (h : Agree (t \ s) env env') :
    Agree t (overlay s r env) (overlay s r env') := by
  intro c hc
  by_cases hs : c ∈ s
  · rw [overlay_of_mem hs, overlay_of_mem hs]
  · rw [overlay_of_notMem hs, overlay_of_notMem hs]
    exact h c (mem_sdiff.mpr ⟨hc, hs⟩)

end Binding

open Binding

/-! ### The operations on bags of rows -/

variable (m : Managers) (catalog : Catalog)

/-- The value of an operation. -/
def BinaryOp.apply (op : BinaryOp) (l r : Field) : Option Field :=
  (ByteCodeExpr.dispatch m.floats op.opcode l r).toOption

/-- A storage with the given tables and without indexes. -/
def Managers.ofTables (tables : ContainerId → List (List Field)) : Managers where
  floats := ⟨fun a _ => a, fun sum _ => Int64.ofInt sum⟩
  getIterator cid := (tables cid).map (fun fields => (.newSlot cid 1 0, Tuple.new fields))
  getIteratorFrom cid _ := (tables cid).map (fun fields => (.newSlot cid 1 0, Tuple.new fields))
  search _ _ := .error "Index not found"
  getValue _ := .error "Value not found"

/-- The stored rows of a table. -/
def tableRows (cid : ContainerId) : Multiset (List Field) :=
  ((m.getIterator cid).map (fun record => record.2.fieldVals) : List (List Field))

/-- A stored row, as a scan labels it: the column id tells the position. -/
def labelled (columnNames : List ColumnId) (fields : List Field) : Binding :=
  overlay columnNames.toFinset (fun c => fields[getColumnIndexFromTempColId c]?) empty

/-- The columns of an index. -/
def columnsOfIndex (indexId : ContainerId) : Option (List ℕ) :=
  (catalog.indexes.find? (fun info => info.indexId == indexId)).map IndexInfo.columns

/-- The stored row has the key in the columns of the index. -/
def hasKey (indexId : ContainerId) (key : List (Option Field)) (fields : List Field) : Prop :=
  ∃ columns, columnsOfIndex catalog indexId = some columns ∧
    columns.map (fun i => fields[i]?) = key ∧ none ∉ key

instance (indexId : ContainerId) (key : List (Option Field)) (fields : List Field) :
    Decidable (hasKey catalog indexId key fields) :=
  match h : columnsOfIndex catalog indexId with
  | none => isFalse (fun ⟨columns, hc, _⟩ => by rw [h] at hc; cases hc)
  | some columns => decidable_of_iff
      (columns.map (fun i => fields[i]?) = key ∧ none ∉ key)
      ⟨fun hk => ⟨columns, h, hk⟩, fun ⟨columns', hc, hk⟩ => by
        rw [h] at hc
        exact Option.some.inj hc ▸ hk⟩

/-- A row of a left input with a row of a right input. -/
def mergeRows (right : Finset ColumnId) (a b : Binding) : Binding := overlay right b a

/-- Null in some columns. -/
def padRow (s : Finset ColumnId) (r : Binding) : Binding := overlay s (fun _ => some .null) r

def JoinType.keepsLeft : JoinType → Bool
  | .leftOuter | .fullOuter => true
  | _ => false

def JoinType.keepsRight : JoinType → Bool
  | .rightOuter | .fullOuter => true
  | _ => false

/-- The join of two bags: the pairs that are kept, and the padded rows of an outer join. -/
def joinRows (joinType : JoinType) (left right : Finset ColumnId) (keep : Binding → Bool)
    (l r : Multiset Binding) : Multiset Binding :=
  Bag.outerJoin (mergeRows right) (padRow right) (padRow left)
    (fun a b => keep (mergeRows right a b) = true) l r joinType.keepsLeft joinType.keepsRight

/-- The value of an aggregate, the values of the group taken in this order. -/
def AggOp.fold (op : AggOp) : List Field → Except ExecError Field
  | [] => .error (.panic .index)
  | val :: vals => do
    let acc ← vals.foldlM (fun acc v => Aggregate.mergeFields op v acc) (Aggregate.initial op val)
    Aggregate.finalAgg m (vals.length + 1) op acc

open Classical in
/-- The value of an aggregate, if it does not depend on the order of the rows. -/
noncomputable def AggOp.value (op : AggOp) (vals : Multiset (Option Field)) : Option Field :=
  if h : ∃ v, ∀ l : List Field, (l.map some : Multiset (Option Field)) = vals → op.fold m l = .ok v then
    some h.choose
  else none

/-- The row of a group: the grouping columns, and the aggregates. -/
noncomputable def groupRow (groupBy : List ColumnId) (aggrs : List (ColumnId × ColumnId × AggOp))
    (g : List (Option Field) × Multiset Binding) : Binding := fun c =>
  match aggrs.reverse.lookup c with
  | some (src, op) => op.value m (g.2.map (fun r => r src))
  | none => ((groupBy.zip g.1).lookup c).getD none

/-- One row for every group that is not empty. -/
noncomputable def aggregateRows (groupBy : List ColumnId)
    (aggrs : List (ColumnId × ColumnId × AggOp)) (rows : Multiset Binding) : Multiset Binding :=
  (Bag.groups (fun r : Binding => groupBy.map r) rows).map (groupRow m groupBy aggrs)

/-- A row under the new column ids. -/
def renameRow (srcToDest : ColumnMap) (r : Binding) : Binding := fun c =>
  match srcToDest.find? (fun p => p.2 = c) with
  | some (src, _) => r src
  | none => if c ∈ srcToDest.map Prod.fst then none else r c

open Classical in
/-- The value of a subquery: the only column of the only row, or null without a row. -/
noncomputable def scalar (att : Finset ColumnId) (rows : Multiset Binding) : Option Field :=
  if rows = 0 then some .null
  else if h : ∃ x : ColumnId × Binding, att = {x.1} ∧ rows = {x.2} then h.choose.2 h.choose.1
  else none

/-! ### Plans and expressions -/

namespace LogicalRelExpr

mutual

/-- The rows of a plan in an environment. -/
noncomputable def denote : LogicalRelExpr → Binding → Multiset Binding
  | scan cid _ columnNames, _ => (tableRows m cid).map (labelled columnNames)
  | indexScan cid _ columnNames indexId keyValues, env =>
    ((tableRows m cid).filter (hasKey catalog indexId (evalExprs keyValues env))).map
      (labelled columnNames)
  | delete _ src, env => denote src env
  | update _ src _, env => denote src env
  | select src predicates, env =>
    (denote src env).filter (fun r => holdsAll predicates (overlay src.att r env) = true)
  | join joinType left right predicates, env =>
    joinRows joinType left.att right.att
      (fun r => holdsAll predicates (overlay (left.att ∪ right.att) r env))
      (denote left env) (denote right env)
  | project src cols, env => (denote src env).map (fun r => overlay cols.toFinset r empty)
  | orderBy src _, env => denote src env
  | aggregate src groupBy aggrs, env => aggregateRows m groupBy aggrs (denote src env)
  | map input exprs, env =>
    (denote input env).map (fun r => mapRow exprs (overlay input.att r env) r)
  | flatMap input func, env =>
    (denote input env).bind (fun r =>
      (denote func (overlay input.att r env)).map (fun s => mergeRows func.att r s))
  | rename src srcToDest, env => (denote src env).map (renameRow srcToDest)

/-- The value of an expression. -/
noncomputable def eval : Expression LogicalRelExpr → Binding → Option Field
  | .colRef id, env => env id
  | .field val, _ => some val
  | .binary op left right, env => do
    let l ← eval left env
    let r ← eval right env
    op.apply m l r
  | .case expr whens elseExpr, env => do
    let v ← eval expr env
    evalWhens v whens env (eval elseExpr env)
  | .subquery expr, env => scalar expr.att (denote expr env)

/-- The result of the first case with the value. -/
noncomputable def evalWhens (v : Field) :
    List (Expression LogicalRelExpr × Expression LogicalRelExpr) → Binding → Option Field → Option Field
  | [], _, otherwise => otherwise
  | (when, result) :: whens, env, otherwise => do
    let w ← eval when env
    if w = v then eval result env else evalWhens v whens env otherwise

/-- All predicates are true. -/
noncomputable def holdsAll : List (Expression LogicalRelExpr) → Binding → Bool
  | [], _ => true
  | pred :: preds, env => decide (eval pred env = some (.bool true)) && holdsAll preds env

noncomputable def evalExprs : List (Expression LogicalRelExpr) → Binding → List (Option Field)
  | [], _ => []
  | expr :: exprs, env => eval expr env :: evalExprs exprs env

/-- The row with the new columns, of which a later one replaces an earlier one. -/
noncomputable def mapRow : List (ColumnId × Expression LogicalRelExpr) → Binding → Binding → Binding
  | [], _, r => r
  | (id, expr) :: exprs, env, r => mapRow exprs env (Function.update r id (eval expr env))

end

/-! ### Scopes -/

mutual

/-- The columns of the plan are distinct: two inputs have different columns, new columns have new ids,
and no outer column that is referred to has the id of a column of the plan. -/
def WellScoped : LogicalRelExpr → Prop
  | scan .. => True
  | indexScan _ _ columnNames _ keyValues =>
    ScopedExprs keyValues ∧ Disjoint (freeExprs keyValues) columnNames.toFinset
  | delete _ src => WellScoped src
  | update _ src _ => WellScoped src
  | select src predicates => WellScoped src ∧ ScopedExprs predicates
  | join _ left right predicates =>
    WellScoped left ∧ WellScoped right ∧ ScopedExprs predicates ∧ Disjoint left.att right.att ∧
      Disjoint left.free right.att ∧ Disjoint right.free left.att
  | project src cols => WellScoped src ∧ cols.toFinset ⊆ src.att
  | orderBy src _ => WellScoped src
  | aggregate src groupBy aggrs =>
    WellScoped src ∧ groupBy.toFinset ⊆ src.att ∧
      Disjoint (aggrs.map Prod.fst).toFinset groupBy.toFinset ∧
      Disjoint (aggrs.map Prod.fst).toFinset (aggregate src groupBy aggrs).free
  | map input exprs =>
    WellScoped input ∧ ScopedMaps exprs ∧ (exprs.map Prod.fst).Nodup ∧
      Disjoint (exprs.map Prod.fst).toFinset (input.att ∪ (map input exprs).free)
  | flatMap input func =>
    WellScoped input ∧ WellScoped func ∧ Disjoint input.att func.att ∧ Disjoint input.free func.att
  | rename src srcToDest =>
    WellScoped src ∧ (srcToDest.map Prod.fst).toFinset ⊆ src.att ∧ (srcToDest.map Prod.fst).Nodup ∧
      (srcToDest.map Prod.snd).Nodup ∧
      Disjoint (srcToDest.map Prod.snd).toFinset (src.att ∪ src.free)

/-- The subqueries of an expression are well scoped. -/
def ScopedExpr : Expression LogicalRelExpr → Prop
  | .colRef _ => True
  | .field _ => True
  | .binary _ left right => ScopedExpr left ∧ ScopedExpr right
  | .case expr whens elseExpr => ScopedExpr expr ∧ ScopedWhens whens ∧ ScopedExpr elseExpr
  | .subquery expr => WellScoped expr

def ScopedExprs : List (Expression LogicalRelExpr) → Prop
  | [] => True
  | expr :: exprs => ScopedExpr expr ∧ ScopedExprs exprs

def ScopedWhens : List (Expression LogicalRelExpr × Expression LogicalRelExpr) → Prop
  | [] => True
  | (when, result) :: whens => ScopedExpr when ∧ ScopedExpr result ∧ ScopedWhens whens

def ScopedMaps : List (ColumnId × Expression LogicalRelExpr) → Prop
  | [] => True
  | (_, expr) :: exprs => ScopedExpr expr ∧ ScopedMaps exprs

end

variable {c : ColumnId} {r : Binding}

/-- A column that is renamed, or that a column is renamed to. -/
theorem mem_renameAtt {srcToDest : ColumnMap} {s : Finset ColumnId}
    (hfresh : Disjoint (srcToDest.map Prod.snd).toFinset (srcToDest.map Prod.fst).toFinset) :
    c ∈ renameAtt srcToDest s ↔
      c ∈ srcToDest.map Prod.snd ∨ (c ∈ s ∧ c ∉ srcToDest.map Prod.fst) := by
  induction srcToDest generalizing s with
  | nil => simp [renameAtt]
  | cons p srcToDest ih =>
    obtain ⟨src, dest⟩ := p
    have hfresh' : Disjoint (srcToDest.map Prod.snd).toFinset (srcToDest.map Prod.fst).toFinset := by
      refine disjoint_of_subset_left ?_ (disjoint_of_subset_right ?_ hfresh)
      · intro x hx
        simp only [List.map_cons, List.toFinset_cons, mem_insert]
        exact Or.inr hx
      · intro x hx
        simp only [List.map_cons, List.toFinset_cons, mem_insert]
        exact Or.inr hx
    have hdest : dest ∉ srcToDest.map Prod.fst := fun hmem =>
      disjoint_left.mp hfresh (List.mem_toFinset.mpr List.mem_cons_self)
        (List.mem_toFinset.mpr (List.mem_cons_of_mem src hmem))
    have hstep : renameAtt ((src, dest) :: srcToDest) s = renameAtt srcToDest (insert dest (s.erase src)) :=
      rfl
    rw [hstep, ih hfresh']
    simp only [List.map_cons, List.mem_cons, mem_insert, mem_erase, not_or]
    constructor
    · rintro (h | ⟨rfl | ⟨hne, hs⟩, hnot⟩)
      · exact Or.inl (Or.inr h)
      · exact Or.inl (Or.inl rfl)
      · exact Or.inr ⟨hs, hne, hnot⟩
    · rintro ((rfl | h) | ⟨hs, hne, hnot⟩)
      · exact Or.inr ⟨Or.inl rfl, hdest⟩
      · exact Or.inl h
      · exact Or.inr ⟨Or.inr ⟨hne, hs⟩, hnot⟩

/-- The fresh ids of a well-scoped rename. -/
theorem WellScoped.rename_fresh {src : LogicalRelExpr} {srcToDest : ColumnMap}
    (h : (rename src srcToDest).WellScoped) :
    Disjoint (srcToDest.map Prod.snd).toFinset (srcToDest.map Prod.fst).toFinset := by
  rw [WellScoped] at h
  exact disjoint_of_subset_right (h.2.1.trans subset_union_left) h.2.2.2.2

/-- No outer column is hidden by a column of the plan. -/
theorem disjoint_free_att : ∀ p : LogicalRelExpr, p.WellScoped → Disjoint p.free p.att
  | scan .., _ => by simp [free]
  | indexScan .., h => by
    rw [WellScoped] at h
    rw [free, att]
    exact h.2
  | delete _ src, h => by
    rw [WellScoped] at h
    rw [free, att]
    exact disjoint_free_att src h
  | update _ src _, h => by
    rw [WellScoped] at h
    rw [free, att]
    exact disjoint_free_att src h
  | select .., _ => by
    rw [free, att]
    exact sdiff_disjoint
  | join .., _ => by
    rw [free, att]
    exact sdiff_disjoint
  | project .., h => by
    rw [WellScoped] at h
    rw [free, att]
    exact disjoint_of_subset_right h.2 sdiff_disjoint
  | orderBy .., _ => by
    rw [free, att]
    exact sdiff_disjoint
  | aggregate .., h => by
    rw [WellScoped] at h
    rw [att, disjoint_union_right]
    refine ⟨?_, h.2.2.2.symm⟩
    rw [free]
    exact disjoint_of_subset_right h.2.1 sdiff_disjoint
  | map .., h => by
    rw [WellScoped] at h
    rw [att, disjoint_union_right]
    refine ⟨?_, (disjoint_union_right.mp h.2.2.2).2.symm⟩
    rw [free]
    exact sdiff_disjoint
  | flatMap _ func, h => by
    rw [WellScoped] at h
    rw [free, att, disjoint_union_right]
    refine ⟨sdiff_disjoint, disjoint_of_subset_left sdiff_subset ?_⟩
    exact disjoint_union_left.mpr ⟨h.2.2.2, disjoint_free_att func h.2.1⟩
  | rename src _, h => by
    have hfresh := h.rename_fresh
    rw [WellScoped] at h
    rw [free, att, disjoint_left]
    intro c hc hatt
    obtain hdest | ⟨hs, -⟩ := (mem_renameAtt hfresh).mp hatt
    · exact disjoint_left.mp h.2.2.2.2 (List.mem_toFinset.mpr hdest)
        (mem_union_right _ hc)
    · exact disjoint_left.mp (disjoint_free_att src h.1) hc hs

/-! ### The columns of the rows -/

theorem mapRow_of_notMem {exprs : List (ColumnId × Expression LogicalRelExpr)} {env : Binding}
    (h : c ∉ exprs.map Prod.fst) : mapRow m catalog exprs env r c = r c := by
  induction exprs generalizing r with
  | nil => rw [mapRow]
  | cons p exprs ih =>
    obtain ⟨id, expr⟩ := p
    simp only [List.map_cons, List.mem_cons, not_or] at h
    rw [mapRow, ih h.2, Function.update_of_ne h.1]

/-- A new column has the value of its expression. -/
theorem mapRow_of_mem {exprs : List (ColumnId × Expression LogicalRelExpr)} {env : Binding}
    {expr : Expression LogicalRelExpr} (hnodup : (exprs.map Prod.fst).Nodup) (h : (c, expr) ∈ exprs) :
    mapRow m catalog exprs env r c = eval m catalog expr env := by
  induction exprs generalizing r with
  | nil => cases h
  | cons p exprs ih =>
    obtain ⟨id, e⟩ := p
    rw [List.map_cons, List.nodup_cons] at hnodup
    rw [mapRow]
    obtain he | h := List.mem_cons.mp h
    · cases he
      rw [mapRow_of_notMem m catalog hnodup.1, Function.update_self]
    · exact ih hnodup.2 h

theorem lookup_eq_none_of_notMem {α : Type} {l : List (ColumnId × α)} (h : c ∉ l.map Prod.fst) :
    l.lookup c = none := by
  induction l with
  | nil => rfl
  | cons p l ih =>
    simp only [List.map_cons, List.mem_cons, not_or] at h
    rw [List.lookup_cons, beq_eq_false_iff_ne.mpr h.1]
    exact ih h.2

/-- Without an aggregate of that name, a column of a group is a grouping column. -/
theorem groupRow_of_notMem {groupBy : List ColumnId} {aggrs : List (ColumnId × ColumnId × AggOp)}
    {g : List (Option Field) × Multiset Binding} (h : c ∉ aggrs.map Prod.fst) :
    groupRow m groupBy aggrs g c = ((groupBy.zip g.1).lookup c).getD none := by
  have hnone : aggrs.reverse.lookup c = none := by
    refine lookup_eq_none_of_notMem ?_
    rw [List.map_reverse, List.mem_reverse]
    exact h
  unfold groupRow
  rw [hnone]

theorem lookup_zip_map {groupBy : List ColumnId} (h : c ∈ groupBy) :
    ((groupBy.zip (groupBy.map r)).lookup c).getD none = r c := by
  induction groupBy with
  | nil => cases h
  | cons d groupBy ih =>
    rw [List.map_cons, List.zip_cons_cons, List.lookup_cons]
    by_cases hd : c = d
    · rw [hd, beq_self_eq_true]
      rfl
    · rw [beq_eq_false_iff_ne.mpr hd]
      exact ih ((List.mem_cons.mp h).resolve_left hd)

/-! ### The free columns decide -/

mutual

/-- The rows of a plan depend on its free columns. -/
theorem denote_congr : ∀ (p : LogicalRelExpr), p.WellScoped → ∀ {env env' : Binding},
    Agree p.free env env' → denote m catalog p env = denote m catalog p env'
  | scan .., _, env, env', _ => by rw [denote, denote]
  | indexScan _ _ _ _ keyValues, h, env, env', henv => by
    rw [WellScoped] at h
    rw [free] at henv
    rw [denote, denote, evalExprs_congr keyValues h.1 henv]
  | delete _ src, h, env, env', henv => by
    rw [WellScoped] at h
    rw [free] at henv
    rw [denote, denote, denote_congr src h henv]
  | update _ src _, h, env, env', henv => by
    rw [WellScoped] at h
    rw [free] at henv
    rw [denote, denote, denote_congr src h henv]
  | select src predicates, h, env, env', henv => by
    rw [WellScoped] at h
    rw [free, union_sdiff_distrib, sdiff_eq_self_of_disjoint (disjoint_free_att src h.1)]
      at henv
    rw [denote, denote, denote_congr src h.1 (henv.mono subset_union_left)]
    refine Multiset.filter_congr (fun r _ => ?_)
    rw [holdsAll_congr predicates h.2 (henv.mono subset_union_right).overlay]
  | join joinType left right predicates, h, env, env', henv => by
    rw [WellScoped] at h
    obtain ⟨hl, hr, hp, -, hlr, hrl⟩ := h
    rw [free, union_sdiff_distrib, sdiff_eq_self_of_disjoint] at henv
    · have hpred : ∀ r, holdsAll m catalog predicates (overlay (left.att ∪ right.att) r env) =
          holdsAll m catalog predicates (overlay (left.att ∪ right.att) r env') := fun r =>
        holdsAll_congr predicates hp (henv.mono subset_union_right).overlay
      have hleft := henv.mono (subset_union_left.trans subset_union_left)
      have hright := henv.mono (subset_union_right.trans subset_union_left)
      rw [denote, denote, denote_congr left hl hleft, denote_congr right hr hright]
      simp only [hpred]
    · rw [disjoint_union_left, disjoint_union_right, disjoint_union_right]
      exact ⟨⟨disjoint_free_att left hl, hlr⟩, hrl, disjoint_free_att right hr⟩
  | project src _, h, env, env', henv => by
    rw [WellScoped] at h
    rw [free, union_sdiff_distrib, sdiff_eq_self_of_disjoint (disjoint_free_att src h.1)]
      at henv
    rw [denote, denote, denote_congr src h.1 (henv.mono subset_union_left)]
  | orderBy src _, h, env, env', henv => by
    rw [WellScoped] at h
    rw [free, union_sdiff_distrib, sdiff_eq_self_of_disjoint (disjoint_free_att src h)]
      at henv
    rw [denote, denote, denote_congr src h (henv.mono subset_union_left)]
  | aggregate src _ _, h, env, env', henv => by
    rw [WellScoped] at h
    rw [free, union_assoc, union_sdiff_distrib,
      sdiff_eq_self_of_disjoint (disjoint_free_att src h.1)] at henv
    rw [denote, denote, denote_congr src h.1 (henv.mono subset_union_left)]
  | map input exprs, h, env, env', henv => by
    rw [WellScoped] at h
    rw [free, union_sdiff_distrib,
      sdiff_eq_self_of_disjoint (disjoint_free_att input h.1)] at henv
    rw [denote, denote, denote_congr input h.1 (henv.mono subset_union_left)]
    refine Multiset.map_congr rfl (fun r _ => ?_)
    exact mapRow_congr exprs h.2.1 (henv.mono subset_union_right).overlay
  | flatMap input func, h, env, env', henv => by
    rw [WellScoped] at h
    rw [free, union_sdiff_distrib,
      sdiff_eq_self_of_disjoint (disjoint_free_att input h.1)] at henv
    rw [denote, denote, denote_congr input h.1 (henv.mono subset_union_left)]
    refine Multiset.bind_congr (fun r _ => ?_)
    rw [denote_congr func h.2.1 (henv.mono subset_union_right).overlay]
  | rename src _, h, env, env', henv => by
    rw [WellScoped] at h
    rw [free] at henv
    rw [denote, denote, denote_congr src h.1 henv]

/-- The value of an expression depends on its columns. -/
theorem eval_congr : ∀ (e : Expression LogicalRelExpr), ScopedExpr e → ∀ {env env' : Binding},
    Agree (freeExpr e) env env' → eval m catalog e env = eval m catalog e env'
  | .colRef id, _, env, env', henv => by
    rw [eval, eval]
    exact henv id (by simp [freeExpr])
  | .field _, _, env, env', _ => by rw [eval, eval]
  | .binary _ left right, h, env, env', henv => by
    rw [ScopedExpr] at h
    rw [freeExpr] at henv
    rw [eval, eval, eval_congr left h.1 (henv.mono subset_union_left),
      eval_congr right h.2 (henv.mono subset_union_right)]
  | .case expr whens elseExpr, h, env, env', henv => by
    rw [ScopedExpr] at h
    rw [freeExpr] at henv
    have hexpr := henv.mono (subset_union_left.trans subset_union_left)
    have hwhens := henv.mono (subset_union_right.trans subset_union_left)
    rw [eval, eval, eval_congr expr h.1 hexpr,
      eval_congr elseExpr h.2.2 (henv.mono subset_union_right)]
    refine bind_congr (fun v => ?_)
    exact evalWhens_congr whens h.2.1 hwhens v _
  | .subquery expr, h, env, env', henv => by
    rw [ScopedExpr] at h
    rw [freeExpr] at henv
    rw [eval, eval, denote_congr expr h henv]

theorem evalWhens_congr : ∀ (whens : List (Expression LogicalRelExpr × Expression LogicalRelExpr)),
    ScopedWhens whens → ∀ {env env' : Binding}, Agree (freeWhens whens) env env' →
      ∀ (v : Field) (otherwise : Option Field),
        evalWhens m catalog v whens env otherwise = evalWhens m catalog v whens env' otherwise
  | [], _, env, env', _, v, otherwise => by rw [evalWhens, evalWhens]
  | (when, result) :: whens, h, env, env', henv, v, otherwise => by
    rw [ScopedWhens] at h
    rw [freeWhens] at henv
    have hwhen := henv.mono (subset_union_left.trans subset_union_left)
    have hresult := henv.mono (subset_union_right.trans subset_union_left)
    have hwhens := henv.mono subset_union_right
    rw [evalWhens, evalWhens, eval_congr when h.1 hwhen, eval_congr result h.2.1 hresult,
      evalWhens_congr whens h.2.2 hwhens v otherwise]

theorem holdsAll_congr : ∀ (preds : List (Expression LogicalRelExpr)), ScopedExprs preds →
    ∀ {env env' : Binding}, Agree (freeExprs preds) env env' →
      holdsAll m catalog preds env = holdsAll m catalog preds env'
  | [], _, env, env', _ => by rw [holdsAll, holdsAll]
  | pred :: preds, h, env, env', henv => by
    rw [ScopedExprs] at h
    rw [freeExprs] at henv
    rw [holdsAll, holdsAll, eval_congr pred h.1 (henv.mono subset_union_left),
      holdsAll_congr preds h.2 (henv.mono subset_union_right)]

theorem evalExprs_congr : ∀ (exprs : List (Expression LogicalRelExpr)), ScopedExprs exprs →
    ∀ {env env' : Binding}, Agree (freeExprs exprs) env env' →
      evalExprs m catalog exprs env = evalExprs m catalog exprs env'
  | [], _, env, env', _ => by rw [evalExprs, evalExprs]
  | expr :: exprs, h, env, env', henv => by
    rw [ScopedExprs] at h
    rw [freeExprs] at henv
    rw [evalExprs, evalExprs, eval_congr expr h.1 (henv.mono subset_union_left),
      evalExprs_congr exprs h.2 (henv.mono subset_union_right)]

theorem mapRow_congr : ∀ (exprs : List (ColumnId × Expression LogicalRelExpr)), ScopedMaps exprs →
    ∀ {env env' r : Binding}, Agree (freeMaps exprs) env env' →
      mapRow m catalog exprs env r = mapRow m catalog exprs env' r
  | [], _, env, env', r, _ => by rw [mapRow, mapRow]
  | (id, expr) :: exprs, h, env, env', r, henv => by
    rw [ScopedMaps] at h
    rw [freeMaps] at henv
    rw [mapRow, mapRow, eval_congr expr h.1 (henv.mono subset_union_left),
      mapRow_congr exprs h.2 (henv.mono subset_union_right)]

end

end LogicalRelExpr

end CrustyDB
