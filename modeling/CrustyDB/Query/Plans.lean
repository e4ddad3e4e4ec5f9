import CrustyDB.Query.Operators
import CrustyDB.Server.Catalog
import Mathlib.Data.Finset.Union

/-! # Logical plans

The expressions and the relational expressions of a query before it is optimized.  An expression may
contain a plan, as a subquery, and a plan contains expressions, so `att` and `free` of a plan go
through both kinds of trees.

A hash map from column ids to column ids is the list of its entries, in the order in which it is
iterated; a hash set of column ids is a `Finset`. -/

namespace CrustyDB

/-- The id of a column: a temporary one for the columns of a scan, and a generated one otherwise. -/
abbrev ColumnId := ℕ

def maxColumns : ℕ := 100

def getTempColId (tableIndex : ContainerId) (columnIndex : ℕ) : ColumnId :=
  tableIndex.toNat * maxColumns + columnIndex

def getColumnIndexFromTempColId (colId : ColumnId) : ℕ := colId % maxColumns

inductive JoinType where
  | inner | leftOuter | rightOuter | fullOuter | crossJoin
deriving DecidableEq, Repr

/-- A hash map from column ids to column ids. -/
abbrev ColumnMap := List (ColumnId × ColumnId)

/-- The id a map has for a column; a column that is not in the map keeps its id. -/
def ColumnMap.apply (srcToDest : ColumnMap) (id : ColumnId) : ColumnId :=
  (srcToDest.lookup id).getD id

/-! ### Expressions -/

inductive Expression (P : Type) where
  | colRef (id : ColumnId)
  | field (val : Field)
  | binary (op : BinaryOp) (left right : Expression P)
  | case (expr : Expression P) (whens : List (Expression P × Expression P)) (elseExpr : Expression P)
  | subquery (expr : P)

namespace Expression

variable {P : Type}

def int (val : Int64) : Expression P := .field (.bigInt val)

def splitConjunction : Expression P → List (Expression P)
  | binary .and left right => left.splitConjunction ++ right.splitConjunction
  | expr => [expr]

end Expression

/-! ### Relational expressions -/

inductive LogicalRelExpr where
  | scan (cid : ContainerId) (tableName : String) (columnNames : List ColumnId)
  | indexScan (cid : ContainerId) (tableName : String) (columnNames : List ColumnId)
      (indexId : ContainerId) (keyValues : List (Expression LogicalRelExpr))
  | delete (tableId : ContainerId) (src : LogicalRelExpr)
  | update (tableId : ContainerId) (src : LogicalRelExpr) (assignments : List (ℕ × Field))
  | select (src : LogicalRelExpr) (predicates : List (Expression LogicalRelExpr))
  | join (joinType : JoinType) (left right : LogicalRelExpr)
      (predicates : List (Expression LogicalRelExpr))
  | project (src : LogicalRelExpr) (cols : List ColumnId)
  /-- Column, ascending, nulls first. -/
  | orderBy (src : LogicalRelExpr) (cols : List (ColumnId × Bool × Bool))
  /-- An aggregate is the destination column, the source column and the operation. -/
  | aggregate (src : LogicalRelExpr) (groupBy : List ColumnId)
      (aggrs : List (ColumnId × ColumnId × AggOp))
  | map (input : LogicalRelExpr) (exprs : List (ColumnId × Expression LogicalRelExpr))
  | flatMap (input func : LogicalRelExpr)
  | rename (src : LogicalRelExpr) (srcToDest : ColumnMap)

/-- The attributes after the columns were renamed one by one. -/
def renameAtt (srcToDest : ColumnMap) (att : Finset ColumnId) : Finset ColumnId :=
  srcToDest.foldl (fun set p => insert p.2 (set.erase p.1)) att

namespace LogicalRelExpr

/-- The columns of the result. -/
def att : LogicalRelExpr → Finset ColumnId
  | scan _ _ columnNames => columnNames.toFinset
  | indexScan _ _ columnNames _ _ => columnNames.toFinset
  | delete _ src => src.att
  | update _ src _ => src.att
  | select src _ => src.att
  | join _ left right _ => left.att ∪ right.att
  | project _ cols => cols.toFinset
  | orderBy src _ => src.att
  | aggregate _ groupBy aggrs => groupBy.toFinset ∪ (aggrs.map Prod.fst).toFinset
  | map input exprs => input.att ∪ (exprs.map Prod.fst).toFinset
  | flatMap input func => input.att ∪ func.att
  | rename src srcToDest => renameAtt srcToDest src.att

mutual

/-- The columns that are not bound in the expression. -/
def free : LogicalRelExpr → Finset ColumnId
  | scan .. => ∅
  | indexScan _ _ _ _ keyValues => freeExprs keyValues
  | delete _ src => src.free
  | update _ src _ => src.free
  | select src predicates => (src.free ∪ freeExprs predicates) \ src.att
  | join _ left right predicates =>
    (left.free ∪ right.free ∪ freeExprs predicates) \ (left.att ∪ right.att)
  | project src cols => (src.free ∪ cols.toFinset) \ src.att
  | orderBy src cols => (src.free ∪ (cols.map Prod.fst).toFinset) \ src.att
  | aggregate src groupBy aggrs =>
    (src.free ∪ groupBy.toFinset ∪ (aggrs.map (fun a => a.2.1)).toFinset) \ src.att
  | map input exprs => (input.free ∪ freeMaps exprs) \ input.att
  | flatMap input func => (input.free ∪ func.free) \ input.att
  | rename src _ => src.free

/-- All columns of an expression. -/
def freeExpr : Expression LogicalRelExpr → Finset ColumnId
  | .colRef id => {id}
  | .field _ => ∅
  | .binary _ left right => freeExpr left ∪ freeExpr right
  | .case expr whens elseExpr => freeExpr expr ∪ freeWhens whens ∪ freeExpr elseExpr
  | .subquery expr => expr.free

def freeExprs : List (Expression LogicalRelExpr) → Finset ColumnId
  | [] => ∅
  | expr :: exprs => freeExpr expr ∪ freeExprs exprs

def freeWhens : List (Expression LogicalRelExpr × Expression LogicalRelExpr) → Finset ColumnId
  | [] => ∅
  | (when, result) :: whens => freeExpr when ∪ freeExpr result ∪ freeWhens whens

def freeMaps : List (ColumnId × Expression LogicalRelExpr) → Finset ColumnId
  | [] => ∅
  | (_, expr) :: exprs => freeExpr expr ∪ freeMaps exprs

end

/-- All columns of the expression are columns of the plan. -/
def boundBy (expr : Expression LogicalRelExpr) (rel : LogicalRelExpr) : Prop :=
  freeExpr expr ⊆ rel.att

instance (expr : Expression LogicalRelExpr) (rel : LogicalRelExpr) : Decidable (boundBy expr rel) :=
  inferInstanceAs (Decidable (freeExpr expr ⊆ rel.att))

/-- Some column of the expression is a column of the plan. -/
def intersectWith (expr : Expression LogicalRelExpr) (rel : LogicalRelExpr) : Prop :=
  ¬ Disjoint (freeExpr expr) rel.att

instance (expr : Expression LogicalRelExpr) (rel : LogicalRelExpr) :
    Decidable (intersectWith expr rel) :=
  inferInstanceAs (Decidable (¬ Disjoint (freeExpr expr) rel.att))

/-! ### The sets of free columns as lists -/

theorem mem_freeExprs {exprs : List (Expression LogicalRelExpr)} {c : ColumnId} :
    c ∈ freeExprs exprs ↔ ∃ expr ∈ exprs, c ∈ freeExpr expr := by
  induction exprs with
  | nil => simp [freeExprs]
  | cons expr exprs ih => simp [freeExprs, ih]

theorem freeExprs_subset {exprs : List (Expression LogicalRelExpr)} {s : Finset ColumnId} :
    freeExprs exprs ⊆ s ↔ ∀ expr ∈ exprs, freeExpr expr ⊆ s := by
  constructor
  · intro h expr hexpr c hc
    exact h (mem_freeExprs.mpr ⟨expr, hexpr, hc⟩)
  · intro h c hc
    obtain ⟨expr, hexpr, hc⟩ := mem_freeExprs.mp hc
    exact h expr hexpr hc

/-- The conjuncts of a predicate have its columns. -/
theorem freeExprs_splitConjunction (expr : Expression LogicalRelExpr) :
    freeExprs expr.splitConjunction = freeExpr expr := by
  fun_induction Expression.splitConjunction expr with
  | case1 left right ihl ihr =>
    ext c
    have hl := congrArg (c ∈ ·) ihl
    have hr := congrArg (c ∈ ·) ihr
    simp only [mem_freeExprs, eq_iff_iff] at hl hr
    rw [mem_freeExprs, freeExpr, Finset.mem_union, ← hl, ← hr]
    simp only [List.mem_append, or_and_right, exists_or]
  | case2 expr _ => simp [freeExprs]

end LogicalRelExpr

end CrustyDB
