import CrustyDB.Server.RowWriters

/-! # Runs of statements on a table

`CREATE INDEX`, `INSERT`, the import of a CSV file, `UPDATE` and `DELETE` on one table, one after
another.  `Executed` says that a statement returns and what the table is then.  For an `UPDATE` or a
`DELETE` the planner may choose any plan for the `WHERE` clause.

The rows that such a plan returns have the columns of the stored rows if the table has at most
`maxColumns` columns.  Every statement then keeps the indexes exact (`indexed_of_run`), and the types
of the columns if the values it brings fit (`tableTyped_of_run`).  The first of these is what an
index scan relies on: a plan over an index returns the rows that satisfy the clause
(`selected_of_run`), so a statement changes these rows once and no others (`written_once`).

On a wider table a scan returns column `i` in place of column `maxColumns + i`, and none of this
holds (`deleted_entry_stays`, `delete_wide_unselected`). -/

namespace CrustyDB

open Pull Stateful List

/-- What the statements rely on: the heap file and the trees, floating point numbers, the calendar,
and the translation of subqueries. -/
structure Environment (P : Type) where
  storage : Storage
  floats : Floats
  parseDate : String → Option Int64
  replacePlan : P → P

/-- The statements on a table with indexes. -/
inductive TableStatement (P : Type) where
  | createIndex (name : Option String) (columns : List String) (unique ifNotExists : Bool)
  | insert (values : List (List InsertExpr))
  | importCsv (records : List (Except String (List String)))
  | write (statement : RowStatement) (conjuncts : List (Expression P))

section Runs

variable {P : Type}

/-- The statement returns, and turns one table into the other. -/
inductive Executed (env : Environment P) (tableName : String) (schema : TableSchema) :
    TableStatement P → TableState → TableState → Prop
  | createIndex {name : Option String} {columns : List String} {unique ifNotExists : Bool}
      {s t : TableState}
      (h : createIndex env.storage tableName schema name columns unique ifNotExists s = .ok () t) :
      Executed env tableName schema (.createIndex name columns unique ifNotExists) s t
  | insert {values : List (List InsertExpr)} {count : ℕ} {s t : TableState}
      (h : importTuples env.storage schema values s = .ok count t) :
      Executed env tableName schema (.insert values) s t
  | importCsv {records : List (Except String (List String))} {count : ℕ} {s t : TableState}
      (h : importCsv env.storage env.parseDate schema records s = .ok count t) :
      Executed env tableName schema (.importCsv records) s t
  -- the translator resolves the names of a clause to columns of the table
  | write {statement : RowStatement} {conjuncts : List (Expression P)} {s : TableState}
      {tree : OperatorTree} {count : ℕ} {w : Writer tree.State}
      (hin : ∀ e ∈ conjuncts, ∀ id ∈ e.columns,
        (columnOf s.tableId schema.attributes.length id).isSome)
      (hplan : WherePlan env.replacePlan s schema.attributes.length conjuncts tree)
      (h : Ends (statement.exec env.storage env.floats schema tree) (Writer.new tree s)
        (.ok count w)) :
      Executed env tableName schema (.write statement conjuncts) s w.table

/-- Statements that all return. -/
inductive Ran (env : Environment P) (tableName : String) (schema : TableSchema) :
    List (TableStatement P) → TableState → TableState → Prop
  | nil {s : TableState} : Ran env tableName schema [] s s
  | cons {statement : TableStatement P} {statements : List (TableStatement P)}
      {s t u : TableState} (h : Executed env tableName schema statement s t)
      (hrest : Ran env tableName schema statements t u) :
      Ran env tableName schema (statement :: statements) s u

variable {env : Environment P} {tableName : String} {schema : TableSchema}
  {statements : List (TableStatement P)} {s t : TableState}

/-- What every statement of a run keeps holds after the run. -/
theorem Ran.keeps {I : TableState → Prop} (hrun : Ran env tableName schema statements s t)
    (hstep : ∀ statement ∈ statements, ∀ s t, I s → Executed env tableName schema statement s t → I t)
    (hs : I s) : I t := by
  induction hrun with
  | nil => exact hs
  | cons h _ ih =>
    obtain ⟨hfirst, hrest⟩ := forall_mem_cons.mp hstep
    exact ih hrest (hfirst _ _ hs h)

/-! ### The indexes -/

/-- Rows as they are stored or cut to `n` columns. -/
theorem stands_of_stored {n : ℕ} {pending : List (ValueId × Row)}
    (h : ∀ p ∈ pending, ∃ row, (p.1, row) ∈ s.rows ∧ (p.2 = row ∨ p.2 = row.take n)) :
    ∀ p ∈ pending, Stands n s p := by
  intro p hp
  obtain ⟨row, hmem, hrow⟩ := h p hp
  refine ⟨row, hmem, ?_⟩
  obtain hrow | hrow := hrow
  · rw [hrow]
  · rw [hrow, take_take, Nat.min_self]

variable (hwidth : schema.attributes.length ≤ maxColumns)
include hwidth

/-- Every statement keeps the indexes exact. -/
theorem Executed.indexed {statement : TableStatement P} (hs : Indexed schema.attributes.length s)
    (h : Executed env tableName schema statement s t) : Indexed schema.attributes.length t := by
  cases h with
  | createIndex h => exact (createIndex_indexed _ _ _ _ _ s hs).ok h
  | insert h => exact (importTuples_indexed _ s hs).ok h
  | importCsv h => exact (importCsv_indexed _ _ s hs).ok h
  | write hin hplan h =>
    obtain ⟨pending, -, hperm, hfrom, hrun⟩ := RowStatement.of_exec hs hwidth hin hplan h
    have hids := hperm.nodup_iff.mpr (hs.rowIds.sublist (filter_sublist.map _))
    exact RowStatement.run_indexed hs hids (stands_of_stored hfrom) hrun

theorem Ran.indexed (hrun : Ran env tableName schema statements s t)
    (hrows : s.rows = []) (hindexes : s.indexes = []) : Indexed schema.attributes.length t :=
  hrun.keeps (fun _ _ _ _ hs h => h.indexed hwidth hs) (indexed_empty hrows hindexes)

/-- After every sequence of statements that succeed on a table with at most `maxColumns` columns, the
entries of every index are the pairs of the key and the id of its rows. -/
theorem indexed_of_run (hrows : s.rows = []) (hindexes : s.indexes = [])
    (hrun : Ran env tableName schema statements s t) :
    ∀ index ∈ t.indexes, ∃ tree, t.trees index.indexId = some tree ∧
      tree.Perm (t.rows.map (fun p => (keyOf p.2 index.columns, p.1))) :=
  (hrun.indexed hwidth hrows hindexes).exact

/-! ### The types -/

omit hwidth in
theorem deleteRows_typed {indexes : List IndexInfo} (pending : List (ValueId × Row)) :
    Keeps (TableTyped schema) (deleteRows indexes pending) := by
  intro s hs
  refine (deleteRows_rows pending s).mono ?_ (fun _ _ _ => trivial)
  intro _ t ht p hp
  rw [ht] at hp
  exact hs p (mem_of_mem_filter hp)

/-- The values that a statement brings fit the columns. -/
def TableStatement.Fits (schema : TableSchema) : TableStatement P → Prop
  | insert values => ∀ row ∈ values, row.length = schema.attributes.length
  | importCsv records =>
    ∀ record, .ok record ∈ records → schema.attributes.length ≤ record.length
  | write (.update assignments) _ => ∀ p ∈ assignments, ∀ i attr,
    schema.getFieldIndex p.1 = some i → schema.attributes[i]? = some attr → p.2.Fits attr.dtype
  | write .delete _ | createIndex .. => True

omit hwidth in
theorem createIndex_rows (name : Option String) (columns : List String)
    (unique ifNotExists : Bool) (s : TableState) :
    Sat (createIndex env.storage tableName schema name columns unique ifNotExists) s
      (fun _ t => t.rows = s.rows) (fun _ _ => True) := by
  unfold createIndex
  apply Sat.bind
  refine lift_sat (fun rawColumns _ => ?_) (fun _ _ => trivial)
  apply Sat.bind
  apply Sat.get
  split_ifs
  · exact Sat.pure rfl
  · exact Sat.throw trivial
  · apply Sat.bind
    refine (getTableId_sat _ s).mono ?_ (fun _ _ _ => trivial)
    rintro indexId t ⟨generator, -, rfl⟩
    split_ifs
    · exact Sat.throw trivial
    · apply Sat.bind
      refine lift_sat (fun tree _ => ?_) (fun _ _ => trivial)
      apply Sat.bind
      apply Sat.modify
      apply Sat.modify
      rfl

/-- A statement whose values fit keeps the types: the rows that an update starts from are whole. -/
theorem Executed.typed {statement : TableStatement P} (hfits : statement.Fits schema)
    (hs : Indexed schema.attributes.length s) (htyped : TableTyped schema s)
    (h : Executed env tableName schema statement s t) : TableTyped schema t := by
  cases h with
  | createIndex h =>
    intro p hp
    rw [(createIndex_rows _ _ _ _ s).ok h] at hp
    exact htyped p hp
  | insert h => exact (importTuples_typed_rows hfits s htyped).ok h
  | importCsv h => exact (importCsv_typed hfits s htyped).ok h
  | @write statement _ _ _ _ _ hin hplan h =>
    obtain ⟨pending, -, -, hfrom, hrun⟩ := RowStatement.of_exec hs hwidth hin hplan h
    cases statement with
    | delete => exact (deleteRows_typed pending s htyped).ok hrun
    | update assignments =>
      obtain ⟨columns, s₁, hlift, hrows⟩ := of_bind_ok hrun
      obtain ⟨hcolumns, rfl⟩ := of_lift_ok hlift
      refine (updateRows_typed (assignments_fit hfits hcolumns) ?_ s htyped).ok hrows
      intro p hp
      obtain ⟨row, hmem, hrow⟩ := hfrom p hp
      have hrowFits : RowFits schema row := htyped _ hmem
      have htake : row.take schema.attributes.length = row :=
        take_of_length_le hrowFits.length_eq.le
      obtain hrow | hrow := hrow
      · rwa [hrow]
      · rwa [hrow, htake]

/-- In every run of statements that return and whose values fit the columns of a table with at most
`maxColumns` columns, the tuples stored in the table have the columns of the schema. -/
theorem tableTyped_of_run (hrows : s.rows = []) (hindexes : s.indexes = [])
    (hfits : ∀ statement ∈ statements, statement.Fits schema)
    (hrun : Ran env tableName schema statements s t) : TableTyped schema t := by
  have hstart : TableTyped schema s := by
    intro p hp
    rw [hrows] at hp
    exact absurd hp not_mem_nil
  refine (hrun.keeps (I := fun s => Indexed schema.attributes.length s ∧ TableTyped schema s) ?_
    ⟨indexed_empty hrows hindexes, hstart⟩).2
  rintro statement hmem s t ⟨hs, htyped⟩ h
  exact ⟨h.indexed hwidth hs, h.typed hwidth (hfits statement hmem) hs htyped⟩

/-! ### What a clause selects -/

variable {conjuncts : List (Expression P)} {tree : OperatorTree}

/-- The table after any statements that have succeeded: a plan for a `WHERE` clause, over the scan of the
table or of any of its indexes, returns each row that satisfies the clause once and no other row. -/
theorem selected_of_run {out : List Tuple} (hrows : s.rows = []) (hindexes : s.indexes = [])
    (hrun : Ran env tableName schema statements s t)
    (hin : ∀ e ∈ conjuncts, ∀ id ∈ e.columns,
      (columnOf t.tableId schema.attributes.length id).isSome)
    (hplan : WherePlan env.replacePlan t schema.attributes.length conjuncts tree)
    (h : tree.output (t.managers env.floats) = .ok out) :
    (out.map Tuple.valueId).Perm ((t.rows.filter (fun p =>
        selects env.floats t.tableId schema.attributes.length conjuncts p.2)).map (some ·.1)) ∧
      ∀ u ∈ out, ∃ p ∈ t.rows, u.valueId = some p.1 ∧
        u.fieldVals.take schema.attributes.length = p.2.take schema.attributes.length := by
  have ht := hrun.indexed hwidth hrows hindexes
  obtain ⟨pending, rfl, hperm, hfrom⟩ := hplan.pending ht hwidth hin h
  constructor
  · have hids := hperm.map some
    rw [map_map, map_map] at hids
    rwa [map_map]
  · intro u hu
    obtain ⟨p, hp, rfl⟩ := mem_map.mp hu
    obtain ⟨row, hrow, htake⟩ := stands_of_stored hfrom p hp
    exact ⟨_, hrow, rfl, htake⟩

/-- A statement that returns has changed each row that its `WHERE` clause selected once and no other
row, also where a record is moved and where an assignment changes what the clause says. -/
theorem written_once {statement : RowStatement} {count : ℕ} {w : Writer tree.State}
    (hrows : s.rows = []) (hindexes : s.indexes = [])
    (hrun : Ran env tableName schema statements s t)
    (hin : ∀ e ∈ conjuncts, ∀ id ∈ e.columns,
      (columnOf t.tableId schema.attributes.length id).isSome)
    (hplan : WherePlan env.replacePlan t schema.attributes.length conjuncts tree)
    (h : Ends (statement.exec env.storage env.floats schema tree) (Writer.new tree t)
      (.ok count w)) :
    statement.Done schema (selects env.floats t.tableId schema.attributes.length conjuncts) t
        w.table ∧
      count = t.rows.countP
        (fun p => selects env.floats t.tableId schema.attributes.length conjuncts p.2) := by
  have ht := hrun.indexed hwidth hrows hindexes
  obtain ⟨pending, rfl, hperm, hfrom, hwritten⟩ := RowStatement.of_exec ht hwidth hin hplan h
  refine ⟨RowStatement.run_done ht.rowIds hperm (stands_of_stored hfrom) hwritten, ?_⟩
  have hlen := hperm.length_eq
  rw [length_map, length_map] at hlen
  rw [countP_eq_length_filter, hlen]

end Runs

/-! ### A table of one column -/

/-- No statement here calculates with floats or reads dates. -/
def noFloats : Floats := ⟨fun _ _ => 0, fun _ _ => 0⟩

def plainEnvironment : Environment Unit := ⟨countingStorage, noFloats, fun _ => none, id⟩

/-- A condition `c = 5` on a column of the first table. -/
def whereFive (column : ℕ) : List (Expression Unit) :=
  [.binary .eq (.colRef (getTempColId 0 column)) (.field (.bigInt 5))]

/-- The code of the condition. -/
def codeFive (column : ℕ) : ByteCodeExpr := ⟨[1, column, 0, 0, BinaryOp.eq.opcode], [.bigInt 5]⟩

/-- The scan for the condition, on a table of `n` columns. -/
def childFive (column n : ℕ) : OperatorTree := filters [codeFive column] (tableScan 0 n)

theorem Executed.of_writeAll {P : Type} {env : Environment P} {tableName : String}
    {schema : TableSchema} {statement : RowStatement} {conjuncts : List (Expression P)}
    {s t : TableState} {write : Tuple → Stmt Tuple} {res : List Tuple} (tree : OperatorTree)
    (out : List Tuple) (hin : ∀ e ∈ conjuncts, ∀ id ∈ e.columns,
      (columnOf s.tableId schema.attributes.length id).isSome)
    (hplan : WherePlan env.replacePlan s schema.attributes.length conjuncts tree)
    (hwrite : statement.write env.storage schema s.indexes = .ok write)
    (hout : tree.output (s.managers env.floats) = .ok out)
    (hall : writeAll write out s = .ok res t) :
    Executed env tableName schema (.write statement conjuncts) s t := by
  obtain ⟨w, rfl, hend⟩ := RowStatement.exec_ends hwrite hout hall
  exact .write hin hplan hend

/-- `INSERT INTO t VALUES (5), (6); CREATE INDEX ON t (a); UPDATE t SET a = 6 WHERE a = 5`, with the
scan of the table, an import of 5, and `DELETE FROM t WHERE a = 5` with the index. -/
def mixed : List (TableStatement Unit) :=
  [.insert [[.value (.number "5")], [.value (.number "6")]], .createIndex none ["a"] false false,
    .write (.update [("a", .bigInt 6)]) (whereFive 0), .importCsv [.ok ["5"]],
    .write .delete (whereFive 0)]

/-- The index of the run answers for the condition. -/
theorem indexPlan_five {s : TableState} (hid : s.tableId = 0)
    (hindex : ⟨1, defaultIndexName "t" ["a"], 0, [0], false⟩ ∈ s.indexes) :
    WherePlan id s 1 (whereFive 0) (.indexScan 1 [.bigInt 5]) := by
  have huses : UsesIndex s.tableId (whereFive 0) []
      ⟨1, defaultIndexName "t" ["a"], 0, [0], false⟩ [.bigInt 5] := by
    rw [hid]
    exact ⟨rfl, by simp [whereFive, IsEquality], by simp [whereFive, IsEquality], nofun⟩
  exact .index hindex huses rfl

theorem mixed_ran : ∃ t, Ran plainEnvironment "t" oneBigInt mixed emptyTable t ∧
    t.rows = [(.newSlot 0 0 0, [.bigInt 6]), (.newSlot 0 1 0, [.bigInt 6])] ∧
    t.indexes = [⟨1, defaultIndexName "t" ["a"], 0, [0], false⟩] := by
  have hin : ∀ e ∈ whereFive 0, ∀ id ∈ e.columns, (columnOf 0 1 id).isSome := by decide +kernel
  refine ⟨_, .cons (.insert rfl) (.cons (.createIndex rfl) (.cons
    (.of_writeAll (childFive 0 1) [scanned (.newSlot 0 0 0, [.bigInt 5])] hin (.scan rfl) rfl
      (by decide +kernel) rfl) (.cons (.importCsv rfl) (.cons
    (.of_writeAll (.indexScan 1 [.bigInt 5]) [scanned (.newSlot 0 2 0, [.bigInt 5])] hin
      (indexPlan_five rfl (.head _)) rfl (by decide +kernel) rfl) .nil)))), rfl, rfl⟩

theorem indexed_of_run_mixed : ∃ t, Ran plainEnvironment "t" oneBigInt mixed emptyTable t ∧
    t.rows = [(.newSlot 0 0 0, [.bigInt 6]), (.newSlot 0 1 0, [.bigInt 6])] ∧
    t.indexes = [⟨1, defaultIndexName "t" ["a"], 0, [0], false⟩] ∧
    ∀ index ∈ t.indexes, ∃ tree, t.trees index.indexId = some tree ∧
      tree.Perm (t.rows.map (fun p => (keyOf p.2 index.columns, p.1))) := by
  obtain ⟨t, hran, hrows, hindexes⟩ := mixed_ran
  exact ⟨t, hran, hrows, hindexes, indexed_of_run (by decide) rfl rfl hran⟩

theorem tableTyped_of_run_mixed : ∃ t, Ran plainEnvironment "t" oneBigInt mixed emptyTable t ∧
    t.rows = [(.newSlot 0 0 0, [.bigInt 6]), (.newSlot 0 1 0, [.bigInt 6])] ∧
    TableTyped oneBigInt t := by
  obtain ⟨t, hran, hrows, -⟩ := mixed_ran
  refine ⟨t, hran, hrows, tableTyped_of_run (by decide) rfl rfl ?_ hran⟩
  intro statement hmem
  simp only [mixed, mem_cons, not_mem_nil, or_false] at hmem
  obtain rfl | rfl | rfl | rfl | rfl := hmem
  · simp [TableStatement.Fits, oneBigInt]
  · trivial
  · intro p hp i attr hi hattr
    cases hp with
    | head =>
      cases hi
      cases hattr
      exact .inr rfl
    | tail _ hp => exact absurd hp not_mem_nil
  · intro record hrecord
    simp at hrecord
    subst hrecord
    simp [oneBigInt]
  · trivial

/-- `INSERT INTO t VALUES (1, 2)` into a table of one column stores two fields. -/
theorem insert_arity_stored : ∃ t, Ran plainEnvironment "t" oneBigInt
    [.insert [[.value (.number "1"), .value (.number "2")]]] emptyTable t ∧
      ¬ TableTyped oneBigInt t := by
  refine ⟨_, .cons (.insert rfl) .nil, ?_⟩
  intro h
  have hrow := h _ mem_cons_self
  have hlen := hrow.length_eq
  cases hlen

/-- An index, and two rows that are inserted under it. -/
def indexAndRows : List (TableStatement Unit) :=
  [.createIndex none ["a"] false false, .insert [[.value (.number "5")], [.value (.number "6")]]]

theorem indexAndRows_ran : ∃ t, Ran plainEnvironment "t" oneBigInt indexAndRows emptyTable t ∧
    t.tableId = 0 ∧ t.indexes = [⟨1, defaultIndexName "t" ["a"], 0, [0], false⟩] ∧
    (OperatorTree.indexScan 1 [.bigInt 5]).output (t.managers noFloats) =
      .ok [scanned (.newSlot 0 0 0, [.bigInt 5])] ∧
    ∃ t', writeAll (Update.write countingStorage [(0, .bigInt 6)] t.indexes)
        [scanned (.newSlot 0 0 0, [.bigInt 5])] t =
          .ok [scanned (.newSlot 0 0 0, [.bigInt 6])] t' ∧
      t'.rows = [(.newSlot 0 0 0, [.bigInt 6]), (.newSlot 0 1 0, [.bigInt 6])] :=
  ⟨_, .cons (.createIndex rfl) (.cons (.insert rfl) .nil), rfl, rfl, by decide +kernel, _, rfl, rfl⟩

/-- `SELECT * FROM t WHERE a = 5` over the index. -/
theorem selected_of_run_index : ∃ t, Ran plainEnvironment "t" oneBigInt indexAndRows emptyTable t ∧
    (OperatorTree.indexScan 1 [.bigInt 5]).output (t.managers noFloats) =
      .ok [scanned (.newSlot 0 0 0, [.bigInt 5])] ∧
    [some (ValueId.newSlot 0 0 0)].Perm
      ((t.rows.filter (fun p => selects noFloats t.tableId 1 (whereFive 0) p.2)).map (some ·.1)) := by
  obtain ⟨t, hran, hid, hindexes, hout, -⟩ := indexAndRows_ran
  have hplan := indexPlan_five hid (by rw [hindexes]; exact .head _)
  have hin : ∀ e ∈ whereFive 0, ∀ id ∈ e.columns, (columnOf t.tableId 1 id).isSome := by
    rw [hid]
    decide +kernel
  exact ⟨t, hran, hout, (selected_of_run (by decide) rfl rfl hran hin hplan hout).1⟩

/-- `UPDATE t SET a = 6 WHERE a = 5` over the index. -/
theorem written_once_index : ∃ t, Ran plainEnvironment "t" oneBigInt indexAndRows emptyTable t ∧
    ∃ w, Ends ((RowStatement.update [("a", .bigInt 6)]).exec countingStorage noFloats oneBigInt
        (.indexScan 1 [.bigInt 5])) (Writer.new (.indexScan 1 [.bigInt 5]) t) (.ok 1 w) ∧
      w.table.rows = [(.newSlot 0 0 0, [.bigInt 6]), (.newSlot 0 1 0, [.bigInt 6])] ∧
      (RowStatement.update [("a", .bigInt 6)]).Done oneBigInt
        (selects noFloats t.tableId 1 (whereFive 0)) t w.table := by
  obtain ⟨t, hran, hid, hindexes, hout, t', hall, hrows⟩ := indexAndRows_ran
  have hplan := indexPlan_five hid (by rw [hindexes]; exact .head _)
  have hin : ∀ e ∈ whereFive 0, ∀ id ∈ e.columns, (columnOf t.tableId 1 id).isSome := by
    rw [hid]
    decide +kernel
  have hwrite : (RowStatement.update [("a", .bigInt 6)]).write countingStorage oneBigInt t.indexes =
      .ok (Update.write countingStorage [(0, .bigInt 6)] t.indexes) := rfl
  obtain ⟨w, rfl, hend⟩ := RowStatement.exec_ends hwrite hout hall
  exact ⟨t, hran, w, hend, hrows, (written_once (by decide) rfl rfl hran hin hplan hend).1⟩

/-! ### A table that is too wide -/

/-- `CREATE TABLE t (c0 INT PRIMARY KEY, c1 INT, .., c100 INT)` -/
def wideSchema : TableSchema :=
  ⟨(List.range (maxColumns + 1)).map
    (fun i => ⟨s!"c{i}", .bigInt, if i = 0 then .primaryKey else .none⟩)⟩

/-- A row with 5 in its first column and 7 in its last one. -/
def wideValues : List InsertExpr :=
  .value (.number "5") :: List.replicate 99 (.value (.number "0")) ++ [.value (.number "7")]

def wideRow : Row := .bigInt 5 :: List.replicate 99 (.bigInt 0) ++ [.bigInt 7]

/-- `DELETE FROM t WHERE c100 = 5` deletes a row with 7 in that column. -/
theorem delete_wide_unselected : ∃ t, Ran plainEnvironment "t" wideSchema [.insert [wideValues]]
      emptyTable t ∧
    t.rows = [(.newSlot 0 0 0, wideRow)] ∧
    selects noFloats t.tableId wideSchema.attributes.length (whereFive 100) wideRow = false ∧
    WherePlan id t wideSchema.attributes.length (whereFive 100) (childFive 100 101) ∧
    ∃ w, Ends (RowStatement.delete.exec countingStorage noFloats wideSchema (childFive 100 101))
      (Writer.new (childFive 100 101) t) (.ok 1 w) ∧ w.table.rows = [] := by
  have hwrite : RowStatement.delete.write countingStorage wideSchema [] =
      .ok (Delete.write []) := rfl
  have hinsert : importTuples countingStorage wideSchema [wideValues] emptyTable =
      .ok 1 { emptyTable with rows := [(.newSlot 0 0 0, wideRow)] } := by
    rfl
  -- the scan returns column 0 in place of column 100
  have hout : (childFive 100 101).output
      (({ emptyTable with rows := [(.newSlot 0 0 0, wideRow)] } : TableState).managers noFloats) =
      .ok [scanned (.newSlot 0 0 0, wideRow.take 100 ++ [.bigInt 5])] := by decide +kernel
  have hall : writeAll (Delete.write []) [scanned (.newSlot 0 0 0, wideRow.take 100 ++ [.bigInt 5])]
      { emptyTable with rows := [(.newSlot 0 0 0, wideRow)] } =
        .ok [scanned (.newSlot 0 0 0, wideRow.take 100 ++ [.bigInt 5])] emptyTable := rfl
  obtain ⟨w, htable, hend⟩ := RowStatement.exec_ends hwrite hout hall
  refine ⟨_, .cons (.insert hinsert) .nil, rfl, by decide +kernel, .scan rfl, w, hend, ?_⟩
  rw [htable]
  rfl

/-- A plan without a condition. -/
theorem scanPlan_all {P : Type} (replacePlan : P → P) (s : TableState) (n : ℕ) :
    WherePlan replacePlan s n [] (tableScan s.tableId n) :=
  show WherePlan replacePlan s n [] (filters [] (tableScan s.tableId n)) from .scan rfl

/-- `CREATE INDEX ON t (c100)`, an insert, and `DELETE FROM t`: the row is gone, and the index still
has its entry. -/
theorem deleted_entry_stays : ∃ t, Ran plainEnvironment "t" wideSchema
      [.createIndex none ["c100"] false false, .insert [wideValues], .write .delete []] emptyTable t ∧
    t.rows = [] ∧ t.indexes = [⟨1, defaultIndexName "t" ["c100"], 0, [100], false⟩] ∧
    t.trees 1 = some [([.bigInt 7], .newSlot 0 0 0)] :=
  ⟨_, .cons (.createIndex rfl) (.cons (.insert rfl) (.cons
    (.of_writeAll (tableScan 0 101) [scanned (.newSlot 0 0 0, wideRow.take 100 ++ [.bigInt 5])]
      nofun (scanPlan_all _ _ 101) rfl (by decide +kernel) rfl) .nil)), rfl, rfl, rfl⟩

end CrustyDB
