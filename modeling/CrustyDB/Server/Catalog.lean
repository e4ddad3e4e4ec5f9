import CrustyDB.Data.Schema
import CrustyDB.Lib.Stateful

/-! # The catalog

The catalog numbers tables and indexes: a name gets the next container id when it is first asked
for, and keeps it (`ContainerIdGenerator`).  Two names never get the same id, but a table and an
index of the same name do.

`createTable` and `createIndexInfo` are the statements `CREATE TABLE` and `CREATE INDEX` as far as
they concern the catalog; whether the storage can make the pages of a new container, and what the
scan that fills a tree meets in the rows, is part of the statement.  Statements that fail keep the
ids they have asked for, and a tree that could not be filled keeps its pages.

If no index gets the name of a table, then all tables and indexes have distinct ids and no tree has
asked for a page in the container of a table, at every point (`separate_of_names`). -/

namespace CrustyDB

open Stateful List

/-! ### Ids -/

/-- The ids that have been given to names. -/
structure ContainerIdGenerator where
  nextId : ContainerId
  tableToId : List (String × ContainerId)
  below : ∀ p ∈ tableToId, p.2.toNat < nextId.toNat
  nodup : (tableToId.map Prod.snd).Nodup

namespace ContainerIdGenerator

def new : ContainerIdGenerator := ⟨0, [], by simp, List.nodup_nil⟩

def getTableIdIfExists (g : ContainerIdGenerator) (name : String) : Option ContainerId :=
  g.tableToId.lookup name

/-- The id of a name; a new name gets the next id, and there has to be another one after it. -/
def getTableId (g : ContainerIdGenerator) (name : String) :
    Checked (ContainerId × ContainerIdGenerator) :=
  match g.tableToId.lookup name with
  | some cId => .ok (cId, g)
  | none =>
    if h : g.nextId.toNat + 1 < 2 ^ 16 then
      .ok (g.nextId,
        { nextId := g.nextId + 1
          tableToId := (name, g.nextId) :: g.tableToId
          below := by
            have hnext : (g.nextId + 1).toNat = g.nextId.toNat + 1 := by
              rw [UInt16.toNat_add, UInt16.toNat_one, Nat.mod_eq_of_lt h]
            rw [List.forall_mem_cons, hnext]
            refine ⟨Nat.lt_succ_self _, ?_⟩
            exact fun p hp => Nat.lt_succ_of_lt (g.below p hp)
          nodup := by
            rw [List.map_cons, List.nodup_cons]
            refine ⟨?_, g.nodup⟩
            intro hmem
            obtain ⟨p, hp, heq⟩ := List.mem_map.mp hmem
            have hlt := g.below p hp
            rw [heq] at hlt
            exact Nat.lt_irrefl _ hlt })
    else .error .overflow

variable {g g' : ContainerIdGenerator} {name name' : String} {i j : ContainerId}

theorem mem_of_lookup {l : List (String × ContainerId)} (h : l.lookup name = some i) :
    (name, i) ∈ l := by
  induction l with
  | nil => cases h
  | cons p l ih =>
    obtain ⟨n, k⟩ := p
    rw [lookup_cons] at h
    by_cases hn : name = n
    · subst hn
      simp at h
      subst h
      exact mem_cons_self
    · have hbeq : (name == n) = false := beq_eq_false_iff_ne.mpr hn
      rw [hbeq] at h
      exact mem_cons_of_mem _ (ih h)

/-- Two names never have the same id. -/
theorem name_unique (h : g.getTableIdIfExists name = some i)
    (h' : g.getTableIdIfExists name' = some i) : name = name' := by
  have hmem := mem_of_lookup h
  have hmem' := mem_of_lookup h'
  have heq := inj_on_of_nodup_map g.nodup hmem hmem' rfl
  exact congrArg Prod.fst heq

/-- The name gets an id and the other names keep theirs. -/
theorem getTableId_ok (h : g.getTableId name = .ok (i, g')) :
    g'.getTableIdIfExists name = some i ∧
      ∀ name' j, g.getTableIdIfExists name' = some j → g'.getTableIdIfExists name' = some j := by
  unfold getTableId at h
  cases hl : g.tableToId.lookup name with
  | some k =>
    rw [hl] at h
    cases h
    exact ⟨hl, fun _ _ hj => hj⟩
  | none =>
    rw [hl] at h
    dsimp only at h
    split_ifs at h
    cases h
    refine ⟨by simp [getTableIdIfExists], ?_⟩
    intro name' j hj
    have hne : name' ≠ name := by
      rintro rfl
      rw [getTableIdIfExists, hl] at hj
      cases hj
    simp only [getTableIdIfExists, lookup_cons, beq_eq_false_iff_ne.mpr hne]
    exact hj

end ContainerIdGenerator

/-! ### Tables and indexes -/

structure TableInfo where
  cId : ContainerId
  name : String
  schema : TableSchema
deriving DecidableEq, Repr

structure IndexInfo where
  indexId : ContainerId
  name : String
  tableId : ContainerId
  columns : List ℕ
  unique : Bool
deriving DecidableEq, Repr

structure Catalog where
  containerIdGenerator : ContainerIdGenerator
  tables : List TableInfo
  indexes : List IndexInfo

namespace Catalog

def new : Catalog := ⟨.new, [], []⟩

def getTable (c : Catalog) (cId : ContainerId) : Option TableInfo :=
  c.tables.find? (fun info => info.cId == cId)

def getTableSchema (c : Catalog) (cId : ContainerId) : Option TableSchema :=
  (c.getTable cId).map TableInfo.schema

def isValidIndexName (c : Catalog) (name : String) : Bool :=
  c.indexes.any (fun info => info.name == name)

end Catalog

/-- What can be wrong with a record. -/
inductive ConversionError where
  | parseError
  | unsupportedType
  | nullFieldNotAllowed (j : ℕ)
  | wrongType
deriving DecidableEq, Repr

/-- How a statement fails. -/
inductive StatementError where
  | crusty (msg : String)
  /-- `Some records were not valid`, with the records and what is wrong with them. -/
  | validation (unconverted : List (ℕ × List ConversionError))
  | execution (msg : String)
  | panic (p : Panic)
deriving DecidableEq, Repr

/-- The columns of an index. -/
def indexColumns (schema : TableSchema) : List String → Except StatementError (List ℕ)
  | [] => .ok []
  | name :: names =>
    match schema.getFieldIndex name with
    | none => .error (.crusty s!"Column {name} not found")
    | some i => (indexColumns schema names).map (fun rest => i :: rest)

/-- The name of an index that is given none. -/
def defaultIndexName (tableName : String) (columns : List String) : String :=
  let joined := String.intercalate "_" columns
  s!"idx_{tableName}_{joined}"

/-! ### The columns of a table -/

def defaultDecimalPrecision : UInt32 := 10

def defaultDecimalScale : UInt32 := 4

/-- The types of the parser; `other` is one that is not supported, as it is printed. -/
inductive SqlType where
  | int | varchar | char | date
  | decimal
  | decimalPrecision (p : UInt64)
  | decimalScale (p s : UInt64)
  | other (text : String)
deriving DecidableEq, Repr

inductive ColumnOption where
  | primaryKey | other
deriving DecidableEq, Repr

structure ColumnDef where
  name : String
  dataType : SqlType
  options : List ColumnOption
deriving DecidableEq, Repr

inductive TableConstraint where
  | primaryKey (columns : List String)
  | other
deriving DecidableEq, Repr

def TableConstraint.pks : TableConstraint → Option (List String)
  | primaryKey columns => some columns
  | other => none

/-- The columns of the primary key, which is given either with a column or as a constraint. -/
def getPks (columns : List ColumnDef) (constraints : List TableConstraint) :
    Except StatementError (List String) :=
  let inlinePks := columns.flatMap (fun column =>
    (column.options.filter (fun option => option = .primaryKey)).map (fun _ => column.name))
  let externalPks := constraints.filterMap TableConstraint.pks
  if 1 < inlinePks.length then
    .error (.crusty "Table cannot have multiple inline primary keys")
  else if inlinePks ≠ [] ∧ externalPks ≠ [] then
    .error (.crusty "Table cannot have external and inline primary keys")
  else if 1 < externalPks.length then
    .error (.crusty "Table cannot have multiple external primary keys")
  else if inlinePks ++ externalPks.flatten = [] then .error (.crusty "Table has no primary key")
  else .ok (inlinePks ++ externalPks.flatten)

def getAttr : SqlType → Except StatementError DataType
  | .int => .ok .bigInt
  | .varchar | .char => .ok .string
  | .date => .ok .date
  | .decimalScale p s => .ok (.decimal p.toUInt32 s.toUInt32)
  | .decimalPrecision p => .ok (.decimal p.toUInt32 defaultDecimalScale)
  | .decimal => .ok (.decimal defaultDecimalPrecision defaultDecimalScale)
  | .other text => .error (.crusty s!"Unsupported data type {text}")

def tableAttributes (pks : List String) : List ColumnDef → Except StatementError (List Attribute)
  | [] => .ok []
  | column :: columns => do
    let dtype ← getAttr column.dataType
    let attributes ← tableAttributes pks columns
    pure (⟨column.name, dtype, if column.name ∈ pks then .primaryKey else .none⟩ :: attributes)

/-- The schema that the columns and constraints stand for. -/
def schemaOf (columns : List ColumnDef) (constraints : List TableConstraint) :
    Except StatementError TableSchema := do
  let pks ← getPks columns constraints
  let attributes ← tableAttributes pks columns
  pure ⟨attributes⟩

/-! ### Statements -/

/-- The catalog of a database, the containers that the storage manager keeps as heap files, and those
in which a tree has asked for pages. -/
structure CatalogState where
  catalog : Catalog
  heapFiles : List ContainerId
  treePages : List ContainerId

/-- The statements that create tables and indexes. -/
inductive CreateStatement where
  /-- `storage` is the error of the storage when the container is created. -/
  | table (name : String) (columns : List ColumnDef) (constraints : List TableConstraint)
      (storage : Option StatementError)
  /-- `tree` is the error of the pool when the empty tree is made, `scan` what stops the scan that
  fills it from the rows of the table. -/
  | index (name : Option String) (tableName : String) (columns : List String)
      (unique ifNotExists : Bool) (tree scan : Option StatementError)

/-- The answer to a statement and the catalog after it. -/
abbrev CreateResult := Except StatementError Unit × CatalogState

def createTable (name : String) (columns : List ColumnDef) (constraints : List TableConstraint)
    (storage : Option StatementError) (s : CatalogState) : CreateResult :=
  match s.catalog.containerIdGenerator.getTableId name with
  | .error p => (.error (.panic p), s)
  | .ok (tableId, generator) =>
    let s := { s with catalog := { s.catalog with containerIdGenerator := generator } }
    match schemaOf columns constraints with
    | .error e => (.error e, s)
    | .ok schema =>
      if tableId ∈ s.heapFiles then (.error (.crusty "Container already exists"), s)
      else
        match storage with
        | some e => (.error e, s)
        | none =>
          let s := { s with heapFiles := tableId :: s.heapFiles }
          match s.catalog.getTable tableId with
          | some _ => (.error (.crusty s!"Table {name} already exists"), s)
          | none =>
            (.ok (), { s with catalog :=
              { s.catalog with tables := s.catalog.tables ++ [⟨tableId, name, schema⟩] } })

def createIndexInfo (name : Option String) (tableName : String) (columns : List String)
    (unique ifNotExists : Bool) (tree scan : Option StatementError) (s : CatalogState) :
    CreateResult :=
  match s.catalog.containerIdGenerator.getTableIdIfExists tableName with
  | none => (.error (.crusty s!"Table {tableName} not found"), s)
  | some tableId =>
    match s.catalog.getTableSchema tableId with
    | none => (.error (.panic .unwrap), s)
    | some schema =>
      match indexColumns schema columns with
      | .error e => (.error e, s)
      | .ok rawColumns =>
        let indexName := name.getD (defaultIndexName tableName columns)
        if s.catalog.isValidIndexName indexName then
          if ifNotExists then (.ok (), s)
          else (.error (.crusty s!"Index {indexName} already exists"), s)
        else
          match s.catalog.containerIdGenerator.getTableId indexName with
          | .error p => (.error (.panic p), s)
          | .ok (indexId, generator) =>
            let s := { s with
              catalog := { s.catalog with containerIdGenerator := generator }
              treePages := indexId :: s.treePages }
            match tree with
            | some e => (.error e, s)
            | none =>
              -- the scan of the table meets the pages of the tree and cannot read them as tuples
              if indexId = tableId then (.error (.panic .unwrap), s)
              else
                match scan with
                | some e => (.error e, s)
                | none =>
                  (.ok (), { s with catalog :=
                    { s.catalog with indexes := s.catalog.indexes ++
                      [⟨indexId, indexName, tableId, rawColumns, unique⟩] } })

namespace CreateStatement

def exec : CreateStatement → CatalogState → CreateResult
  | table name columns constraints storage => createTable name columns constraints storage
  | index name tableName columns unique ifNotExists tree scan =>
    createIndexInfo name tableName columns unique ifNotExists tree scan

/-- The name of the table that the statement creates. -/
def newTable : CreateStatement → Option String
  | table name .. => some name
  | index .. => none

/-- The name of the index that the statement creates. -/
def newIndex : CreateStatement → Option String
  | table .. => none
  | index name tableName columns .. => some (name.getD (defaultIndexName tableName columns))

end CreateStatement

/-- The state after a sequence of statements, whether they succeed or fail. -/
def execCreates : List CreateStatement → CatalogState → CatalogState
  | [], s => s
  | statement :: statements, s => execCreates statements (statement.exec s).2

/-! ### Container ids -/

/-- All tables and indexes have distinct container ids. -/
def Catalog.DistinctIds (c : Catalog) : Prop :=
  (c.tables.map TableInfo.cId ++ c.indexes.map IndexInfo.indexId).Nodup

/-- All tables and indexes have distinct container ids, and no tree has asked for a page in the
container of a table. -/
structure CatalogState.Separate (s : CatalogState) : Prop where
  distinct : s.catalog.DistinctIds
  pages : ∀ info ∈ s.catalog.tables, info.cId ∉ s.treePages

/-- Every table and every index has the id of its name, and the pages of a tree are in the container of
its name.  The names of tables are in `T` and those of indexes in `I`. -/
structure CatalogState.Named (T I : String → Prop) (s : CatalogState) : Prop where
  tables : ∀ info ∈ s.catalog.tables,
    s.catalog.containerIdGenerator.getTableIdIfExists info.name = some info.cId ∧ T info.name
  indexes : ∀ info ∈ s.catalog.indexes,
    s.catalog.containerIdGenerator.getTableIdIfExists info.name = some info.indexId ∧ I info.name
  trees : ∀ c ∈ s.treePages,
    ∃ name, s.catalog.containerIdGenerator.getTableIdIfExists name = some c ∧ I name
  tableIds : (s.catalog.tables.map TableInfo.cId).Nodup
  indexNames : (s.catalog.indexes.map IndexInfo.name).Nodup

variable {T I : String → Prop} {s : CatalogState}

namespace CatalogState.Named

theorem withGenerator {g : ContainerIdGenerator} (h : s.Named T I)
    (hg : ∀ name i, s.catalog.containerIdGenerator.getTableIdIfExists name = some i →
      g.getTableIdIfExists name = some i) :
    ({ s with catalog := { s.catalog with containerIdGenerator := g } } : CatalogState).Named T I := by
  refine ⟨?_, ?_, ?_, h.tableIds, h.indexNames⟩
  · exact fun info hinfo => (h.tables info hinfo).imp_left (hg _ _)
  · exact fun info hinfo => (h.indexes info hinfo).imp_left (hg _ _)
  · intro c hc
    obtain ⟨name, hname, hI⟩ := h.trees c hc
    exact ⟨name, hg _ _ hname, hI⟩

theorem addTable (h : s.Named T I) (info : TableInfo)
    (hname : s.catalog.containerIdGenerator.getTableIdIfExists info.name = some info.cId)
    (hT : T info.name) (hnew : s.catalog.getTable info.cId = none) :
    ({ s with catalog := { s.catalog with tables := s.catalog.tables ++ [info] } } :
      CatalogState).Named T I := by
  refine ⟨?_, h.indexes, h.trees, ?_, h.indexNames⟩
  · intro t ht
    obtain ht | ht := mem_append.mp ht
    · exact h.tables t ht
    · cases mem_singleton.mp ht
      exact ⟨hname, hT⟩
  · rw [map_append, map_singleton, nodup_append]
    refine ⟨h.tableIds, nodup_singleton _, ?_⟩
    intro i hi j hj
    obtain ⟨t, ht, rfl⟩ := mem_map.mp hi
    cases mem_singleton.mp hj
    have hne := find?_eq_none.mp hnew t ht
    simpa using hne

theorem addTree (h : s.Named T I) {name : String} {c : ContainerId}
    (hname : s.catalog.containerIdGenerator.getTableIdIfExists name = some c) (hI : I name) :
    ({ s with treePages := c :: s.treePages } : CatalogState).Named T I := by
  refine ⟨h.tables, h.indexes, ?_, h.tableIds, h.indexNames⟩
  rw [forall_mem_cons]
  exact ⟨⟨name, hname, hI⟩, h.trees⟩

theorem addIndex (h : s.Named T I) {info : IndexInfo}
    (hname : s.catalog.containerIdGenerator.getTableIdIfExists info.name = some info.indexId)
    (hI : I info.name) (hnew : s.catalog.isValidIndexName info.name = false) :
    ({ s with catalog := { s.catalog with indexes := s.catalog.indexes ++ [info] } } :
      CatalogState).Named T I := by
  refine ⟨h.tables, ?_, h.trees, h.tableIds, ?_⟩
  · intro t ht
    obtain ht | ht := mem_append.mp ht
    · exact h.indexes t ht
    · cases mem_singleton.mp ht
      exact ⟨hname, hI⟩
  · rw [map_append, map_singleton, nodup_append]
    refine ⟨h.indexNames, nodup_singleton _, ?_⟩
    intro i hi j hj
    obtain ⟨t, ht, rfl⟩ := mem_map.mp hi
    cases mem_singleton.mp hj
    have hne := any_eq_false.mp hnew t ht
    simpa using hne

/-- Two names never have the same id: if no index is named like a table, their ids are distinct. -/
theorem separate (h : s.Named T I) (hTI : ∀ name, T name → ¬ I name) : s.Separate := by
  have hindexIds : (s.catalog.indexes.map IndexInfo.indexId).Nodup := by
    rw [nodup_map_iff_inj_on h.indexNames.of_map]
    intro i hi j hj heq
    apply inj_on_of_nodup_map h.indexNames hi hj
    apply ContainerIdGenerator.name_unique (h.indexes i hi).1
    rw [heq]
    exact (h.indexes j hj).1
  constructor
  · unfold Catalog.DistinctIds
    rw [nodup_append]
    refine ⟨h.tableIds, hindexIds, ?_⟩
    intro a ha b hb heq
    obtain ⟨t, ht, rfl⟩ := mem_map.mp ha
    obtain ⟨i, hi, rfl⟩ := mem_map.mp hb
    obtain ⟨htable, hT⟩ := h.tables t ht
    obtain ⟨hindex, hI⟩ := h.indexes i hi
    rw [heq] at htable
    exact hTI _ hT (ContainerIdGenerator.name_unique htable hindex ▸ hI)
  · intro t ht hpages
    obtain ⟨htable, hT⟩ := h.tables t ht
    obtain ⟨name, hname, hI⟩ := h.trees _ hpages
    exact hTI _ hT (ContainerIdGenerator.name_unique htable hname ▸ hI)

end CatalogState.Named

theorem createTable_named {name : String} {columns : List ColumnDef}
    {constraints : List TableConstraint} {storage : Option StatementError} (h : s.Named T I)
    (hT : T name) : (createTable name columns constraints storage s).2.Named T I := by
  unfold createTable
  cases hid : s.catalog.containerIdGenerator.getTableId name with
  | error p => exact h
  | ok r =>
    obtain ⟨tableId, generator⟩ := r
    obtain ⟨hname, hkeep⟩ := ContainerIdGenerator.getTableId_ok hid
    have hgen := h.withGenerator hkeep
    dsimp only
    cases schemaOf columns constraints with
    | error e => exact hgen
    | ok schema =>
      dsimp only
      split_ifs
      · exact hgen
      · cases storage with
        | some e => exact hgen
        | none =>
          dsimp only
          split
          · exact ⟨hgen.tables, hgen.indexes, hgen.trees, hgen.tableIds, hgen.indexNames⟩
          · rename_i hnew
            have hadd := hgen.addTable ⟨tableId, name, schema⟩ hname hT hnew
            exact ⟨hadd.tables, hadd.indexes, hadd.trees, hadd.tableIds, hadd.indexNames⟩

theorem createIndexInfo_named {name : Option String} {tableName : String} {columns : List String}
    {unique ifNotExists : Bool} {tree scan : Option StatementError} (h : s.Named T I)
    (hI : I (name.getD (defaultIndexName tableName columns))) :
    (createIndexInfo name tableName columns unique ifNotExists tree scan s).2.Named T I := by
  unfold createIndexInfo
  cases s.catalog.containerIdGenerator.getTableIdIfExists tableName with
  | none => exact h
  | some tableId =>
    dsimp only
    cases s.catalog.getTableSchema tableId with
    | none => exact h
    | some schema =>
      dsimp only
      cases indexColumns schema columns with
      | error e => exact h
      | ok rawColumns =>
        dsimp only
        split_ifs with hvalid hexists
        · exact h
        · exact h
        · split
          · exact h
          · rename_i indexId generator hid
            obtain ⟨hname, hkeep⟩ := ContainerIdGenerator.getTableId_ok hid
            have htree := (h.withGenerator hkeep).addTree hname hI
            cases tree with
            | some e => exact htree
            | none =>
              dsimp only
              split_ifs
              · exact htree
              · cases scan with
                | some e => exact htree
                | none => exact htree.addIndex hname hI (Bool.eq_false_iff.mpr hvalid)

theorem execCreates_named {statements : List CreateStatement} (h : s.Named T I)
    (hnames : ∀ statement ∈ statements, (∀ name, statement.newTable = some name → T name) ∧
      ∀ name, statement.newIndex = some name → I name) :
    (execCreates statements s).Named T I := by
  induction statements generalizing s with
  | nil => exact h
  | cons statement statements ih =>
    obtain ⟨⟨hT, hI⟩, hrest⟩ := forall_mem_cons.mp hnames
    refine ih ?_ hrest
    cases statement with
    | table name columns constraints storage => exact createTable_named h (hT name rfl)
    | index name tableName columns unique ifNotExists tree scan =>
      exact createIndexInfo_named h (hI _ rfl)

/-- In every sequence of statements in which no index gets the name of a table, after each statement
the ids of all tables and indexes are distinct and no tree has a page in the container of a table. -/
theorem separate_of_names (statements : List CreateStatement) (heapFiles : List ContainerId)
    (hnames : ∀ i ∈ statements, ∀ t ∈ statements, ∀ name, i.newIndex = some name →
      t.newTable ≠ some name) :
    ∀ done, done <+: statements → (execCreates done ⟨.new, heapFiles, []⟩).Separate := by
  intro done hdone
  have hstart : CatalogState.Named (fun name => ∃ t ∈ statements, t.newTable = some name)
      (fun name => ∃ i ∈ statements, i.newIndex = some name) ⟨.new, heapFiles, []⟩ := by
    refine ⟨?_, ?_, ?_, List.nodup_nil, List.nodup_nil⟩ <;> exact fun _ h => absurd h not_mem_nil
  refine (execCreates_named hstart ?_).separate ?_
  · exact fun statement hmem => ⟨fun name hname => ⟨statement, hdone.subset hmem, hname⟩,
      fun name hname => ⟨statement, hdone.subset hmem, hname⟩⟩
  · rintro name ⟨t, ht, htable⟩ ⟨i, hi, hindex⟩
    exact hnames i hi t ht name hindex htable

/-- `CREATE TABLE name (a INT PRIMARY KEY)` -/
def plainTable (name : String) : CreateStatement :=
  .table name [⟨"a", .int, [.primaryKey]⟩] [] none

/-- `CREATE INDEX [name] ON tableName (a)` -/
def plainIndex (name : Option String) (tableName : String) : CreateStatement :=
  .index name tableName ["a"] false false none none

/-- Two tables with an index each. -/
theorem separate_of_names_two :
    (execCreates [plainTable "t", plainIndex (some "i") "t", plainTable "u", plainIndex none "u"]
      ⟨.new, [], []⟩).Separate ∧
    (execCreates [plainTable "t", plainIndex (some "i") "t", plainTable "u", plainIndex none "u"]
      ⟨.new, [], []⟩).treePages = [3, 1] :=
  ⟨separate_of_names _ [] (by decide) _ (prefix_refl _), by decide⟩

/-- `CREATE TABLE t (a INT PRIMARY KEY); CREATE INDEX i ON t (a); CREATE TABLE i (a INT PRIMARY KEY)`:
the second table gets the container of the index. -/
theorem createTable_shares_container :
    ((plainTable "i").exec (execCreates [plainTable "t", plainIndex (some "i") "t"]
      ⟨.new, [], []⟩)).1 = .ok () ∧
    ¬ (execCreates [plainTable "t", plainIndex (some "i") "t", plainTable "i"]
      ⟨.new, [], []⟩).Separate := by
  refine ⟨rfl, fun h => ?_⟩
  have hdistinct := h.distinct
  unfold Catalog.DistinctIds at hdistinct
  revert hdistinct
  decide

end CrustyDB
