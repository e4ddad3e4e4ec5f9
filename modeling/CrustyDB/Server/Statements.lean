import CrustyDB.Server.Catalog

/-! # Statements on a table

The write statements on one table: `INSERT .. VALUES` (`importTuples`), the import of a CSV file
(`importCsv`), `CREATE INDEX` (`createIndex`), and what `UPDATE` and `DELETE` do with the rows that
they are given (`updateRows`, `deleteRows`).

`TableState` is the table as the statements see it: the heap file is a map from record ids to
tuples, an index tree is a multiset of pairs of a key and a record id, and the catalog numbers
tables and indexes by name.  What the heap file and the trees decide for themselves (the id of a
new record, whether a record or an entry can be stored at all) is a parameter, `Storage`.

`UPDATE` and `DELETE` are operators: they first collect the rows that their child returns, and change
them then, one after another.  The operators and their children are in `RowWriters.lean`; a row that
a child returns need not be the row of the table. -/

namespace CrustyDB

open Stateful

/-! ### The table -/

/-- The fields of a tuple. -/
abbrev Row := List Field

/-- The table, its indexes and the names of the catalog. -/
structure TableState where
  tableId : ContainerId
  rows : List (ValueId × Row)
  /-- The trees of the index manager. -/
  trees : ContainerId → Option (List (IndexKey × ValueId))
  /-- The indexes on the table. -/
  indexes : List IndexInfo
  generator : ContainerIdGenerator
  /-- The statistics know the table. -/
  registered : Bool

/-- The choices of the heap file and of the trees. -/
structure Storage where
  /-- The id of a new record, or none if no page can take it. -/
  place : List (ValueId × Row) → Row → Option ValueId
  /-- The id of a record after an update, or the error. -/
  replace : List (ValueId × Row) → ValueId → Row → Except String ValueId
  /-- The error of a tree that cannot take an entry. -/
  entryError : IndexKey → ValueId → Option String
  place_fresh : ∀ rows row v, place rows row = some v → v ∉ rows.map Prod.fst
  replace_fresh : ∀ rows v row v', replace rows v row = .ok v' → v' = v ∨ v' ∉ rows.map Prod.fst

/-- A part of a statement. -/
abbrev Stmt (α : Type) := EStateM StatementError TableState α

variable (storage : Storage)

/-! ### The indexes -/

/-- The key of a tuple in an index. -/
def extractKey (row : Row) : List ℕ → Except StatementError IndexKey
  | [] => .ok []
  | i :: columns =>
    match row[i]? with
    | none => .error (.panic .unwrap)
    | some f => (extractKey row columns).map (fun key => f :: key)

theorem extractKey_cons {row : Row} {i : ℕ} {columns : List ℕ} {key : IndexKey}
    (h : extractKey row (i :: columns) = .ok key) :
    ∃ f rest, row[i]? = some f ∧ extractKey row columns = .ok rest ∧ f :: rest = key := by
  unfold extractKey at h
  split at h
  · cases h
  · rename_i f hi
    obtain ⟨rest, hrest, hkey⟩ := map_eq_ok.mp h
    exact ⟨f, rest, hi, hrest, hkey⟩

/-- Lift a computation that does not touch the table. -/
def lift {α : Type} (x : Except StatementError α) : Stmt α := fun s =>
  match x with
  | .ok a => .ok a s
  | .error e => .error e s

def setTree (s : TableState) (indexId : ContainerId) (tree : List (IndexKey × ValueId)) :
    TableState :=
  { s with trees := fun i => if i = indexId then some tree else s.trees i }

/-- Put an entry into a tree. -/
def treeInsert (tree : List (IndexKey × ValueId)) (key : IndexKey) (rid : ValueId) :
    Except StatementError (List (IndexKey × ValueId)) :=
  match storage.entryError key rid with
  | some msg => .error (.crusty msg)
  | none => .ok ((key, rid) :: tree)

def insertEntry (indexId : ContainerId) (key : IndexKey) (rid : ValueId) : Stmt Unit := fun s =>
  match s.trees indexId with
  | none => .error (.crusty s!"Index {indexId} not found") s
  | some tree =>
    match treeInsert storage tree key rid with
    | .error e => .error e s
    | .ok tree' => .ok () (setTree s indexId tree')

/-- Remove an entry; one that is not there is no error. -/
def deleteEntry (indexId : ContainerId) (key : IndexKey) (rid : ValueId) : Stmt Unit := fun s =>
  match s.trees indexId with
  | none => .error (.crusty s!"Index {indexId} not found") s
  | some tree => .ok () (setTree s indexId (tree.erase (key, rid)))

/-! ### Inserts -/

/-- Add records to the heap file; a record that no page can take panics. -/
def addVals : List Row → Stmt (List ValueId)
  | [] => pure []
  | row :: rows => do
    let s ← get
    match storage.place s.rows row with
    | none => throw (.panic .unwrap)
    | some v => do
      set { s with rows := s.rows ++ [(v, row)] }
      let vs ← addVals rows
      pure (v :: vs)

/-- Tell the statistics of a new record. -/
def newRecord : Stmt Unit := fun s =>
  if s.registered then .ok () s else .error (.crusty "Container not found/registered") s

/-- The entries of a new record. -/
def addEntries (row : Row) (rid : ValueId) (indexes : List IndexInfo) : Stmt Unit :=
  indexes.forM (fun index => do
    let key ← lift (extractKey row index.columns)
    insertEntry storage index.indexId key rid)

def addAllEntries (indexes : List IndexInfo) : List (Row × ValueId) → Stmt Unit
  | [] => pure ()
  | (row, rid) :: rest => do
    newRecord
    addEntries storage row rid indexes
    addAllEntries indexes rest

/-- Insert tuples; the number of tuples inserted. -/
def insertValidatedTuples (tuples : List Row) : Stmt ℕ := do
  let inserted ← addVals storage tuples
  let s ← get
  addAllEntries storage s.indexes (tuples.zip inserted)
  pure inserted.length

/-! ### Literals -/

/-- The literals of the parser; those with no meaning in an insert are `other`. -/
inductive SqlValue where
  | number (val : String)
  | doubleQuotedString (val : String)
  | singleQuotedString (val : String)
  | boolean (b : Bool)
  | null
  | other
deriving DecidableEq, Repr

/-- An expression in a row of an insert: a literal, a number behind a minus sign, which is an operator
for the parser, `DATE '..'`, or any other expression. -/
inductive InsertExpr where
  | value (v : SqlValue)
  | negative (val : String)
  | date (val : String)
  | other
deriving DecidableEq, Repr

/-- The records that were converted, and the issues of those that were not. -/
structure ConvertedResult where
  converted : List Row
  unconverted : List (ℕ × List ConversionError)
deriving DecidableEq, Repr

/-- The literal as a field, or what is wrong with it; reading a decimal can panic. -/
def orParseError : Except Field.FromStrError Field → Checked (Except ConversionError Field)
  | .ok f => .ok (.ok f)
  | .error (.validation _) => .ok (.error .parseError)
  | .error (.panic p) => .error p

/-- The field of a number: an integer, or a decimal if there is a dot. -/
def convertNumber (val : String) : Checked (Except ConversionError Field) :=
  if 2 < (Field.splitDots val).length then .ok (.error .parseError)
  else if (Field.splitDots val).length = 2 then
    orParseError (Field.fromStrToDecimal val defaultDecimalPrecision defaultDecimalScale)
  else
    orParseError ((Field.parseIntFromStr 64 val).map (fun v => .bigInt (Int64.ofInt v)))

/-- The field of a literal. -/
def convertValue : SqlValue → Checked (Except ConversionError Field)
  | .number val => convertNumber val
  | .doubleQuotedString val | .singleQuotedString val => orParseError (Field.fromStrToString val)
  | .null => .ok (.ok .null)
  | .boolean _ | .other => .ok (.error .unsupportedType)

/-- Convert row `i`.  A literal that cannot be converted is left out of the row and noted. -/
def convertRow (i : ℕ) : List InsertExpr →
    Except StatementError (Row × List (ℕ × List ConversionError))
  | [] => .ok ([], [])
  | .negative _ :: _ | .date _ :: _ | .other :: _ =>
    .error (.crusty "Only values supported in insert")
  | .value v :: rest =>
    match convertValue v with
    | .error p => .error (.panic p)
    | .ok r =>
      match convertRow i rest with
      | .error e => .error e
      | .ok (fields, issues) =>
        match r with
        | .ok f => .ok (f :: fields, issues)
        | .error issue => .ok (fields, (i, [issue]) :: issues)

def convertRows (i : ℕ) : List (List InsertExpr) → Except StatementError ConvertedResult
  | [] => .ok ⟨[], []⟩
  | row :: rows =>
    match convertRow i row with
    | .error e => .error e
    | .ok (fields, issues) =>
      match convertRows (i + 1) rows with
      | .error e => .error e
      | .ok res => .ok ⟨fields :: res.converted, issues ++ res.unconverted⟩

def convertInsertVals (rows : List (List InsertExpr)) : Except StatementError ConvertedResult :=
  convertRows 0 rows

/-! ### Validation -/

/-- The field types that are accepted for a column. -/
def typeMatches : DataType → Field → Bool
  | .bigInt, .bigInt _ | .string, .string _ | .date, .date _ | .decimal _ _, .decimal _ _
  | .bool, .bool _ => true
  | _, _ => false

def typeIssues (attr : Attribute) (f : Field) : List ConversionError :=
  if typeMatches attr.dtype f then [] else [.wrongType]

/-- What is wrong with column `j` of a record.  A `NULL` that is not allowed is noted, and then its
type is checked as well. -/
def cellIssues (j : ℕ) (f : Field) (attr : Attribute) : List ConversionError :=
  if f = .null then
    if attr.constraint.forbidsNull then .nullFieldNotAllowed j :: typeIssues attr f else []
  else typeIssues attr f

/-- What is wrong with the columns of a record from `j` on, as far as both have columns. -/
def rowIssues (j : ℕ) : Row → List Attribute → List ConversionError
  | f :: fields, attr :: attrs => cellIssues j f attr ++ rowIssues (j + 1) fields attrs
  | _, _ => []

/-- One entry for each issue, with the number of its record. -/
def valuesToRemove (schema : TableSchema) (i : ℕ) : List Row → List (ℕ × List ConversionError)
  | [] => []
  | row :: rows =>
    (rowIssues 0 row schema.attributes).map (fun issue => (i, [issue])) ++
      valuesToRemove schema (i + 1) rows

/-- Remove the records at the positions, one after another. -/
def removeRows : List ℕ → List Row → Except StatementError (List Row)
  | [], rows => .ok rows
  | i :: is, rows =>
    if i < rows.length then removeRows is (rows.eraseIdx i) else .error (.panic .index)

/-- Drop the records that break the schema. -/
def validateTuples (schema : TableSchema) (colOrder : Option (List ℕ)) (values : ConvertedResult) :
    Except StatementError ConvertedResult :=
  if colOrder.isSome then .error (.crusty "Col ordering not supported")
  else
    (removeRows ((valuesToRemove schema 0 values.converted).reverse.map Prod.fst)
      values.converted).map (fun rows => { values with converted := rows })

/-- `INSERT INTO .. VALUES ..` -/
def importTuples (schema : TableSchema) (values : List (List InsertExpr)) : Stmt ℕ := do
  let convertedResult ← lift (convertInsertVals values)
  let validated ← lift (validateTuples schema none convertedResult)
  if validated.unconverted ≠ [] then throw (.validation validated.unconverted)
  else insertValidatedTuples storage validated.converted

/-! ### Records from a file -/

/-- The tuple of a CSV record: as many columns as both the record and the schema have. -/
def convertToTuple (parseDate : String → Option Int64) :
    List String → List Attribute → Except Field.FromStrError Row
  | text :: record, attr :: attrs => do
    let f ← Field.fromStr parseDate text attr
    let fields ← convertToTuple parseDate record attrs
    pure (f :: fields)
  | _, _ => .ok []

/-- Read up to `k` records. -/
def readChunk (parseDate : String → Option Int64) (schema : TableSchema) :
    ℕ → List (Except String (List String)) →
      Except Field.FromStrError (List Row × List (Except String (List String)))
  | 0, records => .ok ([], records)
  | _ + 1, [] => .ok ([], [])
  | _ + 1, .error msg :: _ => .error (.validation msg)
  | k + 1, .ok record :: records => do
    let row ← convertToTuple parseDate record schema.attributes
    let (rows, rest) ← readChunk parseDate schema k records
    pure (row :: rows, rest)

def maxRecordsInMem : ℕ := 100000

/-- Insert the records chunk by chunk. -/
def importRecordsFromReader (parseDate : String → Option Int64) (schema : TableSchema) :
    ℕ → List (Except String (List String)) → Stmt ℕ
  | 0, _ => pure 0
  | fuel + 1, records =>
    match readChunk parseDate schema maxRecordsInMem records with
    | .error (.validation msg) => throw (.execution msg)
    | .error (.panic p) => throw (.panic p)
    | .ok (rows, rest) =>
      if rows = [] then pure 0
      else do
        let insertCount ← insertValidatedTuples storage rows
        let total ← importRecordsFromReader parseDate schema fuel rest
        pure (insertCount + total)

/-- Import a CSV file; an error panics. -/
def importCsv (parseDate : String → Option Int64) (schema : TableSchema)
    (records : List (Except String (List String))) : Stmt ℕ := fun s =>
  match importRecordsFromReader storage parseDate schema (records.length + 1) records s with
  | .ok n s' => .ok n s'
  | .error _ s' => .error (.panic .unwrap) s'

/-! ### Updates and deletes -/

/-- Assign the fields, one after another. -/
def setFields : List (ℕ × Field) → Row → Except StatementError Row
  | [], row => .ok row
  | (i, f) :: assignments, row =>
    if i < row.length then setFields assignments (row.set i f) else .error (.panic .index)

/-- Store a new tuple for a record, possibly under another id. -/
def updateValue (row : Row) (id : ValueId) : Stmt ValueId := fun s =>
  match storage.replace s.rows id row with
  | .error msg => .error (.crusty msg) s
  | .ok v =>
    .ok v { s with rows := s.rows.map (fun p => if p.1 = id then (v, row) else p) }

/-- Move the entries of a record from its old key and id to the new ones. -/
def moveEntries (old new : Row) (id id' : ValueId) (indexes : List IndexInfo) : Stmt Unit :=
  indexes.forM (fun index => do
    let oldKey ← lift (extractKey old index.columns)
    let newKey ← lift (extractKey new index.columns)
    deleteEntry index.indexId oldKey id
    insertEntry storage index.indexId newKey id')

/-- Update the rows that have been collected. -/
def updateRows (assignments : List (ℕ × Field)) (indexes : List IndexInfo) :
    List (ValueId × Row) → Stmt Unit
  | [] => pure ()
  | (id, row) :: pending => do
    let tuple ← lift (setFields assignments row)
    let id' ← updateValue storage tuple id
    moveEntries storage row tuple id id' indexes
    updateRows assignments indexes pending

/-- The columns of the assignments. -/
def assignmentColumns (schema : TableSchema) :
    List (String × Field) → Except StatementError (List (ℕ × Field))
  | [] => .ok []
  | (name, f) :: assignments =>
    match schema.getFieldIndex name with
    | none => .error (.crusty name)
    | some i => (assignmentColumns schema assignments).map (fun rest => (i, f) :: rest)

theorem assignmentColumns_cons {schema : TableSchema} {name : String} {f : Field}
    {assignments : List (String × Field)} {columns : List (ℕ × Field)}
    (h : assignmentColumns schema ((name, f) :: assignments) = .ok columns) :
    ∃ i rest, schema.getFieldIndex name = some i ∧ assignmentColumns schema assignments = .ok rest ∧
      (i, f) :: rest = columns := by
  unfold assignmentColumns at h
  split at h
  · cases h
  · rename_i i hi
    obtain ⟨rest, hrest, hcolumns⟩ := map_eq_ok.mp h
    exact ⟨i, rest, hi, hrest, hcolumns⟩

/-- Remove the entries of a record. -/
def removeEntries (row : Row) (id : ValueId) (indexes : List IndexInfo) : Stmt Unit :=
  indexes.forM (fun index => do
    let key ← lift (extractKey row index.columns)
    deleteEntry index.indexId key id)

def deleteValue (id : ValueId) : Stmt Unit :=
  modify (fun s => { s with rows := s.rows.filter (fun p => p.1 ≠ id) })

/-- Delete the rows that have been collected. -/
def deleteRows (indexes : List IndexInfo) : List (ValueId × Row) → Stmt Unit
  | [] => pure ()
  | (id, row) :: pending => do
    removeEntries row id indexes
    deleteValue id
    deleteRows indexes pending

/-! ### Indexes -/

/-- The id of a name. -/
def getTableId (name : String) : Stmt ContainerId := fun s =>
  match s.generator.getTableId name with
  | .error p => .error (.panic p) s
  | .ok (cId, generator) => .ok cId { s with generator := generator }

/-- The tree over the rows. -/
def buildTree (columns : List ℕ) :
    List (ValueId × Row) → List (IndexKey × ValueId) →
      Except StatementError (List (IndexKey × ValueId))
  | [], tree => .ok tree
  | (id, row) :: rows, tree => do
    let key ← extractKey row columns
    let tree' ← treeInsert storage tree key id
    buildTree columns rows tree'

/-- `CREATE [UNIQUE] INDEX [IF NOT EXISTS] [name] ON tableName (column, ..)` -/
def createIndex (tableName : String) (schema : TableSchema) (name : Option String)
    (columns : List String) (unique ifNotExists : Bool) : Stmt Unit := do
  let rawColumns ← lift (indexColumns schema columns)
  let indexName := name.getD (defaultIndexName tableName columns)
  let s ← get
  if s.indexes.any (fun index => index.name == indexName) then
    if ifNotExists then pure () else throw (.crusty s!"Index {indexName} already exists")
  else do
    let indexId ← getTableId indexName
    -- an index with the name of its table puts its pages into the table, which is then scanned
    if indexId = s.tableId then throw (.panic .unwrap)
    else do
      let tree ← lift (buildTree storage rawColumns s.rows [])
      modify (fun s => setTree s indexId tree)
      modify (fun s =>
        { s with indexes := s.indexes ++ [⟨indexId, indexName, s.tableId, rawColumns, unique⟩] })

/-! ### What the parts of a statement change -/

variable {storage}

theorem lift_sat {α : Type} {x : Except StatementError α} {s : TableState}
    {Q : α → TableState → Prop} {E : StatementError → TableState → Prop}
    (hok : ∀ a, x = .ok a → Q a s) (herr : ∀ e, x = .error e → E e s) : Sat (lift x) s Q E := by
  cases x with
  | ok a => exact Sat.of_ok rfl (hok a rfl)
  | error e => exact Sat.of_error rfl (herr e rfl)

theorem of_lift_ok {α : Type} {x : Except StatementError α} {s t : TableState} {a : α}
    (h : lift x s = .ok a t) : x = .ok a ∧ s = t := by
  cases x with
  | ok b =>
    cases h
    exact ⟨rfl, rfl⟩
  | error e => cases h

/-- An insertion into the heap file adds the records, and only a panic stops it. -/
theorem addVals_sat (tuples : List Row) (s : TableState) :
    Sat (addVals storage tuples) s
      (fun vs t => vs.length = tuples.length ∧ t = { s with rows := s.rows ++ vs.zip tuples })
      (fun e _ => e = .panic .unwrap) := by
  induction tuples generalizing s with
  | nil =>
    apply Sat.pure
    refine ⟨rfl, ?_⟩
    rw [List.zip_nil_right, List.append_nil]
  | cons row tuples ih =>
    unfold addVals
    apply Sat.bind
    apply Sat.get
    cases hplace : storage.place s.rows row with
    | none => exact Sat.throw rfl
    | some v =>
      apply Sat.bind
      refine Sat.of_ok rfl ?_
      apply Sat.bind
      refine (ih _).mono ?_ (fun _ _ he => he)
      rintro vs t ⟨hlen, rfl⟩
      apply Sat.pure
      refine ⟨by simp [hlen], ?_⟩
      simp [List.append_assoc]

/-- The index entries are no part of the heap file. -/
theorem insertEntry_rows (indexId : ContainerId) (key : IndexKey) (rid : ValueId) (s : TableState) :
    Sat (insertEntry storage indexId key rid) s (fun _ t => t.rows = s.rows)
      (fun _ t => t.rows = s.rows) := by
  unfold Sat insertEntry
  cases s.trees indexId with
  | none => rfl
  | some tree =>
    dsimp only
    cases treeInsert storage tree key rid with
    | error e => rfl
    | ok tree' => rfl

theorem deleteEntry_rows (indexId : ContainerId) (key : IndexKey) (rid : ValueId) (s : TableState) :
    Sat (deleteEntry indexId key rid) s (fun _ t => t.rows = s.rows) (fun _ t => t.rows = s.rows) := by
  unfold Sat deleteEntry
  cases s.trees indexId with
  | none => rfl
  | some tree => rfl

theorem addEntries_rows (row : Row) (rid : ValueId) (indexes : List IndexInfo) (s : TableState) :
    Sat (addEntries storage row rid indexes) s (fun _ t => t.rows = s.rows)
      (fun _ t => t.rows = s.rows) := by
  refine Sat.forM (I := fun t : TableState => t.rows = s.rows) indexes rfl ?_
  intro index _ t ht
  apply Sat.bind
  refine lift_sat (fun key _ => ?_) (fun _ _ => ht)
  refine (insertEntry_rows _ _ _ t).mono ?_ ?_
  · exact fun _ _ h => h.trans ht
  · exact fun _ _ h => h.trans ht

theorem moveEntries_rows (old new : Row) (id id' : ValueId) (indexes : List IndexInfo)
    (s : TableState) :
    Sat (moveEntries storage old new id id' indexes) s (fun _ t => t.rows = s.rows)
      (fun _ t => t.rows = s.rows) := by
  refine Sat.forM (I := fun t : TableState => t.rows = s.rows) indexes rfl ?_
  intro index _ t ht
  apply Sat.bind
  refine lift_sat (fun oldKey _ => ?_) (fun _ _ => ht)
  apply Sat.bind
  refine lift_sat (fun newKey _ => ?_) (fun _ _ => ht)
  apply Sat.bind
  refine (deleteEntry_rows _ _ _ t).mono ?_ (fun _ _ h => h.trans ht)
  intro _ t₁ ht₁
  refine (insertEntry_rows _ _ _ t₁).mono ?_ ?_
  · exact fun _ _ h => h.trans (ht₁.trans ht)
  · exact fun _ _ h => h.trans (ht₁.trans ht)

theorem newRecord_sat (s : TableState) : Sat newRecord s (fun _ t => t = s) (fun _ t => t = s) := by
  unfold Sat newRecord
  cases s.registered with
  | true => rfl
  | false => rfl

theorem addAllEntries_rows (indexes : List IndexInfo) (tuples : List (Row × ValueId))
    (s : TableState) :
    Sat (addAllEntries storage indexes tuples) s (fun _ t => t.rows = s.rows)
      (fun _ t => tuples ≠ [] ∧ t.rows = s.rows) := by
  induction tuples generalizing s with
  | nil => exact Sat.pure rfl
  | cons p tuples ih =>
    obtain ⟨row, rid⟩ := p
    unfold addAllEntries
    apply Sat.bind
    refine (newRecord_sat s).mono ?_ (fun _ t ht => ⟨by simp, by rw [ht]⟩)
    rintro _ t rfl
    apply Sat.bind
    refine (addEntries_rows row rid indexes t).mono ?_ (fun _ _ h => ⟨by simp, h⟩)
    intro _ t' ht
    refine (ih t').mono ?_ ?_
    · exact fun _ _ h => h.trans ht
    · exact fun _ _ h => ⟨by simp, h.2.trans ht⟩

/-- An insertion adds all tuples; when it fails without a panic they have been added as well. -/
theorem insertValidatedTuples_sat (tuples : List Row) (s : TableState) :
    Sat (insertValidatedTuples storage tuples) s
      (fun n t => n = tuples.length ∧
        ∃ vs : List ValueId, vs.length = tuples.length ∧ t.rows = s.rows ++ vs.zip tuples)
      (fun e t => (∃ p, e = .panic p) ∨ tuples ≠ [] ∧
        ∃ vs : List ValueId, vs.length = tuples.length ∧ t.rows = s.rows ++ vs.zip tuples) := by
  unfold insertValidatedTuples
  apply Sat.bind
  refine (addVals_sat tuples s).mono ?_ (fun e _ he => .inl ⟨_, he⟩)
  rintro vs t ⟨hlen, rfl⟩
  apply Sat.bind
  apply Sat.get
  apply Sat.bind
  refine (addAllEntries_rows _ _ _).mono ?_ ?_
  · intro _ t ht
    exact Sat.pure ⟨hlen, vs, hlen, ht⟩
  · rintro e t ⟨hne, ht⟩
    refine .inr ⟨?_, vs, hlen, ht⟩
    rintro rfl
    exact hne rfl

end CrustyDB
