import CrustyDB.Query.Replay
import CrustyDB.Query.ExprCompiler
import CrustyDB.Server.IndexEntries

/-! # The operators that change rows

`Update` and `Delete` read their child to its end when they are opened, and then change one record
for each call of `next`.  The child is what the planner builds for a `WHERE` clause: filters over a
scan of all columns of the table, or over the scan of an index whose columns the clause compares
with literals.

`updateRows_rows` is the argument against an update that meets its own records again: a record that
moves gets an id that no other record has, so it is not one of the ids that are still to come.
`RowStatement.of_exec` says what a statement that returns has done: it has written rows that have the
ids of those its `WHERE` clause selects, each once, and the columns of the stored rows.
`execute_eq_output` is about trees that only read.

The columns of a scan are numbered by `getTempColId`, which has room for `maxColumns` columns; a
scan of a wider table returns column `i` in place of column `maxColumns + i`. -/

namespace CrustyDB

open Pull Stateful List Pull.Trace

/-! ### The table as the scans read it -/

/-- The storage and the indexes of a table. -/
def TableState.managers (floats : Floats) (s : TableState) : Managers where
  floats := floats
  getIterator c := if c = s.tableId then s.rows.map (fun p => (p.1, .new p.2)) else []
  getIteratorFrom c id :=
    if c = s.tableId then
      (s.rows.dropWhile (fun p => p.1 ≠ id)).map (fun p => (p.1, .new p.2))
    else []
  search indexId key :=
    match s.trees indexId with
    | none => .error s!"Index {indexId} not found"
    | some tree => .ok ((tree.filter (fun e => e.1 = key)).map Prod.snd)
  getValue id :=
    match s.rows.find? (fun p => p.1 = id) with
    | some p => .ok (.new p.2)
    | none => .error "Value not found"

/-- The tuple of a record. -/
def scanned (p : ValueId × Row) : Tuple := { Tuple.new p.2 with valueId := some p.1 }

/-! ### The operators -/

/-- The state of `Update` and of `Delete`, with the table they write to. -/
structure Writer (σ : Type) where
  child : σ
  isOpen : Bool
  /-- The rows of the child. -/
  pending : List Tuple
  table : TableState

/-- An error of the storage or of an index, in an operator. -/
def StatementError.inOperator : StatementError → ExecError
  | .crusty msg => .crusty msg
  | .validation _ => .crusty "Some records were not valid"
  | .execution msg => .crusty msg
  | .panic p => .panic p

namespace Writer

variable {σ α : Type}

def onChild (x : EStateM ExecError σ α) : EStateM ExecError (Writer σ) α :=
  zoom Writer.child (fun t w => { w with child := t }) x

/-- A call of the storage or of an index. -/
def onTable (x : Stmt α) : EStateM ExecError (Writer σ) α := fun w =>
  match x w.table with
  | .ok a t => .ok a { w with table := t }
  | .error e t => .error e.inOperator { w with table := t }

variable (floats : Floats) (child : Managers → Operator σ)

def configure (willRewind : Bool) (w : Writer σ) : Writer σ :=
  { w with child := (child (w.table.managers floats)).configure willRewind w.child }

/-- All rows of the child are read before any record is changed. -/
def openIter : Method (Writer σ) Unit := fun n => do
  let w ← get
  if w.isOpen then pure ()
  else do
    let it := child (w.table.managers floats)
    onChild (it.openIter n)
    let rows ← onChild (gather .diverges it.next [] n)
    modify (fun w => { w with pending := rows, isOpen := true })

def next (write : Tuple → Stmt Tuple) : Method (Writer σ) (Option Tuple) := fun _ => do
  let w ← get
  require w.isOpen notOpened
  match w.pending with
  | [] => pure none
  | tuple :: rest => do
    set { w with pending := rest }
    let written ← onTable (write tuple)
    pure (some written)

def close : Method (Writer σ) Unit := fun n => do
  let w ← get
  onChild ((child (w.table.managers floats)).close n)
  modify (fun w => { w with pending := [], isOpen := false })

def rewind : Method (Writer σ) Unit := fun _ => throw (.abort "not implemented")

def iter (write : Tuple → Stmt Tuple) : Operator (Writer σ) :=
  ⟨configure floats child, openIter floats child, next write, close floats child, rewind⟩

end Writer

/-- What `Update` does with a row of its child. -/
def Update.write (storage : Storage) (assignments : List (ℕ × Field)) (indexes : List IndexInfo)
    (tuple : Tuple) : Stmt Tuple :=
  match tuple.valueId with
  | none => throw (.crusty "No value id set for record. Cannot update")
  | some id => do
    let fieldVals ← lift (setFields assignments tuple.fieldVals)
    let newId ← updateValue storage fieldVals id
    moveEntries storage tuple.fieldVals fieldVals id newId indexes
    pure { tuple with fieldVals := fieldVals }

/-- What `Delete` does with a row of its child. -/
def Delete.write (indexes : List IndexInfo) (tuple : Tuple) : Stmt Tuple :=
  match tuple.valueId with
  | none => throw (.crusty "No value id set for record. Cannot delete")
  | some id => do
    removeEntries tuple.fieldVals id indexes
    deleteValue id
    pure tuple

/-- The executor: open the operator, take all tuples and close it. -/
def execute {σ : Type} (it : Operator σ) : Method σ (List Tuple) := fun n => do
  modify (it.configure false)
  it.openIter n
  let res ← gather .diverges it.next [] n
  it.close n
  pure res

/-- A statement that changes the rows its `WHERE` clause selects. -/
inductive RowStatement where
  | update (assignments : List (String × Field))
  | delete

def RowStatement.write (storage : Storage) (schema : TableSchema) (indexes : List IndexInfo) :
    RowStatement → Except StatementError (Tuple → Stmt Tuple)
  | update assignments => (assignmentColumns schema assignments).map (fun columns =>
    Update.write storage columns indexes)
  | delete => .ok (Delete.write indexes)

/-- Run a statement over a child; the number of rows it has changed. -/
def RowStatement.exec (storage : Storage) (floats : Floats) (schema : TableSchema)
    (tree : OperatorTree) (statement : RowStatement) : Method (Writer tree.State) ℕ := fun n => do
  let w ← get
  let write ← attempt ((statement.write storage schema w.table.indexes).mapError
    StatementError.inOperator)
  let res ← execute (Writer.iter floats (fun m => tree.iter m) write) n
  pure res.length

/-! ### A run of an operator -/

/-- Write all rows, one after another. -/
def writeAll (write : Tuple → Stmt Tuple) : List Tuple → Stmt (List Tuple)
  | [] => pure []
  | tuple :: pending => do
    let written ← write tuple
    let rest ← writeAll write pending
    pure (written :: rest)

namespace Writer

variable {σ : Type} {write : Tuple → Stmt Tuple}

theorem next_ok {c : σ} {tuple written : Tuple} {pending : List Tuple} {s s' : TableState}
    (h : write tuple s = .ok written s') :
    Ends (next write) ⟨c, true, tuple :: pending, s⟩ (.ok (some written) ⟨c, true, pending, s'⟩) := by
  refine Ends.of_eq (fun n => ?_)
  have htable : onTable (write tuple) (⟨c, true, pending, s⟩ : Writer σ) =
      .ok written ⟨c, true, pending, s'⟩ := by
    unfold onTable
    rw [h]
  show (onTable (write tuple) >>= fun written => pure (some written)) _ = _
  rw [bind_of_ok htable]
  rfl

theorem next_error {c : σ} {tuple : Tuple} {pending : List Tuple} {s s' : TableState}
    {e : StatementError} (h : write tuple s = .error e s') :
    Ends (next write) ⟨c, true, tuple :: pending, s⟩ (.error e.inOperator ⟨c, true, pending, s'⟩) := by
  refine Ends.of_eq (fun n => ?_)
  have htable : onTable (write tuple) (⟨c, true, pending, s⟩ : Writer σ) =
      .error e.inOperator ⟨c, true, pending, s'⟩ := by
    unfold onTable
    rw [h]
  show (onTable (write tuple) >>= fun written => pure (some written)) _ = _
  rw [bind_of_error htable]

/-- The calls of `next` write the pending rows. -/
theorem gather_next (write : Tuple → Stmt Tuple) (pending : List Tuple) (c : σ) (s : TableState) (found : List Tuple) :
    (∀ res s', writeAll write pending s = .ok res s' →
      Ends (gather .diverges (next write) found) ⟨c, true, pending, s⟩
        (.ok (found ++ res) ⟨c, true, [], s'⟩)) ∧
    (∀ e s', writeAll write pending s = .error e s' → ∃ w,
      Ends (gather .diverges (next write) found) ⟨c, true, pending, s⟩ (.error e.inOperator w)) := by
  induction pending generalizing s found with
  | nil =>
    refine ⟨fun res s' h => ?_, fun e s' h => nomatch h⟩
    cases h
    rw [append_nil]
    exact Ends.gather_done (Ends.of_eq (fun _ => rfl))
  | cons tuple pending ih =>
    unfold writeAll
    cases hone : write tuple s with
    | error e =>
      rename_i s₁
      rw [bind_of_error hone]
      refine ⟨fun res s' h => (nomatch h), fun e' s' h => ?_⟩
      cases h
      exact ⟨_, (next_error hone).gather_error⟩
    | ok written s₁ =>
      rw [bind_of_ok hone]
      obtain ⟨hdone, hfail⟩ := ih s₁ (found ++ [written])
      cases hrest : writeAll write pending s₁ with
      | error e =>
        rename_i s₂
        rw [bind_of_error hrest]
        refine ⟨fun res s' h => (nomatch h), fun e' s' h => ?_⟩
        cases h
        obtain ⟨w, hw⟩ := hfail e s₂ hrest
        exact ⟨w, (next_ok hone).gather_item hw⟩
      | ok rest s₂ =>
        rw [bind_of_ok hrest]
        refine ⟨fun res s' h => ?_, fun e' s' h => nomatch h⟩
        cases h
        have hend := hdone rest s₂ hrest
        rw [append_assoc] at hend
        exact (next_ok hone).gather_item hend

end Writer

/-- A writer over a child, before it is configured. -/
def Writer.new (tree : OperatorTree) (s : TableState) : Writer tree.State := ⟨tree.new, false, [], s⟩

section Execute

variable {floats : Floats} {tree : OperatorTree} {write : Tuple → Stmt Tuple} {s : TableState}

/-- To close a tree nothing is read. -/
theorem OperatorTree.close_eq (m m' : Managers) (tree : OperatorTree) :
    (tree.iter m).close = (tree.iter m').close := by
  induction tree with
  | seqScan | indexScan | tupleIterator | sortMergeJoin => rfl
  | filter _ _ ih | project _ _ ih =>
    show Unary.close _ = Unary.close _
    unfold Unary.close
    rw [ih]
  | crossJoin _ _ ihl ihr | nestedLoopJoin _ _ _ _ _ ihl ihr =>
    show LoopJoin.close _ _ = LoopJoin.close _ _
    unfold LoopJoin.close
    rw [ihl, ihr]
  | hashEqJoin _ _ _ _ ihl ihr =>
    show HashEqJoin.close _ _ = HashEqJoin.close _ _
    unfold HashEqJoin.close
    rw [ihl, ihr]
  | sort _ _ ih =>
    show SortOp.close _ = SortOp.close _
    unfold SortOp.close
    rw [ih]
  | aggregate _ _ _ _ _ ih =>
    show Aggregate.close _ = Aggregate.close _
    unfold Aggregate.close
    rw [ih]

/-- The opening of a writer reads the child. -/
theorem Writer.open_ends {first : Opening} {willRewind : Bool}
    (c : Contract (tree.iter (s.managers floats)) willRewind first) {t : tree.State}
    (ht : c.Ready t) :
    (∀ out, first >>= Pull.Trace.items = .ok out → ∃ t', c.At .done t' ∧
      Ends (Writer.openIter floats (fun m => tree.iter m)) ⟨t, false, [], s⟩
        (.ok () ⟨t', true, out, s⟩)) ∧
    (∀ e, first >>= Pull.Trace.items = .error e → ∃ w,
      Ends (Writer.openIter floats (fun m => tree.iter m)) ⟨t, false, [], s⟩ (.error e w)) := by
  have hclosed : ∀ n, Writer.openIter floats (fun m => tree.iter m) n ⟨t, false, [], s⟩ = (do
      Writer.onChild ((tree.iter (s.managers floats)).openIter n)
      let rows ← Writer.onChild (gather .diverges (tree.iter (s.managers floats)).next [] n)
      modify (fun w => { w with pending := rows, isOpen := true }) :
        EStateM ExecError (Writer tree.State) Unit) ⟨t, false, [], s⟩ := fun _ => rfl
  cases first with
  | error e =>
    obtain ⟨t', hopen⟩ := (c.starts ht).error rfl
    refine ⟨fun out h => (nomatch h), fun e' h => ?_⟩
    cases h
    exact ⟨_, Ends.congr hclosed (Ends.bind_error (Ends.zoom_error hopen))⟩
  | ok u =>
    obtain ⟨t', hopen, hat⟩ := (c.starts ht).ok rfl
    obtain ⟨hdone, hfail⟩ := c.gather ExecError.diverges u hat []
    refine ⟨fun out h => ?_, fun e h => ?_⟩
    · obtain ⟨t'', hend, hat''⟩ := hdone out h
      exact ⟨t'', hat'', Ends.congr hclosed (Ends.bind (Ends.zoom hopen) (Ends.bind
        (Ends.zoom hend) (Ends.of_eq (fun _ => rfl))))⟩
    · obtain ⟨t'', hend⟩ := hfail e h
      exact ⟨_, Ends.congr hclosed (Ends.bind (Ends.zoom hopen)
        (Ends.bind_error (Ends.zoom_error hend)))⟩

/-- All rows of a tree, unless one of its methods fails. -/
def OperatorTree.output (tree : OperatorTree) (m : Managers) : Except ExecError (List Tuple) :=
  tree.opening m >>= Pull.Trace.items

/-- The executor on a tree that reads: its rows, or the error that ends them. -/
theorem execute_eq_output (tree : OperatorTree) (m : Managers) :
    ∃ t, Ends (execute (tree.iter m)) tree.new
      (match tree.output m with
      | .ok out => .ok out t
      | .error e => .error e t) := by
  obtain ⟨c, hready, -⟩ := tree.exists_contract m false
  unfold OperatorTree.output
  cases hfirst : tree.opening m with
  | error e =>
    obtain ⟨t, ht⟩ := (c.starts hready).error hfirst
    exact ⟨t, Ends.modify (Ends.bind_error ht)⟩
  | ok u =>
    obtain ⟨t, hopen, hat⟩ := (c.starts hready).ok hfirst
    obtain ⟨hdone, hfail⟩ := c.gather .diverges u hat []
    show ∃ t, Ends _ _ (match u.items with | .ok out => .ok out t | .error e => .error e t)
    cases hitems : u.items with
    | error e =>
      obtain ⟨t', ht'⟩ := hfail e hitems
      exact ⟨t', Ends.modify (Ends.bind hopen (Ends.bind_error ht'))⟩
    | ok out =>
      obtain ⟨t', hend, hat'⟩ := hdone out hitems
      obtain ⟨t'', hclose, -⟩ := c.closes (.inr (.inl ⟨_, hat'⟩))
      exact ⟨t'', Ends.modify (Ends.bind hopen (Ends.bind hend (Ends.bind hclose Ends.pure)))⟩

/-- A run of a writer: the child is read first, and then its rows are written. -/
theorem execute_ends :
    (∀ out res s', tree.output (s.managers floats) = .ok out →
      writeAll write out s = .ok res s' → ∃ w, w.table = s' ∧
        Ends (execute (Writer.iter floats (fun m => tree.iter m) write)) (Writer.new tree s)
          (.ok res w)) ∧
    ((∀ out res s', tree.output (s.managers floats) = .ok out →
      writeAll write out s ≠ .ok res s') → ∃ e w,
        Ends (execute (Writer.iter floats (fun m => tree.iter m) write)) (Writer.new tree s)
          (.error e w)) := by
  obtain ⟨c, hready, -⟩ := tree.exists_contract (s.managers floats) false
  obtain ⟨hread, hbad⟩ := Writer.open_ends c hready
  constructor
  · intro out res s' hout hall
    obtain ⟨t', hat, hopen⟩ := hread out hout
    obtain ⟨hdone, -⟩ := Writer.gather_next write out t' s []
    obtain ⟨t'', hclose, -⟩ := c.closes (.inr (.inl ⟨_, hat⟩))
    rw [tree.close_eq (s.managers floats) (s'.managers floats)] at hclose
    have hend : Ends (Writer.close floats (fun m => tree.iter m)) ⟨t', true, [], s'⟩
        (.ok () ⟨t'', false, [], s'⟩) :=
      Ends.get (Ends.bind (Ends.zoom hclose) (Ends.of_eq (fun _ => rfl)))
    exact ⟨⟨t'', false, [], s'⟩, rfl, Ends.modify (Ends.bind hopen (Ends.bind (hdone res s' hall)
      (Ends.bind hend Ends.pure)))⟩
  · intro hno
    cases hout : tree.output (s.managers floats) with
    | error e =>
      obtain ⟨w, hw⟩ := hbad e hout
      exact ⟨e, w, Ends.modify (Ends.bind_error hw)⟩
    | ok out =>
      obtain ⟨t', -, hopen⟩ := hread out hout
      obtain ⟨-, hfail⟩ := Writer.gather_next write out t' s []
      cases hall : writeAll write out s with
      | ok res s' => exact absurd hall (hno out res s' hout)
      | error e s' =>
        obtain ⟨w, hw⟩ := hfail e s' hall
        exact ⟨_, w, Ends.modify (Ends.bind hopen (Ends.bind_error hw))⟩

end Execute

/-! ### What is written -/

variable {columns : List (ℕ × Field)} {indexes : List IndexInfo} {s : TableState}

variable {ps : List (ValueId × Row)} {s' : TableState} {res : List Tuple}

/-- To write all rows is to take a step of `run` for each. -/
theorem writeAll_scanned {write : Tuple → Stmt Tuple} {run : List (ValueId × Row) → Stmt Unit}
    (hnil : run [] = pure ()) (hcons : ∀ id row pending s written s₁,
      write (scanned (id, row)) s = .ok written s₁ → run ((id, row) :: pending) s = run pending s₁)
    (h : writeAll write (ps.map scanned) s = .ok res s') :
    run ps s = .ok () s' ∧ res.length = ps.length := by
  induction ps generalizing s res with
  | nil =>
    cases h
    exact ⟨by rw [hnil]; rfl, rfl⟩
  | cons p ps ih =>
    rw [map_cons, writeAll] at h
    obtain ⟨written, s₁, hone, h⟩ := of_bind_ok h
    obtain ⟨rest, s₂, hrest, h⟩ := of_bind_ok h
    cases h
    obtain ⟨hrows, hlen⟩ := ih hrest
    refine ⟨?_, by rw [length_cons, length_cons, hlen]⟩
    rw [hcons p.1 p.2 ps s written s₁ hone, hrows]

/-- The rows that `Update` writes are those of `updateRows`. -/
theorem writeAll_update {storage : Storage}
    (h : writeAll (Update.write storage columns indexes) (ps.map scanned) s = .ok res s') :
    updateRows storage columns indexes ps s = .ok () s' ∧ res.length = ps.length := by
  refine writeAll_scanned rfl (fun id row pending s written s₁ hone => ?_) h
  have hone : (do
      let fieldVals ← lift (setFields columns row)
      let newId ← updateValue storage fieldVals id
      moveEntries storage row fieldVals id newId indexes
      pure { scanned (id, row) with fieldVals := fieldVals }) s = .ok written s₁ := hone
  obtain ⟨fieldVals, t₁, hset, hone⟩ := of_bind_ok hone
  obtain ⟨newId, t₂, hup, hone⟩ := of_bind_ok hone
  obtain ⟨u, t₃, hmove, hone⟩ := of_bind_ok hone
  cases hone
  rw [updateRows, bind_of_ok hset, bind_of_ok hup, bind_of_ok hmove]

/-- The rows that `Delete` writes are those of `deleteRows`. -/
theorem writeAll_delete
    (h : writeAll (Delete.write indexes) (ps.map scanned) s = .ok res s') :
    deleteRows indexes ps s = .ok () s' ∧ res.length = ps.length := by
  refine writeAll_scanned rfl (fun id row pending s written s₁ hone => ?_) h
  have hone : (do
      removeEntries row id indexes
      deleteValue id
      pure (scanned (id, row))) s = .ok written s₁ := hone
  obtain ⟨u, t₁, hremove, hone⟩ := of_bind_ok hone
  obtain ⟨u', t₂, hdelete, hone⟩ := of_bind_ok hone
  cases hone
  rw [deleteRows, bind_of_ok hremove, bind_of_ok hdelete]

variable {storage : Storage}

/-- The rows that are to be updated are found where they were when they were collected: a record that
is moved gets an id that none of them has. -/
theorem updateRows_rows (pending : List (ValueId × Row)) (hids : (pending.map Prod.fst).Nodup)
    (hs : (s.rows.map Prod.fst).Nodup) (hsub : pending.map Prod.fst ⊆ s.rows.map Prod.fst) :
    Sat (updateRows storage columns indexes pending) s
      (fun _ t => (t.rows.map Prod.fst).Nodup ∧ ∃ new : ValueId → ValueId × Row,
        t.rows = s.rows.map (fun p => if p.1 ∈ pending.map Prod.fst then new p.1 else p) ∧
        ∀ p ∈ pending, setFields columns p.2 = .ok (new p.1).2)
      (fun _ _ => True) := by
  induction pending generalizing s with
  | nil =>
    refine Sat.pure ⟨hs, fun id => (id, []), ?_, fun p hp => nomatch hp⟩
    simp
  | cons p pending ih =>
    obtain ⟨id, row⟩ := p
    rw [map_cons, nodup_cons] at hids
    rw [map_cons, cons_subset] at hsub
    unfold updateRows
    apply Sat.bind
    refine lift_sat (fun fields hfields => ?_) (fun _ _ => trivial)
    apply Sat.bind
    unfold updateValue Sat
    dsimp only
    cases hreplace : storage.replace s.rows id fields with
    | error msg => trivial
    | ok v =>
      dsimp only
      have hv := storage.replace_fresh _ _ _ _ hreplace
      have hvnot : v ∉ pending.map Prod.fst := by
        rcases hv with rfl | hv
        · exact hids.1
        · exact fun hmem => hv (hsub.2 hmem)
      apply Sat.bind
      refine (moveEntries_rows row fields id v indexes _).mono ?_ (fun _ _ _ => trivial)
      intro _ t ht
      have hnodup := nodup_replace fields hs hv
      have hids' : pending.map Prod.fst ⊆ t.rows.map Prod.fst := by
        intro x hx
        obtain ⟨p, hp, rfl⟩ := mem_map.mp (hsub.2 hx)
        rw [ht]
        refine mem_map.mpr ⟨p, mem_map.mpr ⟨p, hp, if_neg ?_⟩, rfl⟩
        rintro hpid
        exact hids.1 (hpid ▸ hx)
      refine (ih hids.2 (by rw [ht]; exact hnodup) hids').mono ?_ (fun _ _ h => h)
      rintro _ t' ⟨ht'nodup, new, ht', hnew⟩
      refine ⟨ht'nodup, fun x => if x = id then (v, fields) else new x, ?_, ?_⟩
      · rw [ht', ht, map_map]
        refine map_congr_left (fun p _ => ?_)
        simp only [Function.comp, map_cons, mem_cons]
        by_cases hp : p.1 = id
        · simp only [hp, if_true, true_or, if_neg hvnot]
        · simp only [hp, if_false, false_or]
      · intro p hp
        rcases mem_cons.mp hp with rfl | hp
        · simp only [if_true]
          exact hfields
        · have hne : p.1 ≠ id := by
            intro heq
            have hmem := mem_map_of_mem (f := Prod.fst) hp
            rw [heq] at hmem
            exact hids.1 hmem
          simp only [hne, if_false]
          exact hnew p hp

theorem removeEntries_rows (row : Row) (id : ValueId) (indexes : List IndexInfo) (s : TableState) :
    Sat (removeEntries row id indexes) s (fun _ t => t.rows = s.rows) (fun _ _ => True) := by
  refine Sat.forM (I := fun t : TableState => t.rows = s.rows) indexes rfl ?_
  intro index _ t ht
  apply Sat.bind
  refine lift_sat (fun key _ => ?_) (fun _ _ => trivial)
  exact (deleteEntry_rows _ _ _ t).mono (fun _ _ h => h.trans ht) (fun _ _ _ => trivial)

/-- The rows that are to be deleted are removed. -/
theorem deleteRows_rows (pending : List (ValueId × Row)) (s : TableState) :
    Sat (deleteRows indexes pending) s
      (fun _ t => t.rows = s.rows.filter (fun p => p.1 ∉ pending.map Prod.fst)) (fun _ _ => True) := by
  induction pending generalizing s with
  | nil =>
    refine Sat.pure ?_
    simp
  | cons p pending ih =>
    obtain ⟨id, row⟩ := p
    unfold deleteRows
    apply Sat.bind
    refine (removeEntries_rows row id indexes s).mono ?_ (fun _ _ h => h)
    intro _ t ht
    apply Sat.bind
    apply Sat.modify
    refine (ih _).mono ?_ (fun _ _ h => h)
    intro _ t' ht'
    rw [ht', ht, filter_filter]
    refine filter_congr (fun p _ => ?_)
    rw [map_cons, ← Bool.decide_and, decide_eq_decide, mem_cons, not_or, and_comm]

/-! ### The child of a statement -/

/-- The ids of the columns of a table. -/
def tableColumns (cid : ContainerId) (n : ℕ) : List ColumnId := (List.range n).map (getTempColId cid)

/-- Where the planner finds the columns in the tuples of a scan of the whole table. -/
def columnPositions (cid : ContainerId) (n : ℕ) : ColumnMap := (tableColumns cid n).zipIdx

/-- The place of a column in the rows of its table. -/
def columnOf (cid : ContainerId) (n id : ℕ) : Option ℕ :=
  if cid.toNat * maxColumns ≤ id ∧ id < cid.toNat * maxColumns + n then
    some (id - cid.toNat * maxColumns)
  else none

/-- The scan of the whole table that the planner builds. -/
def tableScan (cid : ContainerId) (n : ℕ) : OperatorTree :=
  .seqScan cid none
    (some ((tableColumns cid n).map (fun id => .colidx (getColumnIndexFromTempColId id))))

/-- One filter for each predicate. -/
def filters (codes : List ByteCodeExpr) (child : OperatorTree) : OperatorTree :=
  codes.foldl (fun child code => .filter code child) child

section Plan

variable {P : Type}

/-- The conjunct compares a column with a value. -/
def IsEquality (id : ColumnId) (val : Field) (e : Expression P) : Prop :=
  e = .binary .eq (.colRef id) (.field val) ∨ e = .binary .eq (.field val) (.colRef id)

/-- An index answers for some of the conjuncts and `residual` are the others: each column of the index
is compared with its part of the key. -/
structure UsesIndex (cid : ContainerId) (conjuncts residual : List (Expression P)) (info : IndexInfo)
    (key : IndexKey) : Prop where
  length : key.length = info.columns.length
  found : ∀ p ∈ info.columns.zip key, ∃ e ∈ conjuncts, IsEquality (getTempColId cid p.1) p.2 e
  covered : ∀ e ∈ conjuncts, e ∈ residual ∨
    ∃ p ∈ info.columns.zip key, IsEquality (getTempColId cid p.1) p.2 e
  residual : ∀ e ∈ residual, e ∈ conjuncts

/-- The children that are built for a `WHERE` clause on a table with `n` columns. -/
inductive WherePlan (replacePlan : P → P) (s : TableState) (n : ℕ) (conjuncts : List (Expression P)) :
    OperatorTree → Prop
  | scan {codes : List ByteCodeExpr}
      (hcodes : conjuncts.mapM (fun e => e.convertExprToBytecode replacePlan
        (some (columnPositions s.tableId n))) = .ok codes) :
      WherePlan replacePlan s n conjuncts (filters codes (tableScan s.tableId n))
  | index {info : IndexInfo} {key : IndexKey} {residual : List (Expression P)}
      {codes : List ByteCodeExpr} (hinfo : info ∈ s.indexes)
      (huses : UsesIndex s.tableId conjuncts residual info key)
      (hcodes : residual.mapM (fun e => e.convertExprToBytecode replacePlan
        (some (columnPositions s.tableId n))) = .ok codes) :
      WherePlan replacePlan s n conjuncts (filters codes (.indexScan info.indexId key))

/-- The value is true. -/
def isTrue : Except ExecError Field → Bool
  | .ok (.bool true) => true
  | _ => false

/-- The row satisfies all conjuncts. -/
def selects (floats : Floats) (cid : ContainerId) (n : ℕ) (conjuncts : List (Expression P))
    (row : Row) : Bool :=
  conjuncts.all (fun e => isTrue (e.value floats (columnOf cid n) row))

end Plan

/-! ### Conditions on rows -/

theorem forall₂_of_mapM {ε α β : Type} {f : α → Except ε β} {l : List α} {l' : List β}
    (h : l.mapM f = .ok l') : List.Forall₂ (fun a b => f a = .ok b) l l' := by
  induction l generalizing l' with
  | nil =>
    cases h
    exact List.Forall₂.nil
  | cons a l ih =>
    rw [mapM_cons] at h
    obtain ⟨b, ha, h⟩ := bind_eq_ok.mp h
    obtain ⟨bs, hl, h⟩ := bind_eq_ok.mp h
    obtain rfl : b :: bs = l' := Except.ok.inj h
    exact List.Forall₂.cons ha (ih hl)

theorem lookup_columnPositions (cid : ContainerId) (n id : ℕ) :
    (columnPositions cid n).lookup id = columnOf cid n id := by
  induction n with
  | zero =>
    unfold columnOf
    rw [if_neg (by omega)]
    rfl
  | succ n ih =>
    have hsucc : columnPositions cid (n + 1) = columnPositions cid n ++ [(getTempColId cid n, n)] := by
      unfold columnPositions tableColumns
      rw [range_succ, map_append, zipIdx_append, length_map, length_range]
      simp
    rw [hsucc, lookup_append, ih]
    unfold columnOf getTempColId
    by_cases hid : id = cid.toNat * maxColumns + n
    · subst hid
      rw [if_neg (by omega), if_pos (by omega)]
      simp
    · have hne : (id == cid.toNat * maxColumns + n) = false := beq_false_of_ne hid
      simp only [lookup_cons, hne, lookup_nil, Option.or_none]
      by_cases hin : cid.toNat * maxColumns ≤ id ∧ id < cid.toNat * maxColumns + n
      · rw [if_pos hin, if_pos (by omega)]
      · rw [if_neg hin, if_neg (by omega)]

variable {n i : ℕ}

theorem columnOf_lt {cid : ContainerId} {id : ℕ} (h : columnOf cid n id = some i) : i < n := by
  unfold columnOf at h
  split_ifs at h with hid
  cases h
  omega

theorem columnOf_getTempColId {cid : ContainerId} (h : i < n) :
    columnOf cid n (getTempColId cid i) = some i := by
  unfold columnOf getTempColId
  rw [if_pos (by omega)]
  simp

namespace Expression

variable {P : Type}

/-- A condition on the columns of a table reads nothing else of a row. -/
theorem value_of_take {cid : ContainerId} {n : ℕ} {row row' : Row} (floats : Floats)
    (h : row'.take n = row.take n) :
    (e : Expression P) →
      e.value floats (columnOf cid n) row' = e.value floats (columnOf cid n) row
  | colRef id => by
    rw [value, value]
    cases hid : columnOf cid n id with
    | none => rfl
    | some i =>
      simp only [ByteCodeExpr.fetch, getElem?_of_take h (columnOf_lt hid)]
  | field _ => rfl
  | binary op left right => by
    rw [value, value, value_of_take floats h left, value_of_take floats h right]
  | case .. => rfl
  | subquery _ => rfl

/-- What compiles is simple. -/
theorem simple_of_convertInner {replacePlan : P → P} {colIdToIdx : ColumnMap} :
    (e : Expression P) → {code code' : ByteCodeExpr} →
      (e.replaceVariables replacePlan colIdToIdx).convertInner code = .ok code' → e.Simple
  | colRef _, _, _, _ => trivial
  | field _, _, _, _ => trivial
  | binary op left right, code, code', h => by
    rw [replaceVariables, convertInner] at h
    obtain ⟨code₁, hl, h⟩ := bind_eq_ok.mp h
    obtain ⟨code₂, hr, -⟩ := bind_eq_ok.mp h
    exact ⟨simple_of_convertInner left hl, simple_of_convertInner right hr⟩
  | case .., _, _, h => by
    rw [replaceVariables, convertInner] at h
    · cases h
    all_goals simp
  | subquery _, _, _, h => by
    rw [replaceVariables, convertInner] at h
    · cases h
    all_goals simp

/-- The code of a condition computes it. -/
theorem eval_of_convert {replacePlan : P → P} {cid : ContainerId} {n : ℕ} {e : Expression P}
    {code : ByteCodeExpr} (floats : Floats) (hin : ∀ id ∈ e.columns, (columnOf cid n id).isSome)
    (h : e.convertExprToBytecode replacePlan (some (columnPositions cid n)) = .ok code)
    (t : Tuple) : code.eval floats t = e.value floats (columnOf cid n) t.fieldVals := by
  have hpositions : (fun id => (columnPositions cid n).lookup id) = columnOf cid n :=
    funext (lookup_columnPositions cid n)
  obtain ⟨code', hcode', heval, -⟩ := eval_convertExprToBytecode replacePlan floats
    (columnPositions cid n) e (simple_of_convertInner e h)
    (fun id hid => by rw [lookup_columnPositions]; exact hin id hid) t
  obtain rfl : code = code' := Except.ok.inj (h.symm.trans hcode')
  rw [heval, hpositions]

end Expression

/-! ### What the child returns -/

section Child

variable {m : Managers}

theorem opening_filters (codes : List ByteCodeExpr) (child : OperatorTree) :
    (filters codes child).opening m = child.opening m >>= fun t =>
      .ok (codes.foldl (fun t code => t.filterMap (Filter.emit m code)) t) := by
  induction codes generalizing child with
  | nil =>
    show child.opening m = _
    cases child.opening m <;> rfl
  | cons code codes ih =>
    show (filters codes (.filter code child)).opening m = _
    rw [ih, OperatorTree.opening]
    cases child.opening m <;> rfl

theorem emit_join (code : ByteCodeExpr) (t : Tuple) :
    (Filter.emit m code t).toOption.join =
      if isTrue (code.eval m.floats t) then some t else none := by
  unfold Filter.emit
  cases code.eval m.floats t with
  | error e => rfl
  | ok f =>
    cases f with
    | bool b => cases b <;> rfl
    | _ => rfl

/-- The filters keep the tuples for which all predicates are true. -/
theorem items_filters {codes : List ByteCodeExpr} {t : Pull.Trace ExecError Tuple} {out : List Tuple}
    (h : (codes.foldl (fun t code => t.filterMap (Filter.emit m code)) t).items = .ok out) :
    ∃ l, t.items = .ok l ∧
      out = l.filter (fun t => codes.all (fun code => isTrue (code.eval m.floats t))) := by
  induction codes generalizing t with
  | nil =>
    refine ⟨out, h, ?_⟩
    simp
  | cons code codes ih =>
    obtain ⟨l', hl', rfl⟩ := ih h
    obtain ⟨l, hl, -, rfl⟩ := items_filterMap hl'
    refine ⟨l, hl, ?_⟩
    have hkeep : l.filterMap (fun a => (Filter.emit m code a).toOption.join) =
        l.filter (fun t => isTrue (code.eval m.floats t)) := by
      rw [← filterMap_eq_filter]
      refine filterMap_congr (fun a _ => ?_)
      rw [emit_join]
      simp only [Option.guard]
    rw [hkeep, filter_filter]
    refine filter_congr (fun t _ => ?_)
    rw [all_cons, Bool.and_comm]

/-- The first columns of a tuple. -/
theorem evalAll_range {floats : Floats} {n : ℕ} {t : Tuple} {vals : List Field}
    (h : ByteCodeExpr.evalAll floats ((List.range n).map .colidx) t = .ok vals) :
    vals = t.fieldVals.take n := by
  obtain ⟨hlen, hget⟩ := forall₂_iff_get.mp (forall₂_of_mapM h)
  rw [length_map, length_range] at hlen
  have hfetch : ∀ i (hi : i < n), t.fieldVals[i]? = some (vals.get ⟨i, hlen ▸ hi⟩) := by
    intro i hi
    have hi' := hget i (by rw [length_map, length_range]; exact hi) (hlen ▸ hi)
    simp only [get_eq_getElem, getElem_map, getElem_range,
      ByteCodeExpr.eval_colidx, ByteCodeExpr.fetch] at hi'
    cases hval : t.fieldVals[i]? with
    | none =>
      rw [hval] at hi'
      cases hi'
    | some f =>
      rw [hval] at hi'
      rw [Except.ok.inj hi']
      rfl
  refine ext_getElem? (fun i => ?_)
  by_cases hi : i < n
  · rw [getElem?_take_of_lt hi, hfetch i hi]
    exact getElem?_eq_getElem (hlen ▸ hi)
  · rw [getElem?_eq_none (by omega), getElem?_eq_none]
    rw [length_take]
    omega

variable {s : TableState} {floats : Floats}

/-- A scan of the whole table returns its rows, each with as many columns as the table has. -/
theorem items_tableScan {n : ℕ} (hn : n ≤ maxColumns) {l : List Tuple}
    (h : (tableScan s.tableId n).output (s.managers floats) = .ok l) :
    l = s.rows.map (fun p => scanned (p.1, p.2.take n)) := by
  have hcolumns : (tableColumns s.tableId n).map
      (fun id => ByteCodeExpr.colidx (getColumnIndexFromTempColId id)) =
      (List.range n).map .colidx := by
    unfold tableColumns
    rw [map_map]
    refine map_congr_left (fun i hi => ?_)
    have hi := mem_range.mp hi
    simp only [Function.comp, getColumnIndexFromTempColId, getTempColId]
    rw [Nat.mul_add_mod_self_right, Nat.mod_eq_of_lt (by omega)]
  have h : ((Pull.Trace.ofList ((s.managers floats).getIterator s.tableId)).filterMap
      (SeqScan.emit (s.managers floats) none (some ((tableColumns s.tableId n).map
        (fun id => ByteCodeExpr.colidx (getColumnIndexFromTempColId id)))))).items = .ok l := h
  rw [hcolumns] at h
  obtain ⟨records, hrecords, hall, rfl⟩ := items_filterMap h
  rw [items_ofList] at hrecords
  cases hrecords
  have hrows : (s.managers floats).getIterator s.tableId =
      s.rows.map (fun p => (p.1, Tuple.new p.2)) := if_pos rfl
  rw [hrows] at hall ⊢
  rw [filterMap_map]
  refine (filterMap_congr (g := some ∘ fun p => scanned (p.1, p.2.take n)) ?_).trans
    (by rw [filterMap_eq_map])
  intro p hp
  obtain ⟨b, hb⟩ := hall _ (mem_map_of_mem hp)
  simp only [Function.comp, hb]
  unfold SeqScan.emit SeqScan.projected at hb
  simp only at hb
  cases hvals : ByteCodeExpr.evalAll floats ((List.range n).map .colidx)
      { Tuple.new p.2 with valueId := some p.1 } with
  | error e =>
    rw [show (s.managers floats).floats = floats from rfl, hvals] at hb
    cases hb
  | ok vals =>
    rw [show (s.managers floats).floats = floats from rfl, hvals] at hb
    rw [← Except.ok.inj hb, evalAll_range hvals]
    rfl

/-- The records under a key of an index. -/
theorem items_indexScan (hs : (s.rows.map Prod.fst).Nodup) {info : IndexInfo} {key : IndexKey}
    (hentries : HasEntries s info (entries s.rows info.columns)) {l : List Tuple}
    (h : (OperatorTree.indexScan info.indexId key).output (s.managers floats) = .ok l) :
    ∃ pending : List (ValueId × Row), l = pending.map scanned ∧
      pending.Perm (s.rows.filter (fun p => keyOf p.2 info.columns = key)) := by
  obtain ⟨tree, htree, hperm⟩ := hentries
  have hsearch : (s.managers floats).search info.indexId key =
      .ok ((tree.filter (fun e => e.1 = key)).map Prod.snd) := by
    show (match s.trees info.indexId with
      | none => _
      | some tree => _) = _
    rw [htree]
  have hopening : (OperatorTree.indexScan info.indexId key).opening (s.managers floats) =
      .ok ((Pull.Trace.ofList ((tree.filter (fun e => e.1 = key)).map Prod.snd)).filterMap
        (IndexScan.emit (s.managers floats))) := by
    rw [OperatorTree.opening, hsearch]
    rfl
  rw [OperatorTree.output, hopening] at h
  obtain ⟨ids, hids, -, rfl⟩ := items_filterMap h
  rw [items_ofList] at hids
  cases hids
  have hfind : ∀ p ∈ s.rows, s.rows.find? (fun q => q.1 = p.1) = some p := by
    rintro ⟨id, row⟩ hp
    obtain ⟨l, m, hrows, hl, -⟩ := rows_split hs hp
    have hnone : l.find? (fun q => q.1 = id) = none :=
      find?_eq_none.mpr (fun q hq => by simpa using hl q hq)
    rw [hrows, find?_append, hnone]
    simp
  refine ⟨((tree.filter (fun e => e.1 = key)).map Prod.snd).filterMap
    (fun id => s.rows.find? (fun p => p.1 = id)), ?_, ?_⟩
  · rw [map_filterMap]
    refine filterMap_congr (fun id _ => ?_)
    unfold IndexScan.emit TableState.managers
    simp only
    cases hrow : s.rows.find? (fun p => p.1 = id) with
    | none => rfl
    | some p =>
      have hid : p.1 = id := by simpa using find?_some hrow
      rw [← hid]
      rfl
  · have hids : ((tree.filter (fun e => e.1 = key)).map Prod.snd).Perm
        ((s.rows.filter (fun p => keyOf p.2 info.columns = key)).map Prod.fst) := by
      refine ((hperm.filter _).map _).trans ?_
      unfold entries
      rw [filter_map, map_map]
      exact List.Perm.refl _
    refine (hids.filterMap _).trans ?_
    rw [filterMap_map]
    have hself : (s.rows.filter (fun p => keyOf p.2 info.columns = key)).filterMap
        ((fun id => s.rows.find? (fun p => p.1 = id)) ∘ Prod.fst) =
        s.rows.filter (fun p => keyOf p.2 info.columns = key) := by
      refine (filterMap_congr (g := some) ?_).trans filterMap_some
      exact fun p hp => hfind p (mem_of_mem_filter hp)
    rw [hself]

end Child

/-! ### The rows that are selected -/

section Selected

variable {P : Type} {replacePlan : P → P} {s : TableState} {n : ℕ} {floats : Floats}
  {conjuncts : List (Expression P)}

/-- The compiled predicates test what the conjuncts say. -/
theorem codes_all {codes : List ByteCodeExpr}
    (hin : ∀ e ∈ conjuncts, ∀ id ∈ e.columns, (columnOf s.tableId n id).isSome)
    (hcodes : conjuncts.mapM (fun e => e.convertExprToBytecode replacePlan
      (some (columnPositions s.tableId n))) = .ok codes) (t : Tuple) :
    codes.all (fun code => isTrue (code.eval floats t)) =
      selects floats s.tableId n conjuncts t.fieldVals := by
  have hpairs := forall₂_of_mapM hcodes
  clear hcodes
  unfold selects
  induction hpairs with
  | nil => rfl
  | @cons e code conjuncts codes he _ ih =>
    rw [all_cons, all_cons, ih (fun e he => hin e (mem_cons_of_mem _ he)),
      Expression.eval_of_convert floats (hin _ mem_cons_self) he]

variable {row : Row}

theorem selects_of_take {cid : ContainerId} {row' : Row} (h : row'.take n = row.take n) :
    selects floats cid n conjuncts row' = selects floats cid n conjuncts row := by
  unfold selects
  simp only [Expression.value_of_take floats h]

/-- A comparison of a column with a value. -/
theorem isTrue_equality {cid : ContainerId} {c : ℕ} {val : Field} {e : Expression P}
    (he : IsEquality (getTempColId cid c) val e)
    (hin : ∀ id ∈ e.columns, (columnOf cid n id).isSome) (row : Row) :
    isTrue (e.value floats (columnOf cid n) row) = true ↔ row[c]? = some val := by
  have hid : getTempColId cid c ∈ e.columns := by
    rcases he with rfl | rfl <;> simp [Expression.columns]
  have hc : columnOf cid n (getTempColId cid c) = some c := by
    obtain ⟨i, hi⟩ := Option.isSome_iff_exists.mp (hin _ hid)
    unfold columnOf getTempColId at hi
    split_ifs at hi with hlt
    exact columnOf_getTempColId (by omega)
  rcases he with rfl | rfl
  · simp only [Expression.value, hc, ByteCodeExpr.fetch]
    cases row[c]? with
    | none => simp [isTrue, bind, Except.bind]
    | some f =>
      simp only [bind, Except.bind, BinaryOp.run, isTrue, Option.some.injEq]
      by_cases hf : f = val <;> simp [hf]
  · simp only [Expression.value, hc, ByteCodeExpr.fetch]
    cases row[c]? with
    | none => simp [isTrue, bind, Except.bind]
    | some f =>
      simp only [bind, Except.bind, BinaryOp.run, isTrue, Option.some.injEq]
      by_cases hf : val = f <;> simp [hf, eq_comm]

theorem keyOf_eq_iff {columns : List ℕ} {key found : IndexKey}
    (hrow : extractKey row columns = .ok found) (hlen : key.length = columns.length) :
    keyOf row columns = key ↔ ∀ p ∈ columns.zip key, row[p.1]? = some p.2 := by
  induction columns generalizing key found with
  | nil =>
    obtain rfl := eq_nil_of_length_eq_zero hlen
    simp [keyOf]
  | cons c columns ih =>
    cases key with
    | nil => simp at hlen
    | cons v key =>
      obtain ⟨f, rest, hc, hrest, -⟩ := extractKey_cons hrow
      have hiff := ih hrest (by simpa using hlen)
      rw [zip_cons_cons, forall_mem_cons, ← hiff]
      simp only [keyOf, map_cons, hc, Option.getD_some, List.cons.injEq, Option.some.injEq]

/-- An index finds the rows for which its conjuncts are true. -/
theorem selects_iff {info : IndexInfo} {key found : IndexKey} {residual : List (Expression P)}
    (huses : UsesIndex s.tableId conjuncts residual info key)
    (hin : ∀ e ∈ conjuncts, ∀ id ∈ e.columns, (columnOf s.tableId n id).isSome)
    (hrow : extractKey row info.columns = .ok found) :
    selects floats s.tableId n conjuncts row = true ↔
      keyOf row info.columns = key ∧ selects floats s.tableId n residual row = true := by
  unfold selects
  rw [keyOf_eq_iff hrow huses.length, all_eq_true, all_eq_true]
  constructor
  · intro hall
    refine ⟨fun p hp => ?_, fun e he => hall e (huses.residual e he)⟩
    obtain ⟨e, he, heq⟩ := huses.found p hp
    exact (isTrue_equality heq (hin e he) row).mp (hall e he)
  · rintro ⟨hkey, hres⟩ e he
    rcases huses.covered e he with hmem | ⟨p, hp, heq⟩
    · exact hres e hmem
    · exact (isTrue_equality heq (hin e he) row).mpr (hkey p hp)

/-- The child of a statement returns the rows that its `WHERE` clause selects. -/
theorem WherePlan.pending {tree : OperatorTree} (hplan : WherePlan replacePlan s n conjuncts tree)
    (hs : Indexed n s) (hn : n ≤ maxColumns)
    (hin : ∀ e ∈ conjuncts, ∀ id ∈ e.columns, (columnOf s.tableId n id).isSome) {out : List Tuple}
    (h : tree.output (s.managers floats) = .ok out) :
    ∃ pending : List (ValueId × Row), out = pending.map scanned ∧
      (pending.map Prod.fst).Perm
        ((s.rows.filter (fun p => selects floats s.tableId n conjuncts p.2)).map Prod.fst) ∧
      ∀ p ∈ pending, ∃ row, (p.1, row) ∈ s.rows ∧ (p.2 = row ∨ p.2 = row.take n) := by
  have hfilters : ∀ {codes : List ByteCodeExpr} {leaf : OperatorTree},
      (filters codes leaf).output (s.managers floats) = .ok out →
      ∃ l, leaf.output (s.managers floats) = .ok l ∧
        out = l.filter (fun t => codes.all (fun code => isTrue (code.eval floats t))) := by
    intro codes leaf h
    rw [OperatorTree.output, opening_filters] at h
    obtain ⟨rows, hrows, h⟩ := bind_eq_ok.mp h
    obtain ⟨t, hleaf, hrows⟩ := bind_eq_ok.mp hrows
    cases hrows
    rw [OperatorTree.output, hleaf]
    exact items_filters h
  cases hplan with
  | @scan codes hcodes =>
    obtain ⟨l, hl, rfl⟩ := hfilters h
    obtain rfl := items_tableScan hn hl
    refine ⟨(s.rows.filter (fun p => selects floats s.tableId n conjuncts p.2)).map
      (fun p => (p.1, p.2.take n)), ?_, ?_, ?_⟩
    · rw [map_map, filter_map]
      refine congrArg _ (filter_congr (fun p _ => ?_))
      simp only [Function.comp, codes_all hin hcodes]
      exact selects_of_take (by simp [scanned, Tuple.new])
    · rw [map_map]
      exact List.Perm.refl _
    · intro p hp
      obtain ⟨q, hq, rfl⟩ := mem_map.mp hp
      exact ⟨q.2, mem_of_mem_filter hq, .inr rfl⟩
  | @index info key residual codes hinfo huses hcodes =>
    obtain ⟨l, hl, rfl⟩ := hfilters h
    obtain ⟨found, rfl, hperm⟩ := items_indexScan hs.rowIds (hs.exact info hinfo) hl
    have hin' : ∀ e ∈ residual, ∀ id ∈ e.columns, (columnOf s.tableId n id).isSome :=
      fun e he => hin e (huses.residual e he)
    have hrows : (found.filter (fun p => selects floats s.tableId n residual p.2)).Perm
        (s.rows.filter (fun p => selects floats s.tableId n conjuncts p.2)) := by
      refine (hperm.filter _).trans ?_
      rw [filter_filter]
      refine List.Perm.of_eq (filter_congr (fun p hp => ?_))
      obtain ⟨key', hkey'⟩ := hs.keyed info hinfo p hp
      rw [Bool.eq_iff_iff, Bool.and_eq_true, decide_eq_true_iff, selects_iff huses hin hkey',
        and_comm]
    refine ⟨found.filter (fun p => selects floats s.tableId n residual p.2), ?_, hrows.map _, ?_⟩
    · rw [filter_map]
      refine congrArg _ (filter_congr (fun p _ => ?_))
      simp only [Function.comp, codes_all hin' hcodes]
      rfl
    · intro p hp
      exact ⟨p.2, mem_of_mem_filter (hrows.mem_iff.mp hp), .inl rfl⟩

end Selected

/-! ### What a statement does to its table -/

/-- The assignments turn the first `n` columns of `old` into those of `new`. -/
def Rewritten (n : ℕ) (columns : List (ℕ × Field)) (old new : Row) : Prop :=
  setFields columns (old.take n) = .ok (new.take n)

/-- A statement has changed the table `s` into `t`, and the rows to change were those that
`selected` holds for. -/
def RowStatement.Done (schema : TableSchema) (selected : Row → Bool) (s t : TableState) :
    RowStatement → Prop
  | update assignments => ∃ columns, assignmentColumns schema assignments = .ok columns ∧
      (t.rows.map Prod.fst).Nodup ∧ ∃ new : ValueId → ValueId × Row,
        t.rows = s.rows.map (fun p => if selected p.2 then new p.1 else p) ∧
        ∀ p ∈ s.rows, selected p.2 →
          Rewritten schema.attributes.length columns p.2 (new p.1).2
  | delete => t.rows = s.rows.filter (fun p => !selected p.2)

theorem setFields_take (hcolumns : ∀ p ∈ columns, p.1 < n) {row row' : Row}
    (h : setFields columns row = .ok row') : Rewritten n columns row row' := by
  unfold Rewritten
  induction columns generalizing row with
  | nil =>
    cases h
    rfl
  | cons p columns ih =>
    obtain ⟨i, f⟩ := p
    have hi : i < n := hcolumns _ mem_cons_self
    rw [setFields] at h ⊢
    split_ifs at h with hrow
    rw [if_pos (by rw [length_take]; omega), ← take_set]
    exact ih (fun p hp => hcolumns p (mem_cons_of_mem _ hp)) h

/-- The columns that are assigned are columns of the table. -/
theorem assignmentColumns_lt {schema : TableSchema} {assignments : List (String × Field)}
    (h : assignmentColumns schema assignments = .ok columns) :
    ∀ p ∈ columns, p.1 < schema.attributes.length := by
  induction assignments generalizing columns with
  | nil =>
    cases h
    exact fun p hp => nomatch hp
  | cons a assignments ih =>
    obtain ⟨name, f⟩ := a
    obtain ⟨i, rest, hi, hrest, rfl⟩ := assignmentColumns_cons h
    intro p hp
    rcases mem_cons.mp hp with rfl | hp
    · exact (findIdx?_eq_some_iff_findIdx_eq.mp hi).1
    · exact ih hrest p hp

section Statement

variable {P : Type} {replacePlan : P → P} {s : TableState} {floats : Floats}
  {conjuncts : List (Expression P)} {schema : TableSchema} {tree : OperatorTree}
  {statement : RowStatement} {count : ℕ} {w : Writer tree.State}

/-- A statement that returns. -/
theorem RowStatement.exec_ends {write : Tuple → Stmt Tuple} {out res : List Tuple} {s' : TableState}
    (hwrite : statement.write storage schema s.indexes = .ok write)
    (hout : tree.output (s.managers floats) = .ok out)
    (hall : writeAll write out s = .ok res s') :
    ∃ w, w.table = s' ∧ Ends (statement.exec storage floats schema tree) (Writer.new tree s)
      (.ok res.length w) := by
  have hlift : (statement.write storage schema (Writer.new tree s).table.indexes).mapError
      StatementError.inOperator = .ok write := by
    show (statement.write storage schema s.indexes).mapError _ = _
    rw [hwrite]
    rfl
  obtain ⟨w, hw, hend⟩ := execute_ends.1 out res s' hout hall
  exact ⟨w, hw, Ends.get (Ends.lift hlift (Ends.bind hend Ends.pure))⟩

/-- The statement on rows that have been collected. -/
def RowStatement.run (storage : Storage) (schema : TableSchema) (indexes : List IndexInfo)
    (pending : List (ValueId × Row)) : RowStatement → Stmt Unit
  | update assignments => do
    let columns ← lift (assignmentColumns schema assignments)
    updateRows storage columns indexes pending
  | delete => deleteRows indexes pending

/-- The parts of a statement that returned. -/
theorem RowStatement.exec_parts
    (h : Ends (statement.exec storage floats schema tree) (Writer.new tree s) (.ok count w)) :
    ∃ write out res, statement.write storage schema s.indexes = .ok write ∧
      tree.output (s.managers floats) = .ok out ∧
      writeAll write out s = .ok res w.table ∧ count = res.length := by
  cases hwrite : statement.write storage schema s.indexes with
  | error e =>
    have hfail : Ends (statement.exec storage floats schema tree) (Writer.new tree s)
        (.error e.inOperator (Writer.new tree s)) := by
      refine Ends.get (Ends.bind_error (Ends.of_eq (fun n => ?_)))
      show attempt ((statement.write storage schema s.indexes).mapError _) _ = _
      rw [hwrite]
      rfl
    cases h.unique hfail
  | ok write =>
    by_cases hrun : ∃ out res s', tree.output (s.managers floats) = .ok out ∧
        writeAll write out s = .ok res s'
    · obtain ⟨out, res, s', hout, hall⟩ := hrun
      obtain ⟨w', rfl, hend⟩ := RowStatement.exec_ends hwrite hout hall
      cases h.unique hend
      exact ⟨write, out, res, rfl, hout, hall, rfl⟩
    · have hlift : (statement.write storage schema (Writer.new tree s).table.indexes).mapError
          StatementError.inOperator = .ok write := by
        show (statement.write storage schema s.indexes).mapError _ = _
        rw [hwrite]
        rfl
      obtain ⟨e, w', hw'⟩ := execute_ends.2
        (fun out res s' hout hall => hrun ⟨out, res, s', hout, hall⟩)
      have hend : Ends (statement.exec storage floats schema tree) (Writer.new tree s)
          (.error e w') := Ends.get (Ends.lift hlift (Ends.bind_error hw'))
      cases h.unique hend

/-- What a statement that returns has written: rows with the ids of those that its `WHERE` clause
selects, each as it is stored or cut to the columns of the schema. -/
theorem RowStatement.of_exec (hs : Indexed schema.attributes.length s)
    (hwidth : schema.attributes.length ≤ maxColumns)
    (hin : ∀ e ∈ conjuncts, ∀ id ∈ e.columns,
      (columnOf s.tableId schema.attributes.length id).isSome)
    (hplan : WherePlan replacePlan s schema.attributes.length conjuncts tree)
    (h : Ends (statement.exec storage floats schema tree) (Writer.new tree s) (.ok count w)) :
    ∃ pending : List (ValueId × Row), count = pending.length ∧
      (pending.map Prod.fst).Perm ((s.rows.filter (fun p =>
        selects floats s.tableId schema.attributes.length conjuncts p.2)).map Prod.fst) ∧
      (∀ p ∈ pending, ∃ row, (p.1, row) ∈ s.rows ∧
        (p.2 = row ∨ p.2 = row.take schema.attributes.length)) ∧
      statement.run storage schema s.indexes pending s = .ok () w.table := by
  obtain ⟨write, out, res, hwrite, hout, hall, rfl⟩ := RowStatement.exec_parts h
  obtain ⟨pending, rfl, hperm, hfrom⟩ := hplan.pending hs hwidth hin hout
  cases statement with
  | delete =>
    obtain rfl : Delete.write s.indexes = write := Except.ok.inj hwrite
    obtain ⟨hrows, hlen⟩ := writeAll_delete hall
    exact ⟨pending, hlen, hperm, hfrom, hrows⟩
  | update assignments =>
    obtain ⟨columns, hcolumns, rfl⟩ := map_eq_ok.mp hwrite
    obtain ⟨hrows, hlen⟩ := writeAll_update hall
    refine ⟨pending, hlen, hperm, hfrom, ?_⟩
    have hlift : lift (assignmentColumns schema assignments) s = .ok columns s := by
      unfold lift
      rw [hcolumns]
    show (lift (assignmentColumns schema assignments) >>= _) s = _
    rw [bind_of_ok hlift, hrows]

/-- Rows with different ids: the id of a row tells whether it is selected. -/
theorem mem_selected_ids {selected : Row → Bool} (hs : (s.rows.map Prod.fst).Nodup)
    {p : ValueId × Row} (hp : p ∈ s.rows) :
    p.1 ∈ (s.rows.filter (fun p => selected p.2)).map Prod.fst ↔ selected p.2 = true := by
  constructor
  · intro h
    obtain ⟨q, hq, hqp⟩ := mem_map.mp h
    obtain ⟨hq, hsel⟩ := mem_filter.mp hq
    obtain rfl : q = p := inj_on_of_nodup_map hs hq hp hqp
    exact hsel
  · exact fun h => mem_map_of_mem (mem_filter.mpr ⟨hp, h⟩)

/-- Each row that is selected is removed or rewritten once, and the other rows are as before. -/
theorem RowStatement.run_done {selected : Row → Bool} {pending : List (ValueId × Row)}
    {t : TableState} (hs : (s.rows.map Prod.fst).Nodup)
    (hperm : (pending.map Prod.fst).Perm ((s.rows.filter (fun p => selected p.2)).map Prod.fst))
    (hfrom : ∀ p ∈ pending, Stands schema.attributes.length s p)
    (hrun : statement.run storage schema s.indexes pending s = .ok () t) :
    statement.Done schema selected s t := by
  have hmem : ∀ p ∈ s.rows, p.1 ∈ pending.map Prod.fst ↔ selected p.2 = true := fun p hp =>
    hperm.mem_iff.trans (mem_selected_ids hs hp)
  cases statement with
  | delete =>
    refine ((deleteRows_rows pending s).ok hrun).trans (List.filter_congr (fun p hp => ?_))
    rw [Bool.eq_iff_iff, decide_eq_true_iff, hmem p hp, Bool.not_eq_true, Bool.not_eq_true']
  | update assignments =>
    obtain ⟨columns, s₁, hlift, hrows⟩ := of_bind_ok hrun
    obtain ⟨hcolumns, rfl⟩ := of_lift_ok hlift
    have hids : (pending.map Prod.fst).Nodup :=
      hperm.nodup_iff.mpr (hs.sublist (List.filter_sublist.map _))
    have hsub : pending.map Prod.fst ⊆ s.rows.map Prod.fst := fun x hx =>
      (List.filter_sublist.map _).subset (hperm.subset hx)
    obtain ⟨hnodup, new, ht, hnew⟩ := (updateRows_rows pending hids hs hsub).ok hrows
    refine ⟨columns, hcolumns, hnodup, new, ?_, fun p hp hsel => ?_⟩
    · rw [ht]
      refine List.map_congr_left (fun p hp => ?_)
      simp only [hmem p hp]
    · obtain ⟨q, hq, hqp⟩ := List.mem_map.mp ((hmem p hp).mpr hsel)
      obtain ⟨row, hrow, htake⟩ := hfrom q hq
      obtain rfl : (q.1, row) = p := List.inj_on_of_nodup_map hs hrow hp hqp
      have hset := setFields_take (assignmentColumns_lt hcolumns) (hnew q hq)
      unfold Rewritten at hset ⊢
      rw [← htake]
      exact hset

/-- A statement on rows that have the columns of the stored rows keeps the indexes exact. -/
theorem RowStatement.run_indexed {n : ℕ} {pending : List (ValueId × Row)} {t : TableState}
    (hs : Indexed n s) (hids : (pending.map Prod.fst).Nodup) (hfrom : ∀ p ∈ pending, Stands n s p)
    (hrun : statement.run storage schema s.indexes pending s = .ok () t) : Indexed n t := by
  cases statement with
  | delete => exact (deleteRows_indexed pending hids hs rfl hfrom).ok hrun
  | update assignments =>
    obtain ⟨columns, s₁, hlift, hrows⟩ := of_bind_ok hrun
    obtain ⟨-, rfl⟩ := of_lift_ok hlift
    exact (updateRows_indexed pending hids hs rfl hfrom).ok hrows

end Statement

end CrustyDB
