import CrustyDB.Query.Plans

/-! # The compilation of expressions

`convertExprToBytecode` puts the positions of the columns into an expression and appends its code to a
program of the stack machine, with the literals in a table.  The code of an expression leaves the
value of the expression on the stack, whatever code follows it and whatever is on the stack below
(`exec_code`); so the whole program computes what the expression stands for, and every operation finds
its two operands (`eval_convertExprToBytecode`). -/

namespace CrustyDB

open List

/-- The bytecode of an operation. -/
def BinaryOp.opcode : BinaryOp → ℕ
  | .add => 2
  | .sub => 3
  | .mul => 4
  | .div => 5
  | .eq => 6
  | .neq => 7
  | .lt => 8
  | .gt => 9
  | .le => 10
  | .ge => 11
  | .and => 12
  | .or => 13

namespace Expression

variable {P : Type}

mutual

/-- Replace column ids; `replacePlan` replaces them in a subquery. -/
def replaceVariables (replacePlan : P → P) (srcToDest : ColumnMap) : Expression P → Expression P
  | colRef id => colRef (srcToDest.apply id)
  | field val => field val
  | binary op left right =>
    binary op (replaceVariables replacePlan srcToDest left)
      (replaceVariables replacePlan srcToDest right)
  | case expr whens elseExpr =>
    case (replaceVariables replacePlan srcToDest expr) (replaceWhens replacePlan srcToDest whens)
      (replaceVariables replacePlan srcToDest elseExpr)
  | subquery expr => subquery (replacePlan expr)

def replaceWhens (replacePlan : P → P) (srcToDest : ColumnMap) :
    List (Expression P × Expression P) → List (Expression P × Expression P)
  | [] => []
  | (when, result) :: whens =>
    (replaceVariables replacePlan srcToDest when, replaceVariables replacePlan srcToDest result) ::
      replaceWhens replacePlan srcToDest whens

end

/-- Append the code of an expression.  `Case` and `Subquery` are not supported. -/
def convertInner : Expression P → ByteCodeExpr → Except ExecError ByteCodeExpr
  | field val, code =>
    .ok ⟨code.bytecodes ++ [0, code.literals.length], code.literals ++ [val]⟩
  | binary op left right, code => do
    let code ← convertInner left code
    let code ← convertInner right code
    pure ⟨code.bytecodes ++ [op.opcode], code.literals⟩
  | colRef id, code => .ok ⟨code.bytecodes ++ [1, id], code.literals⟩
  | _, _ => .error (.crusty "Unsupported expression")

/-- The code of an expression, with the columns at the positions of the map. -/
def convertExprToBytecode (replacePlan : P → P) (colIdToIdx : Option ColumnMap) (expr : Expression P) :
    Except ExecError ByteCodeExpr :=
  match colIdToIdx with
  | some colIdToIdx => convertInner (expr.replaceVariables replacePlan colIdToIdx) ⟨[], []⟩
  | none => convertInner expr ⟨[], []⟩

/-- The expression has no `Case` and no `Subquery`. -/
def Simple : Expression P → Prop
  | colRef _ => True
  | field _ => True
  | binary _ left right => left.Simple ∧ right.Simple
  | _ => False

/-- The columns of a simple expression. -/
def columns : Expression P → List ColumnId
  | colRef id => [id]
  | binary _ left right => left.columns ++ right.columns
  | _ => []

end Expression

/-! ### What an expression stands for -/

/-- The value of an operation: an error of the arithmetic is unwrapped. -/
def BinaryOp.run (floats : Floats) (op : BinaryOp) (l r : Field) : Except ExecError Field :=
  let unwrap : Except ExecError Field → Except ExecError Field
    | .error (.crusty _) => .error (.panic .unwrap)
    | x => x
  match op with
  | .add => unwrap (l.add r)
  | .sub => unwrap (l.sub r)
  | .mul => unwrap (l.mul floats r)
  | .div => unwrap (l.div floats r)
  | .eq => .ok (.bool (l = r))
  | .neq => .ok (.bool (l ≠ r))
  | .lt => .ok (.bool (l < r))
  | .gt => .ok (.bool (l > r))
  | .le => .ok (.bool (l ≤ r))
  | .ge => .ok (.bool (l ≥ r))
  | .and => l.connect (fun a b => a && b) r
  | .or => l.connect (fun a b => a || b) r

/-- The dispatch table has every operation at the place of its bytecode. -/
theorem dispatch_opcode (floats : Floats) (op : BinaryOp) (l r : Field) :
    ByteCodeExpr.dispatch floats op.opcode l r = op.run floats l r := by
  cases op <;> rfl

/-- The value of an expression on the fields of a tuple, `position` telling the place of a column. -/
def Expression.value {P : Type} (floats : Floats) (position : ColumnId → Option ℕ) (record : List Field) :
    Expression P → Except ExecError Field
  | .colRef id =>
    match position id with
    | some i => ByteCodeExpr.fetch record i
    | none => .error (.panic .unwrap)
  | .field val => .ok val
  | .binary op left right => do
    let l ← left.value floats position record
    let r ← right.value floats position record
    op.run floats l r
  | _ => .error (.crusty "Unsupported expression")

namespace ByteCodeExpr

/-- The codes reach an operation that does not find two values on the stack. -/
def underflowsFrom (floats : Floats) (literals record : List Field) : List ℕ → List Field → Bool
  | [], _ => false
  | 0 :: i :: codes, stack =>
    match fetch literals i with
    | .ok f => underflowsFrom floats literals record codes (f :: stack)
    | .error _ => false
  | 1 :: i :: codes, stack =>
    match fetch record i with
    | .ok f => underflowsFrom floats literals record codes (f :: stack)
    | .error _ => false
  | opcode :: codes, stack =>
    if opcode < 2 ∨ 14 ≤ opcode then false
    else
      match stack with
      | r :: l :: stack =>
        match dispatch floats opcode l r with
        | .ok f => underflowsFrom floats literals record codes (f :: stack)
        | .error _ => false
      | _ => true

/-- An operation of the expression does not find two values on the stack. -/
def underflows (floats : Floats) (expr : ByteCodeExpr) (record : Tuple) : Bool :=
  underflowsFrom floats expr.literals record.fieldVals expr.bytecodes []

/-- The stack after the last bytecode. -/
def finalStack (floats : Floats) (expr : ByteCodeExpr) (record : Tuple) :
    Except ExecError (List Field) :=
  exec floats expr.literals record.fieldVals expr.bytecodes []

section Steps

variable (floats : Floats) (literals record : List Field) (codes : List ℕ) (stack : List Field)

/-- An operation takes two values from the stack. -/
theorem exec_op (op : BinaryOp) (l r : Field) :
    exec floats literals record (op.opcode :: codes) (r :: l :: stack) =
      (op.run floats l r >>= fun f => exec floats literals record codes (f :: stack)) := by
  rw [← dispatch_opcode]
  cases op <;> simp [exec, BinaryOp.opcode]

theorem underflowsFrom_op (op : BinaryOp) (l r : Field) :
    underflowsFrom floats literals record (op.opcode :: codes) (r :: l :: stack) =
      match op.run floats l r with
      | .ok f => underflowsFrom floats literals record codes (f :: stack)
      | .error _ => false := by
  rw [← dispatch_opcode]
  cases op <;> simp [underflowsFrom, BinaryOp.opcode]

end Steps

/-! ### The code of an expression -/

/-- The code `cs` with the literals `ls`, at the end of a table of literals, leaves a value on the
stack: the run goes on with the value, or it ends with the error. -/
def Leaves (floats : Floats) (record literals : List Field) (cs : List ℕ) (ls : List Field)
    (value : Except ExecError Field) : Prop :=
  ∀ (more : List Field) (codes : List ℕ) (stack : List Field),
    exec floats (literals ++ ls ++ more) record (cs ++ codes) stack =
      (value >>= fun v => exec floats (literals ++ ls ++ more) record codes (v :: stack)) ∧
    underflowsFrom floats (literals ++ ls ++ more) record (cs ++ codes) stack =
      match value with
      | .ok v => underflowsFrom floats (literals ++ ls ++ more) record codes (v :: stack)
      | .error _ => false

theorem fetch_append (literals more : List Field) (val : Field) :
    fetch (literals ++ [val] ++ more) literals.length = .ok val := by
  unfold fetch
  rw [append_assoc, getElem?_append_right (Nat.le_refl _), Nat.sub_self]
  rfl

/-- The code of a literal. -/
theorem leaves_field (floats : Floats) (record literals : List Field) (val : Field) :
    Leaves floats record literals [0, literals.length] [val] (.ok val) := by
  intro more codes stack
  constructor
  · simp only [cons_append, nil_append, exec, fetch_append]
  · simp only [cons_append, nil_append, underflowsFrom, fetch_append]

/-- The code of a column. -/
theorem leaves_colRef (floats : Floats) (record literals : List Field) (i : ℕ) :
    Leaves floats record literals [1, i] [] (fetch record i) := by
  intro more codes stack
  constructor
  · simp only [cons_append, nil_append, exec]
  · simp only [cons_append, nil_append, underflowsFrom]

/-- The code of an operation follows the code of its operands. -/
theorem Leaves.binary {floats : Floats} {record literals : List Field} {cl cr : List ℕ}
    {ll lr : List Field} {left right : Except ExecError Field}
    (hl : Leaves floats record literals cl ll left)
    (hr : Leaves floats record (literals ++ ll) cr lr right) (op : BinaryOp) :
    Leaves floats record literals (cl ++ cr ++ [op.opcode]) (ll ++ lr)
      (do let l ← left; let r ← right; op.run floats l r) := by
  intro more codes stack
  have hcode : cl ++ cr ++ [op.opcode] ++ codes = cl ++ (cr ++ (op.opcode :: codes)) := by simp
  have hlit : literals ++ (ll ++ lr) ++ more = literals ++ ll ++ (lr ++ more) := by simp
  have hlit' : literals ++ (ll ++ lr) ++ more = literals ++ ll ++ lr ++ more := by simp
  obtain ⟨hexec, hunder⟩ := hl (lr ++ more) (cr ++ (op.opcode :: codes)) stack
  rw [hcode]
  cases left with
  | error e =>
    rw [hlit]
    exact ⟨hexec, hunder⟩
  | ok l =>
    obtain ⟨hexecr, hunderr⟩ := hr more (op.opcode :: codes) (l :: stack)
    rw [← hlit] at hexec hunder
    rw [← hlit'] at hexecr hunderr
    rw [hexec, hunder]
    dsimp only
    cases right with
    | error e => exact ⟨hexecr, hunderr⟩
    | ok r =>
      constructor
      · refine hexecr.trans ?_
        exact exec_op floats _ record codes stack op l r
      · refine hunderr.trans ?_
        exact underflowsFrom_op floats _ record codes stack op l r

end ByteCodeExpr

namespace Expression

variable {P : Type}

/-- The code that is appended for a simple expression whose columns are positions. -/
theorem exec_code (floats : Floats) (record : List Field) (code : ByteCodeExpr) :
    (expr : Expression P) → expr.Simple →
    ∃ cs ls, cs ≠ [] ∧
      expr.convertInner code = .ok ⟨code.bytecodes ++ cs, code.literals ++ ls⟩ ∧
      ByteCodeExpr.Leaves floats record code.literals cs ls (expr.value floats some record)
  | colRef id, _ => by
    refine ⟨[1, id], [], by simp, ?_, ByteCodeExpr.leaves_colRef floats record _ id⟩
    rw [convertInner, append_nil]
  | field val, _ =>
    ⟨[0, code.literals.length], [val], by simp, by rw [convertInner],
      ByteCodeExpr.leaves_field floats record _ val⟩
  | binary op left right, hsimple => by
    obtain ⟨cl, ll, -, hcl, hl⟩ := exec_code floats record code left hsimple.1
    obtain ⟨cr, lr, -, hcr, hr⟩ :=
      exec_code floats record ⟨code.bytecodes ++ cl, code.literals ++ ll⟩ right hsimple.2
    refine ⟨cl ++ cr ++ [op.opcode], ll ++ lr, by simp, ?_, hl.binary hr op⟩
    have hpair : (binary op left right).convertInner code =
        .ok ⟨code.bytecodes ++ cl ++ cr ++ [op.opcode], code.literals ++ ll ++ lr⟩ := by
      rw [convertInner, hcl]
      change (right.convertInner ⟨code.bytecodes ++ cl, code.literals ++ ll⟩ >>= _) = _
      rw [hcr]
      rfl
    simp only [hpair, append_assoc]

/-- With the positions put in, an expression is as simple as before. -/
theorem simple_replaceVariables (replacePlan : P → P) (colIdToIdx : ColumnMap) :
    (expr : Expression P) → expr.Simple → (expr.replaceVariables replacePlan colIdToIdx).Simple
  | colRef _, h => h
  | field _, h => h
  | binary _ left right, h =>
    ⟨simple_replaceVariables replacePlan colIdToIdx left h.1,
      simple_replaceVariables replacePlan colIdToIdx right h.2⟩

/-- The positions of the map are read where the columns were. -/
theorem value_replaceVariables (replacePlan : P → P) (floats : Floats) (colIdToIdx : ColumnMap)
    (record : List Field) :
    (expr : Expression P) → expr.Simple →
      (∀ id ∈ expr.columns, (colIdToIdx.lookup id).isSome) →
      (expr.replaceVariables replacePlan colIdToIdx).value floats some record =
        expr.value floats (fun id => colIdToIdx.lookup id) record
  | colRef id, _, hin => by
    obtain ⟨i, hi⟩ := Option.isSome_iff_exists.1 (hin id (by simp [columns]))
    simp only [replaceVariables, value, ColumnMap.apply, hi, Option.getD_some]
  | field _, _, _ => rfl
  | binary _ left right, hsimple, hin => by
    have hleft := value_replaceVariables replacePlan floats colIdToIdx record left hsimple.1
      fun id h => hin id (by simp [columns, h])
    have hright := value_replaceVariables replacePlan floats colIdToIdx record right hsimple.2
      fun id h => hin id (by simp [columns, h])
    rw [replaceVariables, value, value, hleft, hright]

/-- A simple expression whose columns have positions compiles, and its code computes the value of the
expression: no operation finds less than two values on the stack, and the value alone is left. -/
theorem eval_convertExprToBytecode (replacePlan : P → P) (floats : Floats) (colIdToIdx : ColumnMap)
    (expr : Expression P) (hsimple : expr.Simple)
    (hin : ∀ id ∈ expr.columns, (colIdToIdx.lookup id).isSome) (tuple : Tuple) :
    ∃ code, expr.convertExprToBytecode replacePlan (some colIdToIdx) = .ok code ∧
      code.eval floats tuple =
        expr.value floats (fun id => colIdToIdx.lookup id) tuple.fieldVals ∧
      code.underflows floats tuple = false ∧
      code.finalStack floats tuple =
        (expr.value floats (fun id => colIdToIdx.lookup id) tuple.fieldVals).map fun v => [v] := by
  obtain ⟨cs, ls, hne, hcode, hleaves⟩ := exec_code floats tuple.fieldVals ⟨[], []⟩ _
    (simple_replaceVariables replacePlan colIdToIdx expr hsimple)
  rw [value_replaceVariables replacePlan floats colIdToIdx tuple.fieldVals expr hsimple hin]
    at hleaves
  obtain ⟨hexec, hunder⟩ := hleaves [] [] []
  simp only [List.nil_append, List.append_nil] at hexec hunder hcode
  refine ⟨⟨cs, ls⟩, hcode, ?_, ?_, ?_⟩
  · rw [ByteCodeExpr.eval, if_neg hne, hexec]
    cases expr.value floats (fun id => colIdToIdx.lookup id) tuple.fieldVals with
    | error e => rfl
    | ok v => rfl
  · rw [ByteCodeExpr.underflows, hunder]
    cases expr.value floats (fun id => colIdToIdx.lookup id) tuple.fieldVals with
    | error e => rfl
    | ok v => rfl
  · rw [ByteCodeExpr.finalStack, hexec]
    cases expr.value floats (fun id => colIdToIdx.lookup id) tuple.fieldVals with
    | error e => rfl
    | ok v => rfl

/-- `(c7 + 1) < c3`, with the columns in the second and the first place. -/
theorem eval_convertExprToBytecode_sum :
    ∃ code : ByteCodeExpr,
      (binary .lt (binary .add (colRef 7) (field (.bigInt 1))) (colRef 3) :
        Expression Unit).convertExprToBytecode id (some [(3, 0), (7, 1)]) = .ok code ∧
      code.eval ⟨fun a _ => a, fun _ _ => 0⟩ (Tuple.new [.bigInt 9, .bigInt 4]) =
        .ok (.bool true) := by
  obtain ⟨code, hcode, heval, -⟩ := eval_convertExprToBytecode id ⟨fun a _ => a, fun _ _ => 0⟩
    [(3, 0), (7, 1)]
    (binary .lt (binary .add (colRef 7) (field (.bigInt 1))) (colRef 3) : Expression Unit)
    ⟨⟨trivial, trivial⟩, trivial⟩ (by decide) (Tuple.new [.bigInt 9, .bigInt 4])
  exact ⟨code, hcode, heval.trans (by decide)⟩

end Expression

end CrustyDB
