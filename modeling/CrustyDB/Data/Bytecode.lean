import CrustyDB.Data.Schema
import CrustyDB.Lib.Pull

/-! # Compiled expressions

The arithmetic and the comparisons on fields, tuples, and the stack machine that evaluates an
expression on a tuple (`ByteCodeExpr.eval`).  `Decimal` multiplication and division and the mean of
an aggregate go through `f64`; the rounding of `f64` is the parameter `Floats`. -/

namespace CrustyDB

inductive BinaryOp where
  | add | sub | mul | div | eq | neq | lt | gt | le | ge | and | or
deriving DecidableEq, Repr

/-- How the execution of a query fails: with an error, with a panic of the language or of
`panic!`, or not at all because a loop does not end. -/
inductive ExecError where
  | crusty (msg : String)
  | panic (p : Panic)
  | abort (msg : String)
  | diverges
deriving DecidableEq, Repr

/-- The operations on `f64`. -/
structure Floats where
  /-- `(a as f64 / b as f64).round() as i64` -/
  roundDiv : Int64 → Int64 → Int64
  /-- `(sum as f64 / count as f64 * 10f64.powi(4)) as i64` -/
  mean : ℤ → ℕ → Int64

/-! ### Fields -/

namespace Field

/-- A computation on `i64` panics when it overflows. -/
def i64 : Except FromStrError ℤ → Except ExecError Int64
  | .ok v => .ok (Int64.ofInt v)
  | .error (.panic p) => .error (.panic p)
  | .error (.validation msg) => .error (.crusty msg)

/-- `a * 10i64.pow(n)` -/
def scaleUp (a : Int64) (n : ℕ) : Except ExecError Int64 := do
  let unit ← i64 (pow10 n)
  i64 (checkI64 (a.toInt * unit.toInt))

/-- Addition and subtraction of a bigint or decimal and another one, brought to the larger
scale. -/
def addWith (f : ℤ → ℤ → ℤ) (mismatch : ExecError) : Field → Field → Except ExecError Field
  | bigInt a, bigInt b => do
    let c ← i64 (checkI64 (f a.toInt b.toInt))
    pure (bigInt c)
  | decimal a sl, decimal b sr => do
    let scale := if sl > sr then sl else sr
    let a ← scaleUp a (scale.toNat - sl.toNat)
    let b ← scaleUp b (scale.toNat - sr.toNat)
    let c ← i64 (checkI64 (f a.toInt b.toInt))
    pure (decimal c scale)
  | bigInt a, decimal b sr => do
    let a ← scaleUp a sr.toNat
    let c ← i64 (checkI64 (f a.toInt b.toInt))
    pure (decimal c sr)
  | decimal a sl, bigInt b => do
    let b ← scaleUp b sl.toNat
    let c ← i64 (checkI64 (f a.toInt b.toInt))
    pure (decimal c sl)
  | _, _ => .error mismatch

/-- Other fields make an addition panic, where the other operations return an error. -/
def add : Field → Field → Except ExecError Field :=
  addWith (fun a b => a + b) (.abort "Expected int or decimal")

def sub : Field → Field → Except ExecError Field :=
  addWith (fun a b => a - b) (.crusty "Expected int or decimal")

def mul (floats : Floats) : Field → Field → Except ExecError Field
  | bigInt a, bigInt b => do
    let c ← i64 (checkI64 (a.toInt * b.toInt))
    pure (bigInt c)
  | decimal a sl, decimal b sr => do
    let c ← i64 (checkI64 (a.toInt * b.toInt))
    let unit ← i64 (pow10 (min sl sr).toNat)
    pure (decimal (floats.roundDiv c unit) (max sl sr))
  | bigInt a, decimal b sr => do
    let c ← i64 (checkI64 (a.toInt * b.toInt))
    pure (decimal c sr)
  | decimal a sl, bigInt b => do
    let c ← i64 (checkI64 (a.toInt * b.toInt))
    pure (decimal c sl)
  | _, _ => .error (.crusty "Expected int or decimal")

/-- The quotient of two decimals, with the larger of the two scales. -/
def divDecimal (floats : Floats) (a : Int64) (sl : UInt32) (b : Int64) (sr : UInt32) :
    Except ExecError Field :=
  if b = 0 then .error (.crusty "Division by zero")
  else
    let scale := max sl sr
    let alpha := scale.toNat - sl.toNat + sr.toNat
    if 2 ^ 32 ≤ alpha then .error (.panic .overflow)
    else do
      let a ← scaleUp a alpha
      pure (decimal (floats.roundDiv a b) scale)

def div (floats : Floats) : Field → Field → Except ExecError Field
  | bigInt a, bigInt b =>
    if b = 0 then .error (.crusty "Division by zero")
    else do
      let c ← i64 (checkI64 (a.toInt.tdiv b.toInt))
      pure (bigInt c)
  | decimal a sl, decimal b sr => divDecimal floats a sl b sr
  | bigInt a, decimal b sr => divDecimal floats a 0 b sr
  | decimal a sl, bigInt b => divDecimal floats a sl b 0
  | _, _ => .error (.crusty "Expected int or decimal")

/-- A connective of two booleans. -/
def connect (f : Bool → Bool → Bool) : Field → Field → Except ExecError Field
  | bool a, bool b => .ok (bool (f a b))
  | _, _ => .error (.abort "Expected bool")

def unwrapBoolField : Field → Except ExecError Bool
  | bool b => .ok b
  | _ => .error (.abort "Expected bool")

end Field

/-- The comparison of a join. -/
def compareFields (op : BinaryOp) (left right : Field) : Except ExecError Bool :=
  match op with
  | .eq => .ok (left = right)
  | .neq => .ok (left ≠ right)
  | .gt => .ok (left > right)
  | .ge => .ok (left ≥ right)
  | .lt => .ok (left < right)
  | .le => .ok (left ≤ right)
  | .and => do (← Field.connect (fun a b => a && b) left right).unwrapBoolField
  | .or => do (← Field.connect (fun a b => a || b) left right).unwrapBoolField
  | _ => .error (.abort "Unsupported comparison operation")

/-! ### Tuples -/

/-- A tuple, with the record it was read from. -/
structure Tuple where
  tid : UInt64
  valueId : Option ValueId
  fieldVals : List Field
deriving DecidableEq, Repr

namespace Tuple

def new (fieldVals : List Field) : Tuple := ⟨0, none, fieldVals⟩

def merge (t other : Tuple) : Tuple := new (t.fieldVals ++ other.fieldVals)

end Tuple

/-! ### The stack machine -/

/-- The bytecodes, numbered as in the dispatch table, and the literals they refer to. -/
structure ByteCodeExpr where
  bytecodes : List ℕ
  literals : List Field
deriving DecidableEq, Repr

namespace ByteCodeExpr

/-- The value of a column. -/
def colidx (i : ℕ) : ByteCodeExpr := ⟨[1, i], []⟩

/-- The operation of a bytecode on the two topmost values; an error is unwrapped. -/
def dispatch (floats : Floats) (opcode : ℕ) (l r : Field) : Except ExecError Field :=
  let unwrap : Except ExecError Field → Except ExecError Field
    | .error (.crusty _) => .error (.panic .unwrap)
    | x => x
  match opcode with
  | 2 => unwrap (l.add r)
  | 3 => unwrap (l.sub r)
  | 4 => unwrap (l.mul floats r)
  | 5 => unwrap (l.div floats r)
  | 6 => .ok (.bool (l = r))
  | 7 => .ok (.bool (l ≠ r))
  | 8 => .ok (.bool (l < r))
  | 9 => .ok (.bool (l > r))
  | 10 => .ok (.bool (l ≤ r))
  | 11 => .ok (.bool (l ≥ r))
  | 12 => l.connect (fun a b => a && b) r
  | 13 => l.connect (fun a b => a || b) r
  | _ => .error (.panic .index)

/-- The value at a position. -/
def fetch (values : List Field) (i : ℕ) : Except ExecError Field :=
  match values[i]? with
  | some f => .ok f
  | none => .error (.panic .index)

/-- Run the bytecodes; the top of the stack is the head of the list. -/
def exec (floats : Floats) (literals record : List Field) :
    List ℕ → List Field → Except ExecError (List Field)
  | [], stack => .ok stack
  | 0 :: i :: codes, stack => do
    let f ← fetch literals i
    exec floats literals record codes (f :: stack)
  | 1 :: i :: codes, stack => do
    let f ← fetch record i
    exec floats literals record codes (f :: stack)
  | opcode :: codes, stack =>
    -- a push without an operand reads beyond the bytecodes, as an unknown opcode does
    if opcode < 2 ∨ 14 ≤ opcode then .error (.panic .index)
    else
      match stack with
      | r :: l :: stack => do
        let f ← dispatch floats opcode l r
        exec floats literals record codes (f :: stack)
      | _ => .error (.panic .unwrap)

/-- The value of the expression on a tuple. -/
def eval (floats : Floats) (expr : ByteCodeExpr) (record : Tuple) : Except ExecError Field :=
  if expr.bytecodes = [] then .error (.abort "Cannot evaluate empty expression")
  else do
    match ← exec floats expr.literals record.fieldVals expr.bytecodes [] with
    | f :: _ => pure f
    | [] => .error (.panic .unwrap)

/-- The values of several expressions. -/
def evalAll (floats : Floats) (exprs : List ByteCodeExpr) (record : Tuple) :
    Except ExecError (List Field) :=
  exprs.mapM (fun expr => expr.eval floats record)

theorem eval_colidx (floats : Floats) (i : ℕ) (t : Tuple) :
    (colidx i).eval floats t = fetch t.fieldVals i := by
  unfold eval colidx
  simp only [reduceCtorEq, if_false, exec]
  cases fetch t.fieldVals i with
  | ok f => rfl
  | error e => rfl

end ByteCodeExpr

end CrustyDB
