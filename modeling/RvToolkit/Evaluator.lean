import RvToolkit.Action
import RvToolkit.Assembly.Program
import RvToolkit.Expr.Eval

/-! The evaluator behind constants and relocations. Arithmetic has its value in `Expr`; what becomes of
any other text, and of a value that is no number, is left open here. -/

namespace RvToolkit

def decimalText (i : Int) : Except Fault Text :=
  let t := Text.ofInt i
  if Number.maxDigits < (Nat.toDigits 10 i.natAbs).length then .error (.value .tooManyDigits) else .ok t

class Evaluator where
  /-- How many parentheses the guard can follow into one another. -/
  depth : Nat
  /-- Value of a constant that is no arithmetic. The program can be looked at and changed. -/
  constant : Text → Action Assembly Value
  /-- Value of a relocation argument that is no arithmetic. -/
  argument : Text → Except Fault Value
  /-- How a compound value is written into a record. -/
  shown : Value → Except Fault Text
  /-- What is written for an operator between a value that is no number and an integer. -/
  combined : Expr.BinaryOp → Value → Int → Except Fault Text

namespace Evaluator

variable [Evaluator]

def constantValue (t : Text) : Action Assembly Value :=
  match Expr.evaluate t with
  | .ok n => pure n.toValue
  | .error _ => constant t

def argumentValue (t : Text) : Except Fault Value :=
  match Expr.evaluate t with
  | .ok n => .ok n.toValue
  | .error _ => argument t

def display : Value → Except Fault Text
  | .int i => decimalText i
  | .null => .ok Value.null.display
  | .bool b => .ok (Value.bool b).display
  | .real x => .ok (Value.real x).display
  | .text t => .ok t
  | v => shown v

/-- An operator between a value and an integer. -/
def combine (op : Expr.BinaryOp) (v : Value) (i : Int) : Except Fault Text :=
  let number (n : Expr.Num) : Except Fault Text :=
    match op.apply n (.int i) with
    | .ok (.int j) => decimalText j
    | .ok (.real x) => .ok (Number.shortest x)
    | .error e => .error (.eval e)
  match v with
  | .int j => number (.int j)
  | .bool b => number (.int (if b then 1 else 0))
  | .real x => number (.real x)
  | v => combined op v i

/-- Constants depend on their text alone: the program is neither looked at nor changed. -/
class Textual : Prop where
  constant_eq (t : Text) : ∃ log r, ∀ a, (constant t).run a = ⟨log, a, r⟩

end Evaluator

end RvToolkit
