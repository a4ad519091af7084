import RvToolkit.Evaluator
import RvToolkit.Expr.Guard
import RvToolkit.Register
import RvToolkit.Text.Case

/-! Immediate operands: the signed representative modulo a power of two, the relocation functions
that take the upper or the lower part of an address, and offsets from a base register. -/

namespace RvToolkit

namespace Immediate

/-- The low `n` bits of `v`, the highest of them read as a sign. -/
def wrap (n : Nat) (v : Int) : Int :=
  let low := Bits.and v (2 ^ n - 1)
  if 2 ^ (n - 1) ≤ low then low - 2 ^ n else low

def plain? : Value → Option Int
  | .int i => some i
  | .bool b => some (if b then 1 else 0)
  | _ => none

/-- Wraps an operand that has to be an integer already. -/
def wrapOperand (n : Nat) (v : Value) : Except Fault Int :=
  match plain? v with
  | some i => .ok (wrap n i)
  | none => .error (.type .other)

/-- Wraps to a width that may itself be wrong: a negative width is refused before the operand is
looked at, the width zero after it. -/
def wrapTo (v : Value) (n : Int) : Except Fault Int :=
  if n < 0 then .error (.value .other)
  else
    match plain? v with
    | none => .error (.type .other)
    | some i => if n = 0 then .error (.value .other) else .ok (wrap n.toNat i)

def ofLiteral (t : Text) : Except Fault Int :=
  match Number.readInt 10 t with
  | .ok i => .ok i
  | .error e => .error (.value (.literal 10 t e))

/-- An operand as an integer: numbers are cut toward zero, a text has to spell one. -/
def toInteger : Value → Except Fault Int
  | .text t => ofLiteral t
  | .int i => .ok i
  | .bool b => .ok (if b then 1 else 0)
  | .word w => .ok w.value
  | .real x =>
      match Number.truncate? x with
      | some i => .ok i
      | none =>
          match Number.parts x with
          | .nan => .error (.value .other)
          | _ => .error .overflow
  | _ => .error (.type .other)

def argument (t : Text) : Except Fault Int :=
  let base := if "0x".toList.isPrefixOf (Text.lower t) then 16 else 10
  match Number.readInt base t with
  | .ok i => .ok i
  | .error e => .error (.parse (.badNumber t (ValueCause.literal base t e).message))

def evaluate (t : Text) : Except Fault Expr.Num :=
  match Expr.evaluate t with
  | .ok n => .ok n
  | .error e => .error (.eval e)

/-- Value of an arithmetic expression, or of any other text as a decimal integer. -/
def number [Evaluator] (t : Text) : Except Fault Value := do
  if ← Expr.isExpr Evaluator.depth t then return (← evaluate t).toValue
  return .int (← ofLiteral t)

/-- The two parts of an address. -/
inductive Half where
  | upper
  | lower
deriving DecidableEq, Repr

namespace Half

def names : Half → List Text
  | .upper => ["%hi".toList, "%pcrel_hi".toList]
  | .lower => ["%lo".toList, "%pcrel_lo".toList]

/-- What is written for the part of a value: the upper part leaves out twelve bits, the lower part keeps
them. -/
def take [Evaluator] : Half → Value → Except Fault Text
  | .upper, v => Evaluator.combine .shiftRight v 12
  | .lower, v => Evaluator.combine .and v 0xfff

/-- Text between the parentheses of a relocation at the front, and what follows it. The argument ends
at the first closing parenthesis and stays on one line. -/
def call? (h : Half) (t : Text) : Option (Text × Text) :=
  h.names.findSome? fun name =>
    if (name ++ ['(']).isPrefixOf t then
      match Text.cutAt ')' (t.drop (name.length + 1)) with
      | some (arg, rest) => if arg.contains '\n' then none else some (arg, rest)
      | none => none
    else none

/-- Writes every relocation of a text anew. The counter passes over the rest of the last one. -/
def substituteFrom (h : Half) (f : Text → Text) : Nat → Text → Text
  | _, [] => []
  | k + 1, _ :: cs => substituteFrom h f k cs
  | 0, c :: cs =>
      match h.call? (c :: cs) with
      | some (arg, rest) => f arg ++ substituteFrom h f (cs.length - rest.length) cs
      | none => c :: substituteFrom h f 0 cs

def substitute (h : Half) (f : Text → Text) (t : Text) : Text := substituteFrom h f 0 t

def opens (h : Half) (t : Text) : Bool := h.names.any fun name => name.isPrefixOf t

/-- The part of the first argument stands for every relocation of the text. -/
def resolve [Evaluator] (h : Half) (t : Text) : Except Fault Text :=
  match h.call? t with
  | none => .error .missingAttribute
  | some (arg, _) => do
      let v ← Evaluator.argumentValue arg
      let part ← h.take v
      return h.substitute (fun _ => part) t

end Half

/-- An immediate operand: a relocation gives text, an arithmetic expression its value, and any other
text stays as it is. -/
def resolve [Evaluator] : Value → Except Fault Value
  | .text t => do
      if Half.upper.opens t then return .text (← Half.upper.resolve t)
      if Half.lower.opens t then return .text (← Half.lower.resolve t)
      if ← Expr.isExpr Evaluator.depth t then return (← evaluate t).toValue
      return .text t
  | .bytes .. => .error (.type .other)
  | _ => .error .missingAttribute

def isParen (c : Char) : Bool := c = '(' || c = ')'

def cutBase (t : Text) : Option (Text × Text) :=
  match (Text.trimEnd t).reverse with
  | ')' :: r =>
      match r.dropWhile fun c => !isParen c with
      | '(' :: offset =>
          if offset.contains '\n' then none
          else some (offset.reverse, (r.takeWhile fun c => !isParen c).reverse)
      | _ => none
  | _ => none

def withBase [Evaluator] (v : Value) : Except Fault (Value × Text) := do
  match ← resolve v with
  | .text t =>
      match cutBase t with
      | none => .error (.invalidRegister v)
      | some (offset, base) => do
          let reg ← Register.toNumbered base
          return (← number (Text.trim offset), reg)
  | _ => .error (.type .other)

end Immediate

end RvToolkit
