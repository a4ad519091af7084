import RvToolkit.Expr.Tree

/-! Values of arithmetic expressions: integers of any size, and doubles once a quotient, a point or a
negative power brings one in. -/

namespace RvToolkit.Expr

inductive Num where
  | int (i : Int)
  | real (x : Float)

namespace Num

def kind : Num → NumberKind
  | .int _ => .integer
  | .real _ => .double

def toValue : Num → Value
  | .int i => .int i
  | .real x => .real x

def toDouble : Num → Except EvalError Float
  | .int i =>
      match Number.ofInt? i with
      | some x => .ok x
      | none => .error .integerTooLarge
  | .real x => .ok x

end Num

def remainder (x y : Float) : Float :=
  match Number.parts x, Number.parts y with
  | .finite nx mx ex, .finite _ my ey =>
      let e := min ex ey
      let a := mx * 2 ^ (ex - e).toNat
      let b := my * 2 ^ (ey - e).toNat
      Number.ofRatio nx (a % b * 2 ^ e.toNat) (2 ^ (-e).toNat)
  | .finite .., .infinite _ => x
  | _, _ => 0.0 / 0.0

def zeroLike (x : Float) : Float :=
  match Number.parts x with
  | .finite true .. | .infinite true => -0.0
  | _ => 0.0

def floorRemainder (x y : Float) : Float :=
  let r := remainder x y
  if r == 0.0 then zeroLike y
  else if (y < 0.0) != (r < 0.0) then r + y
  else r

def floorQuotient (x y : Float) : Float :=
  let r := remainder x y
  let shifted := r != 0.0 && (y < 0.0) != (r < 0.0)
  let q := (x - r) / y
  let q := if shifted then q - 1.0 else q
  if q == 0.0 then zeroLike (x / y)
  else
    let f := q.floor
    if 0.5 < q - f then f + 1.0 else f

def power (x y : Float) : Except EvalError Float :=
  if x == 0.0 && y < 0.0 then .error .zeroToNegativePower
  else
    let r := x.pow y
    if Number.isFinite x && Number.isFinite y && !Number.isFinite r then .error .powerOutOfRange else .ok r

def onDoubles (f : Float → Float → Except EvalError Float) (l r : Num) : Except EvalError Num := do
  let x ← l.toDouble
  let y ← r.toDouble
  let z ← f x y
  return .real z

def maxShift : Nat := 0x1000000000

def shiftLeftInt (a : Int) (k : Nat) : Except EvalError Num :=
  if a = 0 then .ok (.int 0)
  else if maxShift ≤ k then .error .shiftTooLarge
  else .ok (.int (Bits.shiftLeft a k))

def BinaryOp.apply (op : BinaryOp) (l r : Num) : Except EvalError Num :=
  let refuse : Except EvalError Num := .error (.operands op.spelling l.kind r.kind)
  match op, l, r with
  | .add, .int a, .int b => .ok (.int (a + b))
  | .add, _, _ => onDoubles (fun x y => .ok (x + y)) l r
  | .sub, .int a, .int b => .ok (.int (a - b))
  | .sub, _, _ => onDoubles (fun x y => .ok (x - y)) l r
  | .mul, .int a, .int b => .ok (.int (a * b))
  | .mul, _, _ => onDoubles (fun x y => .ok (x * y)) l r
  | .div, .int a, .int b =>
      if b = 0 then .error (.divideByZero .integer)
      else
        let q := Number.ofRatio ((a < 0) != (b < 0) && a != 0) a.natAbs b.natAbs
        if Number.isFinite q then .ok (.real q) else .error .quotientTooLarge
  | .div, _, _ =>
      onDoubles (fun x y => if y == 0.0 then .error (.divideByZero .double) else .ok (x / y)) l r
  | .floorDiv, .int a, .int b =>
      if b = 0 then .error (.floorDivideByZero .integer) else .ok (.int (a.fdiv b))
  | .floorDiv, _, _ =>
      onDoubles
        (fun x y => if y == 0.0 then .error (.floorDivideByZero .double) else .ok (floorQuotient x y)) l r
  | .mod, .int a, .int b =>
      if b = 0 then .error (.moduloByZero .integer) else .ok (.int (a.fmod b))
  | .mod, _, _ =>
      onDoubles (fun x y => if y == 0.0 then .error (.moduloByZero .double) else .ok (floorRemainder x y)) l r
  | .pow, .int a, .int b => if 0 ≤ b then .ok (.int (a ^ b.toNat)) else onDoubles power l r
  | .pow, _, _ => onDoubles power l r
  | .shiftLeft, .int a, .int b => if b < 0 then .error .negativeShift else shiftLeftInt a b.toNat
  | .shiftLeft, _, _ => refuse
  | .shiftRight, .int a, .int b =>
      if b < 0 then .error .negativeShift else .ok (.int (Bits.shiftRight a b.toNat))
  | .shiftRight, _, _ => refuse
  | .and, .int a, .int b => .ok (.int (Bits.and a b))
  | .and, _, _ => refuse
  | .xor, .int a, .int b => .ok (.int (Bits.xor a b))
  | .xor, _, _ => refuse
  | .or, .int a, .int b => .ok (.int (Bits.or a b))
  | .or, _, _ => refuse

def UnaryOp.apply : UnaryOp → Num → Except EvalError Num
  | .plus, n => .ok n
  | .minus, .int a => .ok (.int (-a))
  | .minus, .real x => .ok (.real (-x))
  | .invert, .int a => .ok (.int (Bits.not a))
  | .invert, .real _ => .error (.operand "~".toList .double)

def Tree.eval : Tree → Except EvalError Num
  | .int i => .ok (.int i)
  | .real x => .ok (.real x)
  | .name n => .error (.undefined n)
  | .unary op t => do op.apply (← t.eval)
  | .binary op l r => do
      let a ← l.eval
      let b ← r.eval
      op.apply a b
  | .call f => do
      let a ← f.eval
      .error (.notCallable a.kind)
  | .apply f arg => do
      let a ← f.eval
      let _ ← arg.eval
      .error (.notCallable a.kind)

/-- Value of a text as an arithmetic expression. -/
def evaluate (t : Text) : Except EvalError Num :=
  match Tree.parse? t with
  | some tree => tree.eval
  | none => .error .malformed

end RvToolkit.Expr
