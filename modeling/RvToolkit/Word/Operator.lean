import RvToolkit.Expr.Eval
import RvToolkit.Word.Conversion

/-! Operators between a word and an operand of any kind. The reading of the word on the left decides
on the reading of the result. -/

namespace RvToolkit.Word

/-- A division with a fraction is not kept apart from one without. -/
inductive Operator where
  | add
  | sub
  | mul
  | div
  | mod
  | and
  | or
  | xor
  | shiftLeft
  | shiftRight
deriving DecidableEq, Repr

inductive Comparison where
  | eq
  | ne
  | lt
  | le
  | gt
  | ge
deriving DecidableEq, Repr

def Operator.toBinaryOp : Operator → Expr.BinaryOp
  | .add => .add
  | .sub => .sub
  | .mul => .mul
  | .div => .floorDiv
  | .mod => .mod
  | .and => .and
  | .or => .or
  | .xor => .xor
  | .shiftLeft => .shiftLeft
  | .shiftRight => .shiftRight

def number? : Value → Option Expr.Num
  | .int i => some (.int i)
  | .bool b => some (.int (if b then 1 else 0))
  | .word w => some (.int w.value)
  | .real x => some (.real x)
  | _ => none

def replicated {α : Type} (n : Int) (xs : List α) : List α := (List.replicate n.toNat xs).flatten

def repeated? (n : Int) : Value → Option Value
  | .text t => some (.text (replicated n t))
  | .bytes frozen bs => some (.bytes frozen (replicated n bs))
  | .list vs => some (.list (replicated n vs))
  | .tuple vs => some (.tuple (replicated n vs))
  | _ => none

/-- A word on the left of an operator. The result has to be something that a word can hold. -/
def apply (op : Operator) (w : Word) (v : Value) : Except Fault Word :=
  match number? v with
  | some n =>
      match op.toBinaryOp.apply (.int w.value) n with
      | .ok r => Word.ofValue w.sign r.toValue
      | .error e => .error (.eval e)
  | none =>
      match op, repeated? w.value v with
      | .mul, some r => Word.ofValue w.sign r
      | _, _ => .error (.type .other)

/-- A word on the right of an operator. Another word on the left decides by itself; any other operand
of a sum or product changes places with the word, and else becomes a word of its reading first. -/
def applyRight (op : Operator) (w : Word) (v : Value) : Except Fault Word :=
  match op, v with
  | op, .word l => apply op l (.word w)
  | .add, v => apply .add w v
  | .mul, v => apply .mul w v
  | .shiftLeft, _ | .shiftRight, _ => .error (.type .other)
  | .mod, .text _ | .mod, .bytes .. => .error (.type .other)
  | op, v => do
      let l ← Word.ofValue w.sign v
      apply op l (.word w)

def threeWay (_ : Word) (_ : Value) : Except Fault Int := .error .missingAttribute

def Comparison.flip : Comparison → Comparison
  | .eq => .eq
  | .ne => .ne
  | .lt => .gt
  | .le => .ge
  | .gt => .lt
  | .ge => .le

def Comparison.ofInts (c : Comparison) (a b : Int) : Bool :=
  match c with
  | .eq => a = b
  | .ne => a ≠ b
  | .lt => a < b
  | .le => a ≤ b
  | .gt => b < a
  | .ge => b ≤ a

/-- Order of an integer and a double, by their exact values; what is no number has no order. -/
def Comparison.ofMixed (c : Comparison) (a : Int) (x : Float) : Bool :=
  match Number.parts x with
  | .nan => c = .ne
  | .infinite negative => c.ofInts 0 (if negative then -1 else 1)
  | .finite negative m e =>
      let b : Int := m * 2 ^ e.toNat
      c.ofInts (a * 2 ^ (-e).toNat) (if negative then -b else b)

/-- A word equals only integers and words; it is ordered with doubles as well. -/
def compare (c : Comparison) (w : Word) (v : Value) : Except Fault Bool :=
  match c, v with
  | c, .int i => .ok (c.ofInts w.value i)
  | c, .bool b => .ok (c.ofInts w.value (if b then 1 else 0))
  | c, .word u => .ok (c.ofInts w.value u.value)
  | .eq, _ => .ok false
  | .ne, _ => .ok true
  | c, .real x => .ok (c.ofMixed w.value x)
  | _, _ => .error (.type .other)

def shiftLogicalBy (w : Word) (v : Value) : Except Fault Word :=
  match number? v with
  | some (.int k) =>
      if k < 0 then .error (.eval .negativeShift) else .ok (w.shiftRightLogical k.toNat)
  | _ => .error (.type .other)

def lowBytes (w : Word) : Value → Except Fault (List UInt8)
  | .null => .ok w.toBytes
  | .int i => .ok (w.toBytes.take (if i < 0 then (4 + i).toNat else i.toNat))
  | .bool b => .ok (w.toBytes.take (if b then 1 else 0))
  | _ => .error (.type .other)

/-- A number that identifies the value; minus one is kept for another use. -/
def hash (w : Word) : Int := if w.value = -1 then -2 else w.value

def format (w : Word) : Value → Except Fault Text
  | .text spec =>
      match Number.Layout.parse? spec with
      | some l => .ok (l.write w.value)
      | none => .error (.value .other)
  | _ => .error (.type .other)

/-- Sign extension of data given as bytes or as an integer; the flag reports more than one sign bit. -/
def extendFrom (s : Signedness) (data : Value) (bits : Int) : Except Fault (Word × Bool) :=
  let data? := match data with
    | .bytes _ bs => some (littleEndian bs : Int)
    | .int i => some i
    | .bool b => some (if b then 1 else 0)
    | _ => none
  match data? with
  | none => .error (.type .other)
  | some d => if bits < 1 then .error (.eval .negativeShift) else .ok (signExtend s d bits.toNat)

def ofNumber (s : Signedness) : Value → Except Fault Word
  | .real x => .ok (ofDouble s x)
  | .int i =>
      match Number.ofInt? i with
      | some _ => .ok (clamp s i)
      | none => .error .overflow
  | .bool b => .ok (clamp s (if b then 1 else 0))
  | _ => .error (.type .other)

end RvToolkit.Word
