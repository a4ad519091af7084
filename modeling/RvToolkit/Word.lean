import RvToolkit.Number.Bits
import RvToolkit.Number.Double
import RvToolkit.Text.Basic

namespace RvToolkit

inductive Signedness where
  | signed
  | unsigned
deriving DecidableEq, Repr

/-- A 32-bit word with the reading of its top bit. -/
structure Word where
  sign : Signedness
  bits : BitVec 32
deriving DecidableEq, Repr

namespace Word

def ofInt (s : Signedness) (i : Int) : Word := ⟨s, BitVec.ofInt 32 i⟩

def value (w : Word) : Int :=
  match w.sign with
  | .signed => w.bits.toInt
  | .unsigned => w.bits.toNat

def unsignedValue (w : Word) : Nat := w.bits.toNat

def asSigned (w : Word) : Word := ⟨.signed, w.bits⟩

def asUnsigned (w : Word) : Word := ⟨.unsigned, w.bits⟩

/-- Arithmetic takes the reading of the left word and the value of the right operand. -/
def add (w : Word) (i : Int) : Word := ofInt w.sign (w.value + i)

def sub (w : Word) (i : Int) : Word := ofInt w.sign (w.value - i)

def mul (w : Word) (i : Int) : Word := ofInt w.sign (w.value * i)

def and (w : Word) (i : Int) : Word := ofInt w.sign (Bits.and w.value i)

def or (w : Word) (i : Int) : Word := ofInt w.sign (Bits.or w.value i)

def xor (w : Word) (i : Int) : Word := ofInt w.sign (Bits.xor w.value i)

def shiftLeft (w : Word) (k : Nat) : Word := ofInt w.sign (Bits.shiftLeft w.value k)

def shiftRight (w : Word) (k : Nat) : Word := ofInt w.sign (Bits.shiftRight w.value k)

def shiftRightLogical (w : Word) (k : Nat) : Word :=
  ofInt w.sign (Bits.shiftRight w.unsignedValue k)

def neg (w : Word) : Word := ofInt w.sign (-w.value)

def not (w : Word) : Word := ofInt w.sign (Bits.not w.value)

def abs (w : Word) : Word := ofInt w.sign w.value.natAbs

def toBytes (w : Word) : List UInt8 :=
  (List.range 4).map fun k => (w.bits.toNat / 256 ^ k).toUInt8

/-- Number spelled by bytes, lowest first. -/
def littleEndian (bs : List UInt8) : Nat := bs.foldr (fun b n => b.toNat + 256 * n) 0

/-- The number that bytes spell for a word: four of them have a sign when the word has one. -/
def reading (s : Signedness) (bs : List UInt8) : Int :=
  if s = .signed ∧ bs.length = 4 then (BitVec.ofNat 32 (littleEndian bs)).toInt else littleEndian bs

def ofBytes (s : Signedness) (bs : List UInt8) : Word := ofInt s (reading s bs)

/-- Sign extension of the low `n` bits of `data`, for a positive `n`. Whatever stands above the sign
bit counts as a set sign, and the flag reports it. -/
def signExtend (s : Signedness) (data : Int) (n : Nat) : Word × Bool :=
  let high := Bits.shiftRight data (n - 1)
  let extended := if high = 0 then data else Bits.and data (2 ^ (n - 1) - 1) - 2 ^ (n - 1)
  (ofInt s extended, 1 < high)

def least : Signedness → Int
  | .signed => -0x80000000
  | .unsigned => 0

def greatest : Signedness → Int
  | .signed => 0x7fffffff
  | .unsigned => 0xffffffff

def clamp (s : Signedness) (i : Int) : Word := ofInt s (min (max i (least s)) (greatest s))

/-- A double moved into the range of the reading and cut toward zero; what is no number counts as
the least value. -/
def ofDouble (s : Signedness) (x : Float) : Word :=
  match Number.parts x with
  | .nan => clamp s (least s)
  | .infinite negative => clamp s (if negative then least s else greatest s)
  | .finite .. => clamp s ((Number.truncate? x).getD 0)

end Word

end RvToolkit
