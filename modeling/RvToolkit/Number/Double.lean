import RvToolkit.Number.Power

namespace RvToolkit.Number

inductive Parts where
  | nan
  | infinite (negative : Bool)
  | finite (negative : Bool) (mantissa : Nat) (exponent : Int)
deriving DecidableEq, Repr

def signBit : Nat := 0x8000000000000000

def leadingBit : Nat := 0x10000000000000

def Parts.ofBits (bits : Nat) : Parts :=
  let negative : Bool := bits / signBit % 2 == 1
  let field : Nat := bits / leadingBit % 2048
  let low : Nat := bits % leadingBit
  if field = 2047 then if low = 0 then .infinite negative else .nan
  else if field = 0 then .finite negative low (-1074)
  else .finite negative (leadingBit + low) ((field : Int) - 1075)

def parts (x : Float) : Parts := Parts.ofBits x.toBits.toNat

def roundDiv (num den : Nat) : Nat :=
  let q := num / den
  let r := num % den
  if 2 * r < den then q else if den < 2 * r then q + 1 else q + q % 2

def lastBit (num den : Nat) : Int :=
  let e := max ((num.log2 : Int) - den.log2 - 53) (-1074)
  if 2 * leadingBit ≤ num * 2 ^ (-e).toNat / (den * 2 ^ e.toNat) then e + 1 else e

def ratioBits (negative : Bool) (num den : Nat) : Nat :=
  let sign := if negative then signBit else 0
  if num = 0 then sign
  else
    let e := lastBit num den
    let q := roundDiv (num * 2 ^ (-e).toNat) (den * 2 ^ e.toNat)
    if q < leadingBit then sign + q
    else sign + min ((e + 1075).toNat * leadingBit + (q - leadingBit)) (2047 * leadingBit)

def ofRatio (negative : Bool) (num den : Nat) : Float :=
  Float.ofBits (ratioBits negative num den).toUInt64

def isFinite (x : Float) : Bool :=
  match parts x with
  | .finite .. => true
  | _ => false

def ofInt? (i : Int) : Option Float :=
  let x := ofRatio (i < 0) i.natAbs 1
  if isFinite x then some x else none

def truncate? (x : Float) : Option Int :=
  match parts x with
  | .finite negative m e =>
      let n : Nat := m * 2 ^ e.toNat / 2 ^ (-e).toNat
      some (if negative then -(n : Int) else n)
  | _ => none

def ofDecimal (negative : Bool) (mantissa : Nat) (exponent : Int) : Float :=
  if mantissa = 0 then ofRatio negative 0 1
  else if 400 < exponent then ofRatio negative (10 ^ (400 : Nat)) 1
  else if exponent < -400 - (mantissa.log2 : Int) then ofRatio negative 0 1
  else ofRatio negative (mantissa * 10 ^ exponent.toNat) (10 ^ (-exponent).toNat)

end RvToolkit.Number
