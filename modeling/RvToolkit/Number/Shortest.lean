import RvToolkit.Number.Double
import RvToolkit.Text.Basic

namespace RvToolkit.Number

def decimalExponent (num den : Nat) : Int :=
  let start := (((num.log2 : Int) - den.log2 - 1) * 30103).fdiv 100000 - 1
  let fits (p : Int) : Bool := num * 10 ^ (-(p + 1)).toNat < den * 10 ^ (p + 1).toNat
  if fits start then start else if fits (start + 1) then start + 1
  else if fits (start + 2) then start + 2 else start + 3

/-- The reals that round to a double, over a common denominator; the ends count iff the mantissa is
even. -/
structure Neighbourhood where
  value : Nat
  low : Nat
  high : Nat
  den : Nat
  closed : Bool
deriving Repr

def Neighbourhood.ofParts (m : Nat) (e : Int) : Neighbourhood :=
  let up := 2 ^ e.toNat
  let below := if m = leadingBit ∧ -1074 < e then 1 else 2
  ⟨4 * m * up, (4 * m - below) * up, (4 * m + 2) * up, 4 * 2 ^ (-e).toNat, m % 2 = 0⟩

def Neighbourhood.holds (b : Neighbourhood) (d : Nat) (k : Int) : Bool :=
  let x := d * 10 ^ k.toNat * b.den
  let s := 10 ^ (-k).toNat
  if b.closed then b.low * s ≤ x && x ≤ b.high * s else b.low * s < x && x < b.high * s

/-- Decimal of the given number of digits that rounds to the double, if there is one: of two the
nearer, of two equally near the even one. -/
def Neighbourhood.decimal? (b : Neighbourhood) (p : Int) (count : Nat) : Option (Nat × Int) :=
  let k := p - count + 1
  let num := b.value * 10 ^ (-k).toNat
  let den := b.den * 10 ^ k.toNat
  let d := num / den
  match b.holds d k, b.holds (d + 1) k with
  | true, true => some (roundDiv num den, k)
  | true, false => some (d, k)
  | false, true => some (d + 1, k)
  | false, false => none

def shortestDigits (m : Nat) (e : Int) : Nat × Int :=
  let b := Neighbourhood.ofParts m e
  let p := decimalExponent b.value b.den
  match ((List.range 17).map (· + 1)).findSome? (b.decimal? p) with
  | some r => r
  | none => (0, 0)

/-- Positional from one ten-thousandth to below ten to the sixteenth, else with an exponent of at
least two digits. -/
def layOut (ds : Text) (point : Int) : Text :=
  if -4 < point ∧ point ≤ 16 then
    if point ≤ 0 then '0' :: '.' :: (List.replicate (-point).toNat '0' ++ ds)
    else if ds.length ≤ point.toNat then
      ds ++ List.replicate (point.toNat - ds.length) '0' ++ ['.', '0']
    else ds.take point.toNat ++ '.' :: ds.drop point.toNat
  else
    let x := point - 1
    let tail : Text :=
      'e' :: (if x < 0 then '-' else '+') :: Text.padLeft 2 '0' (Nat.toDigits 10 x.natAbs)
    match ds with
    | [] => tail
    | [d] => d :: tail
    | d :: rest => d :: '.' :: (rest ++ tail)

def dropZeros (ds : Text) : Text := (ds.reverse.dropWhile (· = '0')).reverse

def shortest (x : Float) : Text :=
  match parts x with
  | .nan => "nan".toList
  | .infinite negative => (if negative then "-inf" else "inf").toList
  | .finite negative m e =>
      let sign : Text := if negative then ['-'] else []
      if m = 0 then sign ++ "0.0".toList
      else
        let (d, k) := shortestDigits m e
        let ds := Nat.toDigits 10 d
        sign ++ layOut (dropZeros ds) (ds.length + k)

def scaled? (places : Nat) (x : Float) : Option (Bool × Nat) :=
  match parts x with
  | .finite negative m e =>
      some (negative, roundDiv (m * 2 ^ e.toNat * 10 ^ places) (2 ^ (-e).toNat))
  | _ => none

def fixed (places : Nat) (x : Float) : Text :=
  match scaled? places x with
  | none => shortest x
  | some (negative, n) =>
      let ds := Text.padLeft (places + 1) '0' (Nat.toDigits 10 n)
      let whole := ds.take (ds.length - places)
      let sign : Text := if negative then ['-'] else []
      sign ++ whole ++ (if places = 0 then [] else '.' :: ds.drop (ds.length - places))

def roundTo (places : Nat) (x : Float) : Float :=
  match scaled? places x with
  | none => x
  | some (negative, n) => ofRatio negative n (10 ^ places)

end RvToolkit.Number
