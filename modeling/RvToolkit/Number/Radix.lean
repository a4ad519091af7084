import RvToolkit.Text.Basic

namespace RvToolkit.Number

inductive LetterCase where
  | lower
  | upper
deriving DecidableEq, Repr

structure Layout where
  base : Nat := 10
  letters : LetterCase := .lower
  width : Nat := 0
  zeros : Bool := false
deriving DecidableEq, Repr

def digits (base : Nat) (letters : LetterCase) (n : Nat) : Text :=
  match letters with
  | .lower => Nat.toDigits base n
  | .upper => (Nat.toDigits base n).map Char.toUpper

/-- Filling zeros stand between the sign and the digits, filling spaces before the sign; the sign
counts in the width. -/
def Layout.write (l : Layout) (i : Int) : Text :=
  let sign : Text := if i < 0 then ['-'] else []
  let ds := digits l.base l.letters i.natAbs
  if l.zeros then sign ++ Text.padLeft (l.width - sign.length) '0' ds
  else Text.padLeft l.width ' ' (sign ++ ds)

def hex8 (i : Int) : Text := Layout.write ⟨16, .upper, 8, true⟩ i

def bin32 (i : Int) : Text := Layout.write ⟨2, .lower, 32, true⟩ i

def Layout.parse? (spec : Text) : Option Layout :=
  let (zeros, rest) :=
    match spec with
    | '0' :: cs => (true, cs)
    | cs => (false, cs)
  let width := (rest.takeWhile Char.isDigit).foldl (fun w c => w * 10 + (c.toNat - 48)) 0
  match rest.dropWhile Char.isDigit with
  | [] | ['d'] => some ⟨10, .lower, width, zeros⟩
  | ['x'] => some ⟨16, .lower, width, zeros⟩
  | ['X'] => some ⟨16, .upper, width, zeros⟩
  | ['b'] => some ⟨2, .lower, width, zeros⟩
  | ['o'] => some ⟨8, .lower, width, zeros⟩
  | _ => none

def hexMarked (i : Int) : Text :=
  (if i < 0 then ['-'] else []) ++ '0' :: 'x' :: digits 16 .lower i.natAbs

def hexByte (b : UInt8) : Text := Text.padLeft 2 '0' (Nat.toDigits 16 b.toNat)

end RvToolkit.Number
