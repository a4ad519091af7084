import RvToolkit.Text.Blank
import RvToolkit.Text.Digit

namespace RvToolkit.Number

inductive LiteralError where
  | malformed
  | tooLong (digits : Nat)
deriving DecidableEq, Repr

def maxDigits : Nat := 4300

def digitIn? (base : Nat) (c : Char) : Option Nat :=
  let v :=
    match Text.digitValue? c with
    | some d => some d
    | none =>
        if 'a' ≤ c ∧ c ≤ 'z' then some (c.toNat - 87)
        else if 'A' ≤ c ∧ c ≤ 'Z' then some (c.toNat - 55)
        else none
  v.filter (· < base)

def digitValues? (base : Nat) : Bool → Text → Option (List Nat)
  | needed, [] => if needed then none else some []
  | needed, c :: cs =>
      if c = '_' then if needed then none else digitValues? base true cs
      else do
        let d ← digitIn? base c
        let ds ← digitValues? base false cs
        return d :: ds

def ofDigits (base : Nat) (ds : List Nat) : Nat := ds.foldl (fun n d => n * base + d) 0

def dropMark (base : Nat) : Text → Text
  | '0' :: m :: cs =>
      let marked := match base with
        | 16 => m = 'x' || m = 'X'
        | 8 => m = 'o' || m = 'O'
        | 2 => m = 'b' || m = 'B'
        | _ => false
      if marked then
        match cs with
        | '_' :: ds => ds
        | ds => ds
      else '0' :: m :: cs
  | cs => cs

def isMargin (c : Char) : Bool :=
  if c.toNat < 128 then (9 ≤ c.toNat && c.toNat ≤ 13) || c = ' ' else Text.isBlank c

def withoutMargins (t : Text) : Text :=
  ((t.dropWhile isMargin).reverse.dropWhile isMargin).reverse

def splitSign : Text → Bool × Text
  | '-' :: cs => (true, cs)
  | '+' :: cs => (false, cs)
  | cs => (false, cs)

def readInt (base : Nat) (t : Text) : Except LiteralError Int :=
  let (negative, body) := splitSign (withoutMargins t)
  match digitValues? base true (dropMark base body) with
  | none => .error .malformed
  | some ds =>
      if base = 10 ∧ maxDigits < ds.length then .error (.tooLong ds.length)
      else
        let n : Int := ofDigits base ds
        .ok (if negative then -n else n)

end RvToolkit.Number
