import RvToolkit.Fault

/-! Words of immediate expressions, as the guard in front of the evaluator reads them: a number takes
the sign that touches it, whatever stands before. -/

namespace RvToolkit.Expr

inductive Token where
  | number (spelling : Text)
  | operator (spelling : Text)
  | unary (spelling : Text)
  | opening
  | closing
deriving DecidableEq, Repr

namespace Token

def describe : Token → Value
  | .number s => .tuple [.ofText "NUMBER", .text s]
  | .operator s => .tuple [.ofText "OP", .text s]
  | .unary s => .tuple [.ofText "UNARY_OP", .text s]
  | .opening => .tuple [.ofText "LPAREN", .ofText "("]
  | .closing => .tuple [.ofText "RPAREN", .ofText ")"]

def describeEnd : Value := .tuple [.ofText "EOF", .null]

def marked? (c : Char) : Option (Char → Bool) :=
  if c = 'b' || c = 'B' then some Text.isBinDigit
  else if c = 'x' || c = 'X' then some Text.isHexDigit
  else if c = 'o' || c = 'O' then some Text.isOctDigit
  else none

/-- Length of the unsigned number at the front, 0 if there is none. A lone zero is a number also
before a mark without digits. -/
def magnitude : Text → Nat
  | '0' :: m :: cs =>
      match marked? m with
      | some digit =>
          let n := (cs.takeWhile digit).length
          if n = 0 then 1 else n + 2
      | none => 1
  | ['0'] => 1
  | c :: cs => if '1' ≤ c && c ≤ '9' then 1 + (cs.takeWhile Char.isDigit).length else 0
  | [] => 0

/-- Length of the number at the front, with its sign if one touches it. -/
def numberLength : Text → Nat
  | c :: cs =>
      if c = '+' || c = '-' then
        match magnitude cs with
        | 0 => 0
        | n => n + 1
      else magnitude (c :: cs)
  | [] => 0

def operatorLength : Text → Nat
  | '<' :: '<' :: _ => 2
  | '>' :: '>' :: _ => 2
  | c :: _ => if "+-*/&|^".toList.contains c then 1 else 0
  | [] => 0

/-- What stands at the front of a text. -/
inductive Front where
  | token (t : Token) (length : Nat)
  | skip
  | unreadable

/-- A number is tried first, so that a sign before digits always belongs to them. -/
def front (c : Char) (cs : Text) : Front :=
  match numberLength (c :: cs) with
  | n + 1 => .token (.number ((c :: cs).take (n + 1))) (n + 1)
  | 0 =>
      match operatorLength (c :: cs) with
      | n + 1 => .token (.operator ((c :: cs).take (n + 1))) (n + 1)
      | 0 =>
          if c = '~' || c = '!' then .token (.unary [c]) 1
          else if c = '(' then .token .opening 1
          else if c = ')' then .token .closing 1
          else if c = ' ' || c = '\t' then .skip
          else .unreadable

/-- Tokens of a text, if all of it can be read; the first argument counts the characters of the last
token that are still to be passed over. -/
def readFrom : Nat → Text → Option (List Token)
  | _, [] => some []
  | k + 1, _ :: cs => readFrom k cs
  | 0, c :: cs =>
      match front c cs with
      | .token t n => (readFrom (n - 1) cs).map (t :: ·)
      | .skip => readFrom 0 cs
      | .unreadable => none

def readAll (t : Text) : Option (List Token) := readFrom 0 t

end Token

end RvToolkit.Expr
