import RvToolkit.Fault
import RvToolkit.Text.Letter

namespace RvToolkit.Expr

inductive UnaryOp where
  | plus
  | minus
  | invert
deriving DecidableEq, Repr

inductive BinaryOp where
  | add
  | sub
  | mul
  | div
  | floorDiv
  | mod
  | pow
  | shiftLeft
  | shiftRight
  | and
  | xor
  | or
deriving DecidableEq, Repr

namespace BinaryOp

def spelling : BinaryOp → Text
  | .add => "+".toList
  | .sub => "-".toList
  | .mul => "*".toList
  | .div => "/".toList
  | .floorDiv => "//".toList
  | .mod => "%".toList
  | .pow => "**".toList
  | .shiftLeft => "<<".toList
  | .shiftRight => ">>".toList
  | .and => "&".toList
  | .xor => "^".toList
  | .or => "|".toList

def rank : BinaryOp → Nat
  | .or => 1
  | .xor => 2
  | .and => 3
  | .shiftLeft | .shiftRight => 4
  | .add | .sub => 5
  | .mul | .div | .floorDiv | .mod => 6
  | .pow => 8

/-- An operator to the left with at least this rank takes its right operand first; powers bind from
the right. -/
def barrier : BinaryOp → Nat
  | .pow => 9
  | op => op.rank

end BinaryOp

/-- Unary operators bind between products and powers. -/
def unaryRank : Nat := 7

inductive Tree where
  | int (i : Int)
  | real (x : Float)
  | name (n : Text)
  | unary (op : UnaryOp) (t : Tree)
  | binary (op : BinaryOp) (l r : Tree)
  | call (f : Tree)
  | apply (f arg : Tree)

inductive Lexeme where
  | int (i : Int)
  | real (x : Float)
  | name (n : Text)
  | binary (op : BinaryOp)
  | invert
  | opening
  | closing

namespace Lexeme

/-- Length of a run of digits with single underscores between them; the flag says that an underscore
has just been read. -/
def runFrom (digit : Char → Bool) : Bool → Text → Nat
  | _, [] => 0
  | false, '_' :: cs =>
      match runFrom digit true cs with
      | 0 => 0
      | n => n + 1
  | _, c :: cs => if digit c then 1 + runFrom digit false cs else 0

def runLength (digit : Char → Bool) (t : Text) : Nat := runFrom digit true t

def plainDigits (t : Text) : List Nat := (t.filter (· ≠ '_')).filterMap (Number.digitIn? 16)

def marked? (base : Nat) (digit : Char → Bool) (cs : Text) : Option (Lexeme × Nat) :=
  let lead := match cs with
    | '_' :: _ => 1
    | _ => 0
  match runLength digit (cs.drop lead) with
  | 0 => none
  | n => some (.int (Number.ofDigits base (plainDigits ((cs.drop lead).take n))), 2 + lead + n)

def exponentLength : Text → Nat
  | e :: cs =>
      if e = 'e' || e = 'E' then
        let sign := match cs with
          | '+' :: _ | '-' :: _ => 1
          | _ => 0
        match runLength Char.isDigit (cs.drop sign) with
        | 0 => 0
        | n => 1 + sign + n
      else 0
  | [] => 0

/-- A decimal integer. Other than zero it does not begin with a zero, and it has as many digits as a
literal may have. -/
def integer? : List Nat → Option Int
  | 0 :: rest => if rest.all (· = 0) then some 0 else none
  | ds => if Number.maxDigits < ds.length then none else some (Number.ofDigits 10 ds)

def decimal? (t : Text) : Option (Lexeme × Nat) :=
  let whole := runLength Char.isDigit t
  let afterWhole := t.drop whole
  let (point, fraction) := match afterWhole with
    | '.' :: cs => (1, runLength Char.isDigit cs)
    | _ => (0, 0)
  let tail := afterWhole.drop (point + fraction)
  let expLen := exponentLength tail
  let size := whole + point + fraction + expLen
  if whole + fraction = 0 then none
  else if point = 0 ∧ expLen = 0 then
    (integer? (plainDigits (t.take whole))).map fun i => (.int i, size)
  else
    let digits := plainDigits (t.take whole) ++ plainDigits ((afterWhole.drop point).take fraction)
    let places := (plainDigits ((afterWhole.drop point).take fraction)).length
    let expText := (tail.take expLen).drop 1
    let magnitude : Int := Number.ofDigits 10 (plainDigits (expText.filter Char.isDigit))
    let power := if expText.head? = some '-' then -magnitude else magnitude
    some (.real (Number.ofDecimal false (Number.ofDigits 10 digits) (power - places)), size)

/-- The number at the front. It must not run into a letter, a digit or an underscore. -/
def number? (t : Text) : Option (Lexeme × Nat) :=
  let found := match t with
    | '0' :: m :: cs =>
        if m = 'x' || m = 'X' then marked? 16 Text.isHexDigit cs
        else if m = 'o' || m = 'O' then marked? 8 Text.isOctDigit cs
        else if m = 'b' || m = 'B' then marked? 2 Text.isBinDigit cs
        else decimal? t
    | _ => decimal? t
  match found with
  | some (l, n) =>
      match t.drop n with
      | c :: _ => if Text.isWord c then none else some (l, n)
      | [] => some (l, n)
  | none => none

def symbol? : Text → Option (Lexeme × Nat)
  | '*' :: '*' :: _ => some (.binary .pow, 2)
  | '/' :: '/' :: _ => some (.binary .floorDiv, 2)
  | '<' :: '<' :: _ => some (.binary .shiftLeft, 2)
  | '>' :: '>' :: _ => some (.binary .shiftRight, 2)
  | '+' :: _ => some (.binary .add, 1)
  | '-' :: _ => some (.binary .sub, 1)
  | '*' :: _ => some (.binary .mul, 1)
  | '/' :: _ => some (.binary .div, 1)
  | '%' :: _ => some (.binary .mod, 1)
  | '&' :: _ => some (.binary .and, 1)
  | '^' :: _ => some (.binary .xor, 1)
  | '|' :: _ => some (.binary .or, 1)
  | '~' :: _ => some (.invert, 1)
  | '(' :: _ => some (.opening, 1)
  | ')' :: _ => some (.closing, 1)
  | _ => none

def front? (c : Char) (cs : Text) : Option (Lexeme × Nat) :=
  if c.isDigit || (c = '.' && cs.head?.any Char.isDigit) then number? (c :: cs)
  else if Text.isWord c then
    let name := (c :: cs).takeWhile Text.isWord
    if Text.isDigit c then none else some (.name name, name.length)
  else symbol? (c :: cs)

/-- Lexemes of a text; a number sign ends it. The first argument counts the characters of the last
lexeme that are still to be passed over. -/
def readFrom : Nat → Text → Option (List Lexeme)
  | _, [] => some []
  | k + 1, _ :: cs => readFrom k cs
  | 0, c :: cs =>
      if c = ' ' || c = '\t' || c = '\x0c' then readFrom 0 cs
      else if c = '#' then some []
      else
        match front? c cs with
        | some (l, n) => (readFrom (n - 1) cs).map (l :: ·)
        | none => none

def readAll (t : Text) : Option (List Lexeme) := readFrom 0 t

end Lexeme

/-- What waits for the operand being read. -/
inductive Pending where
  | unary (op : UnaryOp)
  | binary (op : BinaryOp) (left : Tree)
  | group
  | call (f : Tree)

namespace Pending

/-- Gives the operand to the waiting operators that bind at least as tightly as the barrier. -/
def settle (barrier : Nat) : List Pending → Tree → List Pending × Tree
  | .unary op :: ps, t =>
      if barrier ≤ unaryRank then settle barrier ps (.unary op t) else (.unary op :: ps, t)
  | .binary op l :: ps, t =>
      if barrier ≤ op.rank then settle barrier ps (.binary op l t) else (.binary op l :: ps, t)
  | ps, t => (ps, t)

def unary? : Lexeme → Option UnaryOp
  | .binary .add => some .plus
  | .binary .sub => some .minus
  | .invert => some .invert
  | _ => none

end Pending

/-- The reader stands before an operand, or after one. -/
inductive Reading where
  | before (ps : List Pending)
  | after (ps : List Pending) (t : Tree)

namespace Reading

def step : Reading → Lexeme → Option Reading
  | .before ps, .int i => some (.after ps (.int i))
  | .before ps, .real x => some (.after ps (.real x))
  | .before ps, .name n => some (.after ps (.name n))
  | .before ps, .opening => some (.before (.group :: ps))
  | .before (.call f :: ps), .closing => some (.after ps (.call f))
  | .before ps, l => (Pending.unary? l).map fun op => .before (.unary op :: ps)
  | .after ps t, .binary op =>
      let (ps', t') := Pending.settle op.barrier ps t
      some (.before (.binary op t' :: ps'))
  | .after ps t, .opening => some (.before (.call t :: ps))
  | .after ps t, .closing =>
      match Pending.settle 0 ps t with
      | (.group :: ps', t') => some (.after ps' t')
      | (.call f :: ps', t') => some (.after ps' (.apply f t'))
      | _ => none
  | .after _ _, _ => none

def finish : Reading → Option Tree
  | .before _ => none
  | .after ps t =>
      match Pending.settle 0 ps t with
      | ([], t') => some t'
      | _ => none

end Reading

def Tree.parse? (t : Text) : Option Tree := do
  let ls ← Lexeme.readAll t
  let r ← ls.foldlM Reading.step (.before [])
  r.finish

end RvToolkit.Expr
