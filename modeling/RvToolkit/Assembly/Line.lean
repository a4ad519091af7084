import RvToolkit.Text.Blank
import RvToolkit.Text.Case
import RvToolkit.Text.Letter

namespace RvToolkit.Assembly

def withoutComment (line : Text) : Text := Text.trim (line.takeWhile fun c => c ≠ ';' && c ≠ '#')

/-- The kinds of lines outside a macro definition. -/
inductive Line where
  | blank
  | macroStart (name : Text) (args : List Text)
  | directive (name args : Text)
  | label (name : Text)
  | code (text : Text)
deriving DecidableEq, Repr

def wordsWithoutCommas (t : Text) : List Text := Text.words (t.filter (· ≠ ','))

namespace Line

def word? (t : Text) : Option (Text × Text) :=
  match t.takeWhile Text.isWord with
  | [] => none
  | w => some (w, t.dropWhile Text.isWord)

def macroStart? (t : Text) : Option (Text × List Text) :=
  let mark := ".macro".toList
  if mark.isPrefixOf t then
    match t.drop mark.length with
    | c :: cs =>
        if Text.isBlank c then
          match word? (cs.dropWhile Text.isBlank) with
          | some (name, rest) =>
              let args := if rest.head?.any Text.isBlank then wordsWithoutCommas rest else []
              some (name, args)
          | none => none
        else none
    | [] => none
  else none

def isMacroEnd (t : Text) : Bool := ".endm".toList.isPrefixOf t

def directive? : Text → Option (Text × Text)
  | '.' :: cs =>
      match word? cs with
      | some (name, rest) => some (name, rest.dropWhile Text.isBlank)
      | none => none
  | _ => none

def label? (t : Text) : Option Text :=
  match word? t with
  | some (name, ':' :: _) => some name
  | _ => none

/-- Kind of a line that has no comment and no blanks around it. What stands after a label on its line
is not read. -/
def classify (t : Text) : Line :=
  if t.isEmpty then .blank
  else
    match macroStart? t with
    | some (name, args) => .macroStart name args
    | none =>
        match directive? t with
        | some (name, args) => .directive name args
        | none =>
            match label? t with
            | some name => .label name
            | none => .code t

end Line

def isLetter (c : Char) : Bool := ('a' ≤ c && c ≤ 'z') || ('A' ≤ c && c ≤ 'Z')

def isMnemonic (w : Text) : Bool :=
  let head := w.takeWhile isLetter
  !head.isEmpty && match w.dropWhile isLetter with
    | [] => true
    | '.' :: cs => !cs.isEmpty && cs.all fun c => isLetter c || c.isDigit
    | _ => false

/-- Mnemonic and operands in lower case: the mnemonic ends at the first space, commas part the
operands, and empty ones are left out. -/
def tokens (line : Text) : List Text :=
  let t := Text.trim line
  let (mnemonic, rest) :=
    match Text.cutAt ' ' t with
    | some p => p
    | none => (t, [])
  ((mnemonic :: (rest.splitOn ',').map Text.trim).filter fun w => !w.isEmpty).map Text.lower

end RvToolkit.Assembly
