import RvToolkit.Text.Span

namespace RvToolkit.Text

/-- Intervals of the white space of all scripts. -/
def blankSpans : List (Nat × Nat) := [
  (9, 13), (28, 32), (133, 133), (160, 160), (5760, 5760), (8192, 8202), (8232, 8233), (8239, 8239),
  (8287, 8287), (12288, 12288)]

def isBlank (c : Char) : Bool := inSpans blankSpans c.toNat

def trimEnd (t : Text) : Text := (t.reverse.dropWhile isBlank).reverse

def trim (t : Text) : Text := trimEnd (t.dropWhile isBlank)

/-- Maximal runs of characters that are not blank; `cur` is the run being read, last first. -/
def wordsFrom : Text → Text → List Text
  | cur, [] => if cur.isEmpty then [] else [cur.reverse]
  | cur, c :: cs =>
      if isBlank c then
        if cur.isEmpty then wordsFrom [] cs else cur.reverse :: wordsFrom [] cs
      else wordsFrom (c :: cur) cs

def words (t : Text) : List Text := wordsFrom [] t

/-- Writes every run of blanks as one space; the flag says whether the last character was blank. -/
def squeezeFrom : Bool → Text → Text
  | _, [] => []
  | after, c :: cs =>
      if isBlank c then if after then squeezeFrom true cs else ' ' :: squeezeFrom true cs
      else c :: squeezeFrom false cs

def squeeze (t : Text) : Text := squeezeFrom false t

def isLineBreak (c : Char) : Bool :=
  inSpans [(10, 13), (28, 30), (133, 133), (8232, 8233)] c.toNat

/-- Lines without their ends; a text that ends with a line break has no further empty line. -/
def linesFrom : Text → Text → List Text
  | cur, [] => if cur.isEmpty then [] else [cur.reverse]
  | cur, '\r' :: '\n' :: cs => cur.reverse :: linesFrom [] cs
  | cur, c :: cs => if isLineBreak c then cur.reverse :: linesFrom [] cs else linesFrom (c :: cur) cs

def lines (t : Text) : List Text := linesFrom [] t

def unifyBreaks : Text → Text
  | [] => []
  | '\r' :: '\n' :: cs => '\n' :: unifyBreaks cs
  | c :: cs => (if c = '\r' then '\n' else c) :: unifyBreaks cs

/-- Lines of an input that is read line by line; only line feeds end them. -/
def inputLines (t : Text) : List Text :=
  match (unifyBreaks t).splitOn '\n' with
  | ls => if ls.getLast? = some [] then ls.dropLast else ls

end RvToolkit.Text
