import RvToolkit.Fault

namespace RvToolkit.Files

abbrev Path := List Text

structure Tree where
  files : List Path
  dirs : List Path

def segments (t : Text) : Path := t.splitOn '/'

def normalize (p : Path) : Path :=
  (p.foldl (fun acc s =>
    if s.isEmpty || s = ['.'] then acc
    else if s = ['.', '.'] then acc.tail
    else s :: acc) []).reverse

def ancestors (p : Path) : List Path := (List.range p.length).map fun k => p.take (k + 1)

namespace Tree

def ofNames (files dirs : List Text) : Tree :=
  let fs := (files.map fun t => normalize (segments t)).eraseDups
  let ds := dirs.map fun t => normalize (segments t)
  let parents := (ds ++ fs.map List.dropLast).flatMap ancestors
  ⟨fs, parents.eraseDups⟩

def isFile (t : Tree) (p : Path) : Bool := t.files.contains p

def isDir (t : Tree) (p : Path) : Bool := p.isEmpty || t.dirs.contains p

def hasEntry (t : Tree) (p : Path) : Bool := t.isFile p || t.isDir p

def entries (t : Tree) (p : Path) : List Text :=
  ((t.files ++ t.dirs).filterMap fun q =>
    if q.dropLast = p ∧ q ≠ [] then q.getLast? else none).eraseDups

end Tree

inductive Glob where
  | char (c : Char)
  | any
  | star
  | oneOf (negated : Bool) (spans : List (Char × Char))

namespace Glob

def spans : Text → List (Char × Char)
  | a :: '-' :: b :: cs => (a, b) :: spans cs
  | a :: cs => (a, a) :: spans cs
  | [] => []

/-- What stands between brackets, and what follows the closing one; a bracket right at the start is
one of the characters. -/
def bracket? (t : Text) : Option (Bool × Text × Text) :=
  let (negated, body) :=
    match t with
    | '!' :: cs => (true, cs)
    | cs => (false, cs)
  match body with
  | ']' :: cs => (Text.cutAt ']' cs).map fun p => (negated, ']' :: p.1, p.2)
  | cs => (Text.cutAt ']' cs).map fun p => (negated, p.1, p.2)

def readFrom : Nat → Text → List Glob
  | _, [] => []
  | k + 1, _ :: cs => readFrom k cs
  | 0, c :: cs =>
      if c = '*' then .star :: readFrom 0 cs
      else if c = '?' then .any :: readFrom 0 cs
      else if c = '[' then
        match bracket? cs with
        | some (negated, body, rest) =>
            .oneOf negated (spans body) :: readFrom (cs.length - rest.length) cs
        | none => .char c :: readFrom 0 cs
      else .char c :: readFrom 0 cs

def accepts : Glob → Char → Bool
  | .char d, c => c = d
  | .any, _ => true
  | .star, _ => false
  | .oneOf negated spans, c => (spans.any fun p => p.1 ≤ c && c ≤ p.2) != negated

def tails : Text → List Text
  | [] => [[]]
  | c :: cs => (c :: cs) :: tails cs

def matchesAll : List Glob → Text → Bool
  | [], t => t.isEmpty
  | .star :: gs, t => (tails t).any (matchesAll gs)
  | g :: gs, c :: cs => g.accepts c && matchesAll gs cs
  | _ :: _, [] => false

def isMagic (t : Text) : Bool := t.any fun c => c = '*' || c = '?' || c = '['

/-- Does a name match a pattern? A name that begins with a point is hidden from patterns that do
not. -/
def isMatch (pattern name : Text) : Bool :=
  (name.head? ≠ some '.' || pattern.head? = some '.') && matchesAll (readFrom 0 pattern) name

end Glob

def display (p : Path) : Text := if p.isEmpty then ['.'] else Text.join ['/'] p

/-- Paths that match a pattern part by part. A part without wildcards has to exist; an empty last part
asks for a directory. -/
def matching (t : Tree) : List Path → Path → List Path
  | ps, [] => ps
  | ps, s :: ss =>
      let next := ps.flatMap fun p =>
        if !t.isDir p then []
        else if s.isEmpty then [p]
        else if Glob.isMagic s then
          ((t.entries p).filter (Glob.isMatch s)).map fun n => p ++ [n]
        else if t.hasEntry (normalize (p ++ [s])) then [p ++ [s]]
        else []
      matching t next ss

def sorted (ts : List Text) : List Text := ts.mergeSort Text.le

def glob (t : Tree) (pattern : Text) : List Text :=
  sorted ((matching t [[]] (segments pattern)).map fun p => display (normalize p))

def sources (t : Tree) : List Text :=
  sorted ((t.entries []).filter fun n => t.isFile [n] && ".s".toList.isSuffixOf n)

/-- A directory that is there afterwards: its path, whether it was there before, and whether it is a
directory. A file on the way is in the way. -/
def ensureDir (t : Tree) (name : Text) : Except Fault (Text × Bool × Bool) :=
  let p := normalize (segments name)
  if t.hasEntry p then .ok (display p, true, t.isDir p)
  else if (ancestors p).any t.isFile then .error .notADirectory
  else .ok (display p, false, true)

end RvToolkit.Files
