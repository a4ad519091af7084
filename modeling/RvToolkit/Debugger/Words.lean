import RvToolkit.Fault

namespace RvToolkit.Debugger

/-- Where the reader stands. An escape remembers the quote that it stands in. -/
inductive Quoting where
  | gap
  | word
  | quote (mark : Char)
  | escape (within : Option Char)
deriving DecidableEq, Repr

/-- The word being read, last character first, and whether a quote has made it a word already. -/
structure Splitting where
  mode : Quoting := .gap
  cur : Text := []
  quoted : Bool := false
  done : List Text := []

namespace Splitting

def isSeparator (c : Char) : Bool := c = ' ' || c = '\t' || c = '\r' || c = '\n'

def isQuote (c : Char) : Bool := c = '\'' || c = '"'

def flush (s : Splitting) : Splitting :=
  if s.cur.isEmpty && !s.quoted then { s with mode := .gap }
  else ⟨.gap, [], false, s.cur.reverse :: s.done⟩

def push (s : Splitting) (mode : Quoting) (c : Char) : Splitting := { s with mode := mode, cur := c :: s.cur }

def step (s : Splitting) (c : Char) : Splitting :=
  match s.mode with
  | .gap | .word =>
      if isSeparator c then s.flush
      else if c = '\\' then { s with mode := .escape none }
      else if isQuote c then { s with mode := .quote c, quoted := true }
      else s.push .word c
  | .quote mark =>
      if c = mark then { s with mode := .word }
      else if c = '\\' && mark = '"' then { s with mode := .escape (some mark) }
      else s.push (.quote mark) c
  | .escape none => s.push .word c
  | .escape (some mark) =>
      if c = '\\' || c = mark then s.push (.quote mark) c
      else (s.push (.quote mark) '\\').push (.quote mark) c

def finish (s : Splitting) : Except ValueCause (List Text) :=
  match s.mode with
  | .gap | .word => .ok s.flush.done.reverse
  | .quote _ => .error .unclosedQuote
  | .escape _ => .error .loneEscape

end Splitting

def words (line : Text) : Except ValueCause (List Text) :=
  (line.foldl Splitting.step {}).finish

end RvToolkit.Debugger
