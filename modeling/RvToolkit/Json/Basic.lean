import RvToolkit.Assoc
import RvToolkit.Number.Shortest

namespace RvToolkit

inductive Json where
  | null
  | bool (b : Bool)
  | int (i : Int)
  | real (x : Float)
  | text (t : Text)
  | list (vs : List Json)
  | object (fields : List (Text × Json))
deriving Inhabited

namespace Json

def field? (k : Text) : Json → Option Json
  | .object fields => Assoc.get? k fields
  | _ => none

def escapeUnit (n : Nat) : Text := '\\' :: 'u' :: Text.padLeft 4 '0' (Nat.toDigits 16 n)

def escapeChar (c : Char) : Text :=
  let n := c.toNat
  if c = '"' || c = '\\' then ['\\', c]
  else if c = '\n' then ['\\', 'n']
  else if c = '\r' then ['\\', 'r']
  else if c = '\t' then ['\\', 't']
  else if n = 8 then ['\\', 'b']
  else if n = 12 then ['\\', 'f']
  else if 32 ≤ n ∧ n < 127 then [c]
  else if n < 0x10000 then escapeUnit n
  else escapeUnit (0xd800 + (n - 0x10000) / 0x400) ++ escapeUnit (0xdc00 + (n - 0x10000) % 0x400)

def quoteText (t : Text) : Text := '"' :: (t.flatMap escapeChar ++ ['"'])

def writeReal (x : Float) : Text :=
  match Number.parts x with
  | .nan => "NaN".toList
  | .infinite negative => (if negative then "-Infinity" else "Infinity").toList
  | .finite .. => Number.shortest x

/-- Where breaks and blanks stand: everything on one line, or every item on a line of its own with
this indentation per level. -/
inductive Spread where
  | line
  | indented (width : Nat)

namespace Spread

def margin : Spread → Nat → Text
  | .line, _ => []
  | .indented width, depth => '\n' :: List.replicate (width * depth) ' '

def separator : Spread → Nat → Text
  | .line, _ => [',', ' ']
  | .indented width, depth => ',' :: margin (.indented width) depth

end Spread

mutual

def writeAt (s : Spread) (depth : Nat) : Json → Text
  | .null => "null".toList
  | .bool b => (if b then "true" else "false").toList
  | .int i => Text.ofInt i
  | .real x => writeReal x
  | .text t => quoteText t
  | .list [] => ['[', ']']
  | .list (v :: vs) =>
      '[' :: (s.margin depth ++ writeAt s (depth + 1) v ++ writeItems s depth vs ++
        (s.margin (depth - 1) ++ [']']))
  | .object [] => ['\x7b', '\x7d']
  | .object ((k, v) :: fs) =>
      '\x7b' :: (s.margin depth ++ quoteText k ++ ':' :: ' ' :: writeAt s (depth + 1) v ++
        writeFields s depth fs ++ (s.margin (depth - 1) ++ ['\x7d']))

def writeItems (s : Spread) (depth : Nat) : List Json → Text
  | [] => []
  | v :: vs => s.separator depth ++ writeAt s (depth + 1) v ++ writeItems s depth vs

def writeFields (s : Spread) (depth : Nat) : List (Text × Json) → Text
  | [] => []
  | (k, v) :: fs =>
      s.separator depth ++ quoteText k ++ ':' :: ' ' :: writeAt s (depth + 1) v ++ writeFields s depth fs

end

def write (s : Spread) (j : Json) : Text := writeAt s 1 j

end Json

end RvToolkit
