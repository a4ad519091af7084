import RvToolkit.Json.Basic
import RvToolkit.Number.Literal

namespace RvToolkit.Json

inductive Token where
  | openList
  | closeList
  | openObject
  | closeObject
  | comma
  | colon
  | text (t : Text)
  | atom (t : Text)

inductive Lexing where
  | between
  | atom (cur : Text)
  | text (cur : Text)
  | escape (cur : Text)
  | unit (cur : Text) (count value : Nat)

def mark? (c : Char) : Option Token :=
  if c = '[' then some .openList
  else if c = ']' then some .closeList
  else if c = '\x7b' then some .openObject
  else if c = '\x7d' then some .closeObject
  else if c = ',' then some .comma
  else if c = ':' then some .colon
  else none

def isSpace (c : Char) : Bool := c = ' ' || c = '\t' || c = '\n' || c = '\r'

def unescape? (c : Char) : Option Char :=
  if c = '"' || c = '\\' || c = '/' then some c
  else if c = 'b' then some '\x08'
  else if c = 'f' then some '\x0c'
  else if c = 'n' then some '\n'
  else if c = 'r' then some '\r'
  else if c = 't' then some '\t'
  else none

def startToken (ts : List Token) (c : Char) : Lexing × List Token :=
  if isSpace c then (.between, ts)
  else if c = '"' then (.text [], ts)
  else
    match mark? c with
    | some t => (.between, t :: ts)
    | none => (.atom [c], ts)

/-- One character of the text: the next state, and the tokens read so far, last first. The unit of a
high surrogate waits, as a character of the private area, for the low one. -/
def lexStep (s : Lexing) (ts : List Token) (c : Char) : Option (Lexing × List Token) :=
  match s with
  | .between => some (startToken ts c)
  | .atom cur =>
      if isSpace c || c = '"' || (mark? c).isSome then some (startToken (.atom cur.reverse :: ts) c)
      else some (.atom (c :: cur), ts)
  | .text cur =>
      if c = '"' then some (.between, .text cur.reverse :: ts)
      else if c = '\\' then some (.escape cur, ts)
      else if c.toNat < 32 then none
      else some (.text (c :: cur), ts)
  | .escape cur =>
      if c = 'u' then some (.unit cur 0 0, ts)
      else (unescape? c).map fun d => (.text (d :: cur), ts)
  | .unit cur count value =>
      match Number.digitIn? 16 c with
      | none => none
      | some d =>
          let value := 16 * value + d
          if count < 3 then some (.unit cur (count + 1) value, ts)
          else if 0xd800 ≤ value ∧ value < 0xdc00 then
            some (.text (Char.ofNat (0xf0000 + value) :: cur), ts)
          else if 0xdc00 ≤ value ∧ value < 0xe000 then
            match cur with
            | h :: rest =>
                if 0xfd800 ≤ h.toNat ∧ h.toNat < 0xfdc00 then
                  let n := 0x10000 + (h.toNat - 0xfd800) * 0x400 + (value - 0xdc00)
                  some (.text (Char.ofNat n :: rest), ts)
                else some (.text ('�' :: cur), ts)
            | [] => some (.text ['�'], ts)
          else some (.text (Char.ofNat value :: cur), ts)

def lexFrom : Lexing → List Token → Text → Option (List Token)
  | .between, ts, [] => some ts.reverse
  | .atom cur, ts, [] => some (.atom cur.reverse :: ts).reverse
  | _, _, [] => none
  | s, ts, c :: cs =>
      match lexStep s ts c with
      | some (s', ts') => lexFrom s' ts' cs
      | none => none

def number? (t : Text) : Option Json :=
  let (negative, body) :=
    match t with
    | '-' :: cs => (true, cs)
    | cs => (false, cs)
  let whole := body.takeWhile Char.isDigit
  let rest := body.dropWhile Char.isDigit
  let digit (c : Char) : Nat := c.toNat - 48
  if whole.isEmpty || (whole.head? = some '0' && 1 < whole.length) then none
  else if rest.isEmpty then
    let n : Int := Number.ofDigits 10 (whole.map digit)
    some (.int (if negative then -n else n))
  else
    let (fraction, rest, fractionOk) :=
      match rest with
      | '.' :: cs => (cs.takeWhile Char.isDigit, cs.dropWhile Char.isDigit, cs.head?.any Char.isDigit)
      | cs => ([], cs, true)
    let exponent? : Option Int :=
      match rest with
      | [] => some 0
      | e :: cs =>
          if e = 'e' || e = 'E' then
            let (below, ds) :=
              match cs with
              | '-' :: ds => (true, ds)
              | '+' :: ds => (false, ds)
              | ds => (false, ds)
            if ds.isEmpty || !ds.all Char.isDigit then none
            else
              let n : Int := Number.ofDigits 10 (ds.map digit)
              some (if below then -n else n)
          else none
    match exponent? with
    | some e =>
        if fractionOk then
          let mantissa := Number.ofDigits 10 ((whole ++ fraction).map digit)
          some (.real (Number.ofDecimal negative mantissa (e - fraction.length)))
        else none
    | none => none

def atom? (t : Text) : Option Json :=
  if t = "null".toList then some .null
  else if t = "true".toList then some (.bool true)
  else if t = "false".toList then some (.bool false)
  else if t = "NaN".toList then some (.real (0.0 / 0.0))
  else if t = "Infinity".toList then some (.real (1.0 / 0.0))
  else if t = "-Infinity".toList then some (.real (-1.0 / 0.0))
  else number? t

inductive Frame where
  | list (items : List Json)
  | object (fields : List (Text × Json)) (key : Text)

inductive Expect where
  | value
  | valueOrClose
  | keyOrClose
  | key
  | colon
  | separator

structure Parsing where
  expect : Expect := .value
  stack : List Frame := []
  result : Option Json := none

namespace Parsing

def accept (p : Parsing) (v : Json) : Parsing :=
  match p.stack with
  | [] => ⟨.separator, [], some v⟩
  | .list items :: fs => ⟨.separator, .list (v :: items) :: fs, none⟩
  | .object fields k :: fs => ⟨.separator, .object ((k, v) :: fields) k :: fs, none⟩

def close (p : Parsing) (t : Token) : Option Parsing :=
  match t, p.stack with
  | .closeList, .list items :: fs => some (accept ⟨.value, fs, none⟩ (.list items.reverse))
  | .closeObject, .object fields _ :: fs =>
      some (accept ⟨.value, fs, none⟩ (.object (Assoc.ofPairs fields.reverse)))
  | _, _ => none

def value (p : Parsing) : Token → Option Parsing
  | .openList => some ⟨.valueOrClose, .list [] :: p.stack, none⟩
  | .openObject => some ⟨.keyOrClose, .object [] [] :: p.stack, none⟩
  | .text t => some (p.accept (.text t))
  | .atom t => (atom? t).map p.accept
  | _ => none

def step (p : Parsing) (t : Token) : Option Parsing :=
  if p.result.isSome then none
  else
    match p.expect, t with
    | .value, t => p.value t
    | .valueOrClose, .closeList => p.close t
    | .valueOrClose, t => p.value t
    | .keyOrClose, .closeObject => p.close t
    | .keyOrClose, .text k | .key, .text k =>
        match p.stack with
        | .object fields _ :: fs => some ⟨.colon, .object fields k :: fs, none⟩
        | _ => none
    | .colon, .colon => some { p with expect := .value }
    | .separator, .comma =>
        match p.stack with
        | .list _ :: _ => some { p with expect := .value }
        | .object _ _ :: _ => some { p with expect := .key }
        | [] => none
    | .separator, t => p.close t
    | _, _ => none

end Parsing

def parse? (t : Text) : Option Json := do
  let ts ← lexFrom .between [] t
  let p ← ts.foldlM Parsing.step {}
  p.result

end RvToolkit.Json
