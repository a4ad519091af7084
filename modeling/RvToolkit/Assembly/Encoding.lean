import RvToolkit.Assembly.Basic
import RvToolkit.Instruction.Encode

/-! Instructions of a program as their encodings, and as the operands that a
machine runs. -/

namespace RvToolkit.Assembly

variable {σ : Type} [Evaluator]

/-- An instruction as a machine takes it. -/
structure Step where
  op : Text
  operands : Operands
deriving DecidableEq, Repr

/-- Encoding of a mnemonic with its operands, which has to be there. -/
def encodeTokens : List Text → Action σ Encoded
  | [] => Action.fail .missingItem
  | op :: args => Instruction.encode Isa.base op (args.map .text)

/-- Words of a line that stands at an address, with their symbols resolved. -/
def lineTokens (st : SymbolTable) (pc : Int) (line : Text) : Action σ (List Text) := do
  Action.note .debug ("Interpreting: ".toList ++ line)
  Action.ofExcept (resolveOperands st pc (tokens line))

/-- Goes through the lines by their numbers and adds the binary spelling of each. The address of a line
comes from its number; a line without words is passed over. -/
def translateFrom (st : SymbolTable) (base : Int) : Nat → List Text → List Text → Action σ (List Text)
  | _, codes, [] => pure codes
  | n, codes, line :: lines => do
      let ts ← lineTokens st (n * 4 + base) line
      if ts.isEmpty then translateFrom st base (n + 1) codes lines
      else
        let e ← encodeTokens ts
        Action.note .debug "Succeeded!".toList
        translateFrom st base (n + 1) (codes ++ [e.binary]) lines

/-- Binary spellings of the instructions of lines. -/
def translate (st : SymbolTable) (base : Int) (lines : List Text) : Action σ (List Text) :=
  translateFrom st base 0 [] (lines.map Text.trim)

/-- Goes through the lines with the address of the next one and enters each instruction under its
address. -/
def interpretFrom (st : SymbolTable) : Int → Assoc Int Step → List Text → Action σ (Assoc Int Step)
  | _, steps, [] => pure steps
  | pc, steps, line :: lines => do
      let ts ← lineTokens st pc line
      let e ← encodeTokens ts
      interpretFrom st (pc + 4) (steps.insert pc ⟨ts.headD [], e.operands⟩) lines

/-- The instructions of lines by address. -/
def interpret (st : SymbolTable) (base : Int) (lines : List Text) : Action σ (Assoc Int Step) :=
  interpretFrom st base [] (lines.map Text.trim)

/-- Encodings of single lines on request: a symbol table has to come with them. -/
def encodeLines (lines : List Text) (st : Option SymbolTable) (base : Int) : Action σ (List Text) :=
  match st with
  | some st => translate st base lines
  | none => Action.fail (.runtime .incompleteRequest)

/-- Encodes the program; one without instructions is refused. -/
def assemble : Action Assembly Unit := do
  Action.note .debug "Passing assembly lines from <built-in function input>".toList
  let a ← Action.get
  let encoded ← translate a.symbols a.base a.mnemonics
  if encoded.isEmpty then Action.fail (.parse .nothingEncoded)
  else Action.modify fun a => { a with encoded := encoded }

/-- The instructions of the program by address; one without instructions is refused. -/
def steps : Action Assembly (Assoc Int Step) := do
  let a ← Action.get
  let ss ← interpret a.symbols a.base a.mnemonics
  if ss.isEmpty then Action.fail (.parse .nothingAnalyzed) else return ss

/-- The forms in which encodings are emitted. -/
inductive Emission where
  | hex
  | bin
  | list
  | nibble
deriving DecidableEq, Repr

namespace Emission

def ofText? (t : Text) : Option Emission :=
  if t = "hex".toList then some .hex
  else if t = "bin".toList then some .bin
  else if t = "lst".toList then some .list
  else if t = "nib".toList then some .nibble
  else none

def announcement : Emission → Text
  | .hex => "Emitting code in hexadecimal format...".toList
  | .bin => "Emitting code in binary format...".toList
  | .list => "Emitting code in list format...".toList
  | .nibble => "Emitting code in nibble format...".toList

end Emission

def hexWord (binary : Text) : Except Fault Text :=
  match Number.readInt 2 binary with
  | .ok i => .ok ('0' :: 'x' :: Number.Layout.write ⟨16, .lower, 8, true⟩ (Bits.and i 0xffffffff))
  | .error e => .error (.value (.literal 2 binary e))

def nibbles (binary : Text) : Text := Text.join ['\t'] (Text.chunks 4 binary)

def render : Emission → List Text → Except Fault (List Text)
  | .hex, encoded => encoded.mapM hexWord
  | .bin, encoded => .ok encoded
  | .list, _ => .ok []
  | .nibble, encoded => .ok (encoded.map nibbles)

def emit (mode : Emission) : Action Assembly (List Text) := do
  Action.note .debug mode.announcement
  let a ← Action.get
  Action.ofExcept (render mode a.encoded)

end RvToolkit.Assembly
