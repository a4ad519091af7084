import RvToolkit.Immediate

namespace RvToolkit.Assembly

variable [Evaluator]

namespace SymbolTable

/-- What is written for a symbol at an address: its value less that address. -/
def relative (pc : Int) : Value → Except Fault Text
  | .word w => .ok (Text.ofInt (w.sub pc).value)
  | v => Evaluator.combine .sub v pc

/-- Writes the symbols of an operand as numbers, one symbol after the other, wherever their names
stand in what has been written so far. -/
def link (pc : Int) : SymbolTable → Text → Except Fault Text
  | [], t => .ok t
  | (name, v) :: st, t =>
      if Text.occurs name t then do
        let shown ← relative pc v
        link pc st (Text.replace name shown t)
      else link pc st t

end SymbolTable

/-- An operand with its symbols resolved and a register under its numbered name. -/
def resolveOperand (st : SymbolTable) (pc : Int) (t : Text) : Except Fault Text := do
  let linked ← st.link pc t
  if Register.isName linked then Register.toNumbered linked else .ok linked

/-- The mnemonic stays as it is; there has to be one. -/
def resolveOperands (st : SymbolTable) (pc : Int) : List Text → Except Fault (List Text)
  | [] => .error .missingItem
  | op :: args => do
      let resolved ← args.mapM (resolveOperand st pc)
      return op :: resolved

end RvToolkit.Assembly
