import RvToolkit.Assoc
import RvToolkit.Value

namespace RvToolkit

structure Macro where
  args : List Text
  lines : List Text
deriving DecidableEq, Repr

/-- Labels and constants with their values. -/
abbrev Assembly.SymbolTable := Assoc Text Value

/-- A program being assembled. -/
structure Assembly where
  base : Int
  lines : List Text := []
  /-- For each instruction, the index of the line that it comes from. -/
  indices : List Nat := []
  mnemonics : List Text := []
  symbols : Assembly.SymbolTable := []
  encoded : List Text := []
  macros : Assoc Text Macro := []

end RvToolkit
