import RvToolkit.Text.Basic

namespace RvToolkit

/-- The six encoding formats of the base instruction set. -/
inductive Format where
  | R
  | I
  | S
  | B
  | U
  | J
deriving DecidableEq, Repr

namespace Format

def letter : Format → Char
  | .R => 'R'
  | .I => 'I'
  | .S => 'S'
  | .B => 'B'
  | .U => 'U'
  | .J => 'J'

def all : List Format := [.R, .I, .S, .B, .U, .J]

def ofText? (t : Text) : Option Format := all.find? fun f => t = [f.letter]

end Format

end RvToolkit
