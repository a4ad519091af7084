import RvToolkit.Word
import RvToolkit.Value

namespace RvToolkit

/-- An address: a word, which wraps, or a plain integer, as an indirect jump leaves it. -/
inductive Address where
  | word (w : Word)
  | plain (i : Int)
deriving DecidableEq, Repr

namespace Address

def value : Address → Int
  | .word w => w.value
  | .plain i => i

def add : Address → Int → Address
  | .word w, i => .word (w.add i)
  | .plain a, i => .plain (a + i)

def toWord (a : Address) : Word := Word.ofInt .unsigned a.value

def toValue : Address → Value
  | .word w => .word w
  | .plain i => .int i

def hex (a : Address) : Text := '0' :: 'x' :: Number.hex8 a.value

end Address

end RvToolkit
