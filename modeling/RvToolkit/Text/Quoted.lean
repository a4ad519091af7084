import RvToolkit.Text.Printable
import RvToolkit.Number.Radix

namespace RvToolkit.Text

def escapeCode (n : Nat) : Text :=
  let ds := Nat.toDigits 16 n
  if n < 256 then '\\' :: 'x' :: padLeft 2 '0' ds
  else if n < 65536 then '\\' :: 'u' :: padLeft 4 '0' ds
  else '\\' :: 'U' :: padLeft 8 '0' ds

def quoteChar (mark c : Char) : Text :=
  if c = mark || c = '\\' then ['\\', c]
  else if c = '\n' then ['\\', 'n']
  else if c = '\r' then ['\\', 'r']
  else if c = '\t' then ['\\', 't']
  else if isPrintable c then [c]
  else escapeCode c.toNat

def quoteMark (t : Text) : Char :=
  if t.contains '\'' && !t.contains '"' then '"' else '\''

def quote (t : Text) : Text :=
  let mark := quoteMark t
  mark :: (t.flatMap (quoteChar mark) ++ [mark])

end RvToolkit.Text
