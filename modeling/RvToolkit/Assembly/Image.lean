import RvToolkit.Fault

namespace RvToolkit.Assembly

/-- Contents of a file and the fault that ended it; what was written before the fault stays. -/
structure Image where
  bytes : List UInt8
  fault : Option Fault := none

namespace Image

def byteOf (t : Text) : Except Fault UInt8 :=
  match Number.readInt 2 t with
  | .ok i => if 0 ≤ i ∧ i < 256 then .ok i.toNat.toUInt8 else .error (.value .other)
  | .error e => .error (.value (.literal 2 t e))

def ofBinary (t : Text) : Except Fault (List UInt8) := (Text.chunks 8 t).mapM byteOf

def isAsciiBlank (c : Char) : Bool := (9 ≤ c.toNat && c.toNat ≤ 13) || c = ' '

def hexDigit? (c : Char) : Option Nat :=
  if c.isDigit then some (c.toNat - 48)
  else if 'a' ≤ c ∧ c ≤ 'f' then some (c.toNat - 87)
  else if 'A' ≤ c ∧ c ≤ 'F' then some (c.toNat - 55)
  else none

def hexPairs : Text → Except Fault (List UInt8)
  | [] => .ok []
  | [c] => if isAsciiBlank c then .ok [] else .error (.value .other)
  | c :: d :: cs =>
      if isAsciiBlank c then hexPairs (d :: cs)
      else
        match hexDigit? c, hexDigit? d with
        | some h, some l => do
            let rest ← hexPairs cs
            return (16 * h + l).toUInt8 :: rest
        | _, _ => .error (.value .other)

def ofHex : Text → Except Fault (List UInt8)
  | '0' :: 'x' :: cs => hexPairs cs
  | cs => hexPairs cs

def writeAll (f : Text → Except Fault (List UInt8)) : List Text → Image
  | [] => ⟨[], none⟩
  | t :: ts =>
      match f t with
      | .ok bs =>
          let rest := writeAll f ts
          ⟨bs ++ rest.bytes, rest.fault⟩
      | .error e => ⟨[], some e⟩

/-- The last four characters of a file name decide on the form: `.bin` or `.hex`. No other file is
written. -/
def forFile? (name : Text) (items : List Text) : Option Image :=
  let extension := name.drop (name.length - 4)
  if extension = ".bin".toList then some (writeAll ofBinary items)
  else if extension = ".hex".toList then some (writeAll ofHex items)
  else none

end Image

end RvToolkit.Assembly
