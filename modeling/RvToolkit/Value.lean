import RvToolkit.Word
import RvToolkit.Number.Shortest
import RvToolkit.Text.Quoted

namespace RvToolkit

/-- The values that operands, symbols, checks and run plans may hold. A value of any other kind is an
object, told by the text that shows it. -/
inductive Value where
  | null
  | bool (b : Bool)
  | int (i : Int)
  | real (x : Float)
  | text (t : Text)
  | bytes (frozen : Bool) (bs : List UInt8)
  | list (vs : List Value)
  | tuple (vs : List Value)
  | word (w : Word)
  | dict (entries : List (Value × Value))
  | object (shown : Text)
deriving Inhabited

namespace Value

def kind : Value → Text
  | .null => "NoneType".toList
  | .bool _ => "bool".toList
  | .int _ => "int".toList
  | .real _ => "float".toList
  | .text _ => "str".toList
  | .bytes true _ => "bytes".toList
  | .bytes false _ => "bytearray".toList
  | .list _ => "list".toList
  | .tuple _ => "tuple".toList
  | .word ⟨.signed, _⟩ => "comm.int32.Int32".toList
  | .word ⟨.unsigned, _⟩ => "comm.int32.UInt32".toList
  | .dict _ => "dict".toList
  | .object _ => "object".toList

def wordName : Signedness → Text
  | .signed => "Int32".toList
  | .unsigned => "UInt32".toList

def byteText (mark : Char) (b : UInt8) : Text :=
  let c := Char.ofNat b.toNat
  if b.toNat < 127 then Text.quoteChar mark c else Text.escapeCode b.toNat

def quoteBytes (bs : List UInt8) : Text :=
  let mark := Text.quoteMark (bs.map fun b => Char.ofNat b.toNat)
  'b' :: mark :: (bs.flatMap (byteText mark) ++ [mark])

mutual

def inspect : Value → Text
  | .null => "None".toList
  | .bool b => (if b then "True" else "False").toList
  | .int i => Text.ofInt i
  | .real x => Number.shortest x
  | .text t => Text.quote t
  | .bytes true bs => quoteBytes bs
  | .bytes false bs => "bytearray(".toList ++ quoteBytes bs ++ [')']
  | .list vs => '[' :: (inspectAll vs ++ [']'])
  | .tuple [v] => '(' :: (inspect v ++ [',', ')'])
  | .tuple vs => '(' :: (inspectAll vs ++ [')'])
  | .word w => wordName w.sign ++ '(' :: (Text.ofInt w.value ++ [')'])
  | .dict es => '\x7b' :: (inspectEntries es ++ ['\x7d'])
  | .object shown => shown

def inspectAll : List Value → Text
  | [] => []
  | [v] => inspect v
  | v :: vs => inspect v ++ ',' :: ' ' :: inspectAll vs

def inspectEntries : List (Value × Value) → Text
  | [] => []
  | [(k, v)] => inspect k ++ ':' :: ' ' :: inspect v
  | (k, v) :: es => inspect k ++ ':' :: ' ' :: (inspect v ++ ',' :: ' ' :: inspectEntries es)

end

def display : Value → Text
  | .text t => t
  | .word w => Text.ofInt w.value
  | v => inspect v

def ofText (s : String) : Value := .text s.toList

end Value

end RvToolkit
