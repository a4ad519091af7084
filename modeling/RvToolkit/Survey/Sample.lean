import RvToolkit.Digest
import RvToolkit.Number.Literal
import RvToolkit.Number.Radix
import RvToolkit.Number.Shortest
import RvToolkit.Text.Quoted
import RvToolkit.Word

namespace RvToolkit.Survey

inductive BytesKind where
  | bytes
  | bytearray
  | memoryview
deriving DecidableEq, Repr

structure Grid (α : Type) where
  shape : List Nat
  items : List α
deriving Inhabited

inductive Sample where
  | null
  | bool (b : Bool)
  | int (i : Int)
  | real (x : Float)
  | complex (re im : Float)
  | text (t : Text)
  | bytes (kind : BytesKind) (bs : List UInt8)
  | list (vs : List Sample)
  | tuple (vs : List Sample)
  | decimal (t : Text)
  | fraction (num : Int) (den : Int)
  | date (year month day : Int)
  | duration (days seconds : Int)
  | path (t : Text)
  | uuid (hex : Text)
  | word
  | thing
  | integers (g : Grid Int)
  | reals (g : Grid Float)
deriving Inhabited

namespace Sample

def typeName : Sample → Text
  | .null => "NoneType".toList
  | .bool _ => "bool".toList
  | .int _ => "int".toList
  | .real _ => "float".toList
  | .complex .. => "complex".toList
  | .text _ => "str".toList
  | .bytes .bytes _ => "bytes".toList
  | .bytes .bytearray _ => "bytearray".toList
  | .bytes .memoryview _ => "memoryview".toList
  | .list _ => "list".toList
  | .tuple _ => "tuple".toList
  | .decimal _ => "Decimal".toList
  | .fraction .. => "Fraction".toList
  | .date .. => "date".toList
  | .duration .. => "timedelta".toList
  | .path _ => "PurePosixPath".toList
  | .uuid _ => "UUID".toList
  | .word => "Int32".toList
  | .thing => "object".toList
  | .integers _ | .reals _ => "ndarray".toList

def utf8 (t : Text) : List UInt8 := (String.ofList t).toUTF8.toList

def sixDigits (x : Float) : Text :=
  match Number.parts x with
  | .finite negative m e =>
      if m = 0 then Number.shortest x
      else
        let num := m * 2 ^ e.toNat
        let den := 2 ^ (-e).toNat
        let k := Number.decimalExponent num den - 5
        let d := Number.roundDiv (num * 10 ^ (-k).toNat) (den * 10 ^ k.toNat)
        Number.shortest (Number.ofDecimal negative d k)
  | _ => Number.shortest x

def shapeText : List Nat → Text
  | [n] => '(' :: Text.ofInt n ++ [',', ')']
  | ns => '(' :: Text.join [',', ' '] (ns.map fun (n : Nat) => Text.ofInt n) ++ [')']

def wideBytes (i : Int) : List UInt8 :=
  (List.range 8).map fun k => ((i % 0x10000000000000000).toNat / 256 ^ k).toUInt8

def call (name : String) (args : List Text) : Text :=
  name.toList ++ '(' :: Text.join [',', ' '] args ++ [')']

/-- Text of a decimal with its digits kept: positional unless the last digit stands before the point
or the first one more than six places behind it. -/
def decimalText (t : Text) : Text :=
  let (sign, body) : Text × Text := match t with
    | '-' :: cs => (['-'], cs)
    | '+' :: cs => ([], cs)
    | cs => ([], cs)
  let (mantissa, power) := (Text.cutAt 'e' (body.map Char.toLower)).getD (body, ['0'])
  let (whole, places) := (Text.cutAt '.' mantissa).getD (mantissa, [])
  match Number.readInt 10 power with
  | .error _ => t
  | .ok e =>
      if !(whole ++ places).all Char.isDigit || (whole ++ places).isEmpty then t
      else
        let ds := match (whole ++ places).dropWhile (· = '0') with
          | [] => ['0']
          | ds => ds
        let last : Int := e - places.length
        let first : Int := last + ds.length - 1
        if last ≤ 0 ∧ -6 ≤ first then
          let padded := Text.padLeft ((-last).toNat + 1) '0' ds
          let cut := padded.length - (-last).toNat
          sign ++ padded.take cut ++ if last = 0 then [] else '.' :: padded.drop cut
        else
          sign ++ ds.take 1 ++ (if ds.length = 1 then [] else '.' :: ds.drop 1) ++
            'E' :: (if first < 0 then '-' else '+') :: Text.ofInt first.natAbs

def fractionText (num den : Int) : Text :=
  let g : Int := if den < 0 then -(Int.gcd num den : Int) else Int.gcd num den
  call "Fraction" [Text.ofInt (num / g), Text.ofInt (den / g)]

def durationText (days seconds : Int) : Text :=
  let d := days + seconds / 86400
  let s := seconds % 86400
  let part (name : String) (i : Int) : List Text :=
    if i = 0 then [] else [name.toList ++ '=' :: Text.ofInt i]
  match part "days" d ++ part "seconds" s with
  | [] => call "datetime.timedelta" [['0']]
  | args => call "datetime.timedelta" args

def plainPath (t : Text) : Text :=
  let steps := (t.splitOn '/').filter fun u => !(u.isEmpty || u = ['.'])
  let root : Text := match t with
    | '/' :: '/' :: '/' :: _ => ['/']
    | '/' :: '/' :: _ => ['/', '/']
    | '/' :: _ => ['/']
    | _ => []
  match root ++ Text.join ['/'] steps with
  | [] => ['.']
  | u => u

def groupedHex (hex : Text) : Text :=
  Text.join ['-'] [hex.take 8, (hex.drop 8).take 4, (hex.drop 12).take 4, (hex.drop 16).take 4,
    hex.drop 20]

mutual

/-- The bytes whose digest is the fingerprint. Lists and tuples are not told apart, nor are texts and
byte strings; doubles count at six digits. -/
def canonical : Sample → List UInt8
  | .null => utf8 "None".toList
  | .bool b => utf8 (if b then "True" else "False").toList
  | .int i => utf8 (Text.ofInt i)
  | .real x => utf8 (sixDigits x)
  | .complex re im => utf8 ('c' :: sixDigits re ++ sixDigits im)
  | .text t => utf8 ('s' :: t)
  | .bytes _ bs => utf8 ['s'] ++ bs
  | .list vs | .tuple vs => utf8 ('L' :: Text.ofInt vs.length) ++ canonicalAll vs
  | .decimal t => utf8 (call "Decimal" [Text.quote (decimalText t)])
  | .fraction num den => utf8 (fractionText num den)
  | .date y m d => utf8 (call "datetime.date" [Text.ofInt y, Text.ofInt m, Text.ofInt d])
  | .duration days seconds => utf8 (durationText days seconds)
  | .path t => utf8 (call "PurePosixPath" [Text.quote (plainPath t)])
  | .uuid hex => utf8 (call "UUID" [Text.quote (groupedHex (hex.map Char.toLower))])
  | .word => utf8 "<comm.int32.Int32>".toList
  | .thing => utf8 "<builtins.object>".toList
  | .integers g =>
      utf8 ('A' :: shapeText g.shape ++ "<i8".toList) ++ Digest.sha256 (g.items.flatMap wideBytes)
  | .reals g => utf8 ('A' :: shapeText g.shape ++ "<f8".toList ++ g.items.flatMap sixDigits)

def canonicalAll : List Sample → List UInt8
  | [] => []
  | v :: vs => canonical v ++ canonicalAll vs

end

def fingerprint (v : Sample) : Text := (Digest.sha256 v.canonical).flatMap Number.hexByte

end Sample

end RvToolkit.Survey
