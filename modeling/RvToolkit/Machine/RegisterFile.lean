import RvToolkit.Action
import RvToolkit.Assoc
import RvToolkit.Register
import RvToolkit.Word.Conversion

namespace RvToolkit

/-- Contents of the registers, and the shown names of those last written and last read. -/
structure RegisterFile where
  cells : Assoc Int Word := []
  lastSet : Option Text := none
  lastRead : Option Text := none

namespace RegisterFile

def content (rf : RegisterFile) (r : Int) : Word := (rf.cells.get? r).getD ⟨.unsigned, 0⟩

/-- Reads a register; marking needs a register that has a name. -/
def read (r : Int) (mark : Bool) : Action RegisterFile Word := do
  if mark then
    let name ← Action.ofExcept (Register.aliasOf r)
    Action.modify fun rf => { rf with lastRead := some name }
  let rf ← Action.get
  return rf.content r

/-- Writes a register. Register zero is left alone; what is written is a signed word from then on. -/
def write (r : Int) (v : Value) (mark : Bool) : Action RegisterFile Bool :=
  if r = 0 then pure false
  else do
    if mark then
      let name ← Action.ofExcept (Register.aliasOf r)
      Action.modify fun rf => { rf with lastSet := some name }
    match v with
    | .word w => do
        Action.modify fun rf => { rf with cells := rf.cells.insert r w.asSigned }
        return true
    | _ => Action.fail .missingAttribute

def index (name : Text) : Except Fault Int :=
  match Register.ofAlias? name with
  | some i => .ok i
  | none => .error (.invalidRegister (.text name))

def isName (name : Text) : Bool := (Register.ofAlias? name).isSome

def readNamed (name : Text) (mark : Bool) : Action RegisterFile Word := do
  let r ← Action.ofExcept (index name)
  read r mark

def writeNamed (name : Text) (v : Value) (mark : Bool) : Action RegisterFile Bool := do
  let r ← Action.ofExcept (index name)
  let w ← Action.ofExcept (Word.ofValue .signed v)
  write r (.word w) mark

def span (l r : Int) : List Int := (List.range (r - l).toNat).map fun (k : Nat) => l + k

def nonzero (rf : RegisterFile) : List (Int × Int) :=
  (span 0 32).filterMap fun r =>
    let v := (rf.content r).value
    if v = 0 then none else some (r, v)

def changes (before after : RegisterFile) : List (Int × Int) :=
  (span 0 32).filterMap fun r =>
    let v := (after.content r).value
    if (before.content r).value = v then none else some (r, v)

def size : Nat := Register.aliases.length

def named : List Text :=
  ["zero".toList, "ra".toList, "sp".toList, "gp".toList, "tp".toList, "fp".toList]

def families : List (Text × Nat) := [("a".toList, 8), ("s".toList, 12), ("t".toList, 7)]

def familySize? (t : Text) : Option Nat := families.lookup t

def cell (rf : RegisterFile) (name : Text) : Except Fault Text := do
  let r ← index name
  let t := Text.padRight 4 ' ' name ++ '=' :: '0' :: 'x' :: Number.hex8 (rf.content r).value
  return if rf.lastSet = some name then Palette.paint Palette.error t
    else if rf.lastRead = some name then Palette.paint (Palette.orange ++ Palette.underline) t
    else if name = "zero".toList then t
    else Palette.info ++ t

def member (family : Text) (i : Int) : Text := family ++ Text.ofInt i

def row (rf : RegisterFile) (i : Nat) : Except Fault Text := do
  let cells ← families.mapM fun (family, size) =>
    if i < size then rf.cell (member family i) else .ok (List.replicate 15 ' ')
  return '\t' :: Text.join [' '] cells

def rule (columns : Nat) : Text :=
  '\t' :: (List.replicate columns (List.replicate 15 '-' ++ [' '])).flatten

/-- Lines of the table of all registers. -/
def table (oneLine : Bool) (rf : RegisterFile) : Except Fault (List Text) := do
  let names ← named.mapM rf.cell
  let rows ← (List.range 12).mapM rf.row
  let title := "Registers[".toList ++ Palette.paint (Palette.orange ++ Palette.underline) "read".toList ++
    ',' :: (Palette.paint Palette.error "written".toList ++ "]:".toList)
  let head :=
    if oneLine then ['\t' :: Text.join [' '] names, rule 6]
    else ['\t' :: Text.join [' '] (names.take 3), '\t' :: Text.join [' '] (names.drop 3), rule 3]
  return title :: (head ++ rows)

def dump (oneLine : Bool) : Action RegisterFile Unit := do
  let rf ← Action.get
  let lines ← Action.ofExcept (rf.table oneLine)
  Action.forEach (Action.note .info) lines

def dumpSpan (title : Text) (family : Text) (is : List Int) : Action RegisterFile Unit := do
  let rf ← Action.get
  let cells ← Action.ofExcept (is.mapM fun i => rf.cell (member family i))
  Action.note .info (title ++ '\n' :: Text.join [';', '\n'] cells)

def dumpFamily (family : Text) : Action RegisterFile Unit :=
  match familySize? family with
  | none => Action.note .error ("Invalid type: ".toList ++ family)
  | some n =>
      dumpSpan ("Dumping ".toList ++ family ++ "-type registers:".toList) family (span 0 n)

def dumpRange (family : Text) (l r : Int) : Action RegisterFile Unit :=
  match familySize? family with
  | none => Action.note .error ("Invalid type: ".toList ++ family)
  | some _ =>
      dumpSpan ("Dumping ".toList ++ family ++ "-type registers in given range (".toList ++ Text.ofInt l ++
        " to ".toList ++ Text.ofInt r ++ "):".toList) family (span l r)

def dumpNamed (name : Text) : Action RegisterFile Unit :=
  if isName name then do
    let rf ← Action.get
    let cell ← Action.ofExcept (rf.cell name)
    Action.note .info ("Dumping register: ".toList ++ cell)
  else Action.note .error ("Invalid register: ".toList ++ name)

end RegisterFile

end RvToolkit
