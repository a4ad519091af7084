import RvToolkit.Action
import RvToolkit.Assembly.Encoding
import RvToolkit.Machine.Instr
import RvToolkit.Word.Conversion

namespace RvToolkit

/-- Program memory: instructions by address. The size is known once a program has been loaded. -/
structure Memory where
  base : Word
  program : Assoc Int Instr := []
  size : Option Nat := none

namespace Memory

def ofBase (base : Int) : Memory := ⟨.ofInt .unsigned base, [], none⟩

def ofValue (base : Value) : Except Fault Memory := do
  return ⟨← Word.ofValue .unsigned base, [], none⟩

def loadStep (program : Assoc Int Instr) (entry : Int × Assembly.Step) : Assoc Int Instr :=
  program.insert entry.1
    ⟨entry.2.op, .plain entry.1, entry.2.operands.regs.map (·.map Int.ofNat), entry.2.operands.imm⟩

def load (m : Memory) (steps : Assoc Int Assembly.Step) : Memory :=
  { m with program := steps.foldl loadStep m.program, size := some steps.length }

def fetch (addr : Address) : Action Memory Instr := do
  Action.note .debug ("Reading from ".toList ++ addr.hex)
  let m ← Action.get
  match m.program.get? addr.value with
  | some ins => return ins
  | none => Action.fail (.missingKey addr.toValue)

def distance (m : Memory) : Address → Word
  | .word w => w.sub m.base.value
  | .plain i => (Word.ofInt .unsigned i).sub m.base.value

/-- Is there an instruction at the address? Checked in this order: not below the base, not beyond
the program, on a multiple of four. -/
def isValid (addr : Address) : Action Memory Bool := do
  let m ← Action.get
  let given := "Given address ".toList ++ addr.hex
  if addr.value < m.base.value then
    Action.note .error
      (given ++ " is below base address ".toList ++ (Address.word m.base).hex ++ ['.'])
    return false
  match m.size with
  | none => Action.fail .missingAttribute
  | some size =>
      if (size : Int) ≤ ((m.distance addr).shiftRight 2).value then
        Action.note .error (given ++ " is out of memory range.".toList)
        return false
      match addr with
      | .plain _ => Action.fail .missingAttribute
      | .word w =>
          if Bits.and w.value 3 ≠ 0 then
            Action.note .error (given ++ " must be aligned by 4 bytes.".toList)
            return false
          return true

def dump (addr : Address) : Action Memory Unit := do
  if ← isValid addr then
    let ins ← fetch (.word addr.toWord)
    let shown ← Action.ofExcept ins.render
    Action.note .info (Palette.bold ++ addr.hex ++ ':' :: ' ' :: shown)

end Memory

end RvToolkit
