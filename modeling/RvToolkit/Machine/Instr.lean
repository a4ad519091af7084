import RvToolkit.Check
import RvToolkit.Machine.Address
import RvToolkit.Register

namespace RvToolkit

/-- An instruction in memory. -/
structure Instr where
  name : Text
  addr : Address := .plain 0
  regs : Option (List Int) := none
  imm : Option Int := none

/-- The two readings of an immediate: as it is, and from the address of its instruction. -/
structure Offset where
  fromHere : Word
  alone : Word
deriving DecidableEq, Repr

namespace Instr

def render (ins : Instr) : Except Fault Text :=
  if (ins.regs.getD []).isEmpty ∧ ins.imm.getD 0 = 0 then .ok ins.name
  else
    match ins.regs with
    | none => .error (.type .other)
    | some regs => do
        let names ← regs.mapM Register.aliasOf
        let imm := match ins.imm with
          | some i => ',' :: ' ' :: Text.ofInt i
          | none => []
        return Text.trim (ins.name ++ ' ' :: (Text.join [',', ' '] names ++ imm))

def offset (ins : Instr) : Except Fault Offset :=
  match ins.imm with
  | none => do
      let shown ← ins.render
      .error (.numberFormat (.noImmediate shown))
  | some i => .ok ⟨.ofInt .signed (ins.addr.add i).value, .ofInt .signed i⟩

def reg (ins : Instr) (k : Int) : Except Fault Int :=
  match ins.regs with
  | none => .error (.type .other)
  | some regs =>
      let i := if k < 0 then k + regs.length else k
      if i < 0 then .error .missingItem
      else
        match regs[i.toNat]? with
        | some r => .ok r
        | none => .error .missingItem

def regsValue (ins : Instr) : Value :=
  match ins.regs with
  | none => .null
  | some regs => .list (regs.map .int)

/-- The instruction has to have this many registers. -/
def expect (ins : Instr) (n : Nat) : Except Fault Unit := Check.length ins.regsValue n

def immValue (ins : Instr) : Value :=
  match ins.imm with
  | none => .null
  | some i => .int i

end Instr

end RvToolkit
