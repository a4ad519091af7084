import RvToolkit.Machine.Memory
import RvToolkit.Machine.RegisterFile

namespace RvToolkit

/-- A machine: its registers and memory, where it stands, and the lines that a debugging session may
still read. Each step takes one from the budget. -/
structure Machine where
  regs : RegisterFile := {}
  memory : Memory
  pc : Address := .word ⟨.unsigned, 0⟩
  cycle : Nat := 0
  halted : Bool := false
  debugging : Bool := false
  input : List Text := []
  budget : Nat

namespace Machine

def onRegs {α : Type} (x : Action RegisterFile α) : Action Machine α :=
  Action.within Machine.regs (fun rf m => { m with regs := rf }) x

def onMemory {α : Type} (x : Action Memory α) : Action Machine α :=
  Action.within Machine.memory (fun mem m => { m with memory := mem }) x

def getReg (r : Int) : Action Machine Word := onRegs (RegisterFile.read r true)

def setReg (r : Int) (w : Word) : Action Machine Unit := do
  let _ ← onRegs (RegisterFile.write r (.word w) true)
  return ()

def setPc (pc : Address) : Action Machine Unit := Action.modify fun m => { m with pc := pc }

/-- Jumps relative to the instruction, whose length has already been added. -/
def jump (offset : Word) : Action Machine Unit :=
  Action.modify fun m => { m with pc := m.pc.add (offset.value - 4) }

end Machine

end RvToolkit
