import RvToolkit.Debugger.Session

namespace RvToolkit.Emulator

/-- One step; a breakpoint starts a debugging session. -/
def step : Action Machine Unit := do
  if ← Machine.stepOrBreak then Debugger.session

def run : Action Machine Unit := Machine.runWith step

def initRegisters : Action Machine Unit := do
  let _ ← Machine.onRegs (RegisterFile.writeNamed "a0".toList (.word ⟨.unsigned, 0⟩) false)
  return ()

def launch : Action Machine Unit := do
  let m ← Action.get
  let entry := Address.word m.memory.base
  initRegisters
  Action.note .debug (Palette.paint Palette.machine
    ("[CPU] Started running from ".toList ++ Text.ofInt entry.value))
  Machine.setPc entry
  run

def machine (base : Int) (input : List Text) (budget : Nat) : Machine :=
  { memory := Memory.ofBase base, input := input, budget := budget }

def load [Evaluator] (a : Assembly) : Action Machine Unit := fun m =>
  let o := Assembly.steps.run a
  match o.result with
  | .ok steps => ⟨o.log, { m with memory := m.memory.load steps }, .ok ()⟩
  | .error e => ⟨o.log, m, .error e⟩

/-- What one step of a trace has left. -/
structure Snapshot where
  pc : Address
  changed : List (Int × Int)
  fault : Option Fault

/-- Single steps from the base, up to a number of them; a fault or the halt of the machine ends them. -/
def traceFrom : Nat → Action Machine (List Snapshot)
  | 0 => pure []
  | n + 1 => do
      let before ← Action.get
      if before.halted then return []
      let r ← Action.attempt step
      let after ← Action.get
      let changed := RegisterFile.changes before.regs after.regs
      match r with
      | .error f => return [⟨after.pc, changed, some f⟩]
      | .ok _ => do
          let rest ← traceFrom n
          return ⟨after.pc, changed, none⟩ :: rest

def trace (steps : Nat) : Action Machine (List Snapshot) := do
  let m ← Action.get
  Machine.setPc (.word m.memory.base)
  traceFrom steps

end RvToolkit.Emulator
