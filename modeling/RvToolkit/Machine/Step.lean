import RvToolkit.Machine.Execute

namespace RvToolkit.Machine

/-- Takes one step from the budget. -/
def spend : Action Machine Unit := do
  let m ← Action.get
  match m.budget with
  | 0 => Action.fail .stepLimit
  | n + 1 => Action.set { m with budget := n }

def warn (t : Text) : Action Machine Unit :=
  Action.note .warning (Palette.paint Palette.machine ("[CPU] ".toList ++ t))

def halt : Action Machine Unit := Action.modify fun m => { m with halted := true }

/-- Fetches an instruction, moves on and carries it out. -/
def cycleOnce : Action Machine Unit := do
  Action.modify fun m => { m with cycle := m.cycle + 1 }
  let m ← Action.get
  let ins ← onMemory (Memory.fetch m.pc)
  let shown ← Action.ofExcept ins.render
  Action.note .debug
    (Palette.machine ++ "   ".toList ++ m.pc.hex ++ ':' :: (Palette.plain ++ ' ' :: shown))
  setPc (m.pc.add 4)
  perform ins

/-- What a trap or a report leads to; the answer says whether a debugging session is to start. Inside
a session the request is passed on. Other reports stop the machine. -/
def settle (f : Fault) : Action Machine Bool :=
  match f with
  | .debuggerRequested => do
      let m ← Action.get
      if m.debugging then Action.fail f
      else do
        warn "Debugger launch requested!".toList
        return true
  | .normalExit => do
      warn "Simulation completed!".toList
      halt
      Action.fail f
  | f =>
      match f.isReported, f.report? with
      | true, some t => do
          Action.note .info t
          warn "Halting due to exception!".toList
          halt
          return false
      | _, _ => Action.fail f

/-- One step; the answer says whether a debugging session is to start. -/
def stepOrBreak : Action Machine Bool := do
  spend
  Action.handle (do cycleOnce; return false) settle

def untilHalted (step : Action Machine Unit) : Nat → Action Machine Unit
  | 0 => Action.fail .stepLimit
  | n + 1 => do
      let m ← Action.get
      if m.halted then
        Action.note .debug (Palette.paint Palette.machine "[CPU] Program exited with code 0".toList)
      else do
        step
        untilHalted step n

/-- Every step takes one from the budget, so that the budget bounds their number. -/
def runWith (step : Action Machine Unit) : Action Machine Unit := do
  let m ← Action.get
  untilHalted step (m.budget + 1)

def describe (m : Machine) : Text :=
  "CPU(pc=".toList ++ m.pc.hex ++ ", cycle=".toList ++ Text.ofInt m.cycle ++ ", halted=".toList ++
    (if m.halted then "True" else "False").toList ++ " isa=".toList ++ Operation.describe ++ [')']

end RvToolkit.Machine
