import RvToolkit.Debugger.Words
import RvToolkit.Machine.Step

namespace RvToolkit.Debugger

/-- The commands: show the instruction, continue, step, dump registers, the stack or memory. -/
inductive Command where
  | instruction
  | continue
  | step
  | dump
  | dumpStack
  | dumpMemory
deriving DecidableEq, Repr

namespace Command

def ofName? (name : Text) : Option Command :=
  [("i".toList, Command.instruction), ("c".toList, .continue), ("n".toList, .step), ("d".toList, .dump),
    ("ds".toList, .dumpStack), ("dm".toList, .dumpMemory)].lookup name

end Command

def helpLines : List String := [
  "\t'i'  - Display the current instruction at the program counter.",
  "\t\tExample: 'i'",
  "\t'c'  - Continue execution until the next breakpoint.",
  "\t\tExample: 'c'",
  "\t's'  - Execute the next instruction (step into).",
  "\t\tExample: 's'",
  "\t'd'  - Dump memory or registers. Supports subcommands for specific dumps.",
  "\t\tExamples: 'd regs' to dump all registers,",
  "\t\t          'd a 4' to dump the contents of register a4,",
  "\t'ds' - Dump the stack.",
  "\t\tExample: 'ds'",
  "\t'ri' - Run a specific instruction. You must specify the instruction and its operands.",
  "\t\tExample: 'ri add a0 a1 a2' to execute 'add' with operands a0, a1, and a2."]

def help : Action Machine Unit := do
  Action.note .info (Palette.paint Palette.debug
    "Welcome to the RV32Emu Debugger! Here are some commands you can use:".toList)
  Action.forEach (fun l => Action.note .info (Palette.paint Palette.info l.toList)) helpLines

def withoutArgs (name : String) (args : List Text) (x : Action Machine Unit) : Action Machine Unit :=
  if args.isEmpty then x else Action.fail (.type (.commandArity name.toList args.length))

def showInstruction : Action Machine Unit := do
  let m ← Action.get
  let ins ← Machine.onMemory (Memory.fetch m.pc)
  let shown ← Action.ofExcept ins.render
  Action.note .info ("Current instruction at ".toList ++ m.pc.hex ++ ':' :: ' ' :: shown)

def leave : Action Machine Unit := do
  Action.note .warning (Palette.debug ++ "Exiting debugger...".toList)
  Machine.halt
  Action.fail .normalExit

def stepInside : Action Machine Unit := do
  let _ ← Machine.stepOrBreak
  return ()

def stepOnce : Action Machine Unit :=
  Action.handle stepInside fun f =>
    match f with
    | .normalExit => leave
    | f => Action.fail f

/-- Runs until the machine halts or meets a breakpoint. -/
def continueRun : Action Machine Unit :=
  Action.handle (Machine.runWith stepInside) fun f =>
    match f with
    | .debuggerRequested => Action.note .warning (Palette.debug ++ "Returning to debugger...".toList)
    | .normalExit => leave
    | f => Action.fail f

def dumpRegisters : List Text → Action RegisterFile Unit
  | [] => RegisterFile.dump false
  | family :: args =>
      if (RegisterFile.familySize? family).isNone then
        Action.note .error ("Invalid register type: ".toList ++ family)
      else
        match args with
        | [] => RegisterFile.dumpFamily family
        | [i] => RegisterFile.dumpNamed (family ++ i)
        | [l, r] => do
            let l ← Action.ofExcept (Immediate.ofLiteral l)
            let r ← Action.ofExcept (Immediate.ofLiteral r)
            RegisterFile.dumpRange family l r
        | args =>
            Action.note .error ("Dumping registers fails: wrong input arguments: ".toList ++
              (Value.tuple ((family :: args).map .text)).inspect)

def dumpStack : Action Machine Unit := do
  let sp ← Machine.onRegs (RegisterFile.readNamed "sp".toList true)
  Machine.onMemory (Memory.dump (.word sp))

def dumpMemory : List Text → Action Machine Unit
  | [] =>
      Action.fail (.invalidAddress (.ofText "An address must be provided in order to dump memory."))
  | addr :: _ => do
      let a ← Action.ofExcept (Immediate.argument addr)
      Machine.onMemory (Memory.dump (.word (.ofInt .unsigned a)))

def runCommand : Command → List Text → Action Machine Unit
  | .instruction, args => withoutArgs "ins" args showInstruction
  | .continue, args => withoutArgs "cont" args continueRun
  | .step, args => withoutArgs "step" args stepOnce
  | .dump, args => Machine.onRegs (dumpRegisters args)
  | .dumpStack, _ => dumpStack
  | .dumpMemory, args => dumpMemory args

def runWords : List Text → Action Machine Unit
  | [] => pure ()
  | name :: args =>
      match Command.ofName? name with
      | some c => runCommand c args
      | none => do
          Action.note .error "Unknown command".toList
          help
          Action.fail (.missingKey (.text name))

/-- Runs a command line. Ordinary conditions are told and the session goes on. -/
def runLine (line : Text) : Action Machine Unit :=
  Action.handle
    (match words line with
    | .error c => Action.fail (.value c)
    | .ok ws => runWords ws)
    fun f =>
      if f.isOrdinary then Action.note .error ("Error executing command: ".toList ++ f.detail)
      else Action.fail f

/-- Runs command lines; each is taken from the input before it runs. -/
def runLines : List Text → Action Machine Unit
  | [] => pure ()
  | l :: ls => do
      Action.modify fun m => { m with input := ls }
      runLine l
      runLines ls

/-- A session reads commands to the end of the input. The exit of the program ends it, any other
report ends the whole run. -/
def session : Action Machine Unit := do
  let m ← Action.get
  if m.debugging then return ()
  Action.set { m with debugging := true }
  Action.ensure
    (do
      help
      Action.handle (runLines m.input) fun f =>
        match f with
        | .normalExit => pure ()
        | f => if f.isReported then Action.fail (.exit (-1)) else Action.fail f)
    fun m => { m with debugging := false }

end RvToolkit.Debugger
