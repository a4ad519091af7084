import RvToolkit.CommandLine.Run
import RvToolkit.Evaluator.Standard
import Std.Time

open RvToolkit
open scoped RvToolkit.Evaluator.Reflective

def readText? (name : Text) : IO (Option Text) := do
  try
    let t ← IO.FS.readFile (String.ofList name)
    return some t.toList
  catch _ => return none

/-- What there is to read for some options. The standard input is read only if it can matter, and a
directory that is missing shows when a file is written there. -/
def worldFor (o : CommandLine.Options) : IO CommandLine.World := do
  let sources ← match CommandLine.sourceName? o with
    | some name => do
        match ← readText? name with
        | some t => pure [(name, t)]
        | none => pure []
    | none => pure []
  let stdin ← if sources.isEmpty || o.emulate then (← IO.getStdin).readToEnd else pure ""
  let directories := (CommandLine.outputNames o).map CommandLine.directory
  return { sources := sources, directories := directories, stdin := stdin.toList, budget := 0x4000000000000000 }

def timeStamp : IO Text := do
  let now ← Std.Time.PlainDateTime.now
  return (now.format "uuuu-MM-dd HH:mm:ss,SSS").toList

def main (args : List String) : IO UInt32 := do
  let argv := args.map String.toList
  let world ← match CommandLine.Options.parse argv with
    | .ok o => worldFor o
    | .error _ => pure { sources := [], budget := 0 }
  let out := CommandLine.run argv .info world
  let stamp ← timeStamp
  for r in out.log do
    IO.println (String.ofList (Log.writeLine stamp r.level.rank r.text))
  for (name, bytes) in out.state.written do
    IO.FS.writeBinFile (String.ofList name) (ByteArray.mk bytes.toArray)
  match out.result with
  | .ok _ => return 0
  | .error (.exit code) => return (code % 256).toNat.toUInt32
  | .error f => do
      IO.eprintln (String.ofList f.detail)
      return 1
