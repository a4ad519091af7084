import RvToolkit.Assembly.Image
import RvToolkit.CommandLine.Options
import RvToolkit.Emulator

namespace RvToolkit.CommandLine

/-- What the program reads and writes: texts of files, further directories, the standard input, and
the files that it has made. A silent input is open and has nothing to read. -/
structure World where
  sources : Assoc Text Text
  directories : List Text := []
  stdin : Text := []
  silent : Bool := false
  written : Assoc Text (List UInt8) := []
  budget : Nat

def level (o : Options) (default : Level) : Level :=
  if o.verbose then .debug else if o.quiet then .error else default

def announceLevel (o : Options) : Text :=
  "Current logging level is set to ".toList ++ (level o .info).name

variable {σ : Type}

def sourceName? (o : Options) : Option Text := o.source.filter fun t => !t.isEmpty

def readSource (o : Options) : Action World Text := do
  match sourceName? o with
  | some name => do
      Action.note .info ("Assembling: ".toList ++ name)
      let w ← Action.get
      match w.sources.get? name with
      | some t => return Text.unifyBreaks t
      | none => Action.fail .fileNotFound
  | none => do
      Action.note .info "Reading assembly instructions from standard input".toList
      let w ← Action.get
      if w.silent then do
        Action.note .error
          "A source code must be provided by source file (.s) provided from stdin!".toList
        Action.fail (.exit 1)
      else do
        Action.set { w with stdin := [] }
        return Text.unifyBreaks w.stdin

def build [Evaluator] (text : Text) : Action Assembly Unit := do
  Assembly.read text
  Assembly.assemble

def buildOrExit [Evaluator] (text : Text) (base : Int) : Action σ Assembly := fun s =>
  let o := (build text).run { base := base }
  match o.result with
  | .ok _ => ⟨o.log, s, .ok o.state⟩
  | .error f =>
      match f.report? with
      | some t => ⟨o.log ++ [⟨.error, "Error: ".toList ++ t⟩], s, .error (.exit (-1))⟩
      | none => ⟨o.log, s, .error f⟩

/-- Runs the program; its normal exit ends the whole run. Lines of the standard input feed the
debugger. -/
def emulate [Evaluator] (a : Assembly) : Action World Unit := fun w =>
  let m := Emulator.machine a.base (Text.inputLines w.stdin) w.budget
  let o := (do Emulator.load a; Emulator.launch : Action Machine Unit).run m
  let result : Except Fault Unit :=
    match o.result with
    | .error .normalExit => .error (.exit 0)
    | r => r
  ⟨o.log, w, result⟩

def encodingLine (mnemonic : Text) (word : Int) : Text :=
  let bytes := (Word.ofInt .unsigned word).toBytes.map fun b => '0' :: 'x' :: Number.hexByte b
  mnemonic ++ " \t# encoding: [".toList ++ Text.join [','] bytes ++ [']']

def wordOf (hex : Text) : Int :=
  match Number.readInt 16 hex with
  | .ok i => i
  | .error _ => 0

def stem (name : Text) : Text :=
  let file := (name.reverse.takeWhile (· ≠ '/')).reverse
  let directory := name.take (name.length - file.length)
  let dots := file.takeWhile (· = '.')
  let body := file.drop dots.length
  match Text.cutAt '.' body.reverse with
  | some (_, rest) => directory ++ dots ++ rest.reverse
  | none => name

def outputName (o : Options) (wanted : Option Text) (extension : Text) : Except Fault Text :=
  match wanted, o.source with
  | some name, _ => .ok name
  | none, some s => .ok (stem s ++ extension)
  | none, none => .error (.type .other)

def isWanted (output : Option (Option Text)) : Bool :=
  match output with
  | none => false
  | some none => true
  | some (some name) => !name.isEmpty

def directory (t : Text) : Text := t.take (t.length - (t.reverse.takeWhile (· ≠ '/')).length)

/-- A file can be made in the working directory, beside a file that is there, or in a directory that
is known. -/
def canMake (w : World) (name : Text) : Bool :=
  (directory name).isEmpty || w.directories.contains (directory name) ||
    w.sources.any fun p => directory p.1 = directory name

def outputNames (o : Options) : List Text :=
  [(o.binary, ".bin".toList), (o.hexadecimal, ".hex".toList)].filterMap fun p =>
    if isWanted p.1 then (outputName o (p.1.getD none) p.2).toOption else none

def writeOutput (name : Text) (items : List Text) : Action World Unit := do
  Action.note .info ("Writing output into ".toList ++ name)
  match Assembly.Image.forFile? name items with
  | none => Action.fail (.notImplemented [])
  | some image => do
      let w ← Action.get
      if canMake w name then do
        Action.set { w with written := w.written.insert name image.bytes }
        match image.fault with
        | some f => Action.fail f
        | none => return ()
      else Action.fail .fileNotFound

def emit (a : Assembly) (mode : Assembly.Emission) : Action σ (List Text) := fun s =>
  let o := (Assembly.emit mode).run a
  ⟨o.log, s, o.result⟩

def perform [Evaluator] (o : Options) : Action World Unit := do
  Action.note .info (announceLevel o)
  let text ← readSource o
  Action.note .debug ("Reading in assembly code:\n ".toList ++ text)
  let a ← buildOrExit text o.base
  if o.emulate then emulate a
  let hex ← emit a .hex
  if o.showEncoding then
    Action.forEach (fun p => Action.note .info (encodingLine p.1 (wordOf p.2))) (a.mnemonics.zip hex)
  if isWanted o.binary then
    let name ← Action.ofExcept (outputName o (o.binary.getD none) ".bin".toList)
    let bin ← emit a .bin
    writeOutput name bin
  if isWanted o.hexadecimal then
    let name ← Action.ofExcept (outputName o (o.hexadecimal.getD none) ".hex".toList)
    writeOutput name hex
  if (o.list.getD []).isEmpty then return ()
  Action.note .info "Emit list file (TODO)".toList

/-- Runs the program with the words of its command line; only the records at or above the level that
was asked for are kept. -/
def run [Evaluator] (argv : List Text) (default : Level) (w : World) : Outcome World Unit :=
  match Options.parse argv with
  | .error stop => ⟨[], w, .error (.exit stop.code)⟩
  | .ok o =>
      let out := (perform o).run w
      { out with log := out.log.atLeast (level o default) }

end RvToolkit.CommandLine
