import RvToolkit.Action
import RvToolkit.Assembly.Line
import RvToolkit.Assembly.Symbol

namespace RvToolkit

namespace Assembly

variable [Evaluator]

/-- The macro whose definition is being read, its lines last first. -/
structure OpenMacro where
  name : Text
  args : List Text
  body : List Text

/-- Where the reader stands: inside which macro, and after how many instructions. -/
structure Reader where
  inside : Option OpenMacro := none
  count : Nat := 0

def define (name value : Text) : Action Assembly Unit := do
  let v ← Evaluator.constantValue value
  Action.modify fun a => { a with symbols := a.symbols.insert name v }
  let shown ← Action.ofExcept (Evaluator.display v)
  Action.note .info ("Defined ".toList ++ name ++ " as ".toList ++ shown)

/-- A constant: its name and its value, parted by a comma. -/
def equate (args : Text) : Action Assembly Unit :=
  match args.splitOn ',' with
  | [name, value] =>
      (define (Text.lower (Text.trim name)) (Text.trim value)).handle fun e => Action.fail e.ofConstant
  | args => Action.fail (.parse (.equateArity args))

def directive (name args : Text) : Action Assembly Unit :=
  if name = "equ".toList then equate args else pure ()

def Macro.bind (m : Macro) (given : List Text) : Assoc Text Text := Assoc.ofPairs (m.args.zip given)

def Macro.fill (binding : Assoc Text Text) (line : Text) : Text :=
  binding.foldl (fun t p => Text.replace ('\\' :: p.1) p.2 t) line

/-- The lines of a macro that is called, or the line itself. -/
def expand (a : Assembly) (line : Text) : Text :=
  match wordsWithoutCommas line with
  | [] => line
  | name :: given =>
      match a.macros.get? name with
      | some m => Text.join ['\n'] (m.lines.map (Macro.fill (Macro.bind m given)))
      | none => line

def isInstruction (line : Text) : Except Fault Bool :=
  match Text.words line with
  | w :: _ => .ok (isMnemonic w)
  | [] => .error .missingItem

def addInstruction (index : Nat) (line : Text) : Action Assembly Unit := do
  if ← Action.ofExcept (isInstruction line) then
    let shown := Text.trim (Text.squeeze line)
    Action.modify fun a =>
      { a with indices := a.indices ++ [index], mnemonics := a.mnemonics ++ [shown] }
  else
    Action.fail (.unknownAssembly
      (.text ("Unknown assembly code detected: ".toList ++ line ++ ['!'])))

def readInside (m : OpenMacro) (r : Reader) (line : Text) : Action Assembly Reader :=
  if line.isEmpty then pure r
  else if Line.isMacroEnd line then do
    Action.modify fun a => { a with macros := a.macros.insert m.name ⟨m.args, m.body.reverse⟩ }
    return { r with inside := none }
  else pure { r with inside := some { m with body := line :: m.body } }

def readOutside (index : Nat) (r : Reader) (line : Text) : Action Assembly Reader :=
  match Line.classify line with
  | .blank => pure r
  | .macroStart name args => pure { r with inside := some ⟨name, args, []⟩ }
  | .directive name args => do
      directive name args
      return r
  | .label name => do
      Action.modify fun a =>
        { a with symbols := a.symbols.insert name (.int (a.base + 4 * r.count)) }
      return r
  | .code text => do
      let a ← Action.get
      let lines := (expand a text).splitOn '\n'
      Action.forEach (addInstruction index) lines
      return { r with count := r.count + lines.length }

def readLine (index : Nat) (r : Reader) (line : Text) : Action Assembly Reader :=
  let line := withoutComment line
  match r.inside with
  | some m => readInside m r line
  | none => readOutside index r line

def readLines : Nat → Reader → List Text → Action Assembly Reader
  | _, r, [] => pure r
  | index, r, l :: ls => do
      let r' ← readLine index r l
      readLines (index + 1) r' ls

/-- Reads a text into the program: its lines are kept, its instructions, labels, constants and macros
are added to those that are there. -/
def read (text : Text) : Action Assembly Unit := do
  let lines := Text.lines text
  Action.modify fun a => { a with lines := lines }
  let r ← readLines 0 {} lines
  Action.note .debug
    ("Preprocess is completed with ".toList ++ Text.ofInt r.count ++
      " assembly instructions in total".toList)

/-- The program of a text that is to stand at an address. -/
def ofText (text : Text) (base : Int) : Outcome Assembly Unit := (read text).run ⟨base, [], [], [], [], [], []⟩

end Assembly

end RvToolkit
