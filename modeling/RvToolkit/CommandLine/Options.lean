import RvToolkit.Number.Literal

/-! Options of the command line. An option may be shortened as long as it stays unique, flags with one
letter may be joined, and a value may be given after an equals sign. -/

namespace RvToolkit.CommandLine

inductive Setting where
  | help
  | verbose
  | quiet
  | showEncoding
  | binary
  | hexadecimal
  | list
  | source
  | base
  | emulate
deriving DecidableEq, Repr

inductive Arity where
  | flag
  | optional
  | one
deriving DecidableEq, Repr

namespace Setting

def arity : Setting → Arity
  | .help | .verbose | .quiet | .showEncoding | .emulate => .flag
  | .binary | .hexadecimal => .optional
  | .list | .source | .base => .one

def names : List (Text × Setting) := [
  ("-h".toList, .help), ("--help".toList, .help), ("-v".toList, .verbose), ("--verbose".toList, .verbose),
  ("-q".toList, .quiet), ("--quiet".toList, .quiet), ("-show-encoding".toList, .showEncoding),
  ("--show-encoding".toList, .showEncoding), ("-bin".toList, .binary), ("--binary".toList, .binary),
  ("-hex".toList, .hexadecimal), ("--hexadecimal".toList, .hexadecimal), ("-lst".toList, .list),
  ("--list".toList, .list), ("-s".toList, .source), ("--assemble".toList, .source),
  ("-base".toList, .base), ("--base-addr".toList, .base), ("-emu".toList, .emulate),
  ("--emulator".toList, .emulate)]

def ofName? (name : Text) : Option Setting := names.lookup name

end Setting

inductive Attached where
  | none
  | direct (t : Text)
  | assigned (t : Text)
deriving DecidableEq, Repr

inductive Item where
  | argument (t : Text)
  | option (name : Text) (s : Setting) (a : Attached)
  | unknown
  | dashes
deriving DecidableEq, Repr

namespace Item

def candidates (t : Text) : List Item :=
  if "--".toList.isPrefixOf t then
    let (stem, attached) :=
      match Text.cutAt '=' t with
      | some (n, v) => (n, Attached.assigned v)
      | none => (t, .none)
    (Setting.names.filter fun p => stem.isPrefixOf p.1).map fun p => .option p.1 p.2 attached
  else
    Setting.names.filterMap fun p =>
      if p.1 = t.take 2 then some (.option p.1 p.2 (.direct (t.drop 2)))
      else if t.isPrefixOf p.1 then some (.option p.1 p.2 .none)
      else none

def isNegativeNumber (t : Text) : Bool :=
  match Text.chomp t with
  | '-' :: cs =>
      let whole := cs.takeWhile Text.isDigit
      match cs.dropWhile Text.isDigit with
      | [] => !whole.isEmpty
      | '.' :: ds => !ds.isEmpty && ds.all Text.isDigit
      | _ => false
  | _ => false

def assigned? (t : Text) : Option Item :=
  match Text.cutAt '=' t with
  | some (n, v) => (Setting.ofName? n).map fun s => .option n s (.assigned v)
  | none => none

def classify? (t : Text) : Option Item :=
  match t with
  | [] => some (.argument t)
  | c :: cs =>
      if c ≠ '-' then some (.argument t)
      else
        match Setting.ofName? t with
        | some s => some (.option t s .none)
        | none =>
            if cs.isEmpty then some (.argument t)
            else
              match assigned? t with
              | some i => some i
              | none =>
                  match candidates t with
                  | [i] => some i
                  | _ :: _ :: _ => none
                  | [] =>
                      if isNegativeNumber t || t.contains ' ' then some (.argument t) else some .unknown

def classifyAll? : List Text → Option (List Item)
  | [] => some []
  | t :: ts =>
      if t = "--".toList then some (.dashes :: ts.map .argument)
      else do
        let i ← classify? t
        let is ← classifyAll? ts
        return i :: is

end Item

structure Options where
  verbose : Bool := false
  quiet : Bool := false
  showEncoding : Bool := false
  emulate : Bool := false
  binary : Option (Option Text) := none
  hexadecimal : Option (Option Text) := none
  list : Option Text := none
  source : Option Text := none
  base : Int := 0x80100
deriving DecidableEq, Repr

inductive Stop where
  | help
  | misuse
deriving DecidableEq, Repr

def Stop.code : Stop → Int
  | .help => 0
  | .misuse => 2

namespace Options

def set (o : Options) (s : Setting) (v : Option Text) : Except Stop Options :=
  match s, v with
  | .help, _ => .error .help
  | .verbose, _ => .ok { o with verbose := true }
  | .quiet, _ => .ok { o with quiet := true }
  | .showEncoding, _ => .ok { o with showEncoding := true }
  | .emulate, _ => .ok { o with emulate := true }
  | .binary, v => .ok { o with binary := some v }
  | .hexadecimal, v => .ok { o with hexadecimal := some v }
  | .list, v => .ok { o with list := v }
  | .source, v => .ok { o with source := v }
  | .base, v =>
      match Number.readInt 10 (v.getD []) with
      | .ok i => .ok { o with base := i }
      | .error _ => .error .misuse

def setAll (o : Options) : List (Setting × Option Text) → Except Stop Options
  | [] => .ok o
  | (s, v) :: rest => do
      let o' ← o.set s v
      setAll o' rest

/-- What one word sets, whether it takes the next word as its value, and whether something of it was
not understood. -/
structure Group where
  sets : List (Setting × Option Text)
  takesNext : Bool := false
  leftover : Bool := false

def joined : Text → Except Stop Group
  | [] => .ok ⟨[], false, false⟩
  | c :: cs =>
      if c = '-' then .error .misuse
      else
        match Setting.ofName? ['-', c] with
        | none => .ok ⟨[], false, true⟩
        | some s =>
            match s.arity, cs with
            | .flag, '=' :: _ => .error .misuse
            | .flag, cs => do
                let g ← joined cs
                return { g with sets := (s, none) :: g.sets }
            | _, [] => .ok ⟨[(s, none)], true, false⟩
            | _, '=' :: v => .ok ⟨[(s, some v)], false, false⟩
            | _, v => .ok ⟨[(s, some v)], false, false⟩

def group (name : Text) (s : Setting) (a : Attached) : Except Stop Group :=
  let single := !"--".toList.isPrefixOf name
  match s.arity, a with
  | .flag, .none => .ok ⟨[(s, none)], false, false⟩
  | .flag, .direct t =>
      if single && !t.isEmpty then do
        let g ← joined t
        return { g with sets := (s, none) :: g.sets }
      else .error .misuse
  | .flag, .assigned _ => .error .misuse
  | _, .none => .ok ⟨[(s, none)], true, false⟩
  | _, .direct t | _, .assigned t => .ok ⟨[(s, some t)], false, false⟩

def withValue (v : Text) : List (Setting × Option Text) → List (Setting × Option Text)
  | [] => []
  | [(s, _)] => [(s, some v)]
  | p :: ps => p :: withValue v ps

def needsValue (sets : List (Setting × Option Text)) : Bool :=
  match sets.getLast? with
  | some (s, _) => s.arity = .one
  | none => false

/-- Reads the items from left to right. The flag says whether something was not understood; that is
told only at the end. The second flag says that the next word has been taken as a value. -/
def readFrom (o : Options) (leftover : Bool) : Bool → List Item → Except Stop Options
  | _, [] => if leftover then .error .misuse else .ok o
  | true, _ :: is => readFrom o leftover false is
  | false, .option name s a :: is => do
      let g ← group name s a
      let leftover := leftover || g.leftover
      if g.takesNext then
        match is with
        | .argument v :: _ => do
            let o' ← o.setAll (withValue v g.sets)
            readFrom o' leftover true is
        | _ =>
            if needsValue g.sets then .error .misuse
            else do
              let o' ← o.setAll g.sets
              readFrom o' leftover false is
      else do
        let o' ← o.setAll g.sets
        readFrom o' leftover false is
  | false, _ :: is => readFrom o true false is

def parse (argv : List Text) : Except Stop Options :=
  match Item.classifyAll? argv with
  | some is => readFrom {} false false is
  | none => .error .misuse

end Options

end RvToolkit.CommandLine
