import RvToolkit.Json.Basic

namespace RvToolkit

structure RunPlan.Entry where
  src : Json := .text []
  set : List (Text × Json) := []
  check : List (Text × Json) := []

structure RunPlan where
  entries : List RunPlan.Entry := []
  current : Option RunPlan.Entry := none

namespace RunPlan

def Entry.toJson (e : Entry) : Json :=
  .object [("src".toList, e.src), ("set".toList, .object e.set), ("check".toList, .object e.check)]

def close (p : RunPlan) : RunPlan :=
  match p.current with
  | some e => ⟨p.entries ++ [e], none⟩
  | none => p

def addEntry (p : RunPlan) : RunPlan := { p.close with current := some {} }

def update (f : Entry → Entry) (p : RunPlan) : RunPlan := { p with current := some (f (p.current.getD {})) }

def addSrc (src : Json) : RunPlan → RunPlan := update fun e => { e with src := src }

def addSet (key : Text) (v : Json) : RunPlan → RunPlan :=
  update fun e => { e with set := Assoc.insert key v e.set }

def addCheck (key : Text) (v : Json) : RunPlan → RunPlan :=
  update fun e => { e with check := Assoc.insert key v e.check }

def render (p : RunPlan) : Text := Json.write (.indented 4) (.list (p.entries.map Entry.toJson))

def sample : RunPlan :=
  let text (s : String) : Json := .text s.toList
  close <| addCheck "t2".toList (.int 610) <| addSrc (text "../examples/fibs.asm") <| addEntry <|
    addCheck "a1".toList (.int (-10)) <| addCheck "a7".toList (.int 93) <|
    addCheck "a0".toList (text "0") <| addSet "sp".toList (.int 100) <|
    addSet "a1".toList (text "0x101") <| addSet "a0".toList (text "0x11") <|
    addSrc (text "../examples/math.asm") <| addEntry {}

end RunPlan

end RvToolkit
