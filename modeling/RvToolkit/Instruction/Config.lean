import RvToolkit.Fault
import RvToolkit.Instruction.Table
import RvToolkit.Json.Basic

namespace RvToolkit.Isa

def mnemonics : Json → Except Fault (List Text)
  | .list vs => .ok (vs.filterMap fun v => match v with
      | .text t => some t
      | _ => none)
  | .text t => .ok (t.map fun c => [c])
  | .object fields => .ok (fields.map (·.1))
  | _ => .error (.type .other)

def readFormats : List (Text × Json) → Except Fault Isa
  | [] => .ok []
  | (name, v) :: rest =>
      match Format.ofText? name with
      | none => .error (.missingKey (.text name))
      | some f => do
          let ms ← mnemonics v
          let isa ← readFormats rest
          return ms.map (fun m => (m, f)) ++ isa

def ofConfig : Json → Except Fault Isa
  | .object fields => readFormats fields
  | _ => .error .missingAttribute

end RvToolkit.Isa
