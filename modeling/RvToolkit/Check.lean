import RvToolkit.Fault

namespace RvToolkit.Check

def size? : Value → Option Nat
  | .text t => some t.length
  | .bytes _ bs => some bs.length
  | .list vs | .tuple vs => some vs.length
  | .dict es => some es.length
  | _ => none

def length (items : Value) (size : Int) : Except Fault Unit :=
  match items, size? items with
  | .null, _ => if size = 0 then .ok () else .error (.type .other)
  | _, none => .error (.type .other)
  | _, some n => if (n : Int) = size then .ok () else .error (.parse (.wrongLength items (.int size)))

def present : Value → Except Fault Unit
  | .null => .error (.numberFormat .absent)
  | _ => .ok ()

end RvToolkit.Check
