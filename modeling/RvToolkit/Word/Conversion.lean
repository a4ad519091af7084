import RvToolkit.Fault

namespace RvToolkit

def Word.ofValue (s : Signedness) : Value → Except Fault Word
  | .word w => .ok (.ofInt s w.value)
  | .int i => .ok (.ofInt s i)
  | .bool b => .ok (.ofInt s (if b then 1 else 0))
  | .bytes _ bs => .ok (.ofBytes s bs)
  | v => .error (.runtime (.wordInput s v))

end RvToolkit
