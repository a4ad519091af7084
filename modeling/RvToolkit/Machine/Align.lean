import RvToolkit.Fault

namespace RvToolkit

/-- The next address, not below the given one, that is a multiple of the alignment; for a negative
alignment, the one not above it. -/
def alignAddress (addr alignment : Int) : Except Fault Int :=
  if alignment = 0 then .error (.eval (.moduloByZero .integer))
  else .ok (addr + (-addr).fmod alignment)

end RvToolkit
