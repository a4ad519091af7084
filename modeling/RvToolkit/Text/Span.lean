import RvToolkit.Text.Basic

namespace RvToolkit.Text

/-- Membership in a list of closed intervals of code points. -/
def inSpans (spans : List (Nat × Nat)) (n : Nat) : Bool :=
  spans.any fun s => s.1 ≤ n && n ≤ s.2

end RvToolkit.Text
