import RvToolkit.Word.Operator

namespace RvToolkit.Survey

/-- Rounds of calls that fail. A round ends at the three-way comparison of words, which there is not;
without a round there is no first result to give. -/
def faultyCalls : Nat → Except Fault Int
  | 0 => .error .missingItem
  | _ + 1 => Word.threeWay (.ofInt .signed 1) (.int 2)

end RvToolkit.Survey
