import RvToolkit.Json.Basic
import RvToolkit.Survey.Sample

namespace RvToolkit.Survey

/-- What is observed of a bench without parameters that returns a value and takes no time. The two
fingerprints are those of two runs. -/
def probe (v : Sample) : Json :=
  let untimed : Json := .object [("<default>".toList, .real 0)]
  .object <| [
    ("ext_frac", untimed), ("fp_by_param", .object []),
    ("fp_stable", .list [.text v.fingerprint, .text v.fingerprint]), ("param_fps", .list []),
    ("repo_frac", untimed), ("repo_tt_ms", untimed), ("ret_type", .text v.typeName)].map fun p =>
      (p.1.toList, p.2)

end RvToolkit.Survey
