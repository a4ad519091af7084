import RvToolkit.Survey.Coverage

namespace RvToolkit.Survey

inductive Verdict where
  | error
  | returnsNone
  | unstable
  | returnsInput
  | lowShare
  | tooFast
  | paramInvariant
  | unparametrised
  | ok
  | repoModified
deriving DecidableEq, Repr

namespace Verdict

def text : Verdict → Text
  | .error => "error".toList
  | .returnsNone => "returns-none".toList
  | .unstable => "unstable".toList
  | .returnsInput => "returns-input".toList
  | .lowShare => "low-repo-time".toList
  | .tooFast => "too-fast".toList
  | .paramInvariant => "param-invariant".toList
  | .unparametrised => "ok-unparam".toList
  | .ok => "ok".toList
  | .repoModified => "repo-modified".toList

def isGood (v : Verdict) : Bool := v = .ok || v = .unparametrised

def advice : List Text := [
  "returns-none: run() has no return — collect and return the call results",
  "unstable: seed RNG in setup; avoid time/uuid/id in the return",
  "returns-input: return repo output, not the parameter value",
  "low-repo-time: <50% of run() time is in repo code — move glue to setup",
  "param-invariant: return something derived from run()'s work, not setup",
  "repo-modified: revert edits to repo files (git checkout -- <path>)"].map String.toList

end Verdict

structure Observation where
  resultType : Option Text
  stable : List Text
  byParam : List Text
  params : List Text
  share : Float
  millis : Float

namespace Observation

def texts : Option Json → List Text
  | some (.list vs) => vs.map (Json.write .line)
  | some (.object fields) => fields.map fun p => Json.write .line p.2
  | _ => []

def reals : Option Json → List Float
  | some (.object fields) => fields.filterMap fun p => realOf? p.2
  | _ => []

def median (xs : List Float) : Float :=
  let sorted := xs.mergeSort fun a b => a ≤ b
  let half := xs.length / 2
  if xs.isEmpty then 0
  else if xs.length % 2 = 1 then sorted.getD half 0
  else (sorted.getD (half - 1) 0 + sorted.getD half 0) / 2

def least : List Float → Float
  | [] => 0
  | x :: xs => xs.foldl (fun a b => if b < a then b else a) x

def ofJson (j : Json) : Observation where
  resultType := match j.field? "ret_type".toList with
    | some (.text t) => some t
    | _ => none
  stable := texts (j.field? "fp_stable".toList)
  byParam := texts (j.field? "fp_by_param".toList)
  params := texts (j.field? "param_fps".toList)
  share := least (reals (j.field? "repo_frac".toList))
  millis := median (reals (j.field? "repo_tt_ms".toList))

def allEqual : List Text → Bool
  | [] => true
  | t :: ts => ts.all (· = t)

def verdict (o : Observation) : Verdict :=
  match o.resultType, o.stable with
  | none, _ => .error
  | some ('<' :: _), _ => .error
  | some t, stable =>
      if t = "NoneType".toList then .returnsNone
      else match stable with
        | [] => .unstable
        | s :: _ =>
            if !allEqual stable then .unstable
            else if o.params.contains s then .returnsInput
            else if o.share < 0.5 then .lowShare
            else if o.millis < 1 then .tooFast
            else if o.byParam.length < 2 then .unparametrised
            else if allEqual o.byParam then .paramInvariant
            else .ok

def line (name : Text) (o : Observation) (v : Verdict) : Text :=
  (if v.isGood then "    " else "  * ").toList ++ Text.padRight 32 ' ' name ++
    ' ' :: Text.padRight 16 ' ' v.text ++ ' ' :: '(' :: o.resultType.getD ['?'] ++
    ", repo ".toList ++ Number.fixed 0 (o.share * 100) ++ "%) ".toList ++
    Number.fixed 1 o.millis ++ "ms".toList

end Observation

end RvToolkit.Survey
