import RvToolkit.Json.Reader
import RvToolkit.Survey.Verdict
import RvToolkit.Text.Blank

namespace RvToolkit.Survey

inductive Reply where
  | failed (reason : Text)
  | finished (out err : Text)

inductive Command where
  | timing
  | changes
  | selfCheck
deriving DecidableEq, Repr

/-- What a round finds: the coverage run, the two further runners if there are any, the state of the
repository, the source of the benches, the record of the rounds before, and the time. -/
structure Findings where
  code : Int := 0
  out : Text := []
  err : Text := []
  coverage : Option Text := none
  timing : Option Reply := none
  selfCheck : Option Reply := none
  changes : Reply := .finished [] []
  source : Option Text := none
  record : Option Text := none
  seconds : Float := 1
  now : Float := 1000

structure Round where
  exit : Option Int := none
  out : Text := []
  err : Text := []
  calls : List Command := []
  appended : List Text := []

def runnerData (label : Text) : Reply → Option Json × Text
  | .failed reason => (none, '[' :: label ++ " runner: OSError: ".toList ++ reason ++ [']', '\n'])
  | .finished out err =>
      match (Text.lines (Text.trim out)).getLast? with
      | none => (none, err)
      | some l =>
          match Json.parse? l with
          | some j => (some j, err)
          | none =>
              (none, err ++ '[' :: label ++
                " runner: JSONDecodeError: Expecting value: line 1 column 1 (char 0)]\n".toList)

def fieldsOf (key : String) (j : Option Json) : List (Text × Json) :=
  match j.bind (Json.field? key.toList) with
  | some (.object fields) => fields
  | _ => []

def benchCount (source : Option Text) : Nat :=
  ((source.getD []).splitOn '\n').countP ("def bench_".toList.isPrefixOf ·)

def changedPaths : Reply → List Text
  | .failed _ => []
  | .finished out _ =>
      ((Text.lines out).filter fun l => !(Text.trim l).isEmpty).map (List.drop 3 ·)

def recordLines (record : Option Text) : List Text :=
  (Text.lines (record.getD [])).filter fun l => !(Text.trim l).isEmpty

def isLow (x : Float) : Bool := 0 ≤ x && x < 45

def lowCount (shares : List (Text × Float)) : Option Nat :=
  if shares.isEmpty then none else some (shares.countP fun p => isLow p.2)

def titled (title : Text) (lines : List Text) : List Text :=
  if lines.isEmpty then [] else [] :: title :: lines

def timingLines (shares : List (Text × Float)) : List Text :=
  (shares.mergeSort fun a b => a.2 ≤ b.2).map fun p =>
    (if isLow p.2 then "  * " else "    ").toList ++ Text.padRight 32 ' ' p.1 ++
      ' ' :: Text.padLeft 5 ' ' (Number.fixed 1 p.2) ++ ['%']

def stalled (counts : List Int) : Option Int :=
  let recent := counts.drop (counts.length - 3)
  match counts.take (counts.length - 3), recent with
  | x :: xs, y :: ys =>
      let before := xs.foldl min x
      if before ≤ ys.foldl min y then some (min before (ys.foldl min y)) else none
  | _, _ => none

def stopReason (percent : Float) (low : Option Nat) (counts : Option (List Int)) : Option Text :=
  match low with
  | none => none
  | some n =>
      if percent < 60 then none
      else if n = 0 then some "0 below".toList
      else (counts.bind fun cs => stalled (cs ++ [(n : Int)])).map fun (best : Int) =>
        "no improvement in 3 rounds; best ".toList ++ Text.ofInt best ++ " below".toList

def tally (part whole : Nat) (what : String) : Text :=
  Text.ofInt part ++ '/' :: Text.ofInt whole ++ what.toList

def judge (modified : Bool) (checks : List (Text × Json)) : List (Text × Observation × Verdict) :=
  checks.filterMap fun p =>
    match p.2 with
    | .object fields =>
        let o := Observation.ofJson (.object fields)
        some (p.1, o, if modified then .repoModified else o.verdict)
    | _ => none

def checkLines (judged : List (Text × Observation × Verdict)) : List Text :=
  if judged.isEmpty then []
  else Verdict.advice.map (' ' :: ' ' :: ·) ++
    (judged.filter (fun p => !p.2.2.isGood) ++ judged.filter (fun p => p.2.2.isGood)).map fun p =>
      p.2.1.line p.1 p.2.2

def report (f : Findings) (c : Coverage) : Round :=
  let (timing, timingErr) := match f.timing with
    | some r => runnerData "repotime".toList r
    | none => (none, [])
  let (checks, checkErr) := match f.selfCheck with
    | some r => runnerData "semcheck".toList r
    | none => (none, [])
  let shares := fieldsOf "repo_time_pct" timing
  let timed := shares.filterMap fun p => (realOf? p.2).map fun x => (p.1, x)
  let low := lowCount timed
  let changed := if f.selfCheck.isSome then changedPaths f.changes else []
  let judged := judge (!changed.isEmpty) (fieldsOf "semcheck" checks)
  let bad := judged.countP fun p => !p.2.2.isGood
  let past := recordLines f.record
  let history := past.mapM Json.parse?
  let number := past.length + 1
  let total := c.total
  let summary := Text.join ", ".toList <|
    ["round ".toList ++ Text.ofInt number ++ ": ".toList ++ Text.ofInt (benchCount f.source) ++
        " benches".toList,
      Number.fixed 1 total ++ "% covered".toList] ++
    (match low with
      | some n => [tally n timed.length " below repo_time 45%"]
      | none => []) ++
    (if judged.isEmpty then [] else [tally bad judged.length " not self-checking"]) ++
    ["measured in ".toList ++ Number.fixed 1 f.seconds ++ ['s']]
  let counts := history.map fun rs =>
    rs.filterMap fun r => (r.field? "n_below_repo_time".toList).bind intOf?
  let stop := match stopReason total low counts with
    | some t =>
        [[], ">>> STOP: repo_time converged (".toList ++ t ++
          "). Finalize microbench.py now. <<<".toList]
    | none => []
  let lines := c.table ++
    titled (Text.ofInt c.errors.length ++ " bench error(s):".toList) ((c.errors.take 8).map fun p =>
      ' ' :: ' ' :: p.1 ++ ':' :: ' ' :: (match p.2 with
        | .text t => t
        | j => Json.write .line j)) ++
    titled "repo_time (target 50%; * = below 45%):".toList (timingLines timed) ++
    titled ("** repo modified (".toList ++ Text.ofInt changed.length ++
        " file(s)) — revert these; only microbench.py is yours to edit:".toList)
      ((changed.take 10).map (' ' :: ' ' :: ' ' :: ·)) ++
    titled "self-check (* = fix needed):".toList (checkLines judged) ++
    [[], '[' :: summary ++ [']']] ++ stop
  let previous := history.bind fun rs =>
    match rs.getLast? with
    | none => some 0
    | some r => ((r.field? "ts".toList).bind realOf?).map fun t => Number.roundTo 2 (f.now - t)
  let entry (elapsed : Float) : Json := .object <| [
      ("round", Json.int number), ("ts", .real f.now), ("wall_since_prev_s", .real elapsed),
      ("coverage_pct", c.percent), ("covered_lines", .int c.covered),
      ("num_statements", .int c.statements), ("n_bench_fns", .int (benchCount f.source)),
      ("n_bench_errors", .int c.errors.length),
      ("cov_measure_s", .real (Number.roundTo 3 f.seconds)), ("repo_time_pct", .object shares),
      ("n_below_repo_time", match low with
        | some n => .int n
        | none => .null),
      ("semcheck", .object (judged.map fun p => (p.1, .text p.2.2.text))),
      ("n_not_self_checking", .int bad)].map fun p => (p.1.toList, p.2)
  { out := lines.flatMap (· ++ ['\n'])
    err := f.err ++ timingErr ++ checkErr
    calls := (if f.timing.isSome then [.timing] else []) ++
      if f.selfCheck.isSome then [.changes, .selfCheck] else []
    appended := match previous with
      | some elapsed => [Json.write .line (entry elapsed) ++ ['\n']]
      | none => [] }

def measure (f : Findings) : Round :=
  let failure (exit : Int) : Round :=
    { exit := some exit
      out := "coverage measurement failed (exit ".toList ++ Text.ofInt f.code ++ ")\n".toList ++
        f.out ++ ['\n']
      err := f.err }
  if f.code ≠ 0 then failure f.code
  else match (f.coverage.bind Json.parse?).bind Coverage.ofJson? with
    | some c => report f c
    | none => failure 1

end RvToolkit.Survey
