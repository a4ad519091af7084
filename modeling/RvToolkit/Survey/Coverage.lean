import RvToolkit.Json.Basic

namespace RvToolkit.Survey

def realOf? : Json → Option Float
  | .int i => Number.ofInt? i
  | .real x => some x
  | _ => none

def intOf? : Json → Option Int
  | .int i => some i
  | _ => none

structure FileCoverage where
  name : Text
  statements : Int
  missed : Int
  percent : Float
  missing : List Json

structure Coverage where
  files : List FileCoverage
  percent : Json
  covered : Int
  statements : Int
  errors : List (Text × Json)

def shownName (path : Text) : Text := (Text.replace "/repo/".toList [] path).take 60

def FileCoverage.ofJson? (path : Text) (j : Json) : Option FileCoverage := do
  let summary ← j.field? "summary".toList
  let statements ← (summary.field? "num_statements".toList).bind intOf?
  let missed ← (summary.field? "missing_lines".toList).bind intOf?
  let percent ← (summary.field? "percent_covered".toList).bind realOf?
  match j.field? "missing_lines".toList with
  | some (.list missing) => some ⟨shownName path, statements, missed, percent, missing⟩
  | _ => none

def Coverage.ofJson? (j : Json) : Option Coverage := do
  let totals ← j.field? "totals".toList
  let percent ← totals.field? "percent_covered".toList
  let covered ← (totals.field? "covered_lines".toList).bind intOf?
  let statements ← (totals.field? "num_statements".toList).bind intOf?
  let files ← match j.field? "files".toList with
    | some (.object fields) => fields.mapM fun p => FileCoverage.ofJson? p.1 p.2
    | _ => none
  let errors := match (j.field? "meta".toList).bind (Json.field? "_pti_bench_errors".toList) with
    | some (.object fields) => fields
    | _ => []
  some ⟨files, percent, covered, statements, errors⟩

def FileCoverage.le (a b : FileCoverage) : Bool :=
  if a.percent == b.percent then Text.le a.name b.name else a.percent < b.percent

def Coverage.total (c : Coverage) : Float := (realOf? c.percent).getD 0

def shownMissing (ls : List Json) : Text :=
  Text.join [','] ((ls.take 12).map (Json.write .line)) ++ if 12 < ls.length then ['…'] else []

def tableRow (width : Nat) (name statements missed cover last : Text) : Text :=
  Text.padRight width ' ' name ++ ' ' :: ' ' :: Text.padLeft 5 ' ' statements ++
    ' ' :: ' ' :: Text.padLeft 4 ' ' missed ++ ' ' :: ' ' :: cover ++ last

def percentCell (x : Float) : Text := Text.padLeft 4 ' ' (Number.fixed 0 x) ++ ['%']

def FileCoverage.row (width : Nat) (f : FileCoverage) : Text :=
  tableRow width f.name (Text.ofInt f.statements) (Text.ofInt f.missed) (percentCell f.percent)
    (' ' :: ' ' :: shownMissing f.missing)

def Coverage.table (c : Coverage) : List Text :=
  let files := c.files.mergeSort FileCoverage.le
  let width := files.foldl (fun w f => max w f.name.length) 4
  let rule := List.replicate (width + 42) '-'
  tableRow width "Name".toList "Stmts".toList "Miss".toList "Cover".toList "  Missing".toList ::
    rule :: files.map (FileCoverage.row width) ++
    [rule, tableRow width "TOTAL".toList (Text.ofInt c.statements)
      (Text.ofInt (c.statements - c.covered)) (percentCell c.total) []]

end RvToolkit.Survey
