import RvToolkit.Fault
import RvToolkit.Json.Reader

namespace RvToolkit.Release

def nextPatch (version : Text) : Except Fault Text :=
  match version.splitOn '.' with
  | [major, minor, patch] =>
      if patch.contains '-' then .error .missingItem
      else
        match Number.readInt 10 patch with
        | .ok i => .ok (major ++ '.' :: (minor ++ '.' :: Text.ofInt (i + 1)))
        | .error e => .error (.value (.literal 10 patch e))
  | _ => .error (.value .other)

def first : Text := "0.0.1".toList

abbrev Call := List Text

def viewCall : Call := ["gh", "release", "view", "--json", "tagName"].map String.toList

def createCall (version : Text) : Call :=
  ["gh".toList, "release".toList, "create".toList, "--generate-notes".toList, version]

def lastVersion (view : Option Text) : Except Fault Json :=
  match view with
  | none => .error .commandFailed
  | some t =>
      match Json.parse? (Text.trim t) with
      | none => .error .malformedData
      | some (.object fields) =>
          match Assoc.get? "tagName".toList fields with
          | some v => .ok v
          | none => .error (.missingKey (.ofText "tagName"))
      | some _ => .error (.type .other)

def newVersion (view : Option Text) : Except Fault Text :=
  match view, lastVersion view with
  | none, _ => .ok first
  | some _, .error e => .error e
  | some _, .ok (.text v) => nextPatch v
  | some _, .ok _ => .error .missingAttribute

structure Run where
  calls : List Call
  result : Except Fault Unit

def create (view : Option Text) (createFails : Bool) : Run :=
  match newVersion view with
  | .error e => ⟨[viewCall], .error e⟩
  | .ok v => ⟨[viewCall, createCall v], if createFails then .error .commandFailed else .ok ()⟩

end RvToolkit.Release
