import RvToolkit.Fault

namespace RvToolkit.Register

/-- Calling-convention names of the registers; register 8 has two. -/
def aliases : List (Text × Nat) :=
  [("zero", 0), ("ra", 1), ("sp", 2), ("gp", 3), ("tp", 4), ("t0", 5), ("t1", 6), ("t2", 7),
    ("s0", 8), ("fp", 8), ("s1", 9), ("a0", 10), ("a1", 11), ("a2", 12), ("a3", 13), ("a4", 14),
    ("a5", 15), ("a6", 16), ("a7", 17), ("s2", 18), ("s3", 19), ("s4", 20), ("s5", 21), ("s6", 22),
    ("s7", 23), ("s8", 24), ("s9", 25), ("s10", 26), ("s11", 27), ("t3", 28), ("t4", 29), ("t5", 30),
    ("t6", 31)].map fun p => (p.1.toList, p.2)

def numbered (i : Int) : Text := 'x' :: Text.ofInt i

def numberedNames : List Text := (List.range 32).map fun (i : Nat) => numbered i

def ofAlias? (t : Text) : Option Nat := aliases.lookup t

/-- The name under which a register is shown: of two names the later one. -/
def aliasOf (i : Int) : Except Fault Text :=
  match aliases.reverse.find? fun p => (p.2 : Int) = i with
  | some p => .ok p.1
  | none => .error (.missingKey (.text (numbered i)))

def shownAliases : List (Text × Text) :=
  (List.range 32).filterMap fun (i : Nat) =>
    match aliasOf i with
    | .ok a => some (numbered i, a)
    | .error _ => none

def isNumbered (t : Text) : Bool := numberedNames.contains (Text.chomp t)

def isAlias (t : Text) : Bool := (ofAlias? (Text.chomp t)).isSome

/-- Does the text name a register? One line break may follow the name. -/
def isName (t : Text) : Bool := isNumbered t || isAlias t

/-- Replaces a calling-convention name by the numbered one; a numbered name stays as it is. -/
def toNumbered (t : Text) : Except Fault Text :=
  if isNumbered t then .ok t
  else if isAlias t then
    match ofAlias? t with
    | some i => .ok (numbered i)
    | none => .error (.missingKey (.text t))
  else .error (.invalidRegister (.text t))

/-- Number after the `x` of a numbered name, with as many digits as a literal may have. -/
def number (t : Text) : Except Fault Nat :=
  match Text.chomp t with
  | 'x' :: ds =>
      if ds.isEmpty || !ds.all Text.isDigit then .error (.invalidRegister (.text t))
      else if Number.maxDigits < ds.length then .error (.value (.literal 10 ds (.tooLong ds.length)))
      else .ok (Number.ofDigits 10 (ds.filterMap Text.digitValue?))
  | _ => .error (.invalidRegister (.text t))

end RvToolkit.Register
