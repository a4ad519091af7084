import RvToolkit.Evaluator

/-! Two evaluators: one for which only arithmetic has a value, and one that can also compare, tell the
code of a character, and look at the program that is being read. -/

namespace RvToolkit.Evaluator

/-- Parentheses that fit into the stack of the guard. -/
def standardDepth : Nat := 328

def arithmetic (t : Text) : Except Fault Value :=
  match Expr.evaluate t with
  | .ok n => .ok n.toValue
  | .error e => .error (.eval e)

namespace Arithmetic

scoped instance evaluator : Evaluator where
  depth := standardDepth
  constant t := Action.ofExcept (arithmetic t)
  argument := arithmetic
  shown v := .ok v.display
  combined _ _ _ := .error (.type .other)

end Arithmetic

def quoted? : Text → Option Text
  | '\'' :: cs =>
      match Text.cutAt '\'' cs with
      | some (t, []) => if t.contains '\\' then none else some t
      | _ => none
  | _ => none

/-- The text between the parentheses of a call that fills the whole text. -/
def call? (name : String) (t : Text) : Option Text :=
  let opening := (name ++ "(").toList
  if opening.isPrefixOf t then
    match Text.cutAt ')' (t.drop opening.length) with
    | some (arg, []) => some arg
    | _ => none
  else none

def less? (t : Text) : Option Bool :=
  match Text.cutAt '<' t with
  | some (l, r) =>
      match Expr.evaluate l, Expr.evaluate (Text.trim r) with
      | .ok (.int a), .ok (.int b) => some (a < b)
      | _, _ => none
  | none => none

def form (t : Text) : Except Fault Value :=
  match quoted? t, (call? "ord" t).bind quoted?, less? t with
  | some s, _, _ => .ok (.text s)
  | _, some [c], _ => .ok (.int c.toNat)
  | _, _, some b => .ok (.bool b)
  | _, _, _ => arithmetic t

/-- Forms that concern the program: the number of its lines or of its instructions, and one more
instruction for it. -/
def reflect (t : Text) : Action Assembly Value := do
  let a ← Action.get
  if t = "len(self.lines)".toList then return .int a.lines.length
  else if t = "len(self.mnemonics)".toList then return .int a.mnemonics.length
  else
    match (call? "self.mnemonics.append" t).bind quoted? with
    | some line => do
        Action.modify fun a => { a with mnemonics := a.mnemonics ++ [line] }
        return .null
    | none => Action.ofExcept (form t)

namespace Reflective

scoped instance evaluator : Evaluator where
  depth := standardDepth
  constant := reflect
  argument := form
  shown v := .ok v.display
  combined _ _ _ := .error (.type .other)

end Reflective

end RvToolkit.Evaluator
