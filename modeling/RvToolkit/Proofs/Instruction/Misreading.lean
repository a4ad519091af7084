import RvToolkit.Proofs.Instruction.Unreadable

namespace RvToolkit.Instruction

variable {f : Format} {op : Text} {args : List Text} {e : Fault}

def upperText (t : Text) : Text :=
  if t.head? = some '%' then Immediate.Half.upper.substitute id t ++ ">> 12".toList else t

/-- Does the instruction cut a number toward zero, where the others ask for an integer? -/
def truncates (op : Text) : Format → Bool
  | .B => true
  | .I => isShift op
  | _ => false

/-- The operands taken apart: the registers in the order in which they are read, and what is given for
the immediate. -/
def takeApart [Evaluator] (op : Text) : Format → List Text → Except Fault (List Text × Option Value)
  | .R, [a, b, d] => return ([a, b, d], none)
  | .I, [a, b, imm] => do return ([a, b], some (← Immediate.resolve (.text imm)))
  | .I, [a, place] => do
      let (x, base) ← Immediate.withBase (.text place)
      return ([a, base], some x)
  | .S, [b, a, imm] => return ([a, b], some (.text imm))
  | .S, [b, place] => do
      let (x, base) ← Immediate.withBase (.text place)
      return ([base, b], some x)
  | .B, [a, b, imm] => return ([a, b], some (.text imm))
  | .U, [a, imm] => do return ([a], some (← upperOperand (.text imm)))
  | .J, [a, imm] => do return ([a], some (← jumpOperand (.text imm)))
  | .I, _ | .S, _ => .error .unboundOperand
  | f, args => .error (.parse (.operandCount f op args.length))

def integerOf (f : Format) (op : Text) (x : Value) : Except Fault Int :=
  if truncates op f then Immediate.toInteger x
  else
    match Immediate.plain? x with
    | some i => .ok i
    | none => .error (.type .other)

/-- What is checked before an instruction is encoded, in this order. -/
def check [Evaluator] (f : Format) (op : Text) (args : List Text) : Except Fault Unit := do
  let (regs, x) ← takeApart op f args
  let _ ← regs.mapM Register.number
  let _ ← x.toList.mapM (integerOf f op)
  return ()

/-- Operands that cannot be taken apart. -/
inductive Garbled [Evaluator] : Format → List Text → Fault → Prop where
  | immediate {a b imm : Text} {e : Fault} (himm : Immediate.Unresolved imm e) : Garbled .I [a, b, imm] e
  | place {f : Format} {a place : Text} {e : Fault} (hf : f = .I ∨ f = .S)
      (hplace : Immediate.Unplaced place e) : Garbled f [a, place] e
  | upper {a imm : Text} {e : Fault} (himm : Immediate.Unnumbered (upperText imm) e) :
      Garbled .U [a, imm] e
  | jump {a imm : Text} {e : Fault} (himm : Immediate.Unnumbered imm e) : Garbled .J [a, imm] e

theorem Garbled.stray_or_raised [Evaluator]
    (h : Garbled f args e) : e.isStray = true ∨ Evaluator.Raises e := by
  cases h with
  | immediate himm => exact himm.stray_or_raised
  | place _ hplace => exact hplace.stray_or_raised
  | upper himm | jump himm => exact .inl himm.isStray

/-- An instruction that cannot be encoded, for a reason that is not reported: a load, a store or an
instruction with an immediate has a wrong number of operands, an operand is garbled, the number of a
register is too long, or the immediate is not an integer. -/
inductive Misread [Evaluator] (op : Text) (f : Format) (args : List Text) : Fault → Prop where
  | count (hsystem : systemNumber? op = none) (hf : f = .I ∨ f = .S)
      (hcount : args.length ≠ 2 ∧ args.length ≠ 3) : Misread op f args .unboundOperand
  | operand {e : Fault} (hgarbled : Garbled f args e) : Misread op f args e
  | register {before after : List Text} {reg : Text} {x : Option Value} {e : Fault}
      (hsystem : systemNumber? op = none)
      (htaken : takeApart op f args = .ok (before ++ reg :: after, x))
      (hbefore : ∀ r ∈ before, ∃ n, Register.number r = .ok n) (hlong : Register.Overlong reg e) :
      Misread op f args e
  | amount {regs : List Text} {x : Value} {e : Fault} (hsystem : systemNumber? op = none)
      (htaken : takeApart op f args = .ok (regs, some x))
      (hregs : ∀ r ∈ regs, ∃ n, Register.number r = .ok n) (htruncates : truncates op f = true)
      (hx : Immediate.toInteger x = .error e) : Misread op f args e
  | integer {regs : List Text} {x : Value} (hsystem : systemNumber? op = none)
      (htaken : takeApart op f args = .ok (regs, some x))
      (hregs : ∀ r ∈ regs, ∃ n, Register.number r = .ok n) (htruncates : truncates op f = false)
      (hx : Immediate.plain? x = none) : Misread op f args (.type .other)

theorem Misread.stray_or_raised [Evaluator]
    (h : Misread op f args e) : e.isStray = true ∨ Evaluator.Raises e := by
  cases h with
  | count | integer => exact .inl rfl
  | operand hgarbled => exact hgarbled.stray_or_raised
  | register _ _ _ hlong =>
      cases hlong
      exact .inl rfl
  | amount _ _ _ _ hx => exact .inl (Immediate.isStray_of_toInteger hx)

end RvToolkit.Instruction
