import RvToolkit.Evaluator.Standard
import RvToolkit.Proofs.Effect

namespace RvToolkit.Evaluator

namespace Arithmetic

scoped instance textual : Textual where
  constant_eq t := ⟨[], arithmetic t, fun _ => rfl⟩

end Arithmetic

/-- The number that a value counts as where it is combined with an integer. -/
def number? : Value → Option Expr.Num
  | .int i => some (.int i)
  | .bool b => some (.int (if b then 1 else 0))
  | .real x => some (.real x)
  | _ => none

variable [Evaluator]

/-- The value that a constant has in a program without lines. -/
def constantOf (t : Text) : Except Fault Value := ((constantValue t).effect { base := 0 }).1

theorem constantOf_of_evaluate {t : Text} {n : Expr.Num} (h : Expr.evaluate t = .ok n) :
    constantOf t = .ok n.toValue := by
  rw [constantOf, constantValue, h]
  rfl

theorem argumentValue_of_evaluate {t : Text} {n : Expr.Num} (h : Expr.evaluate t = .ok n) :
    argumentValue t = .ok n.toValue := by
  rw [argumentValue, h]

theorem combine_eq (op : Expr.BinaryOp) (v : Value) (i : Int) :
    combine op v i = match number? v with
      | some n =>
          match op.apply n (.int i) with
          | .ok (.int j) => decimalText j
          | .ok (.real x) => .ok (Number.shortest x)
          | .error e => .error (.eval e)
      | none => combined op v i := by
  cases v <;> rfl

theorem run_constantValue [Textual] (t : Text) :
    ∃ log, ∀ a, (constantValue t).run a = ⟨log, a, constantOf t⟩ := by
  cases h : Expr.evaluate t with
  | ok n =>
      rw [constantOf_of_evaluate h, constantValue, h]
      exact ⟨[], fun _ => rfl⟩
  | error e =>
      obtain ⟨log, r, hrun⟩ := Textual.constant_eq t
      have hvalue : constantOf t = r := by
        rw [constantOf, constantValue, h]
        exact congrArg Outcome.result (hrun _)
      rw [hvalue, constantValue, h]
      exact ⟨log, hrun⟩

theorem effect_constantValue [Textual] (t : Text) (a : Assembly) :
    (constantValue t).effect a = (constantOf t, a) := by
  obtain ⟨log, hrun⟩ := run_constantValue t
  exact Action.effect_of_run (hrun a)

end RvToolkit.Evaluator
