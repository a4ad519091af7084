import RvToolkit.Proofs.Escapes
import RvToolkit.Proofs.Evaluator
import RvToolkit.Proofs.Expr.Adequacy
import RvToolkit.Proofs.Instruction.RoundTrip

namespace RvToolkit

/-- The conditions into which the reading of operands can run. -/
def Fault.isStray : Fault → Bool
  | .eval _ | .type .other | .value _ | .missingKey _ | .missingItem | .missingAttribute | .unboundOperand
  | .overflow => true
  | _ => false

theorem Expr.not_escapes_isExpr (limit : Nat) (t : Text)
    (e : Fault) : ¬ Escapes (Expr.isExpr limit t) e := by
  unfold Expr.isExpr
  split
  · exact escapes_ok _
  · rename_i ts _
    cases hguard : Expr.guardFrom limit (.before 0) ts with
    | ok b => exact escapes_ok _
    | error f =>
        rcases Expr.guardFrom_error hguard with rfl | ⟨c, rfl⟩
        · exact escapes_ok _
        · simp [Fault.recover, Fault.isOrdinary, Fault.isReported]

theorem Expr.escapes_guard {α : Type} {limit : Nat} {t : Text} {e : Fault} {p q : Except Fault α} :
    Escapes (Expr.isExpr limit t >>= fun accepted => if accepted then p else q) e ↔
      Expr.isExpr limit t = .ok true ∧ Escapes p e ∨ Expr.isExpr limit t = .ok false ∧ Escapes q e := by
  rw [escapes_bind]
  constructor
  · rintro (hguard | ⟨accepted, hguard, hbranch⟩)
    · exact absurd hguard (Expr.not_escapes_isExpr limit t e)
    · cases accepted with
      | true => exact .inl ⟨hguard, hbranch⟩
      | false => exact .inr ⟨hguard, hbranch⟩
  · rintro (⟨hguard, hbranch⟩ | ⟨hguard, hbranch⟩)
    · exact .inr ⟨true, hguard, hbranch⟩
    · exact .inr ⟨false, hguard, hbranch⟩

namespace Register

/-- A calling-convention name with a line break behind it: it is one of the names and not in their list. -/
inductive Unlisted (t : Text) : Fault → Prop where
  | lineBreak (hnumbered : isNumbered t = false) (halias : isAlias t = true) (hnone : ofAlias? t = none) :
      Unlisted t (.missingKey (.text t))

/-- The name of a register whose number is too long to be read. -/
inductive Overlong (t : Text) : Fault → Prop where
  | digits {ds : Text} (hname : Text.chomp t = 'x' :: ds) (hdigits : ds.all Text.isDigit = true)
      (hlong : Number.maxDigits < ds.length) : Overlong t (.value (.literal 10 ds (.tooLong ds.length)))

theorem escapes_number {t : Text} {e : Fault} :
    Escapes (number t) e ↔ Overlong t e := by
  unfold number
  constructor
  · intro hescapes
    split at hescapes
    · rename_i ds hname
      split at hescapes
      · simp [Fault.isReported] at hescapes
      · rename_i hdigits
        split at hescapes
        · rename_i hlong
          obtain ⟨rfl, -⟩ := escapes_error.mp hescapes
          have hall : ds ≠ [] ∧ ds.all Text.isDigit = true := by simpa using hdigits
          exact .digits hname hall.2 hlong
        · exact absurd hescapes (escapes_ok _)
    · simp [Fault.isReported] at hescapes
  · rintro ⟨hname, hdigits, hlong⟩
    rename_i ds
    have hne : ds.isEmpty = false := by
      cases ds with
      | nil => simp at hlong
      | cons d ds => rfl
    simp only [hname, hne, hdigits, hlong, ↓reduceIte, Bool.not_true, Bool.or_self]
    exact ⟨rfl, rfl⟩

end Register

namespace Evaluator

theorem escapes_decimalText {j : Int} {e : Fault} :
    Escapes (decimalText j) e ↔
      Number.maxDigits < (Nat.toDigits 10 j.natAbs).length ∧ e = .value .tooManyDigits := by
  unfold decimalText
  dsimp only
  split
  · rename_i hlong
    simp [hlong, Fault.isReported]
  · rename_i hshort
    simp [hshort]

variable [Evaluator] {op : Expr.BinaryOp} {v : Value} {i : Int} {e : Fault}

/-- Faults that only the evaluator gives. -/
inductive Raises : Fault → Prop where
  | constant {t : Text} {a : Assembly} {e : Fault} (h : ((constant t).effect a).1 = .error e) : Raises e
  | argument {t : Text} {e : Fault} (h : argument t = .error e) : Raises e
  | shown {v : Value} {e : Fault} (h : shown v = .error e) : Raises e
  | combined {op : Expr.BinaryOp} {v : Value} {i : Int} {e : Fault} (h : combined op v i = .error e) : Raises e

/-- Nothing can be written for an operator between a value and an integer: numbers do not go together,
their result is too long, or the evaluator refuses what is no number. -/
inductive Uncombined (op : Expr.BinaryOp) (v : Value) (i : Int) : Fault → Prop where
  | numbers {n : Expr.Num} {err : EvalError} (hv : number? v = some n)
      (happly : op.apply n (.int i) = .error err) : Uncombined op v i (.eval err)
  | long {n : Expr.Num} {j : Int} (hv : number? v = some n) (happly : op.apply n (.int i) = .ok (.int j))
      (hlong : Number.maxDigits < (Nat.toDigits 10 j.natAbs).length) :
      Uncombined op v i (.value .tooManyDigits)
  | other {e : Fault} (hv : number? v = none) (hcombined : combined op v i = .error e)
      (hreported : e.isReported = false) : Uncombined op v i e

theorem Uncombined.stray_or_raised (h : Uncombined op v i e) : e.isStray = true ∨ Raises e := by
  cases h with
  | numbers | long => exact .inl rfl
  | other _ hcombined => exact .inr (.combined hcombined)

theorem raises_of_argumentValue {t : Text} (h : argumentValue t = .error e) : Raises e := by
  unfold argumentValue at h
  split at h
  · cases h
  · exact .argument h

end Evaluator

namespace Immediate

variable {t : Text} {e : Fault}

theorem escapes_evaluate :
    Escapes (evaluate t) e ↔ ∃ err, Expr.evaluate t = .error err ∧ e = .eval err := by
  unfold evaluate
  split
  · rename_i n hn
    simp [hn]
  · rename_i err herr
    simp [herr, Fault.isReported]

theorem evaluate_eq_ok {n : Expr.Num} : evaluate t = .ok n ↔ Expr.evaluate t = .ok n := by
  unfold evaluate
  split <;> simp_all

theorem isStray_of_toInteger {x : Value} (h : toInteger x = .error e) : e.isStray = true := by
  unfold toInteger at h
  split at h
  · unfold ofLiteral at h
    split at h <;> cases h
    rfl
  · cases h
  · cases h
  · cases h
  · split at h
    · cases h
    · split at h <;> cases h <;> rfl
  · cases h
    rfl

theorem escapes_ofLiteral :
    Escapes (ofLiteral t) e ↔
      ∃ err, Number.readInt 10 t = .error err ∧ e = .value (.literal 10 t err) := by
  unfold ofLiteral
  split
  · rename_i n hn
    simp [hn]
  · rename_i err herr
    simp [herr, Fault.isReported]

theorem Half.opens_unique {h h' : Half} (hopens : h.opens t = true)
    (hopens' : h'.opens t = true) : h = h' := by
  obtain ⟨name, hname, hstart⟩ := List.any_eq_true.mp hopens
  obtain ⟨name', hname', hstart'⟩ := List.any_eq_true.mp hopens'
  rw [List.isPrefixOf_iff_prefix] at hstart hstart'
  have hnames : ∀ a ∈ Half.names .upper, ∀ b ∈ Half.names .lower, ¬ a <+: b ∧ ¬ b <+: a := by decide
  have hcompare := List.prefix_or_prefix_of_prefix hstart hstart'
  cases h <;> cases h'
  · rfl
  · have hne := hnames name hname name' hname'
    exact (hcompare.elim hne.1 hne.2).elim
  · have hne := hnames name' hname' name hname
    exact (hcompare.elim hne.2 hne.1).elim
  · rfl

variable [Evaluator]

/-- Neither an expression with a value nor a literal. -/
inductive Unnumbered (t : Text) : Fault → Prop where
  | expression {err : EvalError} (hguard : Expr.isExpr Evaluator.depth t = .ok true)
      (heval : Expr.evaluate t = .error err) : Unnumbered t (.eval err)
  | literal {err : Number.LiteralError} (hguard : Expr.isExpr Evaluator.depth t = .ok false)
      (hread : Number.readInt 10 t = .error err) : Unnumbered t (.value (.literal 10 t err))

theorem Unnumbered.isStray (h : Unnumbered t e) : e.isStray = true := by
  cases h <;> rfl

theorem escapes_number : Escapes (number t) e ↔ Unnumbered t e := by
  have hnumber : number t = Expr.isExpr Evaluator.depth t >>= fun accepted =>
      if accepted then evaluate t >>= fun n => pure n.toValue
      else ofLiteral t >>= fun i => pure (.int i) := rfl
  rw [hnumber, Expr.escapes_guard]
  simp only [escapes_bind, escapes_pure, and_false, exists_false, or_false, escapes_evaluate,
    escapes_ofLiteral]
  constructor
  · rintro (⟨hguard, err, heval, rfl⟩ | ⟨hguard, err, hread, rfl⟩)
    · exact .expression hguard heval
    · exact .literal hguard hread
  · rintro (⟨hguard, heval⟩ | ⟨hguard, hread⟩)
    · exact .inl ⟨hguard, _, heval, rfl⟩
    · exact .inr ⟨hguard, _, hread, rfl⟩

namespace Half

variable {h : Half}

def operation : Half → Expr.BinaryOp × Int
  | .upper => (.shiftRight, 12)
  | .lower => (.and, 0xfff)

/-- A relocation that has no value: it is not closed, its argument has none, or nothing can be written for
its part of that value. -/
inductive Unresolved (h : Half) (t : Text) : Fault → Prop where
  | unclosed (hcall : h.call? t = none) : Unresolved h t .missingAttribute
  | argument {arg rest : Text} {e : Fault} (hcall : h.call? t = some (arg, rest))
      (hvalue : Evaluator.argumentValue arg = .error e) (hreported : e.isReported = false) : Unresolved h t e
  | part {arg rest : Text} {v : Value} {e : Fault} (hcall : h.call? t = some (arg, rest))
      (hvalue : Evaluator.argumentValue arg = .ok v)
      (hpart : Evaluator.Uncombined h.operation.1 v h.operation.2 e) : Unresolved h t e

theorem Unresolved.stray_or_raised (hun : Unresolved h t e) : e.isStray = true ∨ Evaluator.Raises e := by
  cases hun with
  | unclosed => exact .inl rfl
  | argument _ hvalue => exact .inr (Evaluator.raises_of_argumentValue hvalue)
  | part _ _ hpart => exact hpart.stray_or_raised

end Half

/-- An operand that cannot be resolved. -/
inductive Unresolved (t : Text) : Fault → Prop where
  | relocation {h : Half} {e : Fault} (hopens : h.opens t = true) (hpart : h.Unresolved t e) :
      Unresolved t e
  | expression {err : EvalError} (hplain : ∀ h : Half, h.opens t = false)
      (hguard : Expr.isExpr Evaluator.depth t = .ok true) (heval : Expr.evaluate t = .error err) :
      Unresolved t (.eval err)

theorem Unresolved.stray_or_raised (hun : Unresolved t e) : e.isStray = true ∨ Evaluator.Raises e := by
  cases hun with
  | relocation _ hpart => exact hpart.stray_or_raised
  | expression => exact .inl rfl

theorem resolve_of_opens {h : Half} (hopens : h.opens t = true) :
    resolve (.text t) = h.resolve t >>= fun u => pure (.text u) := by
  cases h with
  | upper =>
      rw [resolve, if_pos hopens]
  | lower =>
      have hupper : ¬ Half.upper.opens t = true := by
        intro hupper
        cases Half.opens_unique hopens hupper
      rw [resolve, if_neg hupper]
      simp [hopens]

theorem resolve_of_plain (hplain : ∀ h : Half, h.opens t = false) :
    resolve (.text t) = Expr.isExpr Evaluator.depth t >>= fun accepted =>
      if accepted then evaluate t >>= fun n => pure n.toValue else pure (.text t) := by
  rw [resolve, hplain .upper, hplain .lower]
  rfl

/-- An operand that is not an offset and a register. -/
inductive Unplaced (t : Text) : Fault → Prop where
  | operand {e : Fault} (hoperand : Unresolved t e) : Unplaced t e
  | value {x : Value} (hresolve : resolve (.text t) = .ok x) (hvalue : ∀ u, x ≠ .text u) :
      Unplaced t (.type .other)
  | base {u offset base : Text} {e : Fault} (hresolve : resolve (.text t) = .ok (.text u))
      (hcut : cutBase u = some (offset, base)) (hbase : Register.Unlisted base e) : Unplaced t e
  | offset {u offset base reg : Text} {e : Fault} (hresolve : resolve (.text t) = .ok (.text u))
      (hcut : cutBase u = some (offset, base)) (hbase : Register.toNumbered base = .ok reg)
      (hoffset : Unnumbered (Text.trim offset) e) : Unplaced t e

theorem Unplaced.stray_or_raised (hun : Unplaced t e) : e.isStray = true ∨ Evaluator.Raises e := by
  cases hun with
  | operand hoperand => exact hoperand.stray_or_raised
  | value => exact .inl rfl
  | base _ _ hbase =>
      cases hbase
      exact .inl rfl
  | offset _ _ _ hoffset => exact .inl hoffset.isStray

end Immediate

end RvToolkit
