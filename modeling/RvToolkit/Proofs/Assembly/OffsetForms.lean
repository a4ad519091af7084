import RvToolkit.Proofs.Assembly.Constants
import RvToolkit.Proofs.Assembly.Words
import RvToolkit.Proofs.Assembly.Wrapping

namespace RvToolkit

namespace Instruction

/-- The loads, the indirect jump and the stores. -/
def accesses : List Text :=
  ["lb".toList, "lh".toList, "lw".toList, "lbu".toList, "lhu".toList, "jalr".toList, "sb".toList,
    "sh".toList, "sw".toList]

def isStore (op : Text) : Bool := Isa.base.format? op = some .S

section Encoders

variable {op d : Text} {a b : Value} {ra rb : Nat} {args args' : List Value} {e : Fault}

theorem encodeI_congr [Evaluator]
    (h : operandsI args = operandsI args') : encodeI op args = encodeI op args' := by
  rw [encodeI, encodeI, h]

theorem encodeI_of_error [Evaluator] (hop : Isa.base.format? op = some .I) (h : operandsI args = .error e) :
    encodeI op args = .error e := by
  obtain ⟨c, hc⟩ := exists_code hop
  simp only [encodeI, codeOf_eq_ok.mpr hc, h, bind, Except.bind]

theorem encodeS_of_error [Evaluator] (hop : Isa.base.format? op = some .S) (h : operandsS args = .error e) :
    encodeS op args = .error e := by
  obtain ⟨c, hc⟩ := exists_code hop
  simp only [encodeS, codeOf_eq_ok.mpr hc, h, bind, Except.bind]

theorem encodeI_of_text [Evaluator] (hop : Isa.base.format? op = some .I)
    (hsystem : systemNumber? op = none)
    (hshift : isShift op = false) (h : operandsI args = .ok (some (a, b, .text d)))
    (ha : registerOf a = .ok ra)
    (hb : registerOf b = .ok rb) : encodeI op args = .error (.type .other) := by
  obtain ⟨c, hc⟩ := exists_code hop
  simp only [encodeI, codeOf_eq_ok.mpr hc, h, hsystem, hshift, ha, hb, Immediate.wrapOperand, Immediate.plain?,
    Bool.false_eq_true, ↓reduceIte, bind, Except.bind]

theorem encodeS_of_text [Evaluator] (hop : Isa.base.format? op = some .S)
    (h : operandsS args = .ok (a, b, .text d))
    (ha : registerOf a = .ok ra)
    (hb : registerOf b = .ok rb) : encodeS op args = .error (.type .other) := by
  obtain ⟨c, hc⟩ := exists_code hop
  simp only [encodeS, codeOf_eq_ok.mpr hc, h, ha, hb, Immediate.wrapOperand, Immediate.plain?, bind, Except.bind]

end Encoders

end Instruction

namespace Assembly

open Expr.Token Instruction Text

/-- An offset is written as a literal or as the lower part of one. -/
inductive Offset where
  | literal
  | lower
deriving DecidableEq, Repr

namespace Offset

def spelling : Offset → Text → Text
  | .literal, t => t
  | .lower, t => Text.call "%lo".toList t

def value : Offset → Int → Int
  | .literal, x => x
  | .lower, x => x % 2 ^ 12

/-- What is read of an offset that is an operand of its own: the lower part stays text. -/
def read : Offset → Int → Value
  | .literal, x => .int x
  | .lower, x => .text (Text.ofInt (x % 2 ^ 12))

end Offset

/-- `op r, b, m`. -/
def offsetBehind (op : Text) (r b : Nat) (m : Text) : Text :=
  op ++ ' ' :: join [',', ' '] [Register.numbered r, Register.numbered b, m]

/-- `op r, m(b)`. -/
def offsetBefore (op : Text) (r b : Nat) (m : Text) : Text :=
  op ++ ' ' :: join [',', ' '] [Register.numbered r, Text.call m (Register.numbered b)]

section Reading

variable {op w : Text} {ws : List Text}

def isPlainChar (c : Char) : Bool := !Text.isBlank c && c != ',' && isSmall c

theorem plain_of_all {t : Text} (hne : t ≠ []) (h : t.all isPlainChar = true) : Plain t := by
  have hspec (c : Char) (hc : c ∈ t) : (Text.isBlank c = false ∧ c ≠ ',') ∧ isSmall c = true := by
    simpa [isPlainChar] using List.all_eq_true.mp h c hc
  exact ⟨hne, fun {c} hc => (hspec c hc).1.1, fun hc => (hspec ',' hc).1.2 rfl,
    Small.lower fun c hc => (hspec c hc).2⟩

theorem tokens_folded (hop : Plain op) (hfold : fold op = op) (hws : ∀ u ∈ w :: ws, Plain (fold u)) :
    tokens (trim (op ++ ' ' :: join [',', ' '] (w :: ws))) = op :: (w :: ws).map fold := by
  have hline : fold (op ++ ' ' :: join [',', ' '] (w :: ws)) =
      op ++ ' ' :: join [',', ' '] (fold w :: ws.map fold) := by
    have hcomma : fold [',', ' '] = [',', ' '] := rfl
    rw [fold_append, hfold, fold_cons, join_fold, hcomma]
    rfl
  have hplain : ∀ u ∈ ws.map fold, Plain u := by
    intro u hu
    obtain ⟨v, hv, rfl⟩ := List.mem_map.mp hu
    exact hws v (List.mem_cons_of_mem w hv)
  obtain ⟨htrim, htokens⟩ := tokens_written hop (hws w List.mem_cons_self) hplain
  rw [← tokens_fold, ← trim_fold, hline, htrim, htokens]
  rfl

theorem lineCall_of_resolved [Evaluator] {st : SymbolTable} {pc : Int} {line : Text} {f : Format}
    {args resolved : List Text} (htokens : tokens (trim line) = op :: args)
    (hargs : args.mapM (resolveOperand st pc) = .ok resolved) (hf : Isa.base.format? op = some f) :
    lineCall st pc line = (encodeWith f op (resolved.map .text)).map (op, ·) := by
  rw [lineCall, htokens, resolveOperands, hargs]
  simp only [bind, Except.bind, pure, Except.pure, encodeTokens, effect_encode_of_format hf]
  cases encodeWith f op (resolved.map .text) with
  | error e => rfl
  | ok e => rfl

end Reading

namespace Offset

variable {t : Text} {b : Nat} {x : Int} (m : Offset)

theorem withBase_spelling [Evaluator] (h : IsNumber t) (hb : b < 32) (hx : Expr.evaluate t = .ok (.int x)) :
    Immediate.withBase (.text (Text.call (m.spelling t) (Register.numbered b))) =
      .ok (.int (m.value x), Register.numbered b) := by
  cases m with
  | literal =>
      rw [spelling, Immediate.withBase_literal h hb, Immediate.evaluate_eq_ok.mpr hx]
      rfl
  | lower =>
      exact Immediate.withBase_lower List.mem_cons_self (Immediate.notMem_of_isNumber h (by decide))
        (Immediate.notMem_of_isNumber h (by decide)) hx hb (Immediate.toNumbered_numbered hb)

section Refused

variable [Evaluator] {err : EvalError} (h : IsNumber t) (herr : Expr.evaluate t = .error err)
  (hrefused : ∃ e, Evaluator.argument t = .error e)

include h herr hrefused

theorem resolve_lower_of_error (rest : Text) :
    ∃ e, Immediate.resolve (.text (lower.spelling t ++ rest)) = .error e := by
  obtain ⟨e, he⟩ := hrefused
  have hargument : Evaluator.argumentValue t = .error e := by rw [Evaluator.argumentValue, herr, he]
  exact ⟨e, Immediate.resolve_lower_of_error List.mem_cons_self h hargument rest⟩

theorem withBase_of_error (hb : b < 32) :
    ∃ e, Immediate.withBase (.text (Text.call (m.spelling t) (Register.numbered b))) = .error e := by
  cases m with
  | literal =>
      refine ⟨.eval err, ?_⟩
      rw [spelling, Immediate.withBase_literal h hb, Immediate.evaluate, herr]
      rfl
  | lower =>
      obtain ⟨e, he⟩ := resolve_lower_of_error h herr hrefused (Text.call [] (Register.numbered b))
      exact ⟨e, congrArg (· >>= _) he⟩

theorem resolve_of_error : ∃ e, Immediate.resolve (.text (m.spelling t)) = .error e := by
  cases m with
  | literal =>
      refine ⟨.eval err, ?_⟩
      rw [spelling, Immediate.resolve_literal h, Immediate.evaluate, herr]
      rfl
  | lower =>
      have hresolve := resolve_lower_of_error h herr hrefused []
      rwa [List.append_nil] at hresolve

end Refused

theorem resolve_spelling [Evaluator] (h : IsNumber t) (hx : Expr.evaluate t = .ok (.int x)) :
    Immediate.resolve (.text (m.spelling t)) = .ok (m.read x) := by
  cases m with
  | literal =>
      rw [spelling, Immediate.resolve_literal h, Immediate.evaluate_eq_ok.mpr hx]
      rfl
  | lower =>
      have hresolve := Immediate.resolve_lower List.mem_cons_self (Immediate.notMem_of_isNumber h (by decide))
        (Immediate.notMem_of_isNumber h (by decide)) hx [] List.not_mem_nil
      rwa [List.append_nil, List.append_nil] at hresolve

theorem fold_spelling (t : Text) : fold (m.spelling t) = m.spelling (fold t) := by
  cases m with
  | literal => rfl
  | lower =>
      simp only [spelling, Text.call, fold_append, fold_cons]
      rfl

theorem isName_spelling (h : IsNumber t) {rest : Text} (hrest : '\n' ∉ rest) :
    Register.isName (m.spelling t ++ rest) = false := by
  have hline : '\n' ∉ t := Immediate.notMem_of_isNumber h (by decide)
  cases m with
  | literal =>
      obtain ⟨c, cs, rfl, hc⟩ := h.exists_cons
      have hline' : '\n' ∉ (c :: cs) ++ rest := by
        rw [List.mem_append, not_or]
        exact ⟨hline, hrest⟩
      exact Register.isName_cons hline' hc
  | lower =>
      have hline' : '\n' ∉ "%lo".toList ++ '(' :: (t ++ [')']) ++ rest := by
        simp only [List.mem_append, List.mem_cons, hline, hrest]
        decide
      exact Register.isName_cons hline' (by decide)

theorem plain_spelling (h : IsNumber t) {rest : Text} (hrest : rest.all isPlainChar = true) :
    Plain (fold (m.spelling t) ++ rest) := by
  have hall : (literalChars.all fun c => isPlainChar c.toLower) = true := by decide
  have hfold : (fold t).all isPlainChar = true := by
    rw [fold, List.all_map]
    exact List.all_eq_true.mpr fun c hc => List.all_eq_true.mp hall c (h.subset_literalChars hc)
  have hne : fold t ≠ [] := mt fold_eq_nil.mp h.ne_nil
  rw [fold_spelling]
  cases m with
  | literal => exact plain_of_all (by simp [spelling, hne]) (by rw [spelling, List.all_append, hfold, hrest]; rfl)
  | lower =>
      refine plain_of_all (by simp [spelling, Text.call]) ?_
      simp only [spelling, Text.call, List.all_append, List.all_cons, hfold, hrest]
      decide

end Offset

section Forms

variable {op t : Text} {r b : Nat} {f : Format} {pc : Int}

theorem plain_of_mem_accesses (hop : op ∈ accesses) : Plain op ∧ fold op = op := by
  have hall : (accesses.all fun op => isPlain op && (fold op == op)) = true := by decide
  have hspec := List.all_eq_true.mp hall op hop
  rw [Bool.and_eq_true, beq_iff_eq] at hspec
  exact ⟨plain_of_isPlain hspec.1, hspec.2⟩

theorem takesOffset_of_mem_accesses (hop : op ∈ accesses) : TakesOffset op := by
  have hall : ∀ op ∈ accesses, Isa.base.format? op = some .S ∨
      Isa.base.format? op = some .I ∧ systemNumber? op = none ∧ isShift op = false := by decide
  exact hall op hop

theorem numbered_spec (hr : r < 32) :
    (Register.numbered r).all isPlainChar = true ∧ '\n' ∉ Register.numbered r ∧
      fold (Register.numbered r) = Register.numbered r := by
  have hall : ∀ r < 32, (Register.numbered (r : Nat)).all isPlainChar = true ∧ '\n' ∉ Register.numbered r ∧
      fold (Register.numbered r) = Register.numbered r := by decide
  exact hall r hr

theorem plain_numbered (hr : r < 32) : Plain (fold (Register.numbered r)) := by
  obtain ⟨hall, -, hfold⟩ := numbered_spec hr
  rw [hfold]
  exact plain_of_all (List.cons_ne_nil _ _) hall

theorem resolveOperand_offset [Evaluator] (m : Offset) (ht : IsNumber t) {rest : Text}
    (hrest : '\n' ∉ rest) :
    resolveOperand [] pc (m.spelling t ++ rest) = .ok (m.spelling t ++ rest) := by
  change (if Register.isName (m.spelling t ++ rest) then _ else _) = _
  rw [m.isName_spelling ht hrest]
  rfl

theorem lineCall_behind [Evaluator] (hop : op ∈ accesses) (hf : Isa.base.format? op = some f)
    (hr : r < 32) (hb : b < 32) (ht : IsNumber t) (m : Offset) :
    lineCall [] pc (offsetBehind op r b (m.spelling t)) =
      (encodeWith f op [.text (Register.numbered r), .text (Register.numbered b),
        .text (m.spelling (Text.lower t))]).map (op, ·) := by
  obtain ⟨hplain, hfold⟩ := plain_of_mem_accesses hop
  have hoffset : Plain (fold (m.spelling t) ++ []) := m.plain_spelling ht rfl
  have hresolve : resolveOperand [] pc (m.spelling (fold t) ++ []) = .ok (m.spelling (fold t) ++ []) :=
    resolveOperand_offset m ht.fold List.not_mem_nil
  rw [List.append_nil] at hoffset hresolve
  have hregister {i : Nat} (hi : i < 32) :
      resolveOperand [] pc (Register.numbered i) = .ok (Register.numbered i) :=
    resolveOperand_numbered hi (List.forall_mem_nil _) pc
  have htokens : tokens (trim (offsetBehind op r b (m.spelling t))) =
      op :: [Register.numbered r, Register.numbered b, m.spelling t].map fold :=
    tokens_folded hplain hfold (by simpa using ⟨plain_numbered hr, plain_numbered hb, hoffset⟩)
  have hargs : ([Register.numbered r, Register.numbered b, m.spelling t].map fold).mapM (resolveOperand [] pc) =
      .ok [Register.numbered r, Register.numbered b, m.spelling (Text.lower t)] := by
    simp only [List.map_cons, List.map_nil, List.mapM_cons, List.mapM_nil, (numbered_spec hr).2.2,
      (numbered_spec hb).2.2, hregister hr, hregister hb, m.fold_spelling, hresolve, ht.lower]
    rfl
  exact lineCall_of_resolved htokens hargs hf

theorem lineCall_before [Evaluator] (hop : op ∈ accesses) (hf : Isa.base.format? op = some f)
    (hr : r < 32) (hb : b < 32) (ht : IsNumber t) (m : Offset) :
    lineCall [] pc (offsetBefore op r b (m.spelling t)) =
      (encodeWith f op [.text (Register.numbered r),
        .text (Text.call (m.spelling (Text.lower t)) (Register.numbered b))]).map (op, ·) := by
  obtain ⟨hplain, hfold⟩ := plain_of_mem_accesses hop
  obtain ⟨hall, hline, hfoldb⟩ := numbered_spec hb
  have hcall : fold (Text.call (m.spelling t) (Register.numbered b)) =
      Text.call (m.spelling (fold t)) (Register.numbered b) := by
    rw [Text.call, fold_append, fold_cons, fold_append, hfoldb, m.fold_spelling]
    rfl
  have hoffset : Plain (fold (Text.call (m.spelling t) (Register.numbered b))) := by
    rw [hcall, ← m.fold_spelling]
    exact m.plain_spelling ht (by simp only [List.all_cons, List.all_append, hall]; decide)
  have hresolve : resolveOperand [] pc (Text.call (m.spelling (fold t)) (Register.numbered b)) =
      .ok (Text.call (m.spelling (fold t)) (Register.numbered b)) :=
    resolveOperand_offset m ht.fold (by simpa using hline)
  have hregister : resolveOperand [] pc (Register.numbered r) = .ok (Register.numbered r) :=
    resolveOperand_numbered hr (List.forall_mem_nil _) pc
  have htokens : tokens (trim (offsetBefore op r b (m.spelling t))) =
      op :: [Register.numbered r, Text.call (m.spelling t) (Register.numbered b)].map fold :=
    tokens_folded hplain hfold (by simpa using ⟨plain_numbered hr, hoffset⟩)
  have hargs : ([Register.numbered r, Text.call (m.spelling t) (Register.numbered b)].map fold).mapM
      (resolveOperand [] pc) =
        .ok [Register.numbered r, Text.call (m.spelling (Text.lower t)) (Register.numbered b)] := by
    simp only [List.map_cons, List.map_nil, List.mapM_cons, List.mapM_nil, (numbered_spec hr).2.2,
      hregister, hcall, hresolve, ht.lower]
    rfl
  exact lineCall_of_resolved htokens hargs hf

theorem encode_forms [Evaluator] {x : Int} (hop : TakesOffset op) (hf : Isa.base.format? op = some f)
    (hr : r < 32) (hb : b < 32) (ht : IsNumber t) (hx : Expr.evaluate t = .ok (.int x)) (m : Offset) :
    ∃ e, encodeWith f op [.text (Register.numbered r), .text (Text.call (m.spelling t) (Register.numbered b))] =
        .ok e ∧
      e.operands = ⟨some [r, b], some (Immediate.wrap 12 (m.value x))⟩ ∧
      encodeWith f op [.text (Register.numbered r), .text (Register.numbered b), .text (m.spelling t)] =
        if isStore op = false ∧ m = .literal then .ok e else .error (.type .other) := by
  have hdest := registerOf_numbered hr
  have hsource := registerOf_numbered hb
  have hbase := m.withBase_spelling ht hb hx
  have hown := m.resolve_spelling ht hx
  obtain ⟨e, he, hoperands⟩ := encode_offset hop hdest hbase hsource ()
  rw [effect_encode_of_format hf] at he
  have he' := (Prod.mk.inj he).1
  refine ⟨e, he', hoperands, ?_⟩
  rcases hop with hS | ⟨hI, hsystem, hshift⟩
  · obtain rfl : f = .S := Option.some.inj (hf.symm.trans hS)
    rw [if_neg (by simp [isStore, hf])]
    exact encodeS_of_text hf rfl hdest hsource
  · obtain rfl : f = .I := Option.some.inj (hf.symm.trans hI)
    cases m with
    | literal =>
        rw [if_pos ⟨by simp [isStore, hf], rfl⟩, ← he']
        refine encodeI_congr ?_
        simp only [operandsI, hown, hbase]
        rfl
    | lower =>
        rw [if_neg (by simp)]
        have hoperands : operandsI [.text (Register.numbered r), .text (Register.numbered b),
            .text (Offset.lower.spelling t)] =
              .ok (some (.text (Register.numbered r), .text (Register.numbered b), Offset.lower.read x)) := by
          simp only [operandsI, hown]
          rfl
        exact encodeI_of_text hf hsystem hshift hoperands hdest hsource

theorem encode_forms_of_error [Evaluator] {err : EvalError} (hop : TakesOffset op)
    (hf : Isa.base.format? op = some f) (hr : r < 32) (hb : b < 32) (ht : IsNumber t)
    (herr : Expr.evaluate t = .error err) (hrefused : ∃ e, Evaluator.argument t = .error e) (m : Offset) :
    (∃ e, encodeWith f op [.text (Register.numbered r), .text (Text.call (m.spelling t) (Register.numbered b))] =
        .error e) ∧
      ∃ e, encodeWith f op [.text (Register.numbered r), .text (Register.numbered b), .text (m.spelling t)] =
        .error e := by
  obtain ⟨e, hbase⟩ := m.withBase_of_error ht herr hrefused hb
  obtain ⟨e', hown⟩ := m.resolve_of_error ht herr hrefused
  rcases hop with hS | ⟨hI, -⟩
  · obtain rfl : f = .S := Option.some.inj (hf.symm.trans hS)
    exact ⟨⟨_, encodeS_of_error hf (congrArg (· >>= _) hbase)⟩,
      ⟨_, encodeS_of_text hf rfl (registerOf_numbered hr) (registerOf_numbered hb)⟩⟩
  · obtain rfl : f = .I := Option.some.inj (hf.symm.trans hI)
    exact ⟨⟨_, encodeI_of_error hf (congrArg (· >>= _) hbase)⟩, ⟨_, encodeI_of_error hf (congrArg (· >>= _) hown)⟩⟩

/-- The two ways to write an offset. In front of the register it is read as the number it spells, and the
instruction is encoded. Behind the register it is taken alike only where a load or the indirect jump has
a literal there; a store, or the lower part of a literal, is refused. A literal that is too long to be
read is accepted nowhere, if the evaluator gives it no value either. -/
theorem offset_forms [Evaluator] (hop : op ∈ accesses) (hr : r < 32) (hb : b < 32) (ht : IsNumber t)
    (hrefused : ∀ err, Expr.evaluate (Text.lower t) = .error err → ∃ e, Evaluator.argument (Text.lower t) = .error e)
    (m : Offset) (pc : Int) :
    (∃ x e, Expr.evaluate (Text.lower t) = .ok (.int x) ∧
      lineCall [] pc (offsetBefore op r b (m.spelling t)) = .ok (op, e) ∧
      e.operands = ⟨some [r, b], some (Immediate.wrap 12 (m.value x))⟩ ∧
      lineCall [] pc (offsetBehind op r b (m.spelling t)) =
        if isStore op = false ∧ m = .literal then .ok (op, e) else .error (.type .other)) ∨
    Number.maxDigits < t.length ∧ (∃ e, lineCall [] pc (offsetBefore op r b (m.spelling t)) = .error e) ∧
      ∃ e, lineCall [] pc (offsetBehind op r b (m.spelling t)) = .error e := by
  have hnumber : IsNumber (Text.lower t) := ht.lower ▸ ht.fold
  have hlength : (Text.lower t).length = t.length := by
    rw [ht.lower]
    exact List.length_map _
  have htakes := takesOffset_of_mem_accesses hop
  obtain ⟨f, hf⟩ : ∃ f, Isa.base.format? op = some f := by
    rcases htakes with hS | ⟨hI, -⟩
    · exact ⟨.S, hS⟩
    · exact ⟨.I, hI⟩
  rw [lineCall_before hop hf hr hb ht, lineCall_behind hop hf hr hb ht]
  rcases hnumber.evaluate with ⟨x, hx⟩ | ⟨hlong, err, herr⟩
  · obtain ⟨e, hbefore, hoperands, hbehind⟩ := encode_forms htakes hf hr hb hnumber hx m
    refine .inl ⟨x, e, hx, by rw [hbefore]; rfl, hoperands, ?_⟩
    rw [hbehind]
    split <;> rfl
  · obtain ⟨⟨e, hbefore⟩, e', hbehind⟩ :=
      encode_forms_of_error htakes hf hr hb hnumber herr (hrefused err herr) m
    exact .inr ⟨hlength ▸ hlong, ⟨e, by rw [hbefore]; rfl⟩, e', by rw [hbehind]; rfl⟩

section OffsetFormsStore

open scoped Evaluator.Arithmetic

theorem offset_forms_store :
    ∃ e, lineCall [] 0 "sw x1, 4(x2)".toList = .ok ("sw".toList, e) ∧ e.operands = ⟨some [1, 2], some 4⟩ ∧
      lineCall [] 0 "sw x1, x2, 4".toList = .error (.type .other) := by
  have hfour : IsNumber "4".toList := ⟨[], by decide, "4".toList, .decimal (by decide) (by simp), rfl⟩
  have hstore : "sw".toList ∈ accesses := by decide
  have hrefused : ∀ err, Expr.evaluate "4".toList = .error err → ∃ e, Evaluator.argument "4".toList = .error e := by
    intro err herr
    cases herr
  rcases offset_forms hstore (by decide : 1 < 32) (by decide : 2 < 32) hfour hrefused .literal 0 with
    ⟨x, e, hx, he, hoperands, hbehind⟩ | ⟨hlong, -⟩
  · obtain rfl : x = 4 := by
      cases hx
      rfl
    exact ⟨e, he, hoperands, hbehind⟩
  · exact absurd hlong (by decide)

end OffsetFormsStore

end Forms

end Assembly

end RvToolkit
