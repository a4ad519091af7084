import RvToolkit.Number.Power
import RvToolkit.Proofs.Bits
import RvToolkit.Proofs.Expr.Shifted
import RvToolkit.Proofs.Instruction.Shown
import RvToolkit.Proofs.Instruction.Unreadable

namespace RvToolkit

namespace Text

/-- `f(arg)`. -/
def call (f arg : Text) : Text := f ++ '(' :: (arg ++ [')'])

theorem cutAt_append {sep : Char} {t : Text} (h : sep ∉ t) (rest : Text) :
    cutAt sep (t ++ sep :: rest) = some (t, rest) := by
  induction t with
  | nil => exact if_pos rfl
  | cons c cs ih =>
      obtain ⟨hc, hcs⟩ : sep ≠ c ∧ sep ∉ cs := by simpa using h
      rw [List.cons_append, cutAt, if_neg (Ne.symm hc), ih hcs]
      rfl

theorem trim_eq_self {t : Text} (h : ∀ c ∈ t, isBlank c = false) : trim t = t := by
  have hkeep {u : Text} (hu : ∀ c ∈ u, isBlank c = false) : u.dropWhile isBlank = u := by
    cases u with
    | nil => rfl
    | cons c cs =>
        have hc : ¬ isBlank c = true := by rw [hu c List.mem_cons_self]; exact Bool.false_ne_true
        exact List.dropWhile_cons_of_neg hc
  rw [trim, hkeep h, trimEnd, hkeep fun c hc => h c (List.mem_reverse.mp hc), List.reverse_reverse]

theorem isBlank_of_mem_ofInt {i : Int} {c : Char} (hc : c ∈ ofInt i) : isBlank c = false := by
  obtain ⟨ds, htext, -, hds, -⟩ := Number.exists_ofInt i
  rw [htext] at hc
  have hdigit : ∀ d < 10, isBlank d.digitChar = false := by decide
  rcases List.mem_append.mp hc with hc | hc
  · split at hc
    · rw [List.mem_singleton.mp hc]
      decide
    · cases hc
  · obtain ⟨d, hd, rfl⟩ := List.mem_map.mp hc
    exact hdigit d (hds d hd)

end Text

namespace Immediate

namespace Half

variable {h : Half} {name arg : Text}

theorem names_cons (hname : name ∈ h.names) : ∃ cs, name = '%' :: cs := by
  have hall : ∀ h : Half, ∀ name ∈ h.names, name.head? = some '%' := by
    intro h
    cases h <;> decide
  obtain ⟨cs, rfl⟩ := List.head?_eq_some_iff.mp (hall h name hname)
  exact ⟨cs, rfl⟩

theorem call?_append (hname : name ∈ h.names) (hclose : ')' ∉ arg) (hline : '\n' ∉ arg) (rest : Text) :
    h.call? (Text.call name arg ++ rest) = some (arg, rest) := by
  have hprefix : (name ++ ['(']).isPrefixOf (Text.call name arg ++ rest) = true := by
    rw [List.isPrefixOf_iff_prefix]
    exact ⟨arg ++ ')' :: rest, by simp [Text.call]⟩
  have hdrop : (Text.call name arg ++ rest).drop (name.length + 1) = arg ++ ')' :: rest := by
    simp [Text.call, List.drop_append]
  have hcut : Text.cutAt ')' (arg ++ ')' :: rest) = some (arg, rest) := Text.cutAt_append hclose rest
  have hone : arg.contains '\n' = false := by simpa using hline
  -- the second name does not begin like the first
  cases h with
  | upper =>
      obtain rfl | rfl : name = "%hi".toList ∨ name = "%pcrel_hi".toList := by simpa [names] using hname
      · simp only [call?, names, List.findSome?_cons, hprefix, ↓reduceIte, hdrop, hcut, hone,
          Bool.false_eq_true]
      · have hother : ("%hi".toList ++ ['(']).isPrefixOf
            (Text.call "%pcrel_hi".toList arg ++ rest) = false := rfl
        simp only [call?, names, List.findSome?_cons, hother, hprefix, ↓reduceIte, hdrop, hcut, hone,
          Bool.false_eq_true]
  | lower =>
      obtain rfl | rfl : name = "%lo".toList ∨ name = "%pcrel_lo".toList := by simpa [names] using hname
      · simp only [call?, names, List.findSome?_cons, hprefix, ↓reduceIte, hdrop, hcut, hone,
          Bool.false_eq_true]
      · have hother : ("%lo".toList ++ ['(']).isPrefixOf
            (Text.call "%pcrel_lo".toList arg ++ rest) = false := rfl
        simp only [call?, names, List.findSome?_cons, hother, hprefix, ↓reduceIte, hdrop, hcut, hone,
          Bool.false_eq_true]

theorem opens_append (hname : name ∈ h.names) (rest : Text) :
    h.opens (Text.call name arg ++ rest) = true := by
  refine List.any_eq_true.mpr ⟨name, hname, ?_⟩
  rw [List.isPrefixOf_iff_prefix]
  exact ⟨'(' :: (arg ++ ')' :: rest), by simp [Text.call]⟩

theorem call?_of_ne {c : Char} (hc : c ≠ '%') (cs : Text) : h.call? (c :: cs) = none := by
  cases h <;> simp [call?, names, Ne.symm hc]

theorem substituteFrom_eq_drop (f : Text → Text) (k : Nat) (t : Text) :
    substituteFrom h f k t = h.substitute f (t.drop k) := by
  induction t generalizing k with
  | nil =>
      rw [List.drop_nil]
      cases k <;> rfl
  | cons c cs ih =>
      cases k with
      | zero => rfl
      | succ k => exact ih k

theorem substitute_append (f : Text → Text) (hname : name ∈ h.names) (hclose : ')' ∉ arg)
    (hline : '\n' ∉ arg) (rest : Text) :
    h.substitute f (Text.call name arg ++ rest) = f arg ++ h.substitute f rest := by
  have hcall := call?_append hname hclose hline rest
  obtain ⟨cs, rfl⟩ := names_cons hname
  have htext : Text.call ('%' :: cs) arg ++ rest = '%' :: (Text.call cs arg ++ rest) := rfl
  rw [htext] at hcall ⊢
  rw [substitute, substituteFrom, hcall]
  have hlength : (Text.call cs arg ++ rest).length - rest.length = (Text.call cs arg).length := by
    rw [List.length_append]
    omega
  dsimp only
  rw [hlength, substituteFrom_eq_drop, List.drop_left]

theorem substitute_of_plain (f : Text → Text) {t : Text} (ht : '%' ∉ t) : h.substitute f t = t := by
  induction t with
  | nil => rfl
  | cons c cs ih =>
      obtain ⟨hc, hcs⟩ : '%' ≠ c ∧ '%' ∉ cs := by simpa using ht
      rw [substitute, substituteFrom, call?_of_ne (Ne.symm hc)]
      exact congrArg (c :: ·) (ih hcs)

theorem resolve_append [Evaluator] {n : Expr.Num} (hname : name ∈ h.names) (hclose : ')' ∉ arg)
    (hline : '\n' ∉ arg) (heval : Expr.evaluate arg = .ok n) (rest : Text) (hrest : '%' ∉ rest) :
    h.resolve (Text.call name arg ++ rest) = (h.take n.toValue).map (· ++ rest) := by
  rw [resolve, call?_append hname hclose hline]
  simp only [Evaluator.argumentValue_of_evaluate heval, bind, Except.bind]
  cases h.take n.toValue with
  | error e => rfl
  | ok d =>
      have htext := substitute_append (fun _ => d) hname hclose hline rest
      rw [substitute_of_plain _ hrest] at htext
      exact congrArg Except.ok htext

end Half

theorem cutBase_append {offset base : Text} (hbase : ∀ c ∈ base, isParen c = false)
    (hline : '\n' ∉ offset) : cutBase (Text.call offset base) = some (offset, base) := by
  have hreverse : (Text.trimEnd (Text.call offset base)).reverse =
      ')' :: (base.reverse ++ '(' :: offset.reverse) := by
    have hblank : Text.isBlank ')' = false := by decide
    simp [Text.trimEnd, Text.call, hblank]
  have hplain : ∀ c ∈ base.reverse, (!isParen c) = true := by
    intro c hc
    rw [hbase c (List.mem_reverse.mp hc)]
    rfl
  have hdrop : (base.reverse ++ '(' :: offset.reverse).dropWhile (fun c => !isParen c) =
      '(' :: offset.reverse := by
    rw [List.dropWhile_append_of_pos hplain]
    rfl
  have htake : (base.reverse ++ '(' :: offset.reverse).takeWhile (fun c => !isParen c) =
      base.reverse := by
    rw [List.takeWhile_append_of_pos hplain, List.takeWhile_cons]
    exact List.append_nil _
  have hone : offset.reverse.contains '\n' = false := by simpa using hline
  rw [cutBase, hreverse]
  simp only [hdrop, htake, hone, Bool.false_eq_true, ↓reduceIte, List.reverse_reverse]

theorem number_of_isExpr [Evaluator] {t : Text} {i : Int} (h : Expr.isExpr Evaluator.depth t = .ok true)
    (hi : Expr.evaluate t = .ok (.int i)) : number t = .ok (.int i) := by
  rw [number, h]
  simp only [bind, Except.bind, ↓reduceIte, evaluate_eq_ok.mpr hi]
  rfl

theorem plain_of_toNumbered {base : Text} {r : Nat} (hr : r < 32)
    (h : Register.toNumbered base = .ok (Register.numbered r)) :
    ∀ c ∈ base, isParen c = false ∧ c ≠ '%' := by
  have hnumbered : ∀ r < 32, ((Register.numbered (r : Nat)).all fun c => !isParen c && c != '%') = true := by
    decide
  have haliases : (Register.aliases.all fun p => p.1.all fun c => !isParen c && c != '%') = true := by
    decide
  have hplain : (base.all fun c => !isParen c && c != '%') = true := by
    unfold Register.toNumbered at h
    split at h
    · rw [Except.ok.inj h]
      exact hnumbered r hr
    · split at h
      · split at h
        · rename_i i hi
          exact List.all_eq_true.mp haliases (base, i) (mem_of_lookup hi)
        · cases h
      · cases h
  intro c hc
  simpa using List.all_eq_true.mp hplain c hc

theorem length_toDigits_lower (x : Int) :
    (Nat.toDigits 10 (x % 2 ^ 12).natAbs).length ≤ Number.maxDigits := by
  have hfour := (Nat.length_toDigits_le_iff (b := 10) (n := (x % 2 ^ 12).natAbs) (k := 4) (by decide)
    (by decide)).mpr (by omega)
  exact hfour.trans (by decide)

theorem resolve_lower [Evaluator] {name arg : Text} {x : Int} (hname : name ∈ Half.lower.names)
    (hclose : ')' ∉ arg)
    (hline : '\n' ∉ arg) (hx : Expr.evaluate arg = .ok (.int x)) (rest : Text) (hrest : '%' ∉ rest) :
    resolve (.text (Text.call name arg ++ rest)) = .ok (.text (Text.ofInt (x % 2 ^ 12) ++ rest)) := by
  have hmask : Half.lower.take (.int x) = decimalText (x % 2 ^ 12) :=
    congrArg decimalText (Bits.and_mask x 12)
  have hdecimal : decimalText (x % 2 ^ 12) = .ok (Text.ofInt (x % 2 ^ 12)) :=
    if_neg (Nat.not_lt.mpr (length_toDigits_lower x))
  rw [resolve_of_opens (Half.opens_append hname rest), Half.resolve_append hname hclose hline hx rest hrest,
    Expr.Num.toValue, hmask, hdecimal]
  rfl

theorem withBase_lower [Evaluator] {name arg base : Text} {x : Int} {r : Nat}
    (hname : name ∈ Half.lower.names)
    (hclose : ')' ∉ arg) (hline : '\n' ∉ arg) (hx : Expr.evaluate arg = .ok (.int x)) (hr : r < 32)
    (hbase : Register.toNumbered base = .ok (Register.numbered r)) :
    withBase (.text (Text.call (Text.call name arg) base)) =
      .ok (.int (x % 2 ^ 12), Register.numbered r) := by
  have hplain := plain_of_toNumbered hr hbase
  have hsplit : Text.call (Text.call name arg) base = Text.call name arg ++ Text.call [] base := rfl
  have hresolve := resolve_lower hname hclose hline hx (Text.call [] base)
    (by simpa [Text.call] using fun hc => (hplain '%' hc).2 rfl)
  have hcut : cutBase (Text.ofInt (x % 2 ^ 12) ++ Text.call [] base) =
      some (Text.ofInt (x % 2 ^ 12), base) :=
    cutBase_append (fun c hc => (hplain c hc).1) fun hc => absurd (Text.isBlank_of_mem_ofInt hc) (by decide)
  rw [withBase, hsplit, hresolve]
  simp only [bind, Except.bind, pure, Except.pure, hcut, hbase,
    Text.trim_eq_self fun c => Text.isBlank_of_mem_ofInt, number_ofInt (length_toDigits_lower x)]

end Immediate

namespace Instruction

variable {σ : Type}

theorem encode_upper [Evaluator] {op : Text} {a imm : Value} {v : Int} {r : Nat}
    (hop : Isa.base.format? op = some .U)
    (ha : registerOf a = .ok r) (hv : upperOperand imm = .ok (.int v)) (s : σ) :
    ∃ e, (encode Isa.base op [a, imm]).effect s = (.ok e, s) ∧
      e.operands = ⟨some [r], some (Immediate.wrap 20 v)⟩ := by
  obtain ⟨c, hc⟩ := exists_code hop
  have hencode : encodeWith .U op [a, imm] = .ok ⟨pack [(Immediate.wrap 20 v, 12), (r, 7), (c.opcode, 0)],
      ⟨some [r], some (Immediate.wrap 20 v)⟩⟩ := by
    simp only [encodeWith, encodeU, codeOf_eq_ok.mpr hc, hv, ha, bind, Except.bind, pure, Except.pure,
      Immediate.wrapOperand, Immediate.plain?]
  exact ⟨_, encode_eq_ok.mpr ⟨rfl, .U, hop, hencode⟩, rfl⟩

/-- The instructions that take an offset from a base register. -/
def TakesOffset (op : Text) : Prop :=
  Isa.base.format? op = some .S ∨
    Isa.base.format? op = some .I ∧ systemNumber? op = none ∧ isShift op = false

theorem encode_offset [Evaluator] {op base : Text} {a place : Value} {v : Int} {ra rb : Nat}
    (hop : TakesOffset op)
    (ha : registerOf a = .ok ra) (hplace : Immediate.withBase place = .ok (.int v, base))
    (hbase : registerOf (.text base) = .ok rb) (s : σ) :
    ∃ e, (encode Isa.base op [a, place]).effect s = (.ok e, s) ∧
      e.operands = ⟨some [ra, rb], some (Immediate.wrap 12 v)⟩ := by
  have hwrap : Immediate.wrapOperand 12 (.int v) = .ok (Immediate.wrap 12 v) := rfl
  obtain hop | ⟨hop, hsystem, hshift⟩ := hop
  · obtain ⟨c, hc⟩ := exists_code hop
    have hencode : encodeWith .S op [a, place] =
        .ok ⟨pack [(field (Immediate.wrap 12 v) 5 7, 25), (ra, 20), (rb, 15), (c.funct3, 12),
          (field (Immediate.wrap 12 v) 0 5, 7), (c.opcode, 0)],
          ⟨some [ra, rb], some (Immediate.wrap 12 v)⟩⟩ := by
      simp only [encodeWith, encodeS, operandsS, codeOf_eq_ok.mpr hc, hplace, ha, hbase, hwrap, bind,
        Except.bind, pure, Except.pure]
    exact ⟨_, encode_eq_ok.mpr ⟨rfl, .S, hop, hencode⟩, rfl⟩
  · obtain ⟨c, hc⟩ := exists_code hop
    have hencode : encodeWith .I op [a, place] =
        .ok ⟨pack [(Immediate.wrap 12 v, 20), (rb, 15), (c.funct3, 12), (ra, 7), (c.opcode, 0)],
          ⟨some [ra, rb], some (Immediate.wrap 12 v)⟩⟩ := by
      simp only [encodeWith, encodeI, operandsI, codeOf_eq_ok.mpr hc, hplace, ha, hbase, hwrap, hsystem,
        hshift, Bool.false_eq_true, ↓reduceIte, bind, Except.bind, pure, Except.pure]
    exact ⟨_, encode_eq_ok.mpr ⟨rfl, .I, hop, hencode⟩, rfl⟩

theorem upperOperand_relocation [Evaluator] {name t : Text} {v : Int}
    (hname : name ∈ Immediate.Half.upper.names)
    (hexpr : Expr.isExpr Evaluator.depth t = .ok true) (hclose : ')' ∉ t)
    (hv : Expr.evaluate (t ++ Expr.shiftText) = .ok (.int v)) :
    upperOperand (.text (Text.call name t)) = .ok (.int v) := by
  have hline := Expr.newline_notMem_of_isExpr hexpr
  have htext : Immediate.Half.upper.substitute id (Text.call name t) = t := by
    rw [← List.append_nil (Text.call name t), Immediate.Half.substitute_append id hname hclose hline]
    exact List.append_nil t
  have hhead : (Text.call name t).head? = some '%' := by
    obtain ⟨cs, rfl⟩ := Immediate.Half.names_cons hname
    rfl
  rw [upperOperand, if_pos hhead, htext]
  exact Immediate.number_of_isExpr (Expr.isExpr_append hexpr) hv

/-- The upper part of an expression without parentheses as an operand. The value that a relocation has
elsewhere is the value of the expression, shifted; here the shift belongs to the last operand of the
outermost bit operators. The two agree wherever there are none. -/
theorem upper_expression [Evaluator] {op t : Text} {n : Int} {a : Value} {r : Nat}
    (hop : Isa.base.format? op = some .U) (ha : registerOf a = .ok r)
    (hexpr : Expr.isExpr Evaluator.depth t = .ok true)
    (hparen : '(' ∉ t ∧ ')' ∉ t) (hn : Expr.evaluate t = .ok (.int n)) (s : σ) :
    Immediate.Half.upper.resolve (Text.call "%hi".toList t) = decimalText (Bits.shiftRight n 12) ∧
    ∃ e tree v, (encode Isa.base op [a, .text (Text.call "%hi".toList t)]).effect s = (.ok e, s) ∧
      e.operands = ⟨some [r], some (Immediate.wrap 20 v)⟩ ∧ Expr.Tree.parse? t = some tree ∧
      tree.shiftLast.eval = .ok (.int v) ∧
      (e.operands.imm = some (Immediate.wrap 20 (Bits.shiftRight n 12)) ↔
        v % 2 ^ 20 = Bits.shiftRight n 12 % 2 ^ 20) ∧
      ((∀ c ∈ t, c ≠ '&' ∧ c ≠ '^' ∧ c ≠ '|') → v = Bits.shiftRight n 12) := by
  have hname : "%hi".toList ∈ Immediate.Half.upper.names := List.mem_cons_self
  obtain ⟨tree, v, htree, hv, hshifted, hplain⟩ := Expr.evaluate_append hexpr hparen hn
  obtain ⟨e, he, hoperands⟩ :=
    encode_upper hop ha (upperOperand_relocation hname hexpr hparen.2 hshifted) s
  refine ⟨?_, e, tree, v, he, hoperands, htree, hv, ?_, hplain⟩
  · have hresolve := Immediate.Half.resolve_append hname hparen.2 (Expr.newline_notMem_of_isExpr hexpr) hn
      [] List.not_mem_nil
    have htake : Immediate.Half.upper.take (.int n) = decimalText (Bits.shiftRight n 12) := rfl
    rw [List.append_nil, Expr.Num.toValue, htake] at hresolve
    rw [hresolve]
    cases decimalText (Bits.shiftRight n 12) with
    | error e => rfl
    | ok d => exact congrArg Except.ok (List.append_nil d)
  · rw [hoperands]
    exact Option.some_inj.trans Immediate.wrap_inj

section UpperExpressionOr

open scoped Evaluator.Arithmetic

theorem upper_expression_or :
    Expr.evaluate "0x1000|0".toList = .ok (.int 4096) ∧
    ∃ e, (encode Isa.base "lui".toList [.text "x1".toList, .text "%hi(0x1000|0)".toList]).effect () =
        (.ok e, ()) ∧
      e.operands.imm = some 4096 ∧ Immediate.wrap 20 (Bits.shiftRight 4096 12) = 1 := by
  have hexpr : Expr.isExpr Evaluator.depth "0x1000|0".toList = .ok true := Except.eq_ok_of_toOption (by decide +kernel)
  have hn : Expr.evaluate "0x1000|0".toList = .ok (.int 4096) := rfl
  have hx1 : registerOf (.text "x1".toList) = .ok 1 := rfl
  have hlui : Isa.base.format? "lui".toList = some .U := by decide
  obtain ⟨-, e, tree, v, he, hoperands, htree, hv, -⟩ :=
    upper_expression hlui hx1 hexpr (by decide) hn ()
  have htree' : Expr.Tree.parse? "0x1000|0".toList = some (.binary .or (.int 4096) (.int 0)) := rfl
  obtain rfl := Option.some.inj (htree.symm.trans htree')
  obtain rfl : v = 4096 := by
    cases hv
    rfl
  exact ⟨hn, e, he, by rw [hoperands]; decide, by decide⟩

end UpperExpressionOr

theorem upper_add_lower (x : Int) :
    (Immediate.wrap 20 (Bits.shiftRight x 12) * 2 ^ 12 + Immediate.wrap 12 (x % 2 ^ 12)) % 2 ^ 32 =
      (if x / 2 ^ 11 % 2 = 0 then x else x - 2 ^ 12) % 2 ^ 32 := by
  have hshift : Bits.shiftRight x 12 = x / 2 ^ 12 := Int.shiftRight_eq_div_pow x 12
  have hupper : Immediate.wrap 20 (x / 2 ^ 12) % 2 ^ 20 = x / 2 ^ 12 % 2 ^ 20 := by
    rw [wrap_eq_bmod]
    exact Int.bmod_emod
  have hlower : Immediate.wrap 12 (x % 2 ^ 12) =
      if x % 2 ^ 12 < 2 ^ 11 then x % 2 ^ 12 else x % 2 ^ 12 - 2 ^ 12 := by
    rw [wrap_eq_bmod, Int.bmod_def]
    split <;> split <;> omega
  rw [hshift, hlower]
  generalize Immediate.wrap 20 (x / 2 ^ 12) = h at hupper
  split <;> split <;> omega

/-- The upper part of a literal and its lower part, as the offset of a load or a store, make up the
literal if bit 11 is clear. Otherwise the lower part counts as negative, and the upper part does not make
up for it. -/
theorem halves_of_literal [Evaluator] {op t base : Text} {x : Int} {rd rt : Nat}
    (ht : Expr.Token.readAll t = some [.number t]) (hx : Expr.evaluate t = .ok (.int x))
    (hop : TakesOffset op) (hrd : rd < 32) (hrt : rt < 32)
    (hbase : Register.toNumbered base = .ok (Register.numbered rd)) (s : σ) :
    ∃ upper lower h l,
      (encode Isa.base "lui".toList
        [.text (Register.numbered rd), .text (Text.call "%hi".toList t)]).effect s = (.ok upper, s) ∧
      (encode Isa.base op
        [.text (Register.numbered rt), .text (Text.call (Text.call "%lo".toList t) base)]).effect s =
          (.ok lower, s) ∧
      upper.operands = ⟨some [rd], some h⟩ ∧ lower.operands = ⟨some [rt, rd], some l⟩ ∧
      (h * 2 ^ 12 + l) % 2 ^ 32 = (if x / 2 ^ 11 % 2 = 0 then x else x - 2 ^ 12) % 2 ^ 32 ∧
      ((h * 2 ^ 12 + l) % 2 ^ 32 = x % 2 ^ 32 ↔ x / 2 ^ 11 % 2 = 0) := by
  obtain ⟨hexpr, hchars⟩ := Expr.isExpr_of_literal ht
  have hnot {c : Char} (hword : Text.isWord c = false) (hsign : c ≠ '+' ∧ c ≠ '-') : c ∉ t := by
    intro hc
    rcases hchars c hc with hw | hplus | hminus
    · rw [hword] at hw
      cases hw
    · exact hsign.1 hplus
    · exact hsign.2 hminus
  have hparen : '(' ∉ t ∧ ')' ∉ t := ⟨hnot (by decide) (by decide), hnot (by decide) (by decide)⟩
  obtain ⟨tree, v, -, -, hshifted, hplain⟩ := Expr.evaluate_append hexpr hparen hx
  obtain rfl : v = Bits.shiftRight x 12 := by
    refine hplain fun c hc => ⟨?_, ?_, ?_⟩
    · rintro rfl
      exact hnot (by decide) (by decide) hc
    · rintro rfl
      exact hnot (by decide) (by decide) hc
    · rintro rfl
      exact hnot (by decide) (by decide) hc
  have hlui : Isa.base.format? "lui".toList = some .U := by decide
  obtain ⟨upper, hupper, huppers⟩ := encode_upper hlui (registerOf_numbered hrd)
    (upperOperand_relocation List.mem_cons_self hexpr hparen.2 hshifted) s
  obtain ⟨lower, hlower, hlowers⟩ := encode_offset hop (registerOf_numbered hrt)
    (Immediate.withBase_lower List.mem_cons_self hparen.2 (Expr.newline_notMem_of_isExpr hexpr) hx hrd hbase)
    (registerOf_numbered hrd) s
  have hsum := upper_add_lower x
  refine ⟨upper, lower, _, _, hupper, hlower, huppers, hlowers, hsum, ?_⟩
  rw [hsum]
  split <;> omega

section HalvesOfLiteralStore

open scoped Evaluator.Arithmetic

theorem halves_of_literal_store :
    Expr.evaluate "0x12345678".toList = .ok (.int 0x12345678) ∧
    ∃ upper lower h l,
      (encode Isa.base "lui".toList [.text "x10".toList, .text "%hi(0x12345678)".toList]).effect () =
        (.ok upper, ()) ∧
      (encode Isa.base "sw".toList [.text "x6".toList, .text "%lo(0x12345678)(a0)".toList]).effect () =
        (.ok lower, ()) ∧
      upper.operands = ⟨some [10], some h⟩ ∧ lower.operands = ⟨some [6, 10], some l⟩ ∧
      (h * 2 ^ 12 + l) % 2 ^ 32 = 0x12345678 := by
  have ht : Expr.Token.readAll "0x12345678".toList = some [.number "0x12345678".toList] := by decide +kernel
  have hx : Expr.evaluate "0x12345678".toList = .ok (.int 0x12345678) := rfl
  have ha0 : Register.toNumbered "a0".toList = .ok (Register.numbered (10 : Nat)) := rfl
  have hsw : TakesOffset "sw".toList := .inl (by decide)
  obtain ⟨upper, lower, h, l, hupper, hlower, huppers, hlowers, -, hsum⟩ :=
    halves_of_literal ht hx hsw (by decide) (by decide : 6 < 32) ha0 ()
  exact ⟨hx, upper, lower, h, l, hupper, hlower, huppers, hlowers, hsum.mpr (by decide)⟩

end HalvesOfLiteralStore

section HalvesBitEleven

open scoped Evaluator.Arithmetic

theorem halves_bit_eleven :
    ∃ upper lower h l,
      (encode Isa.base "lui".toList [.text "x5".toList, .text "%hi(2048)".toList]).effect () =
        (.ok upper, ()) ∧
      (encode Isa.base "lw".toList [.text "x6".toList, .text "%lo(2048)(x5)".toList]).effect () =
        (.ok lower, ()) ∧
      upper.operands = ⟨some [5], some h⟩ ∧ lower.operands = ⟨some [6, 5], some l⟩ ∧
      (h * 2 ^ 12 + l) % 2 ^ 32 ≠ 2048 := by
  have hupper : (encode Isa.base "lui".toList [.text "x5".toList, .text "%hi(2048)".toList]).effect () =
      (.ok ⟨0x000002b7, ⟨some [5], some 0⟩⟩, ()) :=
    Prod.ext (Except.eq_ok_of_toOption (by decide +kernel)) rfl
  have hlower : (encode Isa.base "lw".toList [.text "x6".toList, .text "%lo(2048)(x5)".toList]).effect () =
      (.ok ⟨-0x7ffd5cfd, ⟨some [6, 5], some (-2048)⟩⟩, ()) :=
    Prod.ext (Except.eq_ok_of_toOption (by decide +kernel)) rfl
  exact ⟨_, _, 0, -2048, hupper, hlower, rfl, rfl, by decide⟩

end HalvesBitEleven

end Instruction

end RvToolkit
