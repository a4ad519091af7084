import RvToolkit.Number.Power
import RvToolkit.Proofs.Assembly.Constants
import RvToolkit.Proofs.Assembly.Words
import RvToolkit.Proofs.Machine.Shapes

namespace RvToolkit

namespace Text

theorem plain_ofInt (i : Int) : Plain (ofInt i) := by
  have hdigit : ∀ d < 10, d.digitChar ∈ plainChars := by decide
  obtain ⟨ds, htext, hne, hds, -⟩ := Number.exists_ofInt i
  refine plain_of_subset ?_ fun c hc => ?_
  · rw [htext]
    simp [hne]
  · rw [htext] at hc
    rcases List.mem_append.mp hc with hc | hc
    · split at hc
      · rw [List.mem_singleton.mp hc]
        decide
      · cases hc
    · obtain ⟨d, hd, rfl⟩ := List.mem_map.mp hc
      exact hdigit d (hds d hd)

end Text

namespace Register

theorem plain_shownName {r : Nat} (hr : r < 32) : Text.Plain (Machine.shownName r) := by
  have hshown : ∀ r < 32, Text.isPlain (Machine.shownName r) = true := by decide
  exact Text.plain_of_isPlain (hshown r hr)

theorem resolveOperand_shownName [Evaluator] {r : Nat} (hr : r < 32) (pc : Int) :
    Assembly.resolveOperand [] pc (Machine.shownName r) = .ok (numbered r) := by
  have hshown : ∀ r < 32, isName (Machine.shownName r) = true ∧
      (toNumbered (Machine.shownName r)).toOption = some (numbered r) := by decide
  obtain ⟨hname, hnumbered⟩ := hshown r hr
  change (if isName (Machine.shownName r) then toNumbered (Machine.shownName r) else _) = _
  rw [if_pos hname]
  exact Except.eq_ok_of_toOption hnumbered

end Register

/-- The operands of an instruction, with numbered registers. -/
def Operands.spelled (o : Operands) : List Text :=
  (o.regs.getD []).map (fun r : Nat => Register.numbered r) ++ o.imm.toList.map Text.ofInt

/-- The operands of an instruction as they are shown. -/
def Operands.shown (o : Operands) : List Text :=
  (o.regs.getD []).map Machine.shownName ++ o.imm.toList.map Text.ofInt

namespace Instruction

theorem length_toDigits_wrap {n : Nat} (hn : 0 < n) (hn' : n ≤ 32) (v : Int) :
    (Nat.toDigits 10 (Immediate.wrap n v).natAbs).length ≤ Number.maxDigits := by
  obtain ⟨-, hlow, hhigh⟩ := representative_wrap hn v
  have hcast := Bits.natCast_two_pow (n - 1)
  have hpow : 2 ^ (n - 1) ≤ 2 ^ 31 := Nat.pow_le_pow_right (by decide) (by omega)
  have hten := (Nat.length_toDigits_le_iff (b := 10) (n := (Immediate.wrap n v).natAbs) (k := 10) (by decide)
    (by decide)).mpr (by omega)
  exact hten.trans (by decide)

theorem length_toDigits_shift (v : Int) :
    (Nat.toDigits 10 (Bits.and v 0x3f).natAbs).length ≤ Number.maxDigits := by
  have hmask : Bits.and v 0x3f = v % 2 ^ 6 := Bits.and_mask v 6
  have htwo := (Nat.length_toDigits_le_iff (b := 10) (n := (Bits.and v 0x3f).natAbs) (k := 2) (by decide)
    (by decide)).mpr (by omega)
  exact htwo.trans (by decide)

theorem encodeWith_spelled [Evaluator] {f : Format} {op : Text} {args : List Value} {e : Encoded}
    (h : encodeWith f op args = .ok e) (hf : f ≠ .S) (hregs : ∀ r ∈ e.operands.regs.getD [], r < 32) :
    encodeWith f op (e.operands.spelled.map .text) = .ok e := by
  -- What was read of the operands gives the instruction again: registers are read as their
  -- numbers, and an immediate that has been wrapped stays as it is.
  have hreg (r : Nat) (hr : r ∈ e.operands.regs.getD []) := registerOf_numbered (hregs r hr)
  cases f with
  | S => exact absurd rfl hf
  | R =>
      obtain ⟨c, a, b, d, rd, rs1, rs2, hc, rfl, -, -, -, rfl⟩ := encodeR_eq_ok h
      simp only [Option.getD_some] at hreg
      simp [encodeWith, encodeR, Operands.spelled, codeOf_eq_ok.mpr hc, hreg, bind, Except.bind, pure,
        Except.pure]
  | I =>
      cases hsystem : systemNumber? op with
      | some n =>
          simp only [encodeWith, encodeI, Except.bind_eq_ok] at h
          obtain ⟨c, hc, o, -, he⟩ := h
          rw [hsystem] at he
          cases he
          simp [encodeWith, encodeI, operandsI, Operands.spelled, hc, hsystem, bind, Except.bind, pure,
            Except.pure]
      | none =>
          obtain ⟨c, a, b, x, rd, rs1, hc, -, -, -, hcase⟩ := encodeI_eq_ok hsystem h
          rcases hcase with ⟨hshift, v, -, rfl⟩ | ⟨hshift, v, -, rfl⟩
          · have hmask (u : Int) : Bits.and u 0x3f = u % 2 ^ 6 := Bits.and_mask u 6
            have hagain : Bits.and (Bits.and v 0x3f) 0x3f = Bits.and v 0x3f := by
              rw [hmask, hmask, Int.emod_emod]
            simp only [Option.getD_some] at hreg
            simp [encodeWith, encodeI, operandsI, Operands.spelled, codeOf_eq_ok.mpr hc, hreg, hsystem,
              hshift, Immediate.resolve_ofInt (length_toDigits_shift v), Immediate.toInteger, hagain, bind,
              Except.bind, pure, Except.pure]
          · have himm := Immediate.resolve_ofInt (length_toDigits_wrap (n := 12) (by decide) (by decide) v)
            simp only [Option.getD_some] at hreg
            simp [encodeWith, encodeI, operandsI, Operands.spelled, codeOf_eq_ok.mpr hc, hreg, hsystem,
              hshift, himm, Immediate.wrapOperand, Immediate.plain?, wrap_wrap, bind, Except.bind, pure,
              Except.pure]
  | B =>
      obtain ⟨c, a, b, x, rs1, rs2, v, hc, rfl, -, -, -, rfl⟩ := encodeB_eq_ok h
      have himm := Immediate.toInteger_ofInt (length_toDigits_wrap (n := 13) (by decide) (by decide) v)
      simp only [Option.getD_some] at hreg
      simp [encodeWith, encodeB, Operands.spelled, codeOf_eq_ok.mpr hc, hreg, himm, wrap_wrap, bind,
        Except.bind, pure, Except.pure]
  | U =>
      obtain ⟨c, a, imm, x, rd, v, hc, rfl, -, -, -, rfl⟩ := encodeU_eq_ok h
      have himm := upperOperand_ofInt (length_toDigits_wrap (n := 20) (by decide) (by decide) v)
      simp only [Option.getD_some] at hreg
      simp [encodeWith, encodeU, Operands.spelled, codeOf_eq_ok.mpr hc, hreg, himm, Immediate.wrapOperand,
        Immediate.plain?, wrap_wrap, bind, Except.bind, pure, Except.pure]
  | J =>
      obtain ⟨c, a, imm, x, rd, v, hc, rfl, -, -, -, rfl⟩ := encodeJ_eq_ok h
      have himm := jumpOperand_ofInt (length_toDigits_wrap (n := 21) (by decide) (by decide) v)
      simp only [Option.getD_some] at hreg
      simp [encodeWith, encodeJ, Operands.spelled, codeOf_eq_ok.mpr hc, hreg, himm, Immediate.wrapOperand,
        Immediate.plain?, wrap_wrap, bind, Except.bind, pure, Except.pure]

end Instruction

namespace Instr

open Assembly Text

variable {op : Text} {o : Operands} (key : Int)

theorem render_ofStep {r : Nat} {regs : List Nat} {imm : Option Int} (h : ∀ i ∈ r :: regs, i < 32) :
    (ofStep key ⟨op, some (r :: regs), imm⟩).render =
      .ok (trim (op ++ ' ' :: join [',', ' '] (Operands.shown ⟨some (r :: regs), imm⟩))) := by
  have hnames := mapM_aliasOf h
  have hne : (r :: regs).map Machine.shownName ≠ [] := by simp
  unfold render
  rw [if_neg (by simp [ofStep])]
  simp only [ofStep, Option.map_some, hnames]
  cases imm with
  | none => simp [Operands.shown, bind, Except.bind, pure, Except.pure]
  | some i =>
      have hjoin := join_concat [',', ' '] (ofInt i) hne
      simp only [Operands.shown, Option.getD_some, Option.toList_some, List.map_cons, List.map_nil] at hjoin ⊢
      rw [hjoin]
      rfl

theorem plain_of_mem_shown (h : ∀ r ∈ o.regs.getD [], r < 32) : ∀ w ∈ o.shown, Plain w := by
  intro w hw
  rcases List.mem_append.mp hw with hw | hw
  · obtain ⟨r, hr, rfl⟩ := List.mem_map.mp hw
    exact Register.plain_shownName (h r hr)
  · obtain ⟨i, -, rfl⟩ := List.mem_map.mp hw
    exact plain_ofInt i

theorem mapM_resolveOperand_shown [Evaluator] (h : ∀ r ∈ o.regs.getD [], r < 32) (pc : Int) :
    o.shown.mapM (resolveOperand [] pc) = .ok o.spelled := by
  have hmap {α : Type} {l : List α} {u v : α → Text} (hl : ∀ a ∈ l, resolveOperand [] pc (u a) = .ok (v a)) :
      (l.map u).mapM (resolveOperand [] pc) = .ok (l.map v) := by
    induction l with
    | nil => rfl
    | cons a l ih =>
        rw [List.map_cons, List.mapM_cons, hl a List.mem_cons_self,
          ih fun b hb => hl b (List.mem_cons_of_mem a hb)]
        rfl
  have hnumber (i : Int) : resolveOperand [] pc (ofInt i) = .ok (ofInt i) :=
    resolveOperand_ofInt (List.forall_mem_nil _)
  rw [Operands.shown, List.mapM_append, hmap fun r hr => Register.resolveOperand_shownName (h r hr) pc,
    hmap fun i _ => hnumber i]
  rfl

theorem plain_of_format? {f : Format} (h : Isa.base.format? op = some f) : Plain op := by
  have hall : Isa.base.all (fun p => isPlain p.1) = true := by decide
  have hmem : (op, f) ∈ Isa.base := List.mem_reverse.mp (mem_of_lookup h)
  exact plain_of_isPlain (List.all_eq_true.mp hall _ hmem)

theorem exists_render_tokens {f : Format} (hop : Isa.base.format? op = some f)
    (hform : Instruction.Form op o) (hregs : ∀ r ∈ o.regs.getD [], r < 32) :
    ∃ line, (ofStep key ⟨op, o⟩).render = .ok line ∧ tokens (trim line) = op :: o.shown := by
  have hplain := plain_of_format? hop
  have hwords := plain_of_mem_shown hregs
  have hwritten {r : Nat} {regs : List Nat} {imm : Option Int} (ho : o = ⟨some (r :: regs), imm⟩) :
      ∃ line, (ofStep key ⟨op, o⟩).render = .ok line ∧ tokens (trim line) = op :: o.shown := by
    subst ho
    refine ⟨_, render_ofStep key hregs, ?_⟩
    obtain ⟨htrim, htokens⟩ := tokens_written hplain (hwords _ List.mem_cons_self)
      fun u hu => hwords u (List.mem_cons_of_mem _ hu)
    change tokens (trim (trim (op ++ ' ' :: join [',', ' '] (Machine.shownName r :: _)))) = _
    rw [htrim, htrim]
    exact htokens
  cases hform with
  | system hsystem =>
      refine ⟨op, rfl, ?_⟩
      rw [trim_eq_self fun c => hplain.isBlank]
      exact tokens_of_plain hplain
  | register | immediate | store | branch | upper | jump => exact hwritten rfl

/-- What is shown for an instruction other than a store assembles to that instruction, at any address
and without symbols. -/
theorem render_reassembles [Evaluator] {σ τ : Type} {args : List Value} {e : Encoded} {s s' : σ}
    (h : (Instruction.encode Isa.base op args).effect s = (.ok e, s'))
    (hstore : Isa.base.format? op ≠ some .S) (hregs : ∀ r ∈ e.operands.regs.getD [], r < 32)
    (key base : Int) (t : τ) :
    ∃ line, (ofStep key ⟨op, e.operands⟩).render = .ok line ∧
      (encodeLines [line] (some []) base).effect t = (.ok [e.binary], t) ∧
      (interpret [] base [line]).effect t = (.ok [(base, ⟨op, e.operands⟩)], t) := by
  obtain ⟨-, f, hf, hencode⟩ := Instruction.encode_eq_ok.mp h
  have hS : f ≠ .S := by
    rintro rfl
    exact hstore hf
  obtain ⟨line, hline, htokens⟩ :=
    exists_render_tokens key hf (Instruction.form_of_encodeWith hencode) hregs
  refine ⟨line, hline, ?_⟩
  have hcall : lineCall [] base line = .ok (op, e) :=
    lineCall_eq_ok.mpr ⟨_, _, f, htokens, mapM_resolveOperand_shown hregs base, hf,
      Instruction.encodeWith_spelled hencode hS hregs⟩
  have hcalls : lineCalls [] base [line] = .ok [(op, e)] := by
    rw [lineCalls, hcall]
    rfl
  constructor
  · rw [encodeLines, effect_translate, hcalls]
    rfl
  · rw [effect_interpret, hcalls]
    rfl

section RenderReassemblesJalr

open scoped Evaluator.Arithmetic

/-- The frame pointer has two names and the offset wraps; both are shown in the form that is read
back. -/
theorem render_reassembles_jalr :
    (Instruction.encode Isa.base "jalr".toList
        [.text "x8".toList, .text "x31".toList, .text "4095".toList] : Action Unit _).effect () =
      (.ok ⟨-31641, ⟨some [8, 31], some (-1)⟩⟩, ()) ∧
    (ofStep 0 ⟨"jalr".toList, ⟨some [8, 31], some (-1)⟩⟩).render = .ok "jalr fp, t6, -1".toList ∧
    (interpret [] 100 ["jalr fp, t6, -1".toList] : Action Unit _).effect () =
      (.ok [(100, ⟨"jalr".toList, ⟨some [8, 31], some (-1)⟩⟩)], ()) := by
  have hencode : (Instruction.encode Isa.base "jalr".toList
      [.text "x8".toList, .text "x31".toList, .text "4095".toList] : Action Unit _).effect () =
        (.ok ⟨-31641, ⟨some [8, 31], some (-1)⟩⟩, ()) :=
    Prod.ext (Except.eq_ok_of_toOption (by decide +kernel)) rfl
  have hline : (ofStep 0 ⟨"jalr".toList, ⟨some [8, 31], some (-1)⟩⟩).render = .ok "jalr fp, t6, -1".toList :=
    Except.eq_ok_of_toOption (by decide +kernel)
  obtain ⟨line, hrender, -, hinterpret⟩ := render_reassembles hencode (by decide) (by decide) 0 100 ()
  obtain rfl := Except.ok.inj (hline.symm.trans hrender)
  exact ⟨hencode, hline, hinterpret⟩

end RenderReassemblesJalr

end Instr

end RvToolkit
