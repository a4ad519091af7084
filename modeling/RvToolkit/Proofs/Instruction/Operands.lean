import RvToolkit.Instruction.Encode
import RvToolkit.Proofs.Effect

namespace RvToolkit.Instruction

theorem codeOf_eq_ok {f : Format} {op : Text} {c : Code} :
    codeOf f op = .ok c ↔ Code.find? f op = some c := by
  unfold codeOf
  split <;> simp_all

theorem mem_table_of_find? {f : Format} {op : Text} {c : Code} (h : Code.find? f op = some c) :
    (op, c) ∈ Code.table f := mem_of_lookup h

theorem wrapOperand_eq_ok {n : Nat} {x : Value} {i : Int} :
    Immediate.wrapOperand n x = .ok i ↔ ∃ v, Immediate.plain? x = some v ∧ i = Immediate.wrap n v := by
  unfold Immediate.wrapOperand
  cases Immediate.plain? x with
  | none => simp
  | some v =>
      simp only [Except.ok.injEq, Option.some.injEq, exists_eq_left']
      exact eq_comm

theorem toInteger_of_plain? {x : Value} {v : Int} (h : Immediate.plain? x = some v) :
    Immediate.toInteger x = .ok v := by
  unfold Immediate.plain? at h
  split at h
  · cases h
    rfl
  · cases h
    rfl
  · cases h

theorem encodeR_eq_ok {op : Text} {args : List Value} {e : Encoded} (h : encodeR op args = .ok e) :
    ∃ c a b d rd rs1 rs2, Code.find? .R op = some c ∧ args = [a, b, d] ∧ registerOf a = .ok rd ∧
      registerOf b = .ok rs1 ∧ registerOf d = .ok rs2 ∧
      e = ⟨pack [(c.funct7, 25), (rs2, 20), (rs1, 15), (c.funct3, 12), (rd, 7), (c.opcode, 0)],
        ⟨some [rd, rs1, rs2], none⟩⟩ := by
  simp only [encodeR, Except.bind_eq_ok, codeOf_eq_ok] at h
  obtain ⟨c, hc, h⟩ := h
  split at h
  · rename_i a b d
    simp only [Except.bind_eq_ok] at h
    obtain ⟨rd, ha, rs1, hb, rs2, hd, h⟩ := h
    cases h
    exact ⟨c, a, b, d, rd, rs1, rs2, hc, rfl, ha, hb, hd, rfl⟩
  · cases h

theorem encodeB_eq_ok {op : Text} {args : List Value} {e : Encoded} (h : encodeB op args = .ok e) :
    ∃ c a b x rs1 rs2 v, Code.find? .B op = some c ∧ args = [a, b, x] ∧ registerOf a = .ok rs1 ∧
      registerOf b = .ok rs2 ∧ Immediate.toInteger x = .ok v ∧
      e = ⟨pack [(pack [(field (Immediate.wrap 13 v) 12 1, 6), (field (Immediate.wrap 13 v) 5 6, 0)], 25),
        (rs2, 20), (rs1, 15), (c.funct3, 12),
        (pack [(field (Immediate.wrap 13 v) 11 1, 6), (field (Immediate.wrap 13 v) 1 4, 0)], 7),
        (c.opcode, 0)], ⟨some [rs1, rs2], some (Immediate.wrap 13 v)⟩⟩ := by
  simp only [encodeB, Except.bind_eq_ok, codeOf_eq_ok] at h
  obtain ⟨c, hc, h⟩ := h
  split at h
  · rename_i a b x
    simp only [Except.bind_eq_ok] at h
    obtain ⟨rs1, ha, rs2, hb, v, hv, h⟩ := h
    cases h
    exact ⟨c, a, b, x, rs1, rs2, v, hc, rfl, ha, hb, hv, rfl⟩
  · cases h

variable [Evaluator]

theorem effect_encode_of_format {σ : Type} {isa : Isa} {op : Text} {f : Format}
    (hf : isa.format? op = some f) (args : List Value) (s : σ) :
    (encode isa op args : Action σ Encoded).effect s = (encodeWith f op args, s) := by
  unfold encode encodeAs
  simp only [hf, Action.effect_bind, Action.effect_note, Action.effect_ofExcept]
  cases encodeWith f op args with
  | error e => rfl
  | ok e => rfl

theorem encode_eq_ok {σ : Type} {isa : Isa} {op : Text} {args : List Value} {e : Encoded} {s s' : σ} :
    (encode isa op args : Action σ Encoded).effect s = (.ok e, s') ↔
      s' = s ∧ ∃ f, isa.format? op = some f ∧ encodeWith f op args = .ok e := by
  cases hf : isa.format? op with
  | none => simp [encode, hf]
  | some f =>
      rw [effect_encode_of_format hf, Prod.mk.injEq]
      constructor
      · rintro ⟨he, rfl⟩
        exact ⟨rfl, f, rfl, he⟩
      · rintro ⟨rfl, f', hf', he⟩
        cases hf'
        exact ⟨he, rfl⟩

theorem operandsI_eq_some {args : List Value} {a b x : Value}
    (h : operandsI args = .ok (some (a, b, x))) :
    (∃ imm, args = [a, b, imm] ∧ Immediate.resolve imm = .ok x) ∨
      ∃ place base, args = [a, place] ∧ b = .text base ∧ Immediate.withBase place = .ok (x, base) := by
  unfold operandsI at h
  split at h
  · rw [Except.bind_eq_ok] at h
    obtain ⟨x', hx, h⟩ := h
    cases h
    exact .inl ⟨_, rfl, hx⟩
  · rw [Except.bind_eq_ok] at h
    obtain ⟨⟨x', base⟩, hx, h⟩ := h
    cases h
    exact .inr ⟨_, base, rfl, rfl, hx⟩
  · cases h

theorem encodeI_eq_ok_of_system {op : Text} {n : Int} {args : List Value} {e : Encoded}
    (hsystem : systemNumber? op = some n) (h : encodeI op args = .ok e) :
    e.operands = ⟨none, none⟩ := by
  simp only [encodeI, Except.bind_eq_ok] at h
  obtain ⟨c, hc, operands, hoperands, h⟩ := h
  rw [hsystem] at h
  cases h
  rfl

theorem encodeI_eq_ok {op : Text} {args : List Value} {e : Encoded} (hsystem : systemNumber? op = none)
    (h : encodeI op args = .ok e) :
    ∃ c a b x rd rs1, Code.find? .I op = some c ∧ operandsI args = .ok (some (a, b, x)) ∧
      registerOf a = .ok rd ∧ registerOf b = .ok rs1 ∧
      (isShift op = true ∧ (∃ v, Immediate.toInteger x = .ok v ∧
        e = ⟨pack [(c.funct7, 25), (Bits.and v 0x3f, 20), (rs1, 15), (c.funct3, 12), (rd, 7),
          (c.opcode, 0)], ⟨some [rd, rs1], some (Bits.and v 0x3f)⟩⟩) ∨
      isShift op = false ∧ ∃ v, Immediate.plain? x = some v ∧
        e = ⟨pack [(Immediate.wrap 12 v, 20), (rs1, 15), (c.funct3, 12), (rd, 7), (c.opcode, 0)],
          ⟨some [rd, rs1], some (Immediate.wrap 12 v)⟩⟩) := by
  simp only [encodeI, Except.bind_eq_ok, codeOf_eq_ok] at h
  obtain ⟨c, hc, operands, hoperands, h⟩ := h
  rw [hsystem] at h
  cases operands with
  | none => cases h
  | some p =>
      obtain ⟨a, b, x⟩ := p
      simp only [Except.bind_eq_ok] at h
      obtain ⟨rd, ha, rs1, hb, h⟩ := h
      refine ⟨c, a, b, x, rd, rs1, hc, hoperands, ha, hb, ?_⟩
      split at h
      · rename_i hshift
        obtain ⟨v, hv, h⟩ := Except.bind_eq_ok.mp h
        cases h
        exact .inl ⟨hshift, v, hv, rfl⟩
      · rename_i hshift
        obtain ⟨i, hi, h⟩ := Except.bind_eq_ok.mp h
        obtain ⟨v, hv, rfl⟩ := wrapOperand_eq_ok.mp hi
        cases h
        exact .inr ⟨Bool.eq_false_iff.mpr hshift, v, hv, rfl⟩

theorem operandsS_eq_ok {args : List Value} {b a x : Value} (h : operandsS args = .ok (b, a, x)) :
    args = [b, a, x] ∨
      ∃ place base, args = [b, place] ∧ a = .text base ∧ Immediate.withBase place = .ok (x, base) := by
  unfold operandsS at h
  split at h
  · cases h
    exact .inl rfl
  · rw [Except.bind_eq_ok] at h
    obtain ⟨⟨x', base⟩, hx, h⟩ := h
    cases h
    exact .inr ⟨_, base, rfl, rfl, hx⟩
  · cases h

theorem encodeS_eq_ok {op : Text} {args : List Value} {e : Encoded} (h : encodeS op args = .ok e) :
    ∃ c b a x rs1 rs2 v, Code.find? .S op = some c ∧ operandsS args = .ok (b, a, x) ∧
      registerOf a = .ok rs1 ∧ registerOf b = .ok rs2 ∧ Immediate.plain? x = some v ∧
      e = ⟨pack [(field (Immediate.wrap 12 v) 5 7, 25), (rs2, 20), (rs1, 15), (c.funct3, 12),
        (field (Immediate.wrap 12 v) 0 5, 7), (c.opcode, 0)],
        ⟨some [rs2, rs1], some (Immediate.wrap 12 v)⟩⟩ := by
  simp only [encodeS, Except.bind_eq_ok, codeOf_eq_ok] at h
  obtain ⟨c, hc, ⟨b, a, x⟩, hoperands, h⟩ := h
  simp only [wrapOperand_eq_ok] at h
  obtain ⟨rs1, ha, rs2, hb, _, ⟨v, hv, rfl⟩, h⟩ := h
  cases h
  exact ⟨c, b, a, x, rs1, rs2, v, hc, hoperands, ha, hb, hv, rfl⟩

theorem encodeU_eq_ok {op : Text} {args : List Value} {e : Encoded} (h : encodeU op args = .ok e) :
    ∃ c a imm x rd v, Code.find? .U op = some c ∧ args = [a, imm] ∧ upperOperand imm = .ok x ∧
      registerOf a = .ok rd ∧ Immediate.plain? x = some v ∧
      e = ⟨pack [(Immediate.wrap 20 v, 12), (rd, 7), (c.opcode, 0)],
        ⟨some [rd], some (Immediate.wrap 20 v)⟩⟩ := by
  simp only [encodeU, Except.bind_eq_ok, codeOf_eq_ok] at h
  obtain ⟨c, hc, h⟩ := h
  split at h
  · rename_i a imm
    simp only [Except.bind_eq_ok, wrapOperand_eq_ok] at h
    obtain ⟨x, hx, rd, ha, _, ⟨v, hv, rfl⟩, h⟩ := h
    cases h
    exact ⟨c, a, imm, x, rd, v, hc, rfl, hx, ha, hv, rfl⟩
  · cases h

theorem encodeJ_eq_ok {op : Text} {args : List Value} {e : Encoded} (h : encodeJ op args = .ok e) :
    ∃ c a imm x rd v, Code.find? .J op = some c ∧ args = [a, imm] ∧ jumpOperand imm = .ok x ∧
      registerOf a = .ok rd ∧ Immediate.plain? x = some v ∧
      e = ⟨pack [(field (Immediate.wrap 21 v) 20 1, 31), (field (Immediate.wrap 21 v) 12 8, 12),
        (field (Immediate.wrap 21 v) 11 1, 20), (field (Immediate.wrap 21 v) 1 10, 21), (rd, 7),
        (c.opcode, 0)], ⟨some [rd], some (Immediate.wrap 21 v)⟩⟩ := by
  simp only [encodeJ, Except.bind_eq_ok, codeOf_eq_ok] at h
  obtain ⟨c, hc, h⟩ := h
  split at h
  · rename_i a imm
    simp only [Except.bind_eq_ok, wrapOperand_eq_ok] at h
    obtain ⟨x, hx, rd, ha, _, ⟨v, hv, rfl⟩, h⟩ := h
    cases h
    exact ⟨c, a, imm, x, rd, v, hc, rfl, hx, ha, hv, rfl⟩
  · cases h

end RvToolkit.Instruction
