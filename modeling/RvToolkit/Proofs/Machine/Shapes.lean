import RvToolkit.Proofs.Machine.Loading

namespace RvToolkit

namespace Instruction

/-- The operands that the encoders leave, by format. -/
inductive Form : Text → Operands → Prop where
  | register {op : Text} {c : Code} {a b d : Nat} (h : (op, c) ∈ Code.table .R) :
      Form op ⟨some [a, b, d], none⟩
  | immediate {op : Text} {c : Code} {a b : Nat} {imm : Int} (h : (op, c) ∈ Code.table .I)
      (hsystem : systemNumber? op = none) : Form op ⟨some [a, b], some imm⟩
  | system {op : Text} {n : Int} (h : systemNumber? op = some n) : Form op ⟨none, none⟩
  | store {op : Text} {c : Code} {a b : Nat} {imm : Int} (h : (op, c) ∈ Code.table .S) :
      Form op ⟨some [a, b], some imm⟩
  | branch {op : Text} {c : Code} {a b : Nat} {imm : Int} (h : (op, c) ∈ Code.table .B) :
      Form op ⟨some [a, b], some imm⟩
  | upper {op : Text} {c : Code} {a : Nat} {imm : Int} (h : (op, c) ∈ Code.table .U) :
      Form op ⟨some [a], some imm⟩
  | jump {op : Text} {c : Code} {a : Nat} {imm : Int} (h : (op, c) ∈ Code.table .J) :
      Form op ⟨some [a], some imm⟩

theorem form_of_encodeWith [Evaluator] {f : Format} {op : Text} {args : List Value} {e : Encoded}
    (h : encodeWith f op args = .ok e) : Form op e.operands := by
  cases f with
  | R =>
      obtain ⟨c, a, b, d, rd, rs1, rs2, hc, -, -, -, -, rfl⟩ := encodeR_eq_ok h
      exact .register (mem_table_of_find? hc)
  | I =>
      cases hsystem : systemNumber? op with
      | some n =>
          rw [encodeI_eq_ok_of_system hsystem h]
          exact .system hsystem
      | none =>
          obtain ⟨c, a, b, x, rd, rs1, hc, -, -, -, hshape⟩ := encodeI_eq_ok hsystem h
          obtain ⟨-, v, -, rfl⟩ | ⟨-, v, -, rfl⟩ := hshape <;>
            exact .immediate (mem_table_of_find? hc) hsystem
  | S =>
      obtain ⟨c, b, a, x, rs1, rs2, v, hc, -, -, -, -, rfl⟩ := encodeS_eq_ok h
      exact .store (mem_table_of_find? hc)
  | B =>
      obtain ⟨c, a, b, x, rs1, rs2, v, hc, -, -, -, -, rfl⟩ := encodeB_eq_ok h
      exact .branch (mem_table_of_find? hc)
  | U =>
      obtain ⟨c, a, imm, x, rd, v, hc, -, -, -, -, rfl⟩ := encodeU_eq_ok h
      exact .upper (mem_table_of_find? hc)
  | J =>
      obtain ⟨c, a, imm, x, rd, v, hc, -, -, -, -, rfl⟩ := encodeJ_eq_ok h
      exact .jump (mem_table_of_find? hc)

theorem eq_of_systemNumber? {op : Text} {n : Int} (h : systemNumber? op = some n) :
    op = "ecall".toList ∨ op = "ebreak".toList := by
  unfold systemNumber? at h
  split at h
  · next hcall => exact .inl hcall
  · split at h
    · next hbreak => exact .inr hbreak
    · cases h

end Instruction

theorem Instr.expect_of_length_ne {ins : Instr} {regs : List Int} {n : Nat} (h : ins.regs = some regs)
    (hn : regs.length ≠ n) : ins.expect n = .error (.parse (.wrongLength ins.regsValue (.int n))) := by
  have hlength : ¬ (regs.length : Int) = n := by omega
  simp [expect, regsValue, h, Check.length, Check.size?, hlength]

namespace Machine

/-- Loads and stores, which a machine does not know. -/
def memoryOps : List Text := [
  "lb".toList, "lh".toList, "lw".toList, "lbu".toList, "lhu".toList, "sb".toList, "sh".toList,
  "sw".toList]

/-- Instructions that are encoded and never carried out. -/
def refused : List Text := [
  "slli".toList, "srli".toList, "srai".toList, "slti".toList, "lui".toList, "auipc".toList]

/-- How an instruction ends that is carried out. Environment calls leave the run. -/
def ending (op : Text) : Except Fault Unit :=
  if op = "ecall".toList then .error .normalExit
  else if op = "ebreak".toList then .error .debuggerRequested
  else .ok ()

/-- What is wrong with an instruction that is never carried out. -/
inductive Refusal (ins : Instr) : Text → Fault → Prop where
  | shift {op : Text} (h : op ∈ ["slli".toList, "srli".toList]) :
      Refusal ins op (.parse (.wrongLength ins.regsValue (.int 3)))
  | upper {op : Text} (h : op ∈ ["lui".toList, "auipc".toList]) :
      Refusal ins op (.parse (.wrongLength ins.regsValue (.int 2)))
  | comparison : Refusal ins "slti".toList (.type .immediateOrder)
  | unknown {shown : Text} (h : ins.render = .ok shown) :
      Refusal ins "srai".toList (.runtime (.unknownInstruction shown))

/-- An instruction ends as it should, or is one of those that are refused. -/
inductive Answers (ins : Instr) (op : Text) (result : Except Fault Unit) : Prop where
  | ends (h : op ∉ refused) (hresult : result = ending op)
  | refuses {f : Fault} (h : op ∈ refused) (hf : Refusal ins op f) (hresult : result = .error f)

variable {ins : Instr} {m : Machine} {a b d : Nat} {imm : Int}

theorem perform_of_error {o : Operation} {m' : Machine} {f : Fault}
    (ho : Operation.ofName? ins.name = some o) (h : (execute o ins).effect m = (.error f, m'))
    (hf : unknown ins f = Action.fail f) : (perform ins).effect m = (.error f, m') := by
  rw [perform, ho]
  exact (Action.effect_handle_of_error h _).trans (by rw [hf, Action.effect_fail])

theorem perform_of_unknown {shown : Text} (ho : Operation.ofName? ins.name = none)
    (hshown : ins.render = .ok shown) (m : Machine) :
    (perform ins).effect m = (.error (.runtime (.unknownInstruction shown)), m) := by
  rw [perform, ho, Action.effect_handle_of_error (Action.effect_fail _ m), unknown,
    Action.effect_bind_of_ok (by rw [Action.effect_ofExcept, hshown]), Action.effect_fail]

theorem branch_ok {op : Text} {c : Code} (hop : (op, c) ∈ Code.table .B) (ha : a < 32) (hb : b < 32)
    (imm addr : Int) (m : Machine) :
    ∃ o pc, Operation.ofName? op = some o ∧
      (pc = m.pc ∨ pc = m.pc.add ((BitVec.ofInt 32 imm).toInt - 4)) ∧
      (execute o (.ofStep addr ⟨op, some [a, b], some imm⟩)).effect m =
        (.ok (), { (m.reading a).reading b with pc := pc }) := by
  have hnames : ∀ p ∈ Code.table .B, p.1 ∈ Reference.Ins.conditions.map Prod.fst := by decide
  obtain ⟨⟨name, g⟩, hmem, hname⟩ := List.mem_map.mp (hnames _ hop)
  obtain rfl : name = op := hname
  have hregs : (Instr.ofStep addr ⟨name, some [a, b], some imm⟩).regs = some [(a : Int), b] := rfl
  obtain ⟨offset, halone, heffect⟩ := branchOperands_effect hregs rfl ha hb m
  obtain ⟨o, taken, ho, hexecute, -⟩ := execute_branch (.ofStep addr ⟨name, some [a, b], some imm⟩) hmem
  refine ⟨o, ?_⟩
  rw [hexecute, branch, Action.effect_bind_of_ok heffect]
  dsimp only
  split
  · rw [halone]
    exact ⟨_, ho, .inr rfl, Action.effect_modify _ _⟩
  · exact ⟨m.pc, ho, .inl rfl, Action.effect_pure _ _⟩

theorem jal_ok (ins : Instr) (h : ins.regs = some [(a : Int)]) (himm : ins.imm = some imm)
    (ha : a < 32) (m : Machine) :
    ∃ w, (execute .jal ins).effect m =
      (.ok (), { m.writing a w with pc := m.pc.add ((BitVec.ofInt 32 imm).toInt - 4) }) := by
  have hexpect : ins.expect 1 = .ok () := Instr.expect_of_length h rfl
  have h0 : ins.reg 0 = .ok (a : Int) := Instr.reg_eq_ok h rfl
  obtain ⟨o, ho, halone⟩ := offset_eq himm
  simp only [execute, h, Action.effect_bind, Action.effect_ofExcept, hexpect, h0, ho, Action.effect_get,
    setReg_effect ha, halone]
  refine ⟨m.pc.toWord, (Action.effect_modify _ _).trans ?_⟩
  rw [writing_pc]
  rfl

theorem jalr_ok (h : ins.regs = some [(a : Int), b]) (himm : ins.imm = some imm) (ha : a < 32)
    (hb : b < 32) (m : Machine) :
    ∃ w pc, (execute .jalr ins).effect m = (.ok (), { (m.writing a w).reading b with pc := pc }) :=
  ⟨_, _, jalr_effect h himm ha hb m⟩

theorem shiftImm_refused (f : Word → Nat → Word) (h : ins.regs = some [(a : Int), b]) (m : Machine) :
    (shiftImm f ins).effect m = (.error (.parse (.wrongLength ins.regsValue (.int 3))), m) := by
  have hexpect := Instr.expect_of_length_ne (n := 3) h (by simp)
  exact Action.effect_bind_of_error (by rw [Action.effect_ofExcept, hexpect]; rfl) _

theorem loadOperands_refused (ins : Instr) (h : ins.regs = some [(a : Int)]) (m : Machine) :
    (loadOperands ins).effect m = (.error (.parse (.wrongLength ins.regsValue (.int 2))), m) := by
  have hexpect := Instr.expect_of_length_ne (n := 2) h (by simp)
  exact Action.effect_bind_of_error (by rw [Action.effect_ofExcept, hexpect]; rfl) _

theorem slti_refused (h : ins.regs = some [(a : Int), b]) (himm : ins.imm = some imm) (hb : b < 32)
    (m : Machine) : (execute .slti ins).effect m = (.error (.type .immediateOrder), m.reading b) := by
  obtain ⟨o, -, heffect⟩ := twoRegsAndOffset_effect h himm hb m
  exact (Action.effect_bind_of_ok heffect _).trans (Action.effect_fail _ _)

theorem ending_of_plain {op : Text} (h : Instruction.systemNumber? op = none) : ending op = .ok () := by
  have hcall : op ≠ "ecall".toList := by
    rintro rfl
    cases h
  have hbreak : op ≠ "ebreak".toList := by
    rintro rfl
    cases h
  rw [ending, if_neg hcall, if_neg hbreak]

theorem Answers.of_ok {op : Text} {o : Operation} {m' : Machine} (hop : op ∉ refused)
    (hplain : Instruction.systemNumber? op = none) (ho : Operation.ofName? ins.name = some o)
    (h : (execute o ins).effect m = (.ok (), m')) : Answers ins op ((perform ins).effect m).1 := by
  rw [perform_of_ok ho h]
  exact .ends hop (ending_of_plain hplain).symm

theorem Answers.of_error {op : Text} {o : Operation} {m' : Machine} {f : Fault} (hop : op ∈ refused)
    (hf : Refusal ins op f) (ho : Operation.ofName? ins.name = some o)
    (h : (execute o ins).effect m = (.error f, m')) (hkeeps : unknown ins f = Action.fail f) :
    Answers ins op ((perform ins).effect m).1 := by
  rw [perform_of_error ho h hkeeps]
  exact .refuses hop hf rfl

theorem immediate_cases {op : Text} {c : Code} (h : (op, c) ∈ Code.table .I) :
    op ∈ Reference.Ins.immediateOps.map Prod.fst ∨ op = "jalr".toList ∨ op = "slli".toList ∨
      op = "srli".toList ∨ op = "srai".toList ∨ op = "slti".toList ∨ op ∈ memoryOps ∨
      (Instruction.systemNumber? op).isSome = true := by
  have hall : ∀ p ∈ Code.table .I, p.1 ∈ Reference.Ins.immediateOps.map Prod.fst ∨
      p.1 = "jalr".toList ∨ p.1 = "slli".toList ∨ p.1 = "srli".toList ∨ p.1 = "srai".toList ∨
      p.1 = "slti".toList ∨ p.1 ∈ memoryOps ∨ (Instruction.systemNumber? p.1).isSome = true := by
    decide
  exact hall (op, c) h

theorem answers_immediate {op : Text} {c : Code} (hop : (op, c) ∈ Code.table .I)
    (hplain : Instruction.systemNumber? op = none) (hmemory : op ∉ memoryOps) (ha : a < 32) (hb : b < 32)
    (addr : Int) (m : Machine) :
    Answers (.ofStep addr ⟨op, some [a, b], some imm⟩) op
      ((perform (.ofStep addr ⟨op, some [a, b], some imm⟩)).effect m).1 := by
  have hregs : (Instr.ofStep addr ⟨op, some [a, b], some imm⟩).regs = some [(a : Int), b] := rfl
  obtain himmediate | rfl | rfl | rfl | rfl | rfl | hload | hsystem := immediate_cases hop
  · obtain ⟨⟨name, f⟩, hmem, rfl⟩ := List.mem_map.mp himmediate
    have hrefused : ∀ op ∈ Reference.Ins.immediateOps.map Prod.fst, op ∉ refused := by decide
    obtain ⟨o, w, ho, heffect, -⟩ :=
      execute_immediate (.ofStep addr ⟨name, some [a, b], some imm⟩) hmem rfl rfl ha hb m
    exact .of_ok (hrefused name himmediate) hplain ho heffect
  · obtain ⟨w, pc, heffect⟩ := jalr_ok hregs rfl ha hb m
    exact .of_ok (by decide) rfl rfl heffect
  · exact .of_error (by decide) (.shift (by decide)) rfl (shiftImm_refused _ hregs m) rfl
  · exact .of_error (by decide) (.shift (by decide)) rfl (shiftImm_refused _ hregs m) rfl
  · -- there is no handler, and the report shows the instruction
    have hbound : ∀ r ∈ [a, b], r < 32 := by simpa using ⟨ha, hb⟩
    obtain ⟨shown, hshown⟩ := Instr.exists_render_of_regs "srai".toList hbound (some imm) addr
    have hname : Operation.ofName? "srai".toList = none := by decide
    exact .refuses (by decide) (.unknown hshown)
      (congrArg Prod.fst (perform_of_unknown hname hshown m))
  · exact .of_error (by decide) .comparison rfl (slti_refused hregs rfl hb m) rfl
  · exact absurd hload hmemory
  · rw [hplain] at hsystem
    cases hsystem

theorem answers_form {op : Text} {operands : Operands} (h : Instruction.Form op operands)
    (hmemory : op ∉ memoryOps) (hregs : Reference.Registers ⟨op, operands⟩) (addr : Int) (m : Machine) :
    Answers (.ofStep addr ⟨op, operands⟩) op ((perform (.ofStep addr ⟨op, operands⟩)).effect m).1 := by
  cases h with
  | @register c a b d hop =>
      obtain ⟨ha, hb, hd⟩ : a < 32 ∧ b < 32 ∧ d < 32 := by simpa [Reference.Registers] using hregs
      have hplain : ∀ p ∈ Code.table .R, p.1 ∉ refused ∧ Instruction.systemNumber? p.1 = none ∧
          p.1 ∈ Reference.Ins.registerOps.map Prod.fst := by decide
      obtain ⟨hrefused, hsystem, hregister⟩ := hplain _ hop
      obtain ⟨⟨name, g⟩, hmem, hname⟩ := List.mem_map.mp hregister
      obtain rfl : name = op := hname
      obtain ⟨o, w, ho, heffect, -⟩ :=
        execute_register (.ofStep addr ⟨name, some [a, b, d], none⟩) hmem rfl ha hb hd m
      exact .of_ok hrefused hsystem ho heffect
  | @immediate c a b imm hop hplain =>
      obtain ⟨ha, hb⟩ : a < 32 ∧ b < 32 := by simpa [Reference.Registers] using hregs
      exact answers_immediate hop hplain hmemory ha hb addr m
  | @system n hsystem =>
      obtain rfl | rfl := Instruction.eq_of_systemNumber? hsystem
      · exact .ends (by decide) (congrArg Prod.fst (perform_of_error rfl (ecall_effect rfl m) rfl))
      · exact .ends (by decide) (congrArg Prod.fst (perform_of_error rfl (ebreak_effect rfl m) rfl))
  | @store c a b imm hop =>
      have hstore : ∀ p ∈ Code.table .S, p.1 ∈ memoryOps := by decide
      exact absurd (hstore _ hop) hmemory
  | @branch c a b imm hop =>
      obtain ⟨ha, hb⟩ : a < 32 ∧ b < 32 := by simpa [Reference.Registers] using hregs
      have hplain : ∀ p ∈ Code.table .B, p.1 ∉ refused ∧ Instruction.systemNumber? p.1 = none := by decide
      obtain ⟨hrefused, hsystem⟩ := hplain _ hop
      obtain ⟨o, pc, ho, -, heffect⟩ := branch_ok hop ha hb imm addr m
      exact .of_ok hrefused hsystem ho heffect
  | @upper c a imm hop =>
      have hnames : ∀ p ∈ Code.table .U, p.1 = "lui".toList ∨ p.1 = "auipc".toList := by decide
      have hload := loadOperands_refused (.ofStep addr ⟨op, some [a], some imm⟩) rfl m
      obtain rfl | rfl : op = "lui".toList ∨ op = "auipc".toList := hnames _ hop
      · exact .of_error (by decide) (.upper (by decide)) rfl (Action.effect_bind_of_error hload _) rfl
      · exact .of_error (by decide) (.upper (by decide)) rfl (Action.effect_bind_of_error hload _) rfl
  | @jump c a imm hop =>
      have ha : a < 32 := by simpa [Reference.Registers] using hregs
      have hname : ∀ p ∈ Code.table .J, p.1 = "jal".toList := by decide
      obtain rfl : op = "jal".toList := hname _ hop
      obtain ⟨w, heffect⟩ := jal_ok (.ofStep addr ⟨"jal".toList, some [a], some imm⟩) rfl rfl ha m
      exact .of_ok (by decide) rfl rfl heffect

/-- A machine carries out what can be encoded, loads and stores apart, unless the mnemonic is one of the
six whose handler is missing or asks for other operands. Those fail in every state of the machine. -/
theorem perform_loaded_iff [Evaluator] {σ : Type} {op : Text} {args : List Value} {e : Encoded} {s s' : σ}
    (h : (Instruction.encode Isa.base op args).effect s = (.ok e, s')) (hmemory : op ∉ memoryOps)
    (hregs : ∀ r ∈ e.operands.regs.getD [], r < 32) (mem : Memory) (addr : Int) (m : Machine) :
    ∃ ins, (mem.load [(addr, ⟨op, e.operands⟩)]).program.get? addr = some ins ∧
      (((perform ins).effect m).1 = ending op ↔ op ∉ refused) ∧
      (op ∈ refused → ∃ f, Refusal ins op f ∧ ((perform ins).effect m).1 = .error f) := by
  obtain ⟨-, f, -, hencode⟩ := Instruction.encode_eq_ok.mp h
  refine ⟨.ofStep addr ⟨op, e.operands⟩, Assoc.get?_insert_self .., ?_⟩
  have hform := Instruction.form_of_encodeWith hencode
  cases answers_form hform hmemory hregs addr m with
  | ends hop hresult => exact ⟨iff_of_true hresult hop, fun hrefused => absurd hrefused hop⟩
  | @refuses f hop hf hresult =>
      have hplain : ∀ op ∈ refused, Instruction.systemNumber? op = none := by decide
      refine ⟨iff_of_false ?_ (fun hnot => hnot hop), fun _ => ⟨f, hf, hresult⟩⟩
      rw [hresult, ending_of_plain (hplain op hop)]
      intro hok
      cases hok

section PerformSlli

open scoped Evaluator.Arithmetic

theorem perform_slli :
    (Instruction.encode Isa.base "slli".toList
        [.text "x5".toList, .text "x10".toList, .text "3".toList]).effect () =
      (.ok ⟨0x00351293, ⟨some [5, 10], some 3⟩⟩, ()) ∧
    ∃ ins, ((Memory.ofBase 0).load [(0, ⟨"slli".toList, ⟨some [5, 10], some 3⟩⟩)]).program.get? 0 =
        some ins ∧
      ((perform ins).effect { memory := .ofBase 0, budget := 1 }).1 ≠ .ok () := by
  have hencode : (Instruction.encode Isa.base "slli".toList
      [.text "x5".toList, .text "x10".toList, .text "3".toList]).effect () =
        (.ok ⟨0x00351293, ⟨some [5, 10], some 3⟩⟩, ()) :=
    Prod.ext (Except.eq_ok_of_toOption (by decide +kernel)) rfl
  obtain ⟨ins, hget, hends, -⟩ := perform_loaded_iff hencode (by decide) (by decide) (.ofBase 0) 0
    { memory := .ofBase 0, budget := 1 }
  exact ⟨hencode, ins, hget, fun hok => hends.mp hok (by decide)⟩

end PerformSlli

end Machine

end RvToolkit
