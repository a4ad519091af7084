import RvToolkit.Machine.Step
import RvToolkit.Proofs.Effect
import RvToolkit.Proofs.Assembly.Reading
import RvToolkit.Proofs.Machine.Arithmetic

namespace RvToolkit

namespace Instr

variable {ins : Instr} {regs : List Int}

theorem expect_of_length {n : Nat} (h : ins.regs = some regs) (hn : regs.length = n) :
    ins.expect n = .ok () := by
  simp [expect, regsValue, h, Check.length, Check.size?, hn]

theorem reg_eq_ok {k : Nat} {r : Int} (h : ins.regs = some regs) (hr : regs[k]? = some r) :
    ins.reg k = .ok r := by
  have hk : ¬ (k : Int) < 0 := by omega
  simp [reg, h, hk, hr]

end Instr

theorem RegisterFile.content_insert (rf : RegisterFile) (r i : Int) (w : Word) :
    RegisterFile.content { rf with cells := rf.cells.insert r w } i = if i = r then w else rf.content i := by
  by_cases hi : i = r
  · simp only [content, hi, Assoc.get?_insert_self, Option.getD_some, ↓reduceIte]
  · simp only [content, hi, Assoc.get?_insert_of_ne hi, ↓reduceIte]

namespace Machine

variable {m : Machine} {r : Nat} {w : Word}

def shownName (r : Nat) : Text := (Register.aliasOf r).toOption.getD []

theorem aliasOf_eq (hr : r < 32) : Register.aliasOf r = .ok (shownName r) := by
  have hnamed : ∀ r < 32, (Register.aliasOf (r : Nat)).toOption.isSome = true := by decide
  have h := hnamed r hr
  unfold shownName
  cases hname : Register.aliasOf r with
  | error e => simp [hname, Except.toOption] at h
  | ok name => rfl

/-- The machine after a register has been read. -/
def reading (m : Machine) (r : Nat) : Machine :=
  { m with regs := { m.regs with lastRead := some (shownName r) } }

def writing (m : Machine) (r : Nat) (w : Word) : Machine :=
  if r = 0 then m
  else { m with regs := { m.regs with
    cells := m.regs.cells.insert r w.asSigned
    lastSet := some (shownName r) } }

def advanced (m : Machine) : Machine := { m with cycle := m.cycle + 1, pc := m.pc.add 4 }

theorem getReg_effect (hr : r < 32) (m : Machine) :
    (getReg r).effect m = (.ok (m.regs.content r), m.reading r) := by
  have hread : (RegisterFile.read r true).effect m.regs =
      (.ok (m.regs.content r), { m.regs with lastRead := some (shownName r) }) := by
    simp only [RegisterFile.read, ↓reduceIte, Action.effect_bind, Action.effect_ofExcept,
      aliasOf_eq hr, Action.effect_modify, Action.effect_get, Action.effect_pure]
    rfl
  rw [getReg, onRegs, Action.effect_within, hread]
  rfl

theorem setReg_effect (hr : r < 32) (w : Word) (m : Machine) :
    (setReg r w).effect m = (.ok (), m.writing r w) := by
  by_cases h0 : r = 0
  · subst h0
    rfl
  · have hwrite : (RegisterFile.write r (.word w) true).effect m.regs =
        (.ok true, { m.regs with
          cells := m.regs.cells.insert r w.asSigned
          lastSet := some (shownName r) }) := by
      have hint : ¬ (r : Int) = 0 := by omega
      simp only [RegisterFile.write, hint, ↓reduceIte, Action.effect_bind, Action.effect_ofExcept,
        aliasOf_eq hr, Action.effect_modify, Action.effect_pure]
    simp only [setReg, onRegs, Action.effect_bind, Action.effect_within, hwrite, Action.effect_pure,
      writing, h0, ↓reduceIte]

@[simp] theorem reading_content (i : Int) : (m.reading r).regs.content i = m.regs.content i := rfl

theorem writing_content (i : Nat) :
    (m.writing r w).regs.content i = if r ≠ 0 ∧ i = r then w.asSigned else m.regs.content i := by
  unfold writing
  by_cases h0 : r = 0
  · rw [if_pos h0, if_neg (fun h => h.1 h0)]
  · rw [if_neg h0]
    change RegisterFile.content { m.regs with cells := m.regs.cells.insert r w.asSigned } i = _
    rw [RegisterFile.content_insert]
    simp only [Int.natCast_inj, ne_eq, h0, not_false_eq_true, true_and]

@[simp] theorem writing_pc : (m.writing r w).pc = m.pc := by
  unfold writing
  split <;> rfl

/-- What carrying out an instruction leaves alone. -/
structure Kept (m m' : Machine) : Prop where
  memory : m'.memory = m.memory
  halted : m'.halted = m.halted
  budget : m'.budget = m.budget

theorem Kept.trans {m₁ m₂ m₃ : Machine} (h : Kept m₁ m₂) (h' : Kept m₂ m₃) : Kept m₁ m₃ :=
  ⟨h'.memory.trans h.memory, h'.halted.trans h.halted, h'.budget.trans h.budget⟩

theorem kept_reading : Kept m (m.reading r) := ⟨rfl, rfl, rfl⟩

theorem kept_writing : Kept m (m.writing r w) := by
  unfold writing
  split <;> exact ⟨rfl, rfl, rfl⟩

section Operands

variable {ins : Instr} {a b d : Nat} {imm : Int}

theorem threeRegs_effect (h : ins.regs = some [(a : Int), b, d]) (hb : b < 32) (hd : d < 32)
    (m : Machine) :
    (threeRegs ins .signed).effect m =
      (.ok ((a : Int), ⟨.signed, (m.regs.content b).bits⟩, ⟨.signed, (m.regs.content d).bits⟩),
        (m.reading b).reading d) := by
  have hexpect : ins.expect 3 = .ok () := Instr.expect_of_length h rfl
  have h0 : ins.reg 0 = .ok (a : Int) := Instr.reg_eq_ok h rfl
  have h1 : ins.reg 1 = .ok (b : Int) := Instr.reg_eq_ok h rfl
  have h2 : ins.reg 2 = .ok (d : Int) := Instr.reg_eq_ok h rfl
  simp only [threeRegs, Action.effect_bind, Action.effect_ofExcept, hexpect, h0, h1,
    h2, getReg_effect hb, getReg_effect hd, Action.effect_pure, Word.ofInt, Word.ofInt_value,
    reading_content]

theorem offset_eq (h : ins.imm = some imm) :
    ∃ o, ins.offset = .ok o ∧ o.alone = ⟨.signed, BitVec.ofInt 32 imm⟩ := by
  unfold Instr.offset
  rw [h]
  exact ⟨_, rfl, rfl⟩

theorem twoRegsAndOffset_effect (h : ins.regs = some [(a : Int), b]) (himm : ins.imm = some imm)
    (hb : b < 32) (m : Machine) :
    ∃ o : Offset, o.alone = ⟨.signed, BitVec.ofInt 32 imm⟩ ∧
      (twoRegsAndOffset ins).effect m =
        (.ok ((a : Int), ⟨.signed, (m.regs.content b).bits⟩, o), m.reading b) := by
  have h0 : ins.reg 0 = .ok (a : Int) := Instr.reg_eq_ok h rfl
  have h1 : ins.reg 1 = .ok (b : Int) := Instr.reg_eq_ok h rfl
  obtain ⟨o, ho, halone⟩ := offset_eq himm
  refine ⟨o, halone, ?_⟩
  simp only [twoRegsAndOffset, Action.effect_bind, Action.effect_ofExcept, h0, h1, getReg_effect hb, ho,
    Action.effect_pure, Word.asSigned]

theorem branchOperands_effect (h : ins.regs = some [(a : Int), b]) (himm : ins.imm = some imm)
    (ha : a < 32) (hb : b < 32) (m : Machine) :
    ∃ o : Offset, o.alone = ⟨.signed, BitVec.ofInt 32 imm⟩ ∧
      (branchOperands ins).effect m =
        (.ok (⟨.signed, (m.regs.content a).bits⟩, ⟨.signed, (m.regs.content b).bits⟩, o),
          (m.reading a).reading b) := by
  have h0 : ins.reg 0 = .ok (a : Int) := Instr.reg_eq_ok h rfl
  have h1 : ins.reg 1 = .ok (b : Int) := Instr.reg_eq_ok h rfl
  obtain ⟨o, ho, halone⟩ := offset_eq himm
  refine ⟨o, halone, ?_⟩
  simp only [branchOperands, Action.effect_bind, Action.effect_ofExcept, h0, h1, getReg_effect ha,
    getReg_effect hb, ho, Action.effect_pure, Word.asSigned, reading_content]

def onTwo (g : Word → Word → Word) (ins : Instr) : Action Machine Unit := do
  let (rd, a, b) ← threeRegs ins .signed
  setReg rd (g a b)

theorem onTwo_effect (g : Word → Word → Word) (h : ins.regs = some [(a : Int), b, d]) (ha : a < 32)
    (hb : b < 32) (hd : d < 32) (m : Machine) :
    (onTwo g ins).effect m = (.ok (), ((m.reading b).reading d).writing a
      (g ⟨.signed, (m.regs.content b).bits⟩ ⟨.signed, (m.regs.content d).bits⟩)) := by
  rw [onTwo, Action.effect_bind_of_ok (threeRegs_effect h hb hd m)]
  exact setReg_effect ha _ _

def onImmediate (g : Word → Word → Word) (ins : Instr) : Action Machine Unit := do
  let (rd, a, imm) ← twoRegsAndOffset ins
  setReg rd (g a imm.alone)

theorem onImmediate_effect (g : Word → Word → Word) (h : ins.regs = some [(a : Int), b])
    (himm : ins.imm = some imm) (ha : a < 32) (hb : b < 32) (m : Machine) :
    (onImmediate g ins).effect m = (.ok (), (m.reading b).writing a
      (g ⟨.signed, (m.regs.content b).bits⟩ ⟨.signed, BitVec.ofInt 32 imm⟩)) := by
  obtain ⟨o, halone, heffect⟩ := twoRegsAndOffset_effect h himm hb m
  rw [onImmediate, Action.effect_bind_of_ok heffect, ← halone]
  exact setReg_effect ha _ _

theorem shift_effect (f : Word → Nat → Word) (h : ins.regs = some [(a : Int), b, d]) (ha : a < 32)
    (hb : b < 32) (hd : d < 32) (m : Machine) :
    (shift f ins).effect m = (.ok (), ((m.reading b).reading d).writing a
      (f (m.regs.content b) ((m.regs.content d).bits.toNat % 32))) := by
  have hexpect : ins.expect 3 = .ok () := Instr.expect_of_length h rfl
  have h0 : ins.reg 0 = .ok (a : Int) := Instr.reg_eq_ok h rfl
  have h1 : ins.reg 1 = .ok (b : Int) := Instr.reg_eq_ok h rfl
  have h2 : ins.reg 2 = .ok (d : Int) := Instr.reg_eq_ok h rfl
  simp only [shift, Action.effect_bind, Action.effect_ofExcept, hexpect, h0, h1, h2,
    getReg_effect hb, getReg_effect hd, setReg_effect ha, shiftAmount_eq, reading_content]

theorem jump_effect {pc imm : BitVec 32} (hpc : m.pc = .word ⟨.unsigned, pc + 4⟩) :
    (jump ⟨.signed, imm⟩).effect m = (.ok (), { m with pc := .word ⟨.unsigned, pc + imm⟩ }) := by
  -- The offset counts from the instruction, not from the one after it.
  have htarget : m.pc.add (imm.toInt - 4) = .word ⟨.unsigned, pc + imm⟩ := by
    have hfour : BitVec.ofInt 32 (imm.toInt - 4) = imm - 4 := by
      rw [Int.sub_eq_add_neg, BitVec.ofInt_add, BitVec.ofInt_toInt, BitVec.sub_eq_add_neg]
      rfl
    rw [hpc]
    change Address.word ⟨.unsigned, BitVec.ofInt 32 (((pc + 4).toNat : Int) + (imm.toInt - 4))⟩ = _
    rw [BitVec.ofInt_add, hfour, BitVec.ofInt_natCast, BitVec.ofNat_toNat, BitVec.setWidth_eq]
    congr 2
    rw [BitVec.add_assoc, BitVec.add_comm 4, BitVec.sub_add_cancel]
  change (Action.modify fun m : Machine => { m with pc := m.pc.add (imm.toInt - 4) }).effect m = _
  rw [Action.effect_modify, htarget]

theorem branch_effect (taken : Word → Word → Bool) {pc : BitVec 32} (h : ins.regs = some [(a : Int), b])
    (himm : ins.imm = some imm) (ha : a < 32) (hb : b < 32) (hpc : m.pc = .word ⟨.unsigned, pc + 4⟩) :
    (branch taken ins).effect m = (.ok (), { (m.reading a).reading b with
      pc := .word ⟨.unsigned,
        if taken ⟨.signed, (m.regs.content a).bits⟩ ⟨.signed, (m.regs.content b).bits⟩
        then pc + BitVec.ofInt 32 imm else pc + 4⟩ }) := by
  obtain ⟨o, halone, heffect⟩ := branchOperands_effect h himm ha hb m
  rw [branch, Action.effect_bind_of_ok heffect]
  cases htaken : taken ⟨.signed, (m.regs.content a).bits⟩ ⟨.signed, (m.regs.content b).bits⟩ with
  | true =>
      simp only [htaken, ↓reduceIte, halone]
      exact jump_effect hpc
  | false =>
      simp only [htaken, Bool.false_eq_true, ↓reduceIte, Action.effect_pure, ← hpc]
      rfl

theorem jal_effect {pc : BitVec 32} (h : ins.regs = some [(a : Int)]) (himm : ins.imm = some imm)
    (ha : a < 32) (hpc : m.pc = .word ⟨.unsigned, pc + 4⟩) :
    (execute .jal ins).effect m = (.ok (), { m.writing a ⟨.unsigned, pc + 4⟩ with
      pc := .word ⟨.unsigned, pc + BitVec.ofInt 32 imm⟩ }) := by
  have hexpect : ins.expect 1 = .ok () := Instr.expect_of_length h rfl
  have h0 : ins.reg 0 = .ok (a : Int) := Instr.reg_eq_ok h rfl
  obtain ⟨o, ho, halone⟩ := offset_eq himm
  have hlink : m.pc.toWord = ⟨.unsigned, pc + 4⟩ := by
    rw [hpc]
    exact congrArg (Word.mk .unsigned) (Word.ofInt_value ⟨.unsigned, pc + 4⟩)
  simp only [execute, h, Action.effect_bind, Action.effect_ofExcept, hexpect, h0, ho, Action.effect_get,
    hlink, setReg_effect ha, halone]
  exact jump_effect (by rw [writing_pc, hpc])

theorem jalr_effect (h : ins.regs = some [(a : Int), b]) (himm : ins.imm = some imm) (ha : a < 32)
    (hb : b < 32) (m : Machine) :
    (execute .jalr ins).effect m = (.ok (), { (m.writing a m.pc.toWord).reading b with
      pc := .plain (((m.writing a m.pc.toWord).regs.content b).unsignedValue + (BitVec.ofInt 32 imm).toInt) }) := by
  -- The link is written before the register with the address is read.
  have hexpect : ins.expect 2 = .ok () := Instr.expect_of_length h rfl
  have hpresent : Check.present ins.immValue = .ok () := by
    rw [Instr.immValue, himm]
    rfl
  have h0 : ins.reg 0 = .ok (a : Int) := Instr.reg_eq_ok h rfl
  have h1 : ins.reg 1 = .ok (b : Int) := Instr.reg_eq_ok h rfl
  obtain ⟨o, ho, halone⟩ := offset_eq himm
  simp only [execute, Action.effect_bind, Action.effect_ofExcept, hexpect, hpresent, h0, h1, ho,
    Action.effect_get, setReg_effect ha, getReg_effect hb, halone]
  exact Action.effect_modify _ _

theorem announce_effect (what : Text) (trap : Fault) (h : ins.regs = none) (m : Machine) :
    (announce what ins trap).effect m = (.error trap, m) := by
  have hexpect : ins.expect 0 = .ok () := by simp [Instr.expect, Instr.regsValue, h, Check.length]
  simp only [announce, Action.effect_bind, Action.effect_ofExcept, hexpect, Action.effect_get,
    Action.effect_note, Action.effect_fail]

theorem ecall_effect (h : ins.regs = none) (m : Machine) :
    (execute .ecall ins).effect m = (.error .normalExit, m) :=
  announce_effect _ _ h m

theorem ebreak_effect (h : ins.regs = none) (m : Machine) :
    (execute .ebreak ins).effect m = (.error .debuggerRequested, m) :=
  announce_effect _ _ h m

end Operands

end Machine

end RvToolkit
