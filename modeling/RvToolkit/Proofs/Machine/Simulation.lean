import RvToolkit.Proofs.Instruction.Operands
import RvToolkit.Proofs.Machine.Execution

namespace RvToolkit

namespace Reference

/-- Every register operand names a register of the machine. -/
def Registers (step : Assembly.Step) : Prop := ∀ r ∈ step.operands.regs.getD [], r < 32

theorem ofNat_eq_iff {i r : Nat} (hi : i < 32) (hr : r < 32) : Fin.ofNat 32 i = Fin.ofNat 32 r ↔ i = r := by
  rw [Fin.ext_iff, Fin.val_ofNat, Fin.val_ofNat, Nat.mod_eq_of_lt hi, Nat.mod_eq_of_lt hr]

namespace State

theorem read_write (s : State) (r : Fin 32) (v : BitVec 32) (i : Fin 32) :
    (s.write r v).read i = if r ≠ 0 ∧ i = r then v else s.read i := by
  unfold read write
  by_cases hi : i = 0
  · by_cases hr : r = 0
    · simp [hi, hr]
    · simp [hi, hr, Ne.symm hr]
  · by_cases hr : i = r
    · have hne : r ≠ 0 := hr ▸ hi
      simp [hr, hne]
    · simp [hi, hr]

end State

end Reference

/-- A machine stands where the reference machine stands and holds the same bits in its registers. Its
registers are read by their sign. -/
structure Holds (m : Machine) (s : Reference.State) : Prop where
  pc : m.pc = .word ⟨.unsigned, s.pc⟩
  bits : ∀ r < 32, (m.regs.content (r : Nat)).bits = s.read (.ofNat 32 r)
  signed : ∀ r < 32, (m.regs.content (r : Nat)).value = (m.regs.content (r : Nat)).bits.toInt

namespace Holds

open Machine

variable {m : Machine} {s : Reference.State} {r : Nat}

theorem reading (h : Holds m s) (r : Nat) : Holds (m.reading r) s := ⟨h.pc, h.bits, h.signed⟩

theorem writing (h : Holds m s) (hr : r < 32) {w : Word} {v : BitVec 32} (hw : w.bits = v) :
    Holds (m.writing r w) (s.write (.ofNat 32 r) v) := by
  have hzero : Fin.ofNat 32 r = 0 ↔ r = 0 := Reference.ofNat_eq_iff hr (by decide)
  constructor
  · exact writing_pc.trans h.pc
  · intro i hi
    simp only [writing_content, Reference.State.read_write, ne_eq, hzero, Reference.ofNat_eq_iff hi hr]
    split
    · exact hw
    · exact h.bits i hi
  · intro i hi
    rw [writing_content]
    split
    · rfl
    · exact h.signed i hi

theorem goto (h : Holds m s) (pc : BitVec 32) :
    Holds { m with pc := .word ⟨.unsigned, pc⟩ } (s.goto pc) := ⟨rfl, h.bits, h.signed⟩

theorem advanced (h : Holds m s) : Holds m.advanced (s.goto (s.pc + 4)) := by
  have hpc : m.pc.add 4 = .word ⟨.unsigned, s.pc + 4⟩ := by
    rw [h.pc]
    exact congrArg (fun x => Address.word ⟨.unsigned, x⟩) (Word.add_bits ⟨.unsigned, s.pc⟩ 4)
  exact ⟨hpc, h.bits, h.signed⟩

end Holds

namespace Machine

open Reference.Ins

variable {m : Machine} {s : Reference.State} {ins : Instr} {a b d : Nat} {imm : Int}

theorem perform_of_ok {o : Operation} {m' : Machine} (ho : Operation.ofName? ins.name = some o)
    (h : (execute o ins).effect m = (.ok (), m')) : (perform ins).effect m = (.ok (), m') := by
  rw [perform, ho]
  exact Action.effect_handle_of_ok h _

theorem execute_register (ins : Instr) {f : Reference.Alu} (hop : (ins.name, f) ∈ registerOps)
    (h : ins.regs = some [(a : Int), b, d]) (ha : a < 32) (hb : b < 32) (hd : d < 32) (m : Machine) :
    ∃ o w, Operation.ofName? ins.name = some o ∧
      (execute o ins).effect m = (.ok (), ((m.reading b).reading d).writing a w) ∧
      ((m.regs.content b).value = (m.regs.content b).bits.toInt →
        w.bits = f.eval (m.regs.content b).bits (m.regs.content d).bits) := by
  have hamount : (m.regs.content d).bits.toNat % 32 < 32 := Nat.mod_lt _ (by decide)
  simp only [registerOps, List.mem_cons, List.not_mem_nil, or_false, Prod.mk.injEq] at hop
  obtain ⟨hname, rfl⟩ | ⟨hname, rfl⟩ | ⟨hname, rfl⟩ | ⟨hname, rfl⟩ | ⟨hname, rfl⟩ | ⟨hname, rfl⟩ |
    ⟨hname, rfl⟩ | ⟨hname, rfl⟩ | ⟨hname, rfl⟩ | ⟨hname, rfl⟩ := hop <;> rw [hname]
  · exact ⟨.add, _, rfl, onTwo_effect (fun x y => x.add y.value) h ha hb hd m,
      fun _ => Word.add_bits _ _⟩
  · exact ⟨.sub, _, rfl, onTwo_effect (fun x y => x.sub y.value) h ha hb hd m,
      fun _ => Word.sub_bits _ _⟩
  · exact ⟨.xor, _, rfl, onTwo_effect (fun x y => x.xor y.value) h ha hb hd m,
      fun _ => Word.xor_bits _ _⟩
  · exact ⟨.or, _, rfl, onTwo_effect (fun x y => x.or y.value) h ha hb hd m,
      fun _ => Word.or_bits _ _⟩
  · exact ⟨.and, _, rfl, onTwo_effect (fun x y => x.and y.value) h ha hb hd m,
      fun _ => Word.and_bits _ _⟩
  · exact ⟨.sll, _, rfl, shift_effect Word.shiftLeft h ha hb hd m,
      fun _ => Word.shiftLeft_bits _ _⟩
  · exact ⟨.srl, _, rfl, shift_effect Word.shiftRightLogical h ha hb hd m,
      fun _ => Word.shiftRightLogical_bits _ _⟩
  · exact ⟨.sra, _, rfl, shift_effect Word.shiftRight h ha hb hd m, Word.shiftRight_bits _ _⟩
  · exact ⟨.slt, _, rfl, onTwo_effect (fun x y => truth (x.value < y.value)) h ha hb hd m,
      fun _ => truth_slt _ _⟩
  · exact ⟨.sltu, _, rfl,
      onTwo_effect (fun x y => truth (x.unsignedValue < y.unsignedValue)) h ha hb hd m,
      fun _ => truth_ult _ _⟩

theorem execute_immediate (ins : Instr) {f : Reference.Alu} (hop : (ins.name, f) ∈ immediateOps)
    (h : ins.regs = some [(a : Int), b]) (himm : ins.imm = some imm) (ha : a < 32) (hb : b < 32)
    (m : Machine) :
    ∃ o w, Operation.ofName? ins.name = some o ∧
      (execute o ins).effect m = (.ok (), (m.reading b).writing a w) ∧
      w.bits = f.eval (m.regs.content b).bits (.ofInt 32 imm) := by
  simp only [immediateOps, List.mem_cons, List.not_mem_nil, or_false, Prod.mk.injEq] at hop
  obtain ⟨hname, rfl⟩ | ⟨hname, rfl⟩ | ⟨hname, rfl⟩ | ⟨hname, rfl⟩ | ⟨hname, rfl⟩ := hop <;> rw [hname]
  · exact ⟨.addi, _, rfl, onImmediate_effect (fun x y => x.add y.value) h himm ha hb m,
      Word.add_bits _ _⟩
  · exact ⟨.xori, _, rfl, onImmediate_effect (fun x y => x.xor y.value) h himm ha hb m,
      Word.xor_bits _ _⟩
  · exact ⟨.ori, _, rfl, onImmediate_effect (fun x y => x.or y.value) h himm ha hb m,
      Word.or_bits _ _⟩
  · exact ⟨.andi, _, rfl, onImmediate_effect (fun x y => x.and y.value) h himm ha hb m,
      Word.and_bits _ _⟩
  · exact ⟨.sltiu, _, rfl,
      onImmediate_effect (fun x y => truth (x.unsignedValue < y.unsignedValue)) h himm ha hb m,
      truth_ult _ _⟩

theorem execute_branch (ins : Instr) {c : Reference.Condition} (hop : (ins.name, c) ∈ conditions) :
    ∃ o taken, Operation.ofName? ins.name = some o ∧ execute o = branch taken ∧
      ∀ x y, taken ⟨.signed, x⟩ ⟨.signed, y⟩ = c.holds x y := by
  simp only [conditions, List.mem_cons, List.not_mem_nil, or_false, Prod.mk.injEq] at hop
  obtain ⟨hname, rfl⟩ | ⟨hname, rfl⟩ | ⟨hname, rfl⟩ | ⟨hname, rfl⟩ | ⟨hname, rfl⟩ | ⟨hname, rfl⟩ := hop <;>
    rw [hname]
  · refine ⟨.beq, fun a b => a.value = b.value, rfl, rfl, fun x y => ?_⟩
    exact decide_eq_decide.mpr BitVec.toInt_inj
  · refine ⟨.bne, fun a b => a.value ≠ b.value, rfl, rfl, fun x y => ?_⟩
    exact (decide_eq_decide.mpr (not_congr BitVec.toInt_inj)).trans decide_not
  · refine ⟨.blt, fun a b => a.value < b.value, rfl, rfl, fun x y => ?_⟩
    exact BitVec.slt_eq_decide.symm
  · refine ⟨.bge, fun a b => b.value ≤ a.value, rfl, rfl, fun x y => ?_⟩
    change decide (y.toInt ≤ x.toInt) = !x.slt y
    rw [BitVec.slt_eq_decide, ← decide_not, decide_eq_decide, Int.not_lt]
  · refine ⟨.bltu, fun a b => a.unsignedValue < b.unsignedValue, rfl, rfl, fun x y => ?_⟩
    exact BitVec.ult_eq_decide.symm
  · refine ⟨.bgeu, fun a b => b.unsignedValue ≤ a.unsignedValue, rfl, rfl, fun x y => ?_⟩
    change decide (y.toNat ≤ x.toNat) = !x.ult y
    rw [BitVec.ult_eq_decide, ← decide_not, decide_eq_decide, Nat.not_lt]

end Machine

/-- The instruction that a step becomes in memory. -/
def Instr.ofStep (addr : Int) (step : Assembly.Step) : Instr :=
  ⟨step.op, .plain addr, step.operands.regs.map (·.map Int.ofNat), step.operands.imm⟩

namespace Reference.Ins

/-- The forms of the instructions, with the operands that they take. -/
inductive Loads : Assembly.Step → Ins → Prop where
  | alu {op : Text} {f : Alu} {a b d : Nat} (h : (op, f) ∈ registerOps) :
      Loads ⟨op, some [a, b, d], none⟩ (.alu f (.ofNat 32 a) (.ofNat 32 b) (.ofNat 32 d))
  | aluImm {op : Text} {f : Alu} {a b : Nat} {imm : Int} (h : (op, f) ∈ immediateOps) :
      Loads ⟨op, some [a, b], some imm⟩ (.aluImm f (.ofNat 32 a) (.ofNat 32 b) (.ofInt 32 imm))
  | branch {op : Text} {c : Condition} {a b : Nat} {imm : Int} (h : (op, c) ∈ conditions) :
      Loads ⟨op, some [a, b], some imm⟩ (.branch c (.ofNat 32 a) (.ofNat 32 b) (.ofInt 32 imm))
  | jal {a : Nat} {imm : Int} :
      Loads ⟨"jal".toList, some [a], some imm⟩ (.jal (.ofNat 32 a) (.ofInt 32 imm))
  | ecall : Loads ⟨"ecall".toList, none, none⟩ .ecall

theorem loads_of_ofStep? {step : Assembly.Step} {ins : Ins} (h : ofStep? step = some ins) :
    Loads step ins := by
  obtain ⟨op, operands⟩ := step
  unfold ofStep? at h
  split at h
  · next a b d hoperands =>
    cases hoperands
    obtain ⟨f, hf, rfl⟩ := Option.map_eq_some_iff.mp h
    exact .alu (mem_of_lookup hf)
  · next a b imm hoperands =>
    cases hoperands
    split at h
    · next f hf =>
      cases h
      exact .aluImm (mem_of_lookup hf)
    · obtain ⟨c, hc, rfl⟩ := Option.map_eq_some_iff.mp h
      exact .branch (mem_of_lookup hc)
  · next a imm hoperands =>
    cases hoperands
    obtain ⟨rfl, h⟩ := Option.ite_none_right_eq_some.mp h
    cases h
    exact .jal
  · next hoperands =>
    cases hoperands
    obtain ⟨rfl, h⟩ := Option.ite_none_right_eq_some.mp h
    cases h
    exact .ecall
  · cases h

end Reference.Ins

namespace Machine

open Reference.Ins (Loads)

variable {m : Machine} {s s' : Reference.State} {step : Assembly.Step} {ins : Reference.Ins}

theorem perform_simulates (hload : Loads step ins) (hregs : Reference.Registers step)
    (h : Holds m (s.goto (s.pc + 4))) (hs : ins.execute s = some s') (addr : Int) :
    ∃ m', (perform (.ofStep addr step)).effect m = (.ok (), m') ∧ Holds m' s' ∧ Kept m m' := by
  -- The machine has moved on before it carries out an instruction, so that it stands behind
  -- it.
  cases hload with
  | @alu op f a b d hop =>
      obtain ⟨ha, hb, hd⟩ : a < 32 ∧ b < 32 ∧ d < 32 := by simpa [Reference.Registers] using hregs
      obtain ⟨o, w, ho, heffect, hw⟩ :=
        execute_register (.ofStep addr ⟨op, some [a, b, d], none⟩) hop rfl ha hb hd m
      replace hw := hw (h.signed b hb)
      rw [h.bits b hb, h.bits d hd] at hw
      cases hs
      exact ⟨_, perform_of_ok ho heffect, ((h.reading b).reading d).writing ha hw,
        (kept_reading.trans kept_reading).trans kept_writing⟩
  | @aluImm op f a b imm hop =>
      obtain ⟨ha, hb⟩ : a < 32 ∧ b < 32 := by simpa [Reference.Registers] using hregs
      obtain ⟨o, w, ho, heffect, hw⟩ :=
        execute_immediate (.ofStep addr ⟨op, some [a, b], some imm⟩) hop rfl rfl ha hb m
      rw [h.bits b hb] at hw
      cases hs
      exact ⟨_, perform_of_ok ho heffect, (h.reading b).writing ha hw,
        kept_reading.trans kept_writing⟩
  | @branch op c a b imm hop =>
      obtain ⟨ha, hb⟩ : a < 32 ∧ b < 32 := by simpa [Reference.Registers] using hregs
      obtain ⟨o, taken, ho, hexecute, htaken⟩ :=
        execute_branch (.ofStep addr ⟨op, some [a, b], some imm⟩) hop
      -- the target counts from the branch, behind which the machine already stands
      have heffect : (branch taken (.ofStep addr ⟨op, some [a, b], some imm⟩)).effect m = _ :=
        branch_effect taken rfl rfl ha hb h.pc
      rw [htaken, h.bits a ha, h.bits b hb, ← hexecute] at heffect
      cases hs
      exact ⟨_, perform_of_ok ho heffect, ((h.reading a).reading b).goto _, ⟨rfl, rfl, rfl⟩⟩
  | @jal a imm =>
      have ha : a < 32 := by simpa [Reference.Registers] using hregs
      cases hs
      exact ⟨_, perform_of_ok rfl (jal_effect rfl rfl ha h.pc), (h.writing ha rfl).goto _,
        kept_writing.trans ⟨rfl, rfl, rfl⟩⟩
  | ecall => cases hs

theorem perform_exits (hload : Loads step ins) (hs : ins.execute s = none) (addr : Int) (m : Machine) :
    (perform (.ofStep addr step)).effect m = (.error .normalExit, m) := by
  cases hload with
  | ecall =>
      have hexit : (execute .ecall (.ofStep addr ⟨"ecall".toList, none, none⟩)).effect m =
          (.error .normalExit, m) := ecall_effect rfl m
      exact Action.effect_handle_of_error hexit _
  | _ => cases hs

end Machine

end RvToolkit
