import RvToolkit.Proofs.Machine.Local
import RvToolkit.Proofs.Machine.Runs
import RvToolkit.Proofs.Word.Residue

namespace RvToolkit

/-- The instructions with an upper immediate. -/
inductive Upper where
  | lui
  | auipc
deriving DecidableEq, Repr

namespace Upper

def name : Upper → Text
  | .lui => "lui".toList
  | .auipc => "auipc".toList

def operation : Upper → Operation
  | .lui => .lui
  | .auipc => .auipc

/-- What the instruction set gives, by the address of the instruction and the immediate. -/
def standard : Upper → Int → Int → Int
  | .lui, _, imm => imm * 0x1000
  | .auipc, addr, imm => addr + imm * 0x1000

/-- What a machine computes. The counter that it adds stands at the next instruction. -/
def computed : Upper → Int → Int → Int
  | .lui, addr, imm => (addr + imm) * 0x1000
  | .auipc, addr, imm => (addr + imm) * 0x1000 + (addr + 4)

theorem ofName?_name (u : Upper) : Operation.ofName? u.name = some u.operation := by
  cases u <;> rfl

theorem computed_emod_iff (u : Upper) (addr imm : Int) :
    u.computed addr imm % 0x100000000 = u.standard addr imm % 0x100000000 ↔
      u = .lui ∧ addr % 0x100000 = 0 := by
  -- The shifted address goes beyond the word at multiples of `2 ^ 20`; the four is never lost.
  cases u with
  | lui =>
      simp only [computed, standard, true_and]
      omega
  | auipc =>
      simp only [computed, standard, reduceCtorEq, false_and, iff_false]
      omega

end Upper

namespace Machine

open RvToolkit.Action

variable {m : Machine} {ins : Instr} {rd rs : Nat} {imm : Int}

theorem loadOperands_effect (hregs : ins.regs = some [(rd : Int), rs]) (himm : ins.imm = some imm)
    (m : Machine) :
    (loadOperands ins).effect m = (.ok ((rd : Int), .ofInt .signed (ins.addr.value + imm)), m) := by
  have hexpect : ins.expect 2 = .ok () := Instr.expect_of_length hregs rfl
  have h0 : ins.reg 0 = .ok (rd : Int) := Instr.reg_eq_ok hregs rfl
  have hhere : Word.ofInt .signed (ins.addr.add imm).value = .ofInt .signed (ins.addr.value + imm) :=
    Word.ofInt_congr (ins.addr.ofInt_value_add imm)
  simp only [loadOperands, Instr.offset, himm, hhere, effect_bind, effect_ofExcept, hexpect, h0, effect_pure]

theorem execute_upper (u : Upper) (hregs : ins.regs = some [(rd : Int), rs]) (hrd : rd < 32)
    (himm : ins.imm = some imm) (haddr : ins.addr.value = m.pc.value) :
    (execute u.operation ins).effect m.advanced =
      (.ok (), m.advanced.writing rd (.ofInt .signed (u.computed m.pc.value imm))) := by
  have hload := loadOperands_effect hregs himm m.advanced
  have hshift : (Word.ofInt .signed (ins.addr.value + imm)).shiftLeft 12 =
      .ofInt .signed ((m.pc.value + imm) * 0x1000) := by
    rw [Word.shiftLeft_ofInt, haddr]
    rfl
  have hsum : (Word.ofInt .signed ((m.pc.value + imm) * 0x1000)).add m.advanced.pc.value =
      .ofInt .signed ((m.pc.value + imm) * 0x1000 + (m.pc.value + 4)) := by
    refine (Word.ofInt_congr (Word.descends_add.ofInt_left _ _)).trans (Word.ofInt_congr ?_)
    rw [BitVec.ofInt_add, advanced, Address.ofInt_value_add, ← BitVec.ofInt_add]
  cases u with
  | lui => simp only [Upper.operation, execute, effect_bind, hload, hshift, setReg_effect hrd, Upper.computed]
  | auipc =>
      simp only [Upper.operation, execute, effect_bind, hload, hshift, effect_get, hsum, setReg_effect hrd,
        Upper.computed]

theorem cycleOnce_upper (u : Upper) (hget : m.memory.program.get? m.pc.value = some ins)
    (hname : ins.name = u.name) (haddr : ins.addr.value = m.pc.value)
    (hregs : ins.regs = some [(rd : Int), rs]) (hrd : rd < 32) (hrs : rs < 32) (himm : ins.imm = some imm) :
    cycleOnce.effect m =
      (.ok (), m.advanced.writing rd (.ofInt .signed (u.computed m.pc.value imm))) := by
  have hbound : ∀ r ∈ [rd, rs], r < 32 := by simpa using ⟨hrd, hrs⟩
  obtain ⟨shown, hshown⟩ : ∃ shown, ins.render = .ok shown := by
    -- where an instruction stands does not show
    obtain ⟨shown, hshown⟩ := Instr.exists_render_of_regs ins.name hbound ins.imm 0
    obtain ⟨name, addr, regs, imm⟩ := ins
    cases hregs
    exact ⟨shown, hshown⟩
  rw [cycleOnce_performs hget hshown]
  exact perform_of_ok (hname ▸ u.ofName?_name) (execute_upper u hregs hrd himm haddr)

end Machine

namespace Emulator

open Machine

/-- A step over an upper immediate writes the shifted sum of address and immediate. That is what the
instruction set asks for exactly if the instruction is `lui` and stands at a multiple of `2 ^ 20`; for
`auipc` it never is. -/
theorem step_upper_iff (u : Upper) {m : Machine} {ins : Instr} {rd rs : Nat} {imm : Int}
    (hget : m.memory.program.get? m.pc.value = some ins) (hname : ins.name = u.name)
    (haddr : ins.addr.value = m.pc.value) (hregs : ins.regs = some [(rd : Int), rs]) (hrd : rd < 32)
    (hrs : rs < 32) (himm : ins.imm = some imm) (hbudget : m.budget ≠ 0) :
    ∃ m', step.effect m = (.ok (), m') ∧ m'.pc = m.pc.add 4 ∧
      (∀ r : Nat, r = 0 ∨ r ≠ rd → m'.regs.content r = m.regs.content r) ∧
      (rd ≠ 0 →
        ((m'.regs.content rd).unsignedValue : Int) = u.computed m.pc.value imm % 0x100000000 ∧
        (((m'.regs.content rd).unsignedValue : Int) = u.standard m.pc.value imm % 0x100000000 ↔
          u = .lui ∧ m.pc.value % 0x100000 = 0)) := by
  obtain ⟨n, hn⟩ := Nat.exists_eq_succ_of_ne_zero hbudget
  have hcycle := cycleOnce_upper (m := { m with budget := n }) u hget hname haddr hregs hrd hrs himm
  refine ⟨_, step_of_ok hn hcycle, writing_pc, ?_, ?_⟩
  · intro r hr
    rw [writing_content, if_neg (by omega)]
    rfl
  · intro hzero
    have hvalue (i : Int) : ((Word.ofInt .signed i).asSigned.unsignedValue : Int) = i % 0x100000000 :=
      Word.value_unsigned i
    rw [writing_content, if_pos ⟨hzero, rfl⟩, hvalue]
    exact ⟨rfl, u.computed_emod_iff m.pc.value imm⟩

def upperMachine : Machine :=
  { memory := ⟨⟨.unsigned, 0⟩, [(4, ⟨"lui".toList, .plain 4, some [5, 0], some 1⟩)], some 2⟩
    pc := .word ⟨.unsigned, 4⟩
    budget := 1 }

theorem step_upper_four :
    ∃ m', step.effect upperMachine = (.ok (), m') ∧ (m'.regs.content 5).unsignedValue = 0x5000 ∧
      Upper.lui.standard 4 1 = 0x1000 := by
  have hregs : some [5, 0] = some [((5 : Nat) : Int), ((0 : Nat) : Int)] := rfl
  obtain ⟨m', hstep, -, -, hcontent⟩ := step_upper_iff .lui (m := upperMachine) rfl rfl rfl hregs (by decide)
    (by decide) rfl (by decide)
  obtain ⟨hvalue, -⟩ := hcontent (by decide)
  exact ⟨m', hstep, Int.ofNat_inj.mp hvalue, rfl⟩

end Emulator

end RvToolkit
