import RvToolkit.Proofs.Assembly.Expansion
import RvToolkit.Proofs.Machine.IndirectJump

namespace RvToolkit

namespace Assembly

/-- No indirect jump and no breakpoint, and if a branch or a jump, then to a later address. -/
def Step.Forward (s : Step) : Prop :=
  s.op ≠ "jalr".toList ∧ s.op ≠ "ebreak".toList ∧
    (Isa.base.format? s.op = some .B ∨ Isa.base.format? s.op = some .J → ∀ imm ∈ s.operands.imm, 0 < imm)

instance (s : Step) : Decidable s.Forward := inferInstanceAs (Decidable (_ ∧ _ ∧ (_ → _)))

end Assembly

theorem Instruction.imm_bounds [Evaluator] {f : Format} {op : Text} {args : List Value} {e : Encoded}
    {imm : Int}
    (hf : f = .B ∨ f = .J) (h : encodeWith f op args = .ok e) (himm : e.operands.imm = some imm) :
    -0x100000 ≤ imm ∧ imm < 0x100000 := by
  rcases hf with rfl | rfl
  · obtain ⟨_, _, _, _, _, _, v, -, -, -, -, -, rfl⟩ := encodeB_eq_ok h
    obtain ⟨-, hlow, hhigh⟩ := representative_wrap (by decide : 0 < 13) v
    obtain rfl : Immediate.wrap 13 v = imm := Option.some.inj himm
    omega
  · obtain ⟨_, _, _, _, _, v, -, -, -, -, -, rfl⟩ := encodeJ_eq_ok h
    obtain ⟨-, hlow, hhigh⟩ := representative_wrap (by decide : 0 < 21) v
    obtain rfl : Immediate.wrap 21 v = imm := Option.some.inj himm
    omega

namespace Address

variable {a : Address}

theorem add_add (a : Address) (j k : Int) : (a.add j).add k = a.add (j + k) := by
  cases a with
  | word w =>
      have hsum : BitVec.ofInt 32 ((w.add j).value + k) = BitVec.ofInt 32 (w.value + (j + k)) := by
        rw [← Int.add_assoc]
        exact Word.descends_add.ofInt_left (w.value + j) k
      exact congrArg word (Word.ofInt_congr hsum)
  | plain i => exact congrArg plain (Int.add_assoc i j k)

theorem IsWord.value_add (h : a.IsWord) {k : Int} (hlow : 0 ≤ a.value + k)
    (hhigh : a.value + k < 0x100000000) : (a.add k).value = a.value + k := by
  obtain ⟨b, rfl⟩ := h
  exact (Word.value_unsigned _).trans (Int.emod_eq_of_lt hlow hhigh)

end Address

namespace Machine

open RvToolkit.Action

variable {m m' : Machine} {ins : Instr} {key : Int} {shown : Text}

theorem counter_perform_of_straight (hrelative : (Operation.ofName? ins.name).any Operation.isRelative = false)
    (hindirect : (Operation.ofName? ins.name).any Operation.isIndirect = false) (m : Machine) :
    ((perform ins).effect m).2.pc = m.pc := by
  have hlocal : Local (fun _ => True) (· = m.pc) (perform ins) := by
    refine local_perform (fun _ _ => trivial) ins ?_ (fun _ _ => trivial) ?_
    · intro o ho hjump
      rw [ho, Option.any_some, hjump] at hrelative
      cases hrelative
    · intro o ho hjump
      rw [ho, Option.any_some, hjump] at hindirect
      cases hindirect
  exact hlocal.counter rfl

/-- Where an instruction leaves the counter: a branch or a jump adds its offset to its own address, four
less than the counter, and every other one but the indirect jump leaves the counter alone. -/
theorem counter_perform {op : Text} {operands : Operands} (hform : Instruction.Form op operands)
    (hshown : (Instr.ofStep key ⟨op, operands⟩).render = .ok shown) (hdirect : op ≠ "jalr".toList)
    (m : Machine) :
    ((perform (.ofStep key ⟨op, operands⟩)).effect m).2.pc = m.pc ∨
      (Isa.base.format? op = some .B ∨ Isa.base.format? op = some .J) ∧ ∃ imm, operands.imm = some imm ∧
        ((perform (.ofStep key ⟨op, operands⟩)).effect m).2.pc =
          m.pc.add ((BitVec.ofInt 32 imm).toInt - 4) := by
  have hregs := Instr.registers_of_render hshown
  have hstraight : ∀ f ∈ [Format.R, .I, .S, .U], ∀ p ∈ Code.table f,
      (Operation.ofName? p.1).any Operation.isRelative = false := by decide
  have hindirect : (Operation.ofName? op).any Operation.isIndirect = false := by
    cases ho : Operation.ofName? op with
    | none => rfl
    | some o =>
        rw [Option.any_some, Bool.eq_false_iff]
        exact fun hjump => hdirect (jalr_of_isIndirect hform ho hjump).1
  cases hform with
  | @branch c a b imm hop =>
      have hformat : ∀ p ∈ Code.table .B, Isa.base.format? p.1 = some .B := by decide
      obtain ⟨ha, hb⟩ : a < 32 ∧ b < 32 := by simpa [Reference.Registers] using hregs
      obtain ⟨o, pc, ho, hpc, heffect⟩ := branch_ok hop ha hb imm key m
      rw [perform_of_ok ho heffect]
      rcases hpc with hpc | hpc
      · exact .inl hpc
      · exact .inr ⟨.inl (hformat _ hop), imm, rfl, hpc⟩
  | @jump c a imm hop =>
      have hname : ∀ p ∈ Code.table .J, p.1 = "jal".toList := by decide
      have ha : a < 32 := by simpa [Reference.Registers] using hregs
      obtain rfl : op = "jal".toList := hname _ hop
      obtain ⟨w, heffect⟩ := jal_ok (.ofStep key ⟨"jal".toList, some [a], some imm⟩) rfl rfl ha m
      rw [perform_of_ok rfl heffect]
      exact .inr ⟨.inr (by decide), imm, rfl, rfl⟩
  | system hsystem =>
      obtain rfl | rfl := Instruction.eq_of_systemNumber? hsystem
      · exact .inl (counter_perform_of_straight rfl rfl m)
      · exact .inl (counter_perform_of_straight rfl rfl m)
  | register hop | immediate hop _ | store hop | upper hop =>
      exact .inl (counter_perform_of_straight (hstraight _ (by decide) _ hop) hindirect m)

/-- The machine is running, with the program in its memory and a counter that wraps. -/
structure Running (program : Assoc Int Assembly.Step) (m : Machine) : Prop where
  loaded : ∀ addr, m.memory.program.get? addr = (program.get? addr).map (Instr.ofStep addr)
  running : m.halted = false
  counter : m.pc.IsWord

section Program

variable [Evaluator] {a a' : Assembly} {program : Assoc Int Assembly.Step}
  (hsteps : Assembly.steps.effect a = (.ok program, a')) (hforward : ∀ e ∈ program, e.2.Forward)

include hsteps hforward

theorem trap?_ne_of_forward (h : Running program m) : m.trap? ≠ some .debuggerRequested := by
  intro htrap
  obtain ⟨ins, hget, htrap⟩ := Option.bind_eq_some_iff.mp htrap
  rw [h.loaded] at hget
  obtain ⟨step, hstep, rfl⟩ := Option.map_eq_some_iff.mp hget
  have hmem := Assoc.mem_of_get? hstep
  obtain ⟨f, args, e, -, hencode, hoperands⟩ := Assembly.exists_encodeWith_of_mem_steps hsteps hmem
  have hform : Instruction.Form step.op step.operands := hoperands ▸ Instruction.form_of_encodeWith hencode
  cases hshown : (Instr.ofStep m.pc.value step).render with
  | error f => rw [hshown] at htrap; cases htrap
  | ok shown =>
      rw [hshown] at htrap
      have hleaves := leaves_form hform hshown m
      rw [perform_of_trap htrap] at hleaves
      cases hleaves with
      | failed hbreak _ _ => exact (hforward _ hmem).2.1 (hbreak rfl)

theorem counter_perform_forward {step : Assembly.Step} (hmem : (key, step) ∈ program)
    (hshown : (Instr.ofStep key step).render = .ok shown) (m : Machine) :
    ∃ k, 0 < k ∧ k < 0x100000 ∧ ((perform (.ofStep key step)).effect m.advanced).2.pc = m.pc.add k := by
  obtain ⟨hdirect, -, hahead⟩ := hforward _ hmem
  obtain ⟨f, args, e, hformat, hencode, hoperands⟩ := Assembly.exists_encodeWith_of_mem_steps hsteps hmem
  have hform : Instruction.Form step.op step.operands := hoperands ▸ Instruction.form_of_encodeWith hencode
  rcases counter_perform hform hshown hdirect m.advanced with hpc | ⟨hjump, imm, himm, hpc⟩
  · exact ⟨4, by decide, by decide, hpc⟩
  · have hf : f = .B ∨ f = .J := by simpa [hformat] using hjump
    obtain ⟨hlow, hhigh⟩ := Instruction.imm_bounds hf hencode (hoperands ▸ himm)
    have hoffset : (BitVec.ofInt 32 imm).toInt = imm := by
      rw [BitVec.toInt_ofInt]
      apply Int.bmod_eq_of_le <;> omega
    refine ⟨imm, hahead hjump imm himm, hhigh, ?_⟩
    -- the counter has been moved by four when the instruction is carried out
    calc ((perform (.ofStep key step)).effect m.advanced).2.pc
      _ = m.advanced.pc.add (imm - 4) := by rw [← hoffset]; exact hpc
      _ = m.pc.add (4 + (imm - 4)) := m.pc.add_add 4 (imm - 4)
      _ = m.pc.add imm := congrArg m.pc.add (by omega)

theorem cycleOnce_forward (hbase : 0 ≤ a.base)
    (hfits : a.base + 4 * program.length + 0x100000 ≤ 0x100000000) (h : Running program m)
    (hcycle : cycleOnce.effect m = (.ok (), m')) :
    (∃ i < program.length, m.pc.value = a.base + 4 * (i : Nat)) ∧ m'.pc.IsWord ∧
      m.pc.value < m'.pc.value := by
  have hat := h.loaded m.pc.value
  cases hget : Assoc.get? m.pc.value program with
  | none =>
      rw [hget] at hat
      rw [cycleOnce_missing hat] at hcycle
      cases hcycle
  | some step =>
      rw [hget] at hat
      cases hshown : (Instr.ofStep m.pc.value step).render with
      | error f =>
          rw [cycleOnce_unshown hat hshown] at hcycle
          cases hcycle
      | ok shown =>
          obtain ⟨-, -, hconsecutive, -⟩ := Assembly.interpret_eq_ok (Assembly.steps_eq_ok hsteps)
          obtain ⟨i, hi, haddress⟩ := hconsecutive.exists_of_get? hget
          obtain ⟨k, hk, hbound, hpc⟩ :=
            counter_perform_forward hsteps hforward (Assoc.mem_of_get? hget) hshown m
          rw [← cycleOnce_performs hat hshown, hcycle] at hpc
          have hpc : m'.pc = m.pc.add k := hpc
          rw [hpc, h.counter.value_add (by omega) (by omega)]
          exact ⟨⟨i, hi, haddress⟩, h.counter.add k, by omega⟩

end Program

end Machine

namespace Emulator

open RvToolkit.Action Machine

variable {m m' m₁ : Machine} {r : Except Fault Unit} {f : Fault} {k n : Nat}

/-- How a run can end: the program exits, the machine halts, or a fault comes out. That the budget has been
used up is none of these. -/
inductive Ended : Except Fault Unit → Machine → Prop where
  | exited {m : Machine} (h : m.halted = true) : Ended (.error .normalExit) m
  | halted {m : Machine} (h : m.halted = true) : Ended (.ok ()) m
  | raised {m : Machine} {f : Fault} (hf : f.isOrdinary = true) : Ended (.error f) m

theorem step_cases (hbudget : m.budget = n + 1) (hbreak : m.trap? ≠ some .debuggerRequested) :
    ∃ r m', step.effect m = (r, m') ∧ Progress m m' ∧
      (Ended r m' ∨ r = .ok () ∧ ∃ n, cycleOnce.effect { m with budget := n } = (.ok (), m')) := by
  have hsettled := Debugger.settled_stepOrBreak hbudget fun h => absurd h hbreak
  rw [step, effect_bind]
  generalize stepOrBreak.effect m = out at hsettled
  cases hsettled with
  | cycled _ h hcycle => exact ⟨_, _, rfl, h, .inr ⟨rfl, _, hcycle⟩⟩
  | halted _ h hhalted => exact ⟨_, _, rfl, h, .inl (.halted hhalted)⟩
  | failed _ h hf => exact ⟨_, _, rfl, h, .inl (.raised hf)⟩
  | broke htrap _ => exact absurd htrap hbreak
  | exited _ h hhalted => exact ⟨_, _, rfl, h, .inl (.exited hhalted)⟩

/-- The run of a machine makes so many steps, each of which takes one from the budget, and ends. -/
structure EndsWith (m : Machine) (k : Nat) (r : Except Fault Unit) (m' : Machine) : Prop where
  steps : (stepTimes k).effect m = (r, m')
  rounds : ∀ n, k < n → (untilHalted step n).effect m = (r, m')
  spent : k + m'.budget = m.budget
  ended : Ended r m'

namespace EndsWith

theorem of_halted (hhalted : m.halted = true) : EndsWith m 0 (.ok ()) m :=
  ⟨rfl, fun _ => untilHalted_of_halted step hhalted, Nat.zero_add _, .halted hhalted⟩

theorem of_error (hhalted : m.halted = false) (hstep : step.effect m = (.error f, m'))
    (hprogress : Progress m m') (hended : Ended (.error f) m') : EndsWith m 1 (.error f) m' := by
  have hbudget := hprogress.budget
  refine ⟨effect_bind_of_error hstep _, ?_, by omega, hended⟩
  intro n hn
  obtain ⟨n, rfl⟩ : ∃ i, n = i + 1 := ⟨n - 1, by omega⟩
  rw [untilHalted_of_running step hhalted, effect_bind_of_error hstep]

theorem next (hhalted : m.halted = false) (hstep : step.effect m = (.ok (), m₁))
    (hprogress : Progress m m₁) (h : EndsWith m₁ k r m') : EndsWith m (k + 1) r m' := by
  have hfirst := hprogress.budget
  have hrest := h.spent
  refine ⟨?_, ?_, by omega, h.ended⟩
  · rw [stepTimes, effect_bind_of_ok hstep]
    exact h.steps
  · intro n hn
    obtain ⟨n, rfl⟩ : ∃ i, n = i + 1 := ⟨n - 1, by omega⟩
    rw [untilHalted_of_running step hhalted, effect_bind_of_ok hstep]
    exact h.rounds n (by omega)

theorem of_step (hhalted : m.halted = false) (hstep : step.effect m = (r, m')) (hprogress : Progress m m')
    (hended : Ended r m') : EndsWith m 1 r m' := by
  cases hended with
  | halted h => exact (of_halted h).next hhalted hstep hprogress
  | exited h => exact .of_error hhalted hstep hprogress (.exited h)
  | raised hf => exact .of_error hhalted hstep hprogress (.raised hf)

theorem run_effect (h : EndsWith m k r m') : run.effect m = (r, m') := by
  have hspent := h.spent
  rw [run, runWith, effect_bind_of_ok (effect_get m)]
  exact h.rounds _ (by omega)

end EndsWith

section Program

variable [Evaluator] {a a' : Assembly} {program : Assoc Int Assembly.Step}
  (hsteps : Assembly.steps.effect a = (.ok program, a')) (hbase : 0 ≤ a.base)
  (hfits : a.base + 4 * program.length + 0x100000 ≤ 0x100000000) (hforward : ∀ e ∈ program, e.2.Forward)

include hsteps hbase hfits hforward

theorem step_forward (h : Running program m) (hbudget : 0 < m.budget) :
    ∃ r m', step.effect m = (r, m') ∧ Progress m m' ∧ (Ended r m' ∨ r = .ok () ∧ Running program m' ∧
      (∃ i < program.length, m.pc.value = a.base + 4 * (i : Nat)) ∧ m.pc.value < m'.pc.value) := by
  obtain ⟨n, hn⟩ := Nat.exists_eq_succ_of_ne_zero hbudget.ne'
  obtain ⟨r, m', hstep, hprogress, hended | ⟨rfl, n, hcycle⟩⟩ :=
    step_cases hn (trap?_ne_of_forward hsteps hforward h)
  · exact ⟨r, m', hstep, hprogress, .inl hended⟩
  · have hspent : Running program { m with budget := n } := ⟨h.loaded, h.running, h.counter⟩
    obtain ⟨hat, hcounter, hahead⟩ := cycleOnce_forward hsteps hforward hbase hfits hspent hcycle
    have hchassis := (cycleOnce_cases { m with budget := n }).1
    rw [hcycle] at hchassis
    have hrunning : m'.halted = m.halted := (congrArg Machine.halted hchassis :)
    have hfollows : Running program m' :=
      ⟨hprogress.memory ▸ h.loaded, hrunning.trans h.running, hcounter⟩
    exact ⟨.ok (), m', hstep, hprogress, .inr ⟨rfl, hfollows, hat, hahead⟩⟩

theorem exists_endsWith {j : Nat} (h : Running program m) (hbudget : j < m.budget)
    (hroom : a.base + 4 * program.length < m.pc.value + 4 * (j + 1)) :
    ∃ k r m', k ≤ j + 1 ∧ EndsWith m k r m' := by
  induction j generalizing m with
  | zero =>
      obtain ⟨r, m', hstep, hprogress, hended | ⟨-, -, ⟨i, hi, hat⟩, -⟩⟩ :=
        step_forward hsteps hbase hfits hforward h hbudget
      · exact ⟨1, r, m', Nat.le_refl 1, .of_step h.running hstep hprogress hended⟩
      · omega
  | succ j ih =>
      obtain ⟨r, m₁, hstep, hprogress, hended | ⟨rfl, hfollows, ⟨i, hi, hat⟩, hahead⟩⟩ :=
        step_forward hsteps hbase hfits hforward h (by omega)
      · exact ⟨1, r, m₁, by omega, .of_step h.running hstep hprogress hended⟩
      · -- a counter within the program is a multiple of four past its base, so that one more byte is
        -- room for one instruction less
        have hspent := hprogress.budget
        obtain ⟨k, r, m', hk, hends⟩ := ih hfollows (by omega) (by omega)
        exact ⟨k + 1, r, m', by omega, hends.next h.running hstep hprogress⟩

end Program

/-- A program without indirect jumps and breakpoints whose branches and jumps all go forward ends, whatever
the registers hold: its run makes at most one step more than the program has instructions. -/
theorem run_forward_ends [Evaluator] {a a' : Assembly} {program : Assoc Int Assembly.Step}
    (hsteps : Assembly.steps.effect a = (.ok program, a')) (hbase : 0 ≤ a.base)
    (hfits : a.base + 4 * program.length + 0x100000 ≤ 0x100000000)
    (hforward : ∀ e ∈ program, e.2.Forward) (hmemory : m.memory = (Memory.ofBase a.base).load program)
    (hentry : m.pc = .word m.memory.base) (hbudget : program.length < m.budget) :
    ∃ k r m', k ≤ program.length + 1 ∧ run.effect m = (r, m') ∧ (stepTimes k).effect m = (r, m') ∧
      k + m'.budget = m.budget ∧ Ended r m' := by
  have hends : ∃ k r m', k ≤ program.length + 1 ∧ EndsWith m k r m' := by
    cases hhalted : m.halted with
    | true => exact ⟨0, .ok (), m, Nat.zero_le _, .of_halted hhalted⟩
    | false =>
        obtain ⟨-, -, hconsecutive, -⟩ := Assembly.interpret_eq_ok (Assembly.steps_eq_ok hsteps)
        have hloaded (addr : Int) :
            m.memory.program.get? addr = (program.get? addr).map (Instr.ofStep addr) := by
          rw [hmemory]
          exact Memory.get?_load hconsecutive a.base addr
        have hpc : m.pc = .word (.ofInt .unsigned a.base) := by
          rw [hentry, hmemory]
          rfl
        have hvalue : m.pc.value = a.base := by
          rw [hpc]
          exact (Word.value_unsigned a.base).trans (Int.emod_eq_of_lt hbase (by omega))
        exact exists_endsWith hsteps hbase hfits hforward ⟨hloaded, hhalted, _, hpc⟩ hbudget (by omega)
  obtain ⟨k, r, m', hk, h⟩ := hends
  exact ⟨k, r, m', hk, h.run_effect, h.steps, h.spent, h.ended⟩

def skipping : Assembly :=
  { base := 0
    mnemonics := ["beq x5, x6, 8".toList, "addi x10, x0, 1".toList, "jal x1, 8".toList,
      "addi x10, x0, 2".toList, "ecall".toList] }

def skippingSteps : Assoc Int Assembly.Step :=
  [(0, ⟨"beq".toList, some [5, 6], some 8⟩), (4, ⟨"addi".toList, some [10, 0], some 1⟩),
    (8, ⟨"jal".toList, some [1], some 8⟩), (12, ⟨"addi".toList, some [10, 0], some 2⟩),
    (16, ⟨"ecall".toList, none, none⟩)]

def skippingMachine : Machine :=
  loaded 0 skippingSteps (.written [(5, .word ⟨.signed, 7⟩, false)]) [] 6

section RunForwardEndsSkipping

open scoped Evaluator.Arithmetic

theorem run_forward_ends_skipping :
    Assembly.steps.effect skipping = (.ok skippingSteps, skipping) ∧
    (∀ e ∈ skippingSteps, e.2.Forward) ∧
    ∃ m', run.effect skippingMachine = (.error .normalExit, m') ∧
      (stepTimes 4).effect skippingMachine = (.error .normalExit, m') ∧ m'.halted = true := by
  have hsteps : Assembly.steps.effect skipping = (.ok skippingSteps, skipping) :=
    Assembly.steps_of_lineCalls (by decide +kernel) rfl
  have hforward : ∀ e ∈ skippingSteps, e.2.Forward := by decide
  obtain ⟨k, r, m', -, hrun, htimes, hspent, hended⟩ := run_forward_ends (m := skippingMachine) hsteps
    (by decide) (by decide) hforward rfl rfl (by decide)
  obtain rfl : .error .normalExit = r := congrArg Prod.fst hrun
  have hleft : 2 = m'.budget := congrArg (fun out => out.2.budget) hrun
  have htotal : k + m'.budget = 6 := hspent
  obtain rfl : k = 4 := by omega
  refine ⟨hsteps, hforward, m', hrun, htimes, ?_⟩
  cases hended with
  | exited h => exact h
  | raised hf => cases hf

end RunForwardEndsSkipping

end Emulator

end RvToolkit
