import Mathlib.Logic.Relation
import RvToolkit.Proofs.Debugger.Commands
import RvToolkit.Proofs.Machine.Frame
import RvToolkit.Proofs.Word.Residue

namespace RvToolkit

namespace Action

open Relation

variable {σ α β : Type} {r : σ → σ → Prop} {x : Action σ α}

/-- Whatever comes of the action, the state it leaves is reached along `r`. -/
def Walks (r : σ → σ → Prop) (x : Action σ α) : Prop := ∀ s, ReflTransGen r s (x.effect s).2

theorem walks_pure (a : α) : Walks r (pure a) := fun _ => .refl

theorem walks_fail (f : Fault) : Walks r (fail f : Action σ α) := fun _ => .refl

theorem walks_note (l : Level) (t : Text) : Walks r (note l t) := fun _ => .refl

theorem walks_modify {f : σ → σ} (hf : ∀ s, r s (f s)) : Walks r (modify f) := fun s => .single (hf s)

theorem Walks.bind {f : α → Action σ β} (hx : Walks r x) (hf : ∀ a, Walks r (f a)) : Walks r (x >>= f) := by
  intro s
  have hs := hx s
  rw [effect_bind]
  generalize x.effect s = out at hs
  obtain ⟨e | a, s'⟩ := out
  · exact hs
  · exact hs.trans (hf a s')

theorem walks_get_bind {f : σ → Action σ β} (hf : ∀ s, ReflTransGen r s ((f s).effect s).2) :
    Walks r (get >>= f) := by
  intro s
  rw [effect_bind, effect_get]
  exact hf s

theorem walks_set_bind {s s' : σ} {f : Unit → Action σ β} (h : r s s') (hf : Walks r (f ())) :
    ReflTransGen r s ((set s' >>= f).effect s).2 := by
  rw [effect_bind, effect_set]
  exact .head h (hf s')

theorem Walks.ensure {f : σ → σ} (hx : Walks r x) (hf : ∀ s, r s (f s)) : Walks r (ensure x f) :=
  fun s => (hx s).tail (hf _)

theorem Walks.handle {h : Fault → Action σ α} (hx : Walks r x) (hh : ∀ f, Walks r (h f)) :
    Walks r (handle x h) := by
  intro s
  have hs := hx s
  rw [effect_handle]
  generalize x.effect s = out at hs
  obtain ⟨e | a, s'⟩ := out
  · exact hs.trans (hh e s')
  · exact hs

end Action

namespace Machine

open RvToolkit.Action Relation

variable {P : Machine → Prop} {Q : Address → Prop} {m m' : Machine}

/-- A cycle of a machine of which `P` holds, or something that concerns neither counter nor memory. -/
inductive Moves (P : Machine → Prop) (m : Machine) : Machine → Prop where
  | cycle (h : P m) : Moves P m (cycleOnce.effect m).2
  | aside {m' : Machine} (hpc : m'.pc = m.pc) (hmemory : m'.memory = m.memory) : Moves P m m'

abbrev Passes (P : Machine → Prop) : Machine → Machine → Prop := ReflTransGen (Moves P)

/-- The machine comes to stand there, on whatever way. -/
abbrev Visits : Machine → Machine → Prop := Passes fun _ => True

section Walks

theorem walks_halt : Walks (Moves P) halt := walks_modify fun _ => .aside rfl rfl

theorem walks_spend : Walks (Moves P) spend := by
  refine walks_get_bind fun m => ?_
  split
  · exact walks_fail _ m
  · exact .single (.aside rfl rfl)

theorem walks_settle (f : Fault) : Walks (Moves P) (settle f) := by
  unfold settle
  split
  · refine walks_get_bind fun m => ?_
    split
    · exact walks_fail _ m
    · exact (walks_note _ _).bind (fun _ => walks_pure true) m
  · exact (walks_note _ _).bind fun _ => walks_halt.bind fun _ => walks_fail _
  · split
    · refine (walks_note _ _).bind fun _ => (walks_note _ _).bind fun _ => ?_
      exact walks_halt.bind fun _ => walks_pure false
    · exact walks_fail _

theorem walks_stepOrBreak : Walks (Moves fun _ => True) stepOrBreak := by
  have hcycle : Walks (Moves fun _ => True) cycleOnce := fun _ => .single (.cycle trivial)
  exact walks_spend.bind fun _ => (hcycle.bind fun _ => walks_pure false).handle walks_settle

theorem walks_runWith {step : Action Machine Unit} (hstep : Walks (Moves P) step) :
    Walks (Moves P) (runWith step) := by
  have hrounds (n : Nat) : Walks (Moves P) (untilHalted step n) := by
    induction n with
    | zero => exact walks_fail _
    | succ n ih =>
        refine walks_get_bind fun m => ?_
        split
        · exact walks_note _ _ m
        · exact hstep.bind (fun _ => ih) m
  exact walks_get_bind fun m => hrounds _ m

end Walks

end Machine

namespace Debugger

open RvToolkit.Action Machine

theorem walks_of_keeps {α : Type} {P : Machine → Prop} {F : Fault → Prop} {x : Action Machine α}
    (hx : Keeps unmarked F x) : Walks (Moves P) x := by
  intro m
  have hpc := congrArg Machine.pc (hx m).1
  have hmemory := congrArg Machine.memory (hx m).1
  exact .single (.aside hpc hmemory)

theorem walks_leave {P : Machine → Prop} : Walks (Moves P) leave :=
  (walks_note _ _).bind fun _ => walks_halt.bind fun _ => walks_fail _

theorem walks_stepInside : Walks (Moves fun _ => True) stepInside :=
  walks_stepOrBreak.bind fun _ => walks_pure ()

theorem walks_runWords (ws : List Text) : Walks (Moves fun _ => True) (runWords ws) := by
  by_cases hstep : ws = ["n".toList]
  · subst hstep
    refine walks_stepInside.handle fun f => ?_
    split
    · exact walks_leave
    · exact walks_fail _
  · by_cases hcontinue : ws = ["c".toList]
    · subst hcontinue
      refine (walks_runWith walks_stepInside).handle fun f => ?_
      split
      · exact walks_note _ _
      · exact walks_leave
      · exact walks_fail _
    · exact walks_of_keeps (keeps_runWords hcontinue hstep)

theorem walks_runLine (l : Text) : Walks (Moves fun _ => True) (runLine l) := by
  refine Walks.handle ?_ fun f => ?_
  · split
    · exact walks_fail _
    · exact walks_runWords _
  · split
    · exact walks_note _ _
    · exact walks_fail _

theorem walks_runLines (ls : List Text) : Walks (Moves fun _ => True) (runLines ls) := by
  induction ls with
  | nil => exact walks_pure ()
  | cons l ls ih =>
      have hinput : Walks (Moves fun _ => True) (modify fun m : Machine => { m with input := ls }) :=
        walks_modify fun _ => .aside rfl rfl
      exact hinput.bind fun _ => (walks_runLine l).bind fun _ => ih

theorem walks_session : Walks (Moves fun _ => True) session := by
  refine walks_get_bind fun m => ?_
  split
  · exact walks_pure () m
  · refine walks_set_bind (.aside rfl rfl) (Walks.ensure ?_ fun _ => .aside rfl rfl)
    refine (walks_of_keeps (keeps_help (P := fun _ => True))).bind fun _ => (walks_runLines _).handle fun f => ?_
    split
    · exact walks_pure ()
    · split <;> exact walks_fail _

end Debugger

theorem Emulator.walks_step : Action.Walks (Machine.Moves fun _ => True) step := by
  refine Machine.walks_stepOrBreak.bind fun breaks => ?_
  split
  · exact Debugger.walks_session
  · exact Action.walks_pure ()

namespace Address

/-- An unsigned word, as the counter of a program is at its start. -/
def IsWord (a : Address) : Prop := ∃ b : BitVec 32, a = .word ⟨.unsigned, b⟩

variable {a : Address}

theorem IsWord.add (h : a.IsWord) (k : Int) : (a.add k).IsWord := by
  obtain ⟨b, rfl⟩ := h
  exact ⟨_, rfl⟩

theorem IsWord.value_bounds (h : a.IsWord) : 0 ≤ a.value ∧ a.value < 0x100000000 := by
  obtain ⟨b, rfl⟩ := h
  exact ⟨Int.natCast_nonneg _, Int.ofNat_lt.mpr b.isLt⟩

end Address

namespace Machine

open RvToolkit.Action Relation

variable {P : Machine → Prop} {Q : Address → Prop} {m m' m₀ : Machine} {a b : Nat} {imm key : Int}

/-- The machine stands before an indirect jump between registers that exist. -/
def Jumps (m : Machine) : Prop :=
  ∃ key a b imm, m.memory.program.get? m.pc.value =
    some (.ofStep key ⟨"jalr".toList, some [a, b], some imm⟩) ∧ a < 32 ∧ b < 32

theorem jalr_of_isIndirect {op : Text} {operands : Operands} {o : Operation}
    (h : Instruction.Form op operands) (ho : Operation.ofName? op = some o)
    (hindirect : o.isIndirect = true) :
    op = "jalr".toList ∧ ∃ a b imm, operands = ⟨some [a, b], some imm⟩ := by
  have hany : (Operation.ofName? op).any Operation.isIndirect = true := by rw [ho]; exact hindirect
  have hdirect : ∀ f ∈ [Format.R, .S, .B, .U, .J], ∀ p ∈ Code.table f,
      (Operation.ofName? p.1).any Operation.isIndirect = false := by decide
  have himmediate : ∀ p ∈ Code.table .I, (Operation.ofName? p.1).any Operation.isIndirect = true →
      p.1 = "jalr".toList := by decide
  cases h with
  | immediate hop _ => exact ⟨himmediate _ hop hany, _, _, _, rfl⟩
  | system hsystem =>
      obtain rfl | rfl := Instruction.eq_of_systemNumber? hsystem <;> cases hany
  | register hop | store hop | branch hop | upper hop | jump hop =>
      have hfalse := hdirect _ (by decide) _ hop
      rw [hany] at hfalse
      cases hfalse

theorem counter_cycleOnce [Evaluator] (hQ : ∀ a k, Q a → Q (a.add k)) (hmem : m.memory.Assembled)
    (hjumps : Jumps m → ∀ i, Q (.plain i)) (hm : Q m.pc) : Q (cycleOnce.effect m).2.pc := by
  cases hget : m.memory.program.get? m.pc.value with
  | none => rwa [cycleOnce_missing hget]
  | some ins =>
      cases hshown : ins.render with
      | error f => rwa [cycleOnce_unshown hget hshown]
      | ok shown =>
          obtain ⟨key, step, rfl, hform⟩ := hmem.exists_ofStep hget
          have hlocal : Local (fun _ => True) Q (perform (.ofStep key step)) := by
            refine local_perform (fun _ _ => trivial) _ (fun _ _ _ => hQ) (fun _ _ => trivial)
              fun o ho hindirect => hjumps ?_
            obtain ⟨op, operands⟩ := step
            obtain ⟨rfl, a, b, imm, rfl⟩ := jalr_of_isIndirect hform ho hindirect
            have hregs := Instr.registers_of_render hshown
            obtain ⟨ha, hb⟩ : a < 32 ∧ b < 32 := by simpa [Reference.Registers] using hregs
            exact ⟨key, a, b, imm, hget, ha, hb⟩
          rw [cycleOnce_performs hget hshown]
          exact hlocal.counter (hQ m.pc 4 hm)

theorem Moves.memory (h : Moves P m m') : m'.memory = m.memory := by
  cases h with
  | cycle _ =>
      have hchassis := congrArg Machine.memory (cycleOnce_cases m).1
      exact hchassis
  | aside _ hmemory => exact hmemory

theorem Passes.memory (h : Passes P m m') : m'.memory = m.memory := by
  induction h with
  | refl => rfl
  | tail _ hmove ih => exact hmove.memory.trans ih

theorem Passes.counter [Evaluator] (hQ : ∀ a k, Q a → Q (a.add k))
    (hP : ∀ m, P m → Jumps m → ∀ i, Q (.plain i))
    (h : Passes P m m') (hmem : m.memory.Assembled) (hm : Q m.pc) : Q m'.pc := by
  induction h with
  | refl => exact hm
  | tail hpass hmove ih =>
      cases hmove with
      | cycle hp => exact counter_cycleOnce hQ (Passes.memory hpass ▸ hmem) (hP _ hp) ih
      | aside hpc _ => rwa [hpc]

theorem Visits.cases (h : Visits m₀ m) : Passes (¬ Jumps ·) m₀ m ∨
    ∃ m₁, Visits m₀ m₁ ∧ Jumps m₁ ∧ Passes (¬ Jumps ·) (cycleOnce.effect m₁).2 m := by
  induction h with
  | refl => exact .inl .refl
  | @tail m m' hvisits hmove ih =>
      cases hmove with
      | cycle _ =>
          by_cases hjumps : Jumps m
          · exact .inr ⟨m, hvisits, hjumps, .refl⟩
          · rcases ih with hpass | ⟨m₁, h₁, hjumps₁, hpass⟩
            · exact .inl (hpass.tail (.cycle hjumps))
            · exact .inr ⟨m₁, h₁, hjumps₁, hpass.tail (.cycle hjumps)⟩
      | aside hpc hmemory =>
          rcases ih with hpass | ⟨m₁, h₁, hjumps₁, hpass⟩
          · exact .inl (hpass.tail (.aside hpc hmemory))
          · exact .inr ⟨m₁, h₁, hjumps₁, hpass.tail (.aside hpc hmemory)⟩

/-- The address after the instruction, as a register holds it. -/
def link (m : Machine) : BitVec 32 := .ofInt 32 (m.pc.value + 4)

/-- What an indirect jump adds its offset to. The link has been written by then, so it takes the place of
the old content where one register serves for both. -/
def jumpBase (m : Machine) (a b : Nat) : BitVec 32 :=
  if a ≠ 0 ∧ b = a then m.link else (m.regs.content b).bits

/-- The target that the instruction set gives: the sum modulo `2 ^ 32`, its lowest bit cleared. -/
def jumpTarget (base : BitVec 32) (offset : Int) : Int :=
  ((base.toNat : Int) + offset) % 0x100000000 - ((base.toNat : Int) + offset) % 2

theorem cycleOnce_jalr (hget : m.memory.program.get? m.pc.value =
      some (.ofStep key ⟨"jalr".toList, some [a, b], some imm⟩)) (ha : a < 32) (hb : b < 32) :
    cycleOnce.effect m = (.ok (), { (m.advanced.writing a ⟨.unsigned, m.link⟩).reading b with
      pc := .plain ((m.jumpBase a b).toNat + (BitVec.ofInt 32 imm).toInt) }) := by
  have hbound : ∀ r ∈ [a, b], r < 32 := by simpa using ⟨ha, hb⟩
  obtain ⟨shown, hshown⟩ := Instr.exists_render_of_regs "jalr".toList hbound (some imm) key
  have hlink : m.advanced.pc.toWord = ⟨.unsigned, m.link⟩ :=
    congrArg (Word.mk .unsigned) (m.pc.ofInt_value_add 4)
  have hbase : ((m.advanced.writing a ⟨.unsigned, m.link⟩).regs.content b).unsignedValue =
      (m.jumpBase a b).toNat := by
    rw [writing_content, jumpBase]
    split <;> rfl
  rw [cycleOnce_performs hget hshown, perform_of_ok rfl (jalr_effect rfl rfl ha hb m.advanced), hlink, hbase]

theorem jumpTarget_eq_iff (old base : BitVec 32) (offset : Int) :
    (base.toNat : Int) + offset = jumpTarget old offset ↔
      0 ≤ (base.toNat : Int) + offset ∧ (base.toNat : Int) + offset < 0x100000000 ∧
        ((base.toNat : Int) + offset) % 2 = 0 ∧ (old = base ∨ old = base + 1) := by
  have hbase := base.isLt
  have hold := old.isLt
  have hsucc : (base + 1).toNat = (base.toNat + 1) % 0x100000000 := BitVec.toNat_add base 1
  rw [← BitVec.toNat_inj, ← BitVec.toNat_inj, hsucc]
  unfold jumpTarget
  omega

theorem toInt_imm_of_jalr [Evaluator] (hmem : m.memory.Assembled) (hget : m.memory.program.get? m.pc.value =
      some (.ofStep key ⟨"jalr".toList, some [a, b], some imm⟩)) : (BitVec.ofInt 32 imm).toInt = imm := by
  obtain ⟨key', step, f, args, e, hins, hformat, hencode, hoperands⟩ := hmem.exists_encodeWith hget
  obtain ⟨op, operands⟩ := step
  obtain rfl : op = "jalr".toList := (congrArg Instr.name hins).symm
  obtain rfl : Format.I = f := Option.some.inj hformat
  obtain ⟨_, _, _, _, _, _, -, -, -, -, hshape⟩ := Instruction.encodeI_eq_ok rfl hencode
  obtain ⟨hshift, -⟩ | ⟨-, v, -, rfl⟩ := hshape
  · cases hshift
  · have himm : some imm = some (Immediate.wrap 12 v) :=
      (congrArg Instr.imm hins).trans (congrArg Operands.imm hoperands)
    obtain ⟨-, hlow, hhigh⟩ := Instruction.representative_wrap (by decide : 0 < 12) v
    rw [Option.some.inj himm, BitVec.toInt_ofInt]
    apply Int.bmod_eq_of_le <;> omega

end Machine

namespace Emulator

open Machine

variable {m₀ m : Machine}

/-- Wherever a loaded program comes, an indirect jump writes the link and goes to the plain sum of its
base and offset. That is the target of the instruction set exactly if the sum is an even number below
`2 ^ 32` and the base is the old content of the register or one less. Until the first such jump the counter
is below `2 ^ 32`; after it the counter no longer wraps. -/
theorem step_jalr_visited [Evaluator] (hmem : m₀.memory.Assembled) (hstart : m₀.pc.IsWord)
    (hm : Visits m₀ m) :
    Visits m₀ (step.effect m).2 ∧ Visits m₀ (run.effect m).2 ∧
    (Passes (¬ Jumps ·) m₀ m ∧ 0 ≤ m.pc.value ∧ m.pc.value < 0x100000000 ∨
      ∃ m₁ i, Visits m₀ m₁ ∧ Jumps m₁ ∧ Passes (¬ Jumps ·) (cycleOnce.effect m₁).2 m ∧ m.pc = .plain i) ∧
    ∀ key a b imm, m.memory.program.get? m.pc.value =
        some (.ofStep key ⟨"jalr".toList, some [a, b], some imm⟩) → a < 32 → b < 32 → m.budget ≠ 0 →
      ∃ m', step.effect m = (.ok (), m') ∧
        (∀ r : Nat, (m'.regs.content r).bits = if a ≠ 0 ∧ r = a then m.link else (m.regs.content r).bits) ∧
        m'.pc = .plain ((m.jumpBase a b).toNat + imm) ∧
        (m'.pc.value = jumpTarget (m.regs.content b).bits imm ↔
          0 ≤ m'.pc.value ∧ m'.pc.value < 0x100000000 ∧ m'.pc.value % 2 = 0 ∧
            ((m.regs.content b).bits = m.jumpBase a b ∨ (m.regs.content b).bits = m.jumpBase a b + 1)) := by
  have hassembled : m.memory.Assembled := Passes.memory hm ▸ hmem
  refine ⟨hm.trans (walks_step m), hm.trans (walks_runWith walks_step m), ?_, ?_⟩
  · rcases Visits.cases hm with hpass | ⟨m₁, h₁, hjumps, hpass⟩
    · have hword := Passes.counter (Q := Address.IsWord) (fun a k h => h.add k)
        (fun m hnot hjumps => absurd hjumps hnot) hpass hmem hstart
      exact .inl ⟨hpass, hword.value_bounds⟩
    · have hmem₁ : (cycleOnce.effect m₁).2.memory.Assembled := by
        rw [Moves.memory (.cycle (P := fun _ => True) trivial), Passes.memory h₁]
        exact hmem
      have hplain : ∃ i, m.pc = .plain i := by
        refine Passes.counter (Q := fun a => ∃ i, a = .plain i) ?_ ?_ hpass hmem₁ ?_
        · rintro a k ⟨i, rfl⟩
          exact ⟨i + k, rfl⟩
        · exact fun _ _ _ i => ⟨i, rfl⟩
        · obtain ⟨key, a, b, imm, hget, ha, hb⟩ := hjumps
          rw [cycleOnce_jalr hget ha hb]
          exact ⟨_, rfl⟩
      obtain ⟨i, hi⟩ := hplain
      exact .inr ⟨m₁, i, h₁, hjumps, hpass, hi⟩
  · intro key a b imm hget ha hb hbudget
    obtain ⟨n, hn⟩ := Nat.exists_eq_succ_of_ne_zero hbudget
    have hcycle := cycleOnce_jalr (m := { m with budget := n }) hget ha hb
    rw [toInt_imm_of_jalr hassembled hget] at hcycle
    refine ⟨_, step_of_ok hn hcycle, ?_, rfl, ?_⟩
    · intro r
      rw [reading_content, writing_content]
      split <;> rfl
    · exact jumpTarget_eq_iff _ _ imm

def selfJump : Assembly := { base := 0, mnemonics := ["jalr x1, x1, -5".toList] }

def selfJumpSteps : Assoc Int Assembly.Step := [(0, ⟨"jalr".toList, some [1, 1], some (-5)⟩)]

def selfJumpMachine : Machine := started (loaded 0 selfJumpSteps (.written [(1, .word ⟨.signed, 16⟩, false)]) [] 1)

section StepJalrSelfJump

open scoped Evaluator.Arithmetic

theorem step_jalr_selfJump :
    Assembly.steps.effect selfJump = (.ok selfJumpSteps, selfJump) ∧
    ∃ m', step.effect selfJumpMachine = (.ok (), m') ∧ (m'.regs.content 1).bits = 4 ∧
      m'.pc = .plain (-1) ∧ jumpTarget (selfJumpMachine.regs.content 1).bits (-5) = 10 ∧
      m'.pc.value ≠ jumpTarget (selfJumpMachine.regs.content 1).bits (-5) := by
  have hsteps : Assembly.steps.effect selfJump = (.ok selfJumpSteps, selfJump) :=
    Assembly.steps_of_lineCalls (by decide +kernel) rfl
  have hmem : selfJumpMachine.memory.Assembled := .load (.empty _) hsteps
  obtain ⟨-, -, -, hjump⟩ := step_jalr_visited hmem ⟨0, rfl⟩ .refl
  obtain ⟨m', hstep, hregs, hpc, htarget⟩ := hjump 0 1 1 (-5) rfl (by decide) (by decide) (by decide)
  refine ⟨hsteps, m', hstep, ?_, hpc, rfl, fun h => ?_⟩
  · exact (hregs 1).trans rfl
  · have hbounds := htarget.mp h
    rw [hpc] at hbounds
    exact absurd hbounds.1 (by decide)

end StepJalrSelfJump

end Emulator

end RvToolkit
