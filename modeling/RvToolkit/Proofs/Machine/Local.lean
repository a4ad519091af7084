import RvToolkit.Proofs.Machine.RegisterStore
import RvToolkit.Proofs.Machine.Shapes

namespace RvToolkit

/-- Faults that stop a machine or go to whoever gave the command: no traps, no refused addresses and no
end of the whole run. -/
def Fault.isMinor : Fault → Bool
  | .normalExit | .debuggerRequested | .invalidAddress _ | .exit _ | .stepLimit => false
  | .foreign ordinary _ _ => ordinary
  | _ => true

theorem Fault.cases_of_isMinor {f : Fault} (h : f.isMinor = true) :
    f.isReported = false ∧ f.isOrdinary = true ∨ f.isReported = true ∧ ∃ t, f.report? = some t := by
  cases f with
  | normalExit | debuggerRequested | invalidAddress _ | exit _ | stepLimit => cases h
  | parse _ | unknownAssembly _ | unimplemented _ | invalidRegister _ | numberFormat _ =>
      exact .inr ⟨rfl, _, rfl⟩
  | foreign _ _ _ => exact .inl ⟨rfl, h⟩
  | _ => exact .inl ⟨rfl, rfl⟩

theorem Fault.isMinor_of_isOrdinary {f : Fault} (h : f.isOrdinary = true) : f.isMinor = true := by
  cases f with
  | normalExit | debuggerRequested | invalidAddress _ | exit _ | stepLimit => cases h
  | foreign _ _ _ => exact h
  | _ => rfl

theorem Register.isOrdinary_of_aliasOf {r : Int} {f : Fault} (h : aliasOf r = .error f) :
    f.isOrdinary = true := by
  unfold aliasOf at h
  split at h <;> cases h
  rfl

namespace Instr

variable {ins : Instr} {f : Fault}

theorem isOrdinary_of_render (h : ins.render = .error f) : f.isOrdinary = true := by
  unfold render at h
  split at h
  · cases h
  · split at h
    · cases h
      rfl
    · rcases Except.cases_of_bind_eq_error h with h | ⟨names, -, h⟩
      · obtain ⟨r, -, hr⟩ := Except.exists_of_mapM_eq_error h
        exact Register.isOrdinary_of_aliasOf hr
      · cases h

theorem isMinor_of_render (h : ins.render = .error f) : f.isMinor = true :=
  Fault.isMinor_of_isOrdinary (isOrdinary_of_render h)

theorem isMinor_of_expect {n : Nat} (h : ins.expect n = .error f) : f.isMinor = true := by
  unfold expect Check.length at h
  split at h
  · split at h <;> cases h
    rfl
  · cases h
    rfl
  · split at h <;> cases h
    rfl

theorem isMinor_of_reg {k : Int} (h : ins.reg k = .error f) : f.isMinor = true := by
  unfold reg at h
  split at h
  · cases h
    rfl
  · next regs _ =>
      dsimp only at h
      generalize (if k < 0 then k + (regs.length : Int) else k) = i at h
      split at h
      · cases h
        rfl
      · split at h <;> cases h
        rfl

theorem isMinor_of_offset (h : ins.offset = .error f) : f.isMinor = true := by
  unfold offset at h
  split at h
  · rcases Except.cases_of_bind_eq_error h with h | ⟨shown, -, h⟩
    · exact isMinor_of_render h
    · cases h
      rfl
  · cases h

theorem isMinor_of_present (h : Check.present ins.immValue = .error f) : f.isMinor = true := by
  unfold Check.present at h
  split at h <;> cases h
  rfl

end Instr

def Operation.trap? : Operation → Option Fault
  | .ebreak | .sbreak => some .debuggerRequested
  | .ecall => some .normalExit
  | _ => none

def Operation.isIndirect : Operation → Bool
  | .jalr | .ret => true
  | _ => false

def Operation.isRelative : Operation → Bool
  | .beq | .bne | .blt | .bge | .bltu | .bgeu | .j | .jal => true
  | _ => false

/-- The trap that an instruction raises, whose handler asks for no registers. -/
def Instr.trap? (ins : Instr) : Option Fault :=
  if (ins.expect 0).isOk then (Operation.ofName? ins.name).bind Operation.trap? else none

namespace Machine

open RvToolkit.Action

variable {α β : Type} {P : Fault → Prop} {Q : Address → Prop}

/-- The action works on registers and on the program counter, which it keeps within `Q`, and its faults
are among `P`. -/
inductive Local (P : Fault → Prop) (Q : Address → Prop) : {α : Type} → Action Machine α → Prop where
  | ofExcept {α : Type} {r : Except Fault α} (h : ∀ f, r = .error f → P f) : Local P Q (Action.ofExcept r)
  | note (l : Level) (t : Text) : Local P Q (Action.note l t)
  | onRegs {α : Type} {x : Action RegisterFile α} (h : ∀ rf f, (x.effect rf).1 = .error f → P f) :
      Local P Q (Machine.onRegs x)
  | goto {g : Address → Address} (hg : ∀ a, Q a → Q (g a)) : Local P Q (Action.modify fun m => { m with pc := g m.pc })
  | here {α : Type} {f : Address → Action Machine α} (h : ∀ pc, Local P Q (f pc)) :
      Local P Q (Action.get >>= fun m => f m.pc)
  | bind {α β : Type} {x : Action Machine α} {f : α → Action Machine β} (hx : Local P Q x)
      (hf : ∀ a, Local P Q (f a)) : Local P Q (x >>= f)
  | handle {α : Type} {x : Action Machine α} {h : Fault → Action Machine α} (hx : Local P Q x)
      (hh : ∀ f, P f → Local P Q (h f)) : Local P Q (Action.handle x h)

/-- A machine without what an instruction works on. -/
def chassis (m : Machine) : Machine := { m with regs := {}, pc := .plain 0 }

theorem Local.keeps {x : Action Machine α} (hx : Local P Q x) : Keeps chassis P x := by
  induction hx with
  | ofExcept h => exact keeps_ofExcept h
  | note l t => exact keeps_note l t
  | onRegs h => exact fun m => ⟨rfl, h m.regs⟩
  | goto _ => exact keeps_modify fun _ => rfl
  | here _ ih => exact keeps_get.bind fun m => ih m.pc
  | bind _ _ ihx ihf => exact ihx.bind ihf
  | handle _ _ ihx ihh => exact ihx.handle ihh

theorem Local.counter {x : Action Machine α} (hx : Local P Q x) {m : Machine} (hm : Q m.pc) :
    Q (x.effect m).2.pc := by
  induction hx generalizing m with
  | ofExcept _ | note | onRegs _ => exact hm
  | goto hg => exact hg m.pc hm
  | here _ ih => exact ih m.pc hm
  | @bind _ _ x f _ _ ihx ihf =>
      have hx := ihx hm
      rw [effect_bind]
      generalize x.effect m = out at hx
      obtain ⟨e | a, m'⟩ := out
      · exact hx
      · exact ihf a hx
  | @handle _ x h hlocal _ ihx ihh =>
      have hx := ihx hm
      have hfault := (hlocal.keeps m).2
      rw [effect_handle]
      generalize x.effect m = out at hx hfault
      obtain ⟨e | a, m'⟩ := out
      · exact ihh e (hfault e rfl) hx
      · exact hx

theorem local_pure (a : α) : Local P Q (pure a) := .ofExcept (r := .ok a) fun _ h => by cases h

theorem local_fail {f : Fault} (hf : P f) : Local P Q (fail f : Action Machine α) :=
  .ofExcept (r := .error f) fun _ h => by cases h; exact hf

theorem local_setPc {pc : Address} (hpc : Q pc) : Local P Q (setPc pc) := .goto fun _ _ => hpc

theorem local_jump (hQ : ∀ a k, Q a → Q (a.add k)) (offset : Word) : Local P Q (jump offset) :=
  .goto fun pc => hQ pc (offset.value - 4)

section Operations

variable (hP : ∀ f, f.isMinor = true → P f) (ins : Instr)

include hP

theorem local_expect (n : Nat) : Local P Q (ofExcept (ins.expect n)) :=
  .ofExcept fun f h => hP f (Instr.isMinor_of_expect h)

theorem local_reg (k : Int) : Local P Q (ofExcept (ins.reg k)) :=
  .ofExcept fun f h => hP f (Instr.isMinor_of_reg h)

theorem local_offset : Local P Q (ofExcept ins.offset) :=
  .ofExcept fun f h => hP f (Instr.isMinor_of_offset h)

theorem local_getReg (r : Int) : Local P Q (getReg r) := by
  refine .onRegs fun rf f h => ?_
  have hname := (RegisterFile.keeps_read r true rf).2 f h
  exact hP f (Fault.isMinor_of_isOrdinary (Register.isOrdinary_of_aliasOf hname))

theorem local_setReg (r : Int) (w : Word) : Local P Q (setReg r w) := by
  refine .bind (.onRegs fun rf f h => ?_) fun _ => local_pure ()
  have hname := (RegisterFile.keeps_write r w true rf).2 f h
  exact hP f (Fault.isMinor_of_isOrdinary (Register.isOrdinary_of_aliasOf hname))

theorem local_threeRegs (s : Signedness) : Local P Q (threeRegs ins s) := by
  refine .bind (local_expect hP ins 3) fun _ => .bind (local_reg hP ins 0) fun rd => ?_
  refine .bind (local_reg hP ins 1) fun rs1 => .bind (local_getReg hP rs1) fun a => ?_
  refine .bind (local_reg hP ins 2) fun rs2 => .bind (local_getReg hP rs2) fun b => ?_
  exact local_pure _

theorem local_twoRegsAndOffset : Local P Q (twoRegsAndOffset ins) := by
  refine .bind (local_reg hP ins 0) fun rd => .bind (local_reg hP ins 1) fun rs1 => ?_
  exact .bind (local_getReg hP rs1) fun a => .bind (local_offset hP ins) fun imm => local_pure _

theorem local_branch (hQ : ∀ a k, Q a → Q (a.add k)) (taken : Word → Word → Bool) :
    Local P Q (branch taken ins) := by
  have hoperands : Local P Q (branchOperands ins) := by
    refine .bind (local_reg hP ins 0) fun rs1 => .bind (local_getReg hP rs1) fun a => ?_
    refine .bind (local_reg hP ins 1) fun rs2 => .bind (local_getReg hP rs2) fun b => ?_
    exact .bind (local_offset hP ins) fun imm => local_pure _
  apply hoperands.bind
  rintro ⟨a, b, imm⟩
  dsimp only
  split
  · exact local_jump hQ _
  · exact local_pure ()

theorem local_loadOperands : Local P Q (loadOperands ins) := by
  refine .bind (local_expect hP ins 2) fun _ => .bind (local_reg hP ins 0) fun rd => ?_
  exact .bind (local_offset hP ins) fun imm => local_pure _

theorem local_shift (f : Word → Nat → Word) : Local P Q (shift f ins) := by
  refine .bind (local_expect hP ins 3) fun _ => .bind (local_reg hP ins 0) fun rd => ?_
  refine .bind (local_reg hP ins 1) fun rs1 => .bind (local_reg hP ins 2) fun rs2 => ?_
  refine .bind (local_getReg hP rs1) fun a => .bind (local_getReg hP rs2) fun b => ?_
  exact local_setReg hP _ _

theorem local_shiftImm (f : Word → Nat → Word) : Local P Q (shiftImm f ins) := by
  refine .bind (local_expect hP ins 3) fun _ => .bind (local_reg hP ins 0) fun rd => ?_
  refine .bind (local_reg hP ins 1) fun rs1 => .bind (local_offset hP ins) fun imm => ?_
  exact .bind (local_getReg hP rs1) fun a => local_setReg hP _ _

theorem local_announce (what : Text) {trap : Fault} (htrap : (ins.expect 0).isOk = true → P trap) :
    Local P Q (announce what ins trap) := by
  cases hexpect : ins.expect 0 with
  | error f =>
      have hfail : announce what ins trap = Action.fail f := by
        unfold announce
        rw [hexpect]
        rfl
      rw [hfail]
      exact local_fail (hP f (Instr.isMinor_of_expect hexpect))
  | ok u =>
      rw [hexpect] at htrap
      refine .bind (local_expect hP ins 0) fun _ => ?_
      refine .here (f := fun pc => do
        Action.note .info (Palette.paint Palette.debug (what ++ (pc.add (-4)).hex))
        Action.fail trap) fun pc => ?_
      exact .bind (.note _ _) fun _ => local_fail (htrap rfl)

theorem local_execute (o : Operation) (hQ : o.isRelative = true → ∀ a k, Q a → Q (a.add k))
    (htrap : ∀ f, o.trap? = some f → (ins.expect 0).isOk = true → P f)
    (hplain : o.isIndirect = true → ∀ i, Q (.plain i)) : Local P Q (execute o ins) := by
  cases o with
  | sll | srl | sra => exact local_shift hP ins _
  | slli | srli => exact local_shiftImm hP ins _
  | add | sub | xor | or | and | slt | sltu =>
      exact .bind (local_threeRegs hP ins _) fun _ => local_setReg hP _ _
  | addi | xori | ori | andi | sltiu =>
      exact .bind (local_twoRegsAndOffset hP ins) fun _ => local_setReg hP _ _
  | slti => exact .bind (local_twoRegsAndOffset hP ins) fun _ => local_fail (hP _ rfl)
  | beq | bne | blt | bge | bltu | bgeu =>
      unfold execute
      exact local_branch hP ins (hQ rfl) _
  | lui | li | la => exact .bind (local_loadOperands hP ins) fun _ => local_setReg hP _ _
  | auipc =>
      refine .bind (local_loadOperands hP ins) fun x => ?_
      exact .here (f := fun pc => setReg x.1 ((x.2.shiftLeft 12).add pc.value)) fun pc => local_setReg hP _ _
  | mv =>
      refine .bind (local_expect hP ins 2) fun _ => .bind (local_reg hP ins 0) fun rd => ?_
      refine .bind (local_reg hP ins 1) fun rs => .bind (local_getReg hP rs) fun a => ?_
      exact local_setReg hP _ _
  | j => exact .bind (local_expect hP ins 1) fun _ => .bind (local_offset hP ins) fun imm => local_jump (hQ rfl) _
  | jal =>
      have hlink (rd : Int) : Local P Q (do
          let imm ← ofExcept ins.offset
          let m ← get
          setReg rd m.pc.toWord
          jump imm.alone) := by
        refine .bind (local_offset hP ins) fun imm => ?_
        refine .here (f := fun pc => do
          setReg rd pc.toWord
          jump imm.alone) fun pc => ?_
        exact .bind (local_setReg hP _ _) fun _ => local_jump (hQ rfl) _
      unfold execute
      dsimp only
      split
      · exact .bind (local_fail (hP _ rfl)) hlink
      · exact .bind (local_pure 1) hlink
      · exact .bind (local_expect hP ins 1) fun _ => .bind (local_reg hP ins 0) hlink
  | jalr =>
      refine .bind (local_expect hP ins 2) fun _ => ?_
      refine .bind (.ofExcept fun f h => hP f (Instr.isMinor_of_present h)) fun _ => ?_
      refine .bind (local_reg hP ins 0) fun rd => .bind (local_reg hP ins 1) fun base => ?_
      refine .bind (local_offset hP ins) fun imm => ?_
      refine .here (f := fun pc => do
        setReg rd pc.toWord.asSigned
        let a ← getReg base
        setPc (.plain (a.unsignedValue + imm.alone.value))) fun pc => ?_
      exact .bind (local_setReg hP _ _) fun _ => .bind (local_getReg hP _) fun a => local_setPc (hplain rfl _)
  | ret =>
      have hra : RegisterFile.isName "ra".toList = true := by decide
      refine .bind (local_expect hP ins 0) fun _ => .bind (.onRegs fun rf f h => ?_) fun a => local_setPc (hplain rfl _)
      rcases (RegisterFile.keeps_readNamed "ra".toList true rf).2 f h with hindex | ⟨r, hr⟩
      · exact absurd hindex (RegisterFile.index_ne_error hra f)
      · exact hP f (Fault.isMinor_of_isOrdinary (Register.isOrdinary_of_aliasOf hr))
  | ebreak | sbreak | ecall => exact local_announce hP ins _ (htrap _ rfl)
  | nop => exact local_expect hP ins 0

theorem local_perform
    (hQ : ∀ o, Operation.ofName? ins.name = some o → o.isRelative = true → ∀ a k, Q a → Q (a.add k))
    (htrap : ∀ f, ins.trap? = some f → P f)
    (hplain : ∀ o, Operation.ofName? ins.name = some o → o.isIndirect = true → ∀ i, Q (.plain i)) :
    Local P Q (perform ins) := by
  apply Local.handle
  · split
    · next o ho =>
        refine local_execute hP ins o (hQ o ho) (fun f hf hexpect => htrap f ?_) (hplain o ho)
        rw [Instr.trap?, if_pos hexpect, ho]
        exact hf
    · exact local_fail (hP _ rfl)
  · intro f hf
    unfold unknown
    split
    · refine .bind (.ofExcept fun f h => hP f (Instr.isMinor_of_render h)) fun shown => ?_
      exact local_fail (hP _ rfl)
    · exact local_fail hf

end Operations

section Traps

variable {m : Machine} {ins : Instr} {f : Fault}

theorem perform_of_trap (h : ins.trap? = some f)
    (m : Machine) : (perform ins).effect m = (.error f, m) := by
  unfold Instr.trap? at h
  split at h
  · next hexpect =>
      obtain ⟨o, ho, hf⟩ := Option.bind_eq_some_iff.mp h
      have hexpect0 : ins.expect 0 = .ok () := by
        cases hresult : ins.expect 0 with
        | error f => rw [hresult] at hexpect; cases hexpect
        | ok u => rfl
      have hannounce (what : Text) (trap : Fault) : (announce what ins trap).effect m = (.error trap, m) := by
        simp only [announce, effect_bind, effect_ofExcept, hexpect0, effect_get, effect_note, effect_fail]
      cases o with
      | ebreak | sbreak | ecall =>
          cases hf
          exact perform_of_error ho (hannounce _ _) rfl
      | _ => cases hf
  · cases h

def trap? (m : Machine) : Option Fault :=
  (m.memory.program.get? m.pc.value).bind fun ins => if ins.render.isOk then ins.trap? else none

theorem cycleOnce_missing (hget : m.memory.program.get? m.pc.value = none) :
    cycleOnce.effect m = (.error (.missingKey m.pc.toValue), { m with cycle := m.cycle + 1 }) := by
  simp only [cycleOnce, effect_bind, effect_modify, effect_get, onMemory, effect_within,
    Memory.fetch_effect, hget]

theorem cycleOnce_unshown (hget : m.memory.program.get? m.pc.value = some ins)
    (hshown : ins.render = .error f) :
    cycleOnce.effect m = (.error f, { m with cycle := m.cycle + 1 }) := by
  simp only [cycleOnce, effect_bind, effect_modify, effect_get, onMemory, effect_within,
    Memory.fetch_effect, hget, effect_ofExcept, hshown]

theorem cycleOnce_performs {shown : Text} (hget : m.memory.program.get? m.pc.value = some ins)
    (hshown : ins.render = .ok shown) : cycleOnce.effect m = (perform ins).effect m.advanced := by
  simp only [cycleOnce, effect_bind, effect_modify, effect_get, onMemory, effect_within,
    Memory.fetch_effect, hget, effect_ofExcept, hshown, effect_note, setPc]
  rfl

theorem cycleOnce_of_trap (h : m.trap? = some f) : cycleOnce.effect m = (.error f, m.advanced) := by
  obtain ⟨ins, hget, h⟩ := Option.bind_eq_some_iff.mp h
  cases hshown : ins.render with
  | error e => rw [hshown] at h; cases h
  | ok shown =>
      rw [hshown] at h
      rw [cycleOnce_performs hget hshown]
      exact perform_of_trap h _

/-- One cycle counts itself and leaves the rest of the machine alone; where there is no trap, its fault
is a minor one. -/
theorem cycleOnce_cases (m : Machine) :
    (cycleOnce.effect m).2.chassis = { m.chassis with cycle := m.cycle + 1 } ∧
      (m.trap? = none → ∀ f, (cycleOnce.effect m).1 = .error f → f.isMinor = true) := by
  cases hget : m.memory.program.get? m.pc.value with
  | none =>
      rw [cycleOnce_missing hget]
      refine ⟨rfl, fun _ f h => ?_⟩
      cases h
      rfl
  | some ins =>
      cases hshown : ins.render with
      | error e =>
          rw [cycleOnce_unshown hget hshown]
          refine ⟨rfl, fun _ f h => ?_⟩
          cases h
          exact Instr.isMinor_of_render hshown
      | ok shown =>
          have hlocal : Local (fun f => f.isMinor = true ∨ ins.trap? = some f) (fun _ => True) (perform ins) :=
            local_perform (fun f hf => .inl hf) ins (fun _ _ _ _ _ _ => trivial) (fun f hf => .inr hf)
              fun _ _ _ _ => trivial
          obtain ⟨hview, hfault⟩ := hlocal.keeps m.advanced
          rw [cycleOnce_performs hget hshown]
          refine ⟨hview, fun hnone f hf => (hfault f hf).resolve_right fun htrap => ?_⟩
          rw [trap?, hget, Option.bind_some, hshown, htrap] at hnone
          cases hnone

end Traps

end Machine

end RvToolkit
