import RvToolkit.Proofs.Assembly.Link
import RvToolkit.Proofs.Assembly.Relocation
import RvToolkit.Proofs.Machine.Local
import RvToolkit.Proofs.Machine.Runs

namespace RvToolkit

namespace Memory

/-- Memory into which nothing has been loaded but programs of the assembler. -/
inductive Assembled [Evaluator] : Memory → Prop where
  | empty (base : Word) : Assembled ⟨base, [], none⟩
  | load {mem : Memory} {a a' : Assembly} {steps : Assoc Int Assembly.Step} (hmem : Assembled mem)
      (hsteps : Assembly.steps.effect a = (.ok steps, a')) : Assembled (mem.load steps)

theorem mem_or_get?_of_foldl_loadStep {steps : Assoc Int Assembly.Step} {program : Assoc Int Instr}
    {addr : Int} {ins : Instr} (h : (steps.foldl loadStep program).get? addr = some ins) :
    (∃ e ∈ steps, ins = .ofStep e.1 e.2) ∨ program.get? addr = some ins := by
  induction steps generalizing program with
  | nil => exact .inr h
  | cons e steps ih =>
      rcases ih h with ⟨e', he', rfl⟩ | h
      · exact .inl ⟨e', List.mem_cons_of_mem e he', rfl⟩
      · by_cases haddr : addr = e.1
        · rw [loadStep, haddr, Assoc.get?_insert_self] at h
          exact .inl ⟨e, List.mem_cons_self, (Option.some.inj h).symm⟩
        · rw [loadStep, Assoc.get?_insert_of_ne haddr] at h
          exact .inr h

end Memory

theorem Assembly.exists_encodeWith_of_mem_steps [Evaluator] {a a' : Assembly} {ss : Assoc Int Step}
    (h : steps.effect a = (.ok ss, a')) {entry : Int × Step} (hentry : entry ∈ ss) :
    ∃ f args e, Isa.base.format? entry.2.op = some f ∧ Instruction.encodeWith f entry.2.op args = .ok e ∧
      entry.2.operands = e.operands := by
  obtain ⟨-, hlength, -, hlines⟩ := interpret_eq_ok (steps_eq_ok h)
  obtain ⟨k, hk, rfl⟩ := List.getElem_of_mem hentry
  obtain ⟨op, e, hline, hget⟩ := hlines k _ (List.getElem?_eq_getElem (hlength ▸ hk))
  obtain ⟨args, resolved, f, -, -, hformat, hencode⟩ := lineCall_eq_ok.mp hline
  rw [List.getElem?_eq_getElem hk, Option.some.injEq] at hget
  rw [hget]
  exact ⟨f, _, e, hformat, hencode, rfl⟩

namespace Memory.Assembled

variable {mem : Memory} {addr : Int} {ins : Instr}

theorem exists_encodeWith [Evaluator] (h : mem.Assembled) (hget : mem.program.get? addr = some ins) :
    ∃ key step f args e, ins = .ofStep key step ∧ Isa.base.format? step.op = some f ∧
      Instruction.encodeWith f step.op args = .ok e ∧ step.operands = e.operands := by
  induction h with
  | empty base => cases hget
  | load hmem hsteps ih =>
      rcases mem_or_get?_of_foldl_loadStep hget with ⟨entry, hentry, rfl⟩ | hget
      · obtain ⟨f, args, e, hencoded⟩ := Assembly.exists_encodeWith_of_mem_steps hsteps hentry
        exact ⟨entry.1, entry.2, f, args, e, rfl, hencoded⟩
      · exact ih hget

theorem exists_ofStep [Evaluator] (h : mem.Assembled) (hget : mem.program.get? addr = some ins) :
    ∃ key step, ins = .ofStep key step ∧ Instruction.Form step.op step.operands := by
  obtain ⟨key, step, f, args, e, rfl, -, hencode, hoperands⟩ := h.exists_encodeWith hget
  exact ⟨key, step, rfl, hoperands ▸ Instruction.form_of_encodeWith hencode⟩

end Memory.Assembled

theorem Register.lt_of_aliasOf {r : Nat} {name : Text} (h : aliasOf r = .ok name) : r < 32 := by
  have hbound : ∀ p ∈ aliases.reverse, p.2 < 32 := by decide
  unfold aliasOf at h
  split at h
  · next p hfind =>
      have hp : (p.2 : Int) = r := by simpa using List.find?_some hfind
      have hlt := hbound p (List.mem_of_find?_eq_some hfind)
      omega
  · cases h

namespace Instr

variable {regs : List Nat}

theorem lt_of_mapM_aliasOf {names : List Text}
    (h : (regs.map Int.ofNat).mapM Register.aliasOf = .ok names) : ∀ r ∈ regs, r < 32 := by
  induction regs generalizing names with
  | nil => exact List.forall_mem_nil _
  | cons r regs ih =>
      rw [List.map_cons, List.mapM_cons] at h
      obtain ⟨name, hname, h⟩ := Except.bind_eq_ok.mp h
      obtain ⟨rest, hrest, -⟩ := Except.bind_eq_ok.mp h
      rw [List.forall_mem_cons]
      exact ⟨Register.lt_of_aliasOf hname, ih hrest⟩

theorem registers_of_render {key : Int} {step : Assembly.Step} {shown : Text}
    (h : (ofStep key step).render = .ok shown) : Reference.Registers step := by
  obtain ⟨op, _ | regs, imm⟩ := step
  · exact List.forall_mem_nil _
  · unfold render at h
    split at h
    · next hempty =>
        obtain rfl : regs = [] := by simpa [ofStep] using hempty.1
        exact List.forall_mem_nil _
    · obtain ⟨names, hnames, -⟩ := Except.bind_eq_ok.mp h
      exact lt_of_mapM_aliasOf hnames

theorem ne_of_render {ins : Instr} {f : Fault} (h : ins.render = .error f) : f ≠ .debuggerRequested := by
  rintro rfl
  cases isMinor_of_render h

end Instr

namespace Machine

variable {m m' : Machine} {ins : Instr} {rd : Option Int} {r a b d : Nat} {w : Word} {imm : Int}

/-- No register has changed but `rd`, and that only if it is not register zero. -/
structure Framed (rd : Option Int) (m m' : Machine) : Prop where
  memory : m'.memory = m.memory
  cycle : m'.cycle = m.cycle
  halted : m'.halted = m.halted
  debugging : m'.debugging = m.debugging
  content : ∀ i, rd ≠ some i ∨ i = 0 → m'.regs.content i = m.regs.content i

namespace Framed

theorem refl (m : Machine) : Framed rd m m := ⟨rfl, rfl, rfl, rfl, fun _ _ => rfl⟩

theorem reading (h : Framed rd m m') (r : Nat) : Framed rd m (m'.reading r) :=
  ⟨h.memory, h.cycle, h.halted, h.debugging, h.content⟩

theorem goto (h : Framed rd m m') (pc : Address) : Framed rd m { m' with pc := pc } :=
  ⟨h.memory, h.cycle, h.halted, h.debugging, h.content⟩

theorem writing (h : Framed (some (r : Int)) m m')
    (w : Word) : Framed (some (r : Int)) m (m'.writing r w) := by
  unfold Machine.writing
  by_cases h0 : r = 0
  · rw [if_pos h0]
    exact h
  · rw [if_neg h0]
    refine ⟨h.memory, h.cycle, h.halted, h.debugging, ?_⟩
    intro i hi
    have hne : i ≠ r := by
      rcases hi with hi | rfl
      · exact fun heq => hi (congrArg some heq.symm)
      · omega
    refine Eq.trans ?_ (h.content i hi)
    change RegisterFile.content { m'.regs with cells := m'.regs.cells.insert r w.asSigned } i = _
    rw [RegisterFile.content_insert, if_neg hne]

end Framed

/-- What carrying out an instruction leaves. One that fails has changed no register and stays where it
is, and only a breakpoint asks for a debugging session. -/
inductive Leaves (ins : Instr) (m : Machine) : Except Fault Unit × Machine → Prop where
  | ended {m' : Machine} (h : Framed (ins.regs.getD []).head? m m') : Leaves ins m (.ok (), m')
  | failed {m' : Machine} {f : Fault} (hf : f = .debuggerRequested → ins.name = "ebreak".toList)
      (h : Framed none m m') (hpc : m'.pc = m.pc) : Leaves ins m (.error f, m')

theorem leaves_unknown {shown : Text} (hname : Operation.ofName? ins.name = none)
    (hshown : ins.render = .ok shown) : Leaves ins m ((perform ins).effect m) := by
  rw [perform_of_unknown hname hshown]
  exact .failed (by simp) (.refl m) rfl

theorem Leaves.of_ok {o : Operation} (ho : Operation.ofName? ins.name = some o)
    (h : (execute o ins).effect m = (.ok (), m')) (hframed : Framed (ins.regs.getD []).head? m m') :
    Leaves ins m ((perform ins).effect m) := by
  rw [perform_of_ok ho h]
  exact .ended hframed

theorem Leaves.of_error {o : Operation} {f : Fault} (ho : Operation.ofName? ins.name = some o)
    (h : (execute o ins).effect m = (.error f, m')) (hkeeps : unknown ins f = Action.fail f)
    (hf : f = .debuggerRequested → ins.name = "ebreak".toList) (hframed : Framed none m m')
    (hpc : m'.pc = m.pc) : Leaves ins m ((perform ins).effect m) := by
  rw [perform_of_error ho h hkeeps]
  exact .failed hf hframed hpc

theorem leaves_immediate {op : Text} {c : Code} {key : Int} {shown : Text} (hop : (op, c) ∈ Code.table .I)
    (hplain : Instruction.systemNumber? op = none) (ha : a < 32) (hb : b < 32)
    (hshown : (Instr.ofStep key ⟨op, some [a, b], some imm⟩).render = .ok shown) (m : Machine) :
    Leaves (.ofStep key ⟨op, some [a, b], some imm⟩) m
      ((perform (.ofStep key ⟨op, some [a, b], some imm⟩)).effect m) := by
  have hregs : (Instr.ofStep key ⟨op, some [a, b], some imm⟩).regs = some [(a : Int), b] := rfl
  have hmemory : ∀ op ∈ memoryOps, Operation.ofName? op = none := by decide
  have hsrai : Operation.ofName? "srai".toList = none := by decide
  obtain himmediate | rfl | rfl | rfl | rfl | rfl | hload | hsystem := immediate_cases hop
  · obtain ⟨⟨name, f⟩, hmem, rfl⟩ := List.mem_map.mp himmediate
    obtain ⟨o, w, ho, heffect, -⟩ :=
      execute_immediate (.ofStep key ⟨name, some [a, b], some imm⟩) hmem rfl rfl ha hb m
    exact .of_ok ho heffect (((Framed.refl m).reading b).writing w)
  · obtain ⟨w, pc, heffect⟩ := jalr_ok hregs rfl ha hb m
    exact .of_ok rfl heffect ((((Framed.refl m).writing w).reading b).goto pc)
  · exact .of_error rfl (shiftImm_refused _ hregs m) rfl (by simp) (.refl m) rfl
  · exact .of_error rfl (shiftImm_refused _ hregs m) rfl (by simp) (.refl m) rfl
  · exact leaves_unknown hsrai hshown
  · exact .of_error rfl (slti_refused hregs rfl hb m) rfl (by simp) ((Framed.refl m).reading b) rfl
  · exact leaves_unknown (hmemory op hload) hshown
  · rw [hplain] at hsystem
    cases hsystem

theorem leaves_form {op : Text} {operands : Operands} {key : Int} {shown : Text}
    (h : Instruction.Form op operands) (hshown : (Instr.ofStep key ⟨op, operands⟩).render = .ok shown)
    (m : Machine) :
    Leaves (.ofStep key ⟨op, operands⟩) m ((perform (.ofStep key ⟨op, operands⟩)).effect m) := by
  have hregs := Instr.registers_of_render hshown
  cases h with
  | @register c a b d hop =>
      obtain ⟨ha, hb, hd⟩ : a < 32 ∧ b < 32 ∧ d < 32 := by simpa [Reference.Registers] using hregs
      have hnames : ∀ p ∈ Code.table .R, p.1 ∈ Reference.Ins.registerOps.map Prod.fst := by decide
      obtain ⟨⟨name, g⟩, hmem, hname⟩ := List.mem_map.mp (hnames _ hop)
      obtain rfl : name = op := hname
      obtain ⟨o, w, ho, heffect, -⟩ :=
        execute_register (.ofStep key ⟨name, some [a, b, d], none⟩) hmem rfl ha hb hd m
      exact .of_ok ho heffect ((((Framed.refl m).reading b).reading d).writing w)
  | @immediate c a b imm hop hplain =>
      obtain ⟨ha, hb⟩ : a < 32 ∧ b < 32 := by simpa [Reference.Registers] using hregs
      exact leaves_immediate hop hplain ha hb hshown m
  | @system n hsystem =>
      obtain rfl | rfl := Instruction.eq_of_systemNumber? hsystem
      · exact .of_error rfl (ecall_effect rfl m) rfl (by simp) (.refl m) rfl
      · exact .of_error rfl (ebreak_effect rfl m) rfl (fun _ => rfl) (.refl m) rfl
  | @store c a b imm hop =>
      have hnames : ∀ p ∈ Code.table .S, Operation.ofName? p.1 = none := by decide
      exact leaves_unknown (hnames _ hop) hshown
  | @branch c a b imm hop =>
      obtain ⟨ha, hb⟩ : a < 32 ∧ b < 32 := by simpa [Reference.Registers] using hregs
      obtain ⟨o, pc, ho, -, heffect⟩ := branch_ok hop ha hb imm key m
      exact .of_ok ho heffect ((((Framed.refl m).reading a).reading b).goto pc)
  | @upper c a imm hop =>
      have hnames : ∀ p ∈ Code.table .U, p.1 = "lui".toList ∨ p.1 = "auipc".toList := by decide
      have hload := loadOperands_refused (.ofStep key ⟨op, some [a], some imm⟩) rfl m
      obtain rfl | rfl : op = "lui".toList ∨ op = "auipc".toList := hnames _ hop
      · exact .of_error rfl (Action.effect_bind_of_error hload _) rfl (by simp) (.refl m) rfl
      · exact .of_error rfl (Action.effect_bind_of_error hload _) rfl (by simp) (.refl m) rfl
  | @jump c a imm hop =>
      have ha : a < 32 := by simpa [Reference.Registers] using hregs
      have hname : ∀ p ∈ Code.table .J, p.1 = "jal".toList := by decide
      obtain rfl : op = "jal".toList := hname _ hop
      obtain ⟨w, heffect⟩ := jal_ok (.ofStep key ⟨"jal".toList, some [a], some imm⟩) rfl rfl ha m
      exact .of_ok rfl heffect (((Framed.refl m).writing w).goto _)

section Flag

open RvToolkit.Action

variable {α β : Type}

def flagged (h : Bool) (m : Machine) : Machine := { m with halted := h }

@[simp]
theorem flagged_halted (h : Bool) (m : Machine) : (flagged h m).halted = h := rfl

def Blind (x : Action Machine α) : Prop := ∀ m, Uniform flagged x m

theorem blind_ofExcept (r : Except Fault α) : Blind (ofExcept r) := fun _ => uniform_ofExcept r

theorem blind_note (l : Level) (t : Text) : Blind (note l t) := fun _ => uniform_note l t

theorem Blind.bind {x : Action Machine α} {f : α → Action Machine β} (hx : Blind x)
    (hf : ∀ a, Blind (f a)) : Blind (x >>= f) := fun m => (hx m).bind fun a m' _ => hf a m'

theorem blind_get_bind {f : Machine → Action Machine β} (hf : ∀ h m, f (flagged h m) = f m)
    (hy : ∀ m, Blind (f m)) : Blind (get >>= f) :=
  fun m => uniform_get_bind (fun h => by rw [hf h m]) (hy m m)

theorem blind_modify {f : Machine → Machine} (hf : ∀ h m, f (flagged h m) = flagged h (f m)) :
    Blind (modify f) := fun m => uniform_modify (f m) fun h => hf h m

theorem blind_onRegs (x : Action RegisterFile α) : Blind (onRegs x) :=
  fun m => ⟨(x.effect m.regs).1, { m with regs := (x.effect m.regs).2 }, fun _ => rfl⟩

theorem blind_onMemory (x : Action Memory α) : Blind (onMemory x) :=
  fun m => ⟨(x.effect m.memory).1, { m with memory := (x.effect m.memory).2 }, fun _ => rfl⟩

theorem Local.blind {P : Fault → Prop} {Q : Address → Prop} {x : Action Machine α} (hx : Local P Q x) :
    Blind x := by
  induction hx with
  | ofExcept h => exact blind_ofExcept _
  | note l t => exact blind_note l t
  | onRegs h => exact blind_onRegs _
  | goto _ => exact blind_modify fun _ _ => rfl
  | here _ ih => exact blind_get_bind (fun _ _ => rfl) fun m => ih m.pc
  | bind _ _ ihx ihf => exact ihx.bind ihf
  | @handle _ x h hx _ ihx ihh =>
      intro m
      obtain ⟨r, m', hr⟩ := ihx m
      cases r with
      | ok a => exact ⟨.ok a, m', fun i => effect_handle_of_ok (hr i) h⟩
      | error f =>
          obtain ⟨r, m'', hr'⟩ := ihh f (hx.keeps.fault (hr true)) m'
          refine ⟨r, m'', ?_⟩
          intro i
          rw [effect_handle_of_error (hr i), hr']

theorem blind_cycleOnce : Blind cycleOnce := by
  refine (blind_modify fun _ _ => rfl).bind fun _ => blind_get_bind (fun _ _ => rfl) fun m => ?_
  refine (blind_onMemory _).bind fun ins => (blind_ofExcept _).bind fun shown => (blind_note _ _).bind fun _ => ?_
  refine (blind_modify fun _ _ => rfl).bind fun _ => ?_
  have hlocal : Local (fun _ => True) (fun _ => True) (perform ins) :=
    local_perform (fun _ _ => trivial) ins (fun _ _ _ _ _ _ => trivial) (fun _ _ => trivial)
      fun _ _ _ _ => trivial
  exact hlocal.blind

theorem Blind.effect_flagged {x : Action Machine α} (hx : Blind x) {r : Except Fault α}
    (h : x.effect m = (r, m')) (halted : Bool) : x.effect (flagged halted m) = (r, flagged halted m') := by
  obtain ⟨r', m₁, hall⟩ := hx m
  have hm : x.effect m = (r', flagged m.halted m₁) := hall m.halted
  obtain ⟨rfl, rfl⟩ := Prod.mk.inj (h.symm.trans hm)
  exact hall halted

end Flag

/-- What one cycle leaves. Nothing has happened if there is no instruction or it cannot be shown. -/
inductive Cycled (m : Machine) : Except Fault Unit × Machine → Prop where
  | stayed {f : Fault} (hf : f ≠ .debuggerRequested) : Cycled m (.error f, { m with cycle := m.cycle + 1 })
  | performed {ins : Instr} {out : Except Fault Unit × Machine}
      (hget : m.memory.program.get? m.pc.value = some ins) (h : Leaves ins m.advanced out) : Cycled m out

theorem cycled_cycleOnce [Evaluator] (hmem : m.memory.Assembled) : Cycled m (cycleOnce.effect m) := by
  cases hget : m.memory.program.get? m.pc.value with
  | none =>
      rw [cycleOnce_missing hget]
      exact .stayed (by simp)
  | some ins =>
      cases hshown : ins.render with
      | error f =>
          rw [cycleOnce_unshown hget hshown]
          exact .stayed (Instr.ne_of_render hshown)
      | ok shown =>
          obtain ⟨key, step, rfl, hform⟩ := hmem.exists_ofStep hget
          rw [cycleOnce_performs hget hshown]
          exact .performed hget (leaves_form hform hshown m.advanced)

theorem settle_cases {f : Fault} {debugging : Bool} (hf : f = .debuggerRequested → debugging = true) :
    ∃ (r : Except Fault Bool) (stops : Bool), (∀ b, r = .ok b → b = false ∧ stops = true) ∧
      ∀ m : Machine, m.debugging = debugging → (settle f).effect m = (r, flagged (m.halted || stops) m) := by
  unfold settle
  split
  · refine ⟨.error .debuggerRequested, false, by simp, ?_⟩
    intro m hm
    simp only [Action.effect_bind, Action.effect_get, hm, hf rfl, ↓reduceIte, Bool.or_false]
    rfl
  · refine ⟨.error .normalExit, true, by simp, ?_⟩
    intro m _
    rw [Bool.or_true]
    rfl
  · split
    · refine ⟨.ok false, true, by simp, ?_⟩
      intro m _
      rw [Bool.or_true]
      rfl
    · refine ⟨.error f, false, by simp, ?_⟩
      intro m _
      rw [Bool.or_false]
      rfl

end Machine

namespace Emulator

open Machine

variable {m m' m'' : Machine} {n : Nat}

theorem step_of_settle {f : Fault} (hbudget : m.budget = n + 1)
    (h : cycleOnce.effect { m with budget := n } = (.error f, m')) {r : Except Fault Bool}
    (hsettle : (settle f).effect m' = (r, m'')) (hr : ∀ b, r = .ok b → b = false) :
    step.effect m = (r.map fun _ => (), m'') := by
  cases r with
  | error f' => exact step_of_error hbudget h hsettle
  | ok b =>
      obtain rfl := hr b rfl
      have hcycle : (do cycleOnce; return false : Action Machine Bool).effect { m with budget := n } =
          (.error f, m') := Action.effect_bind_of_error h _
      simp only [step, stepOrBreak, spend, Action.effect_bind, Action.effect_get, hbudget,
        Action.effect_set, Action.effect_handle_of_error hcycle, hsettle, Bool.false_eq_true, ↓reduceIte,
        Action.effect_pure]
      rfl

/-- What a step leaves, whether or not the machine had been stopped before it. -/
inductive StepFrame (m : Machine) : Prop where
  | ended {ins : Instr} {m' : Machine} (hget : m.memory.program.get? m.pc.value = some ins)
      (hframed : Framed (ins.regs.getD []).head? { m with cycle := m.cycle + 1 } m')
      (hstep : ∀ h, step.effect (flagged h m) = (.ok (), flagged h m')) : StepFrame m
  | failed {r : Except Fault Unit} {stops : Bool} {m' : Machine}
      (hframed : Framed none { m with cycle := m.cycle + 1 } m')
      (hpc : m'.pc = m.pc ∨ m'.pc = m.pc.add 4) (hr : r = .ok () → stops = true)
      (hstep : ∀ h, step.effect (flagged h m) = (r, flagged (h || stops) m')) : StepFrame m

theorem StepFrame.of_error {f : Fault} (hbudget : m.budget = n + 1)
    (h : cycleOnce.effect { m with budget := n } = (.error f, m'))
    (hf : f = .debuggerRequested → m.debugging = true)
    (hframed : Framed none { m with cycle := m.cycle + 1 } m') (hpc : m'.pc = m.pc ∨ m'.pc = m.pc.add 4) :
    StepFrame m := by
  obtain ⟨r, stops, hr, hsettle⟩ := settle_cases hf
  have hstops : (r.map fun _ => ()) = .ok () → stops = true := by
    intro hok
    cases r with
    | error f' => cases hok
    | ok b => exact (hr b rfl).2
  have hstep (halted : Bool) :
      step.effect (flagged halted m) = (r.map fun _ => (), flagged (halted || stops) m') := by
    have hcycle := blind_cycleOnce.effect_flagged h halted
    have hsettled := hsettle (flagged halted m') hframed.debugging
    exact step_of_settle (m := flagged halted m) hbudget hcycle hsettled fun b hb => (hr b hb).1
  exact .failed hframed hpc hstops hstep

theorem stepFrame [Evaluator] (hmem : m.memory.Assembled) (hbudget : m.budget = n + 1)
    (hbreak : m.debugging = true ∨
      ∀ ins, m.memory.program.get? m.pc.value = some ins → ins.name ≠ "ebreak".toList) : StepFrame m := by
  have hcycled : Cycled { m with budget := n } (cycleOnce.effect { m with budget := n }) :=
    cycled_cycleOnce hmem
  generalize hout : cycleOnce.effect { m with budget := n } = out at hcycled
  cases hcycled with
  | stayed hf =>
      exact .of_error hbudget hout (fun h => absurd h hf) ⟨rfl, rfl, rfl, rfl, fun _ _ => rfl⟩ (.inl rfl)
  | @performed ins out hget hleaves =>
      cases hleaves with
      | @ended m' h =>
          have hstep (halted : Bool) : step.effect (flagged halted m) = (.ok (), flagged halted m') :=
            step_of_ok (m := flagged halted m) hbudget (blind_cycleOnce.effect_flagged hout halted)
          exact .ended hget ⟨h.memory, h.cycle, h.halted, h.debugging, h.content⟩ hstep
      | @failed m' f hf h hpc =>
          refine .of_error hbudget hout ?_ ⟨h.memory, h.cycle, h.halted, h.debugging, h.content⟩ (.inr hpc)
          intro hrequest
          exact hbreak.resolve_right fun hname => hname ins hget (hf hrequest)

/-- The step stops the machine, whether or not it had been stopped before. -/
def Halts (m : Machine) : Prop := (step.effect (flagged false m)).2.halted = true

/-- The frame of a step of a loaded program, up to a breakpoint that starts a session. A step that ends
well changes at most the first register of its instruction; one that fails or stops the machine changes
no register and goes nowhere but to the next instruction. -/
theorem step_frame [Evaluator] (hmem : m.memory.Assembled) (hbudget : m.budget ≠ 0)
    (hbreak : m.debugging = true ∨
      ∀ ins, m.memory.program.get? m.pc.value = some ins → ins.name ≠ "ebreak".toList) :
    ∃ r m', step.effect m = (r, m') ∧ m'.memory = m.memory ∧ m'.cycle = m.cycle + 1 ∧
      (m'.halted = true ↔ m.halted = true ∨ Halts m) ∧
      (r = .ok () → ¬ Halts m → ∃ ins, m.memory.program.get? m.pc.value = some ins ∧
        ∀ i, m'.regs.content i ≠ m.regs.content i → i ≠ 0 ∧ (ins.regs.getD []).head? = some i) ∧
      ((∃ f, r = .error f) ∨ Halts m →
        (∀ i, m'.regs.content i = m.regs.content i) ∧ (m'.pc = m.pc ∨ m'.pc = m.pc.add 4)) := by
  obtain ⟨n, hn⟩ := Nat.exists_eq_succ_of_ne_zero hbudget
  cases stepFrame hmem hn hbreak with
  | @ended ins m' hget hframed hstep =>
      have hrunning : ¬ Halts m := by simp [Halts, hstep]
      refine ⟨.ok (), flagged m.halted m', hstep m.halted, hframed.memory, hframed.cycle, ?_, ?_, ?_⟩
      · simp [hrunning]
      · intro _ _
        refine ⟨ins, hget, ?_⟩
        intro i hi
        by_contra hframe
        refine hi (hframed.content i ?_)
        by_cases h0 : i = 0
        · exact .inr h0
        · exact .inl fun hfirst => hframe ⟨h0, hfirst⟩
      · rintro (⟨f, hf⟩ | hhalts)
        · cases hf
        · exact absurd hhalts hrunning
  | @failed r stops m' hframed hpc hr hstep =>
      have hhalts : Halts m ↔ stops = true := by simp [Halts, hstep]
      refine ⟨r, flagged (m.halted || stops) m', hstep m.halted, hframed.memory, hframed.cycle, ?_, ?_, ?_⟩
      · simp [hhalts]
      · exact fun hok hrunning => absurd (hhalts.mpr (hr hok)) hrunning
      · exact fun _ => ⟨fun i => hframed.content i (.inl (by simp)), hpc⟩

def shifting : Assembly := { base := 0, mnemonics := ["slli x5, x10, 3".toList] }

def shiftingSteps : Assoc Int Assembly.Step := [(0, ⟨"slli".toList, some [5, 10], some 3⟩)]

def shiftingMachine : Machine :=
  loaded 0 shiftingSteps (.written [(10, .word ⟨.signed, 5⟩, false)]) [] 1

section StepFrameShifting

open scoped Evaluator.Arithmetic

theorem step_frame_shifting :
    Assembly.steps.effect shifting = (.ok shiftingSteps, shifting) ∧
    ∃ r m', step.effect shiftingMachine = (r, m') ∧ m'.cycle = 1 ∧ m'.halted = true ∧
      (m'.regs.content 5).bits = 0 ∧ (m'.regs.content 10).bits = 5 := by
  have hsteps : Assembly.steps.effect shifting = (.ok shiftingSteps, shifting) :=
    Assembly.steps_of_lineCalls (by decide +kernel) rfl
  have hbreak : ∀ ins, shiftingMachine.memory.program.get? 0 = some ins →
      ins.name ≠ "ebreak".toList := by
    rintro ins ⟨⟩
    decide
  obtain ⟨r, m', hstep, -, hcycle, hhalted, -, hkept⟩ :=
    step_frame (m := shiftingMachine) (.load (.empty _) hsteps) (by decide) (.inr hbreak)
  have hhalts : Halts shiftingMachine := rfl
  obtain ⟨hcontent, -⟩ := hkept (.inr hhalts)
  refine ⟨hsteps, r, m', hstep, hcycle, hhalted.mpr (.inr hhalts), ?_, ?_⟩
  · rw [hcontent]
    rfl
  · rw [hcontent]
    rfl

end StepFrameShifting

end Emulator

end RvToolkit
