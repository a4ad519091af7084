import RvToolkit.Emulator
import RvToolkit.Proofs.Machine.Loading

namespace RvToolkit

/-- A machine that is running and has the program in its memory agrees with the reference machine. -/
structure Simulates (program : Assoc Int Assembly.Step) (m : Machine) (s : Reference.State) : Prop
    extends Holds m s where
  loaded : ∀ a, m.memory.program.get? a = (program.get? a).map (Instr.ofStep a)
  running : m.halted = false

namespace Simulates

variable {program : Assoc Int Assembly.Step} {m : Machine} {s : Reference.State}

theorem count (h : Simulates program m s) (n : Nat) : Simulates program { m with cycle := n } s :=
  ⟨⟨h.pc, h.bits, h.signed⟩, h.loaded, h.running⟩

theorem spend (h : Simulates program m s) (n : Nat) : Simulates program { m with budget := n } s :=
  ⟨⟨h.pc, h.bits, h.signed⟩, h.loaded, h.running⟩

end Simulates

namespace Machine

variable {program : Assoc Int Assembly.Step} {m : Machine} {s : Reference.State} {step : Assembly.Step}

theorem fetch_simulates (h : Simulates program m s) :
    (onMemory (Memory.fetch m.pc)).effect m = match program.get? (s.pc.toNat : Int) with
      | some step => (.ok (.ofStep s.pc.toNat step), m)
      | none => (.error (.missingKey m.pc.toValue), m) := by
  have hvalue : m.pc.value = s.pc.toNat := by rw [h.pc]; rfl
  rw [onMemory, Action.effect_within, Memory.fetch_effect, hvalue, h.loaded]
  cases program.get? (s.pc.toNat : Int) <;> rfl

theorem cycleOnce_loaded (hsupported : Reference.Supported program) (h : Simulates program m s)
    (hget : program.get? (s.pc.toNat : Int) = some step) :
    cycleOnce.effect m = (perform (.ofStep s.pc.toNat step)).effect m.advanced := by
  obtain ⟨⟨ins, hins⟩, hregs⟩ := hsupported _ step hget
  obtain ⟨shown, hshown⟩ :=
    Instr.exists_render (Reference.Ins.loads_of_ofStep? hins) hregs s.pc.toNat
  have hfetch := fetch_simulates (h.count (m.cycle + 1))
  rw [hget] at hfetch
  simp only [cycleOnce, Action.effect_bind, Action.effect_modify, Action.effect_get, hfetch,
    Action.effect_ofExcept, hshown, Action.effect_note, setPc]
  rfl

theorem cycleOnce_unloaded (h : Simulates program m s) (hget : program.get? (s.pc.toNat : Int) = none) :
    cycleOnce.effect m = (.error (.missingKey m.pc.toValue), { m with cycle := m.cycle + 1 }) := by
  have hfetch := fetch_simulates (h.count (m.cycle + 1))
  rw [hget] at hfetch
  simp only [cycleOnce, Action.effect_bind, Action.effect_modify, Action.effect_get, hfetch]

end Machine

namespace Emulator

variable {program : Assoc Int Assembly.Step} {m m' : Machine} {s : Reference.State} {n : Nat}

theorem step_of_ok (hbudget : m.budget = n + 1)
    (h : Machine.cycleOnce.effect { m with budget := n } = (.ok (), m')) :
    step.effect m = (.ok (), m') := by
  have hcycle : (do Machine.cycleOnce; return false : Action Machine Bool).effect { m with budget := n } =
      (.ok false, m') := Action.effect_bind_of_ok h _
  simp only [step, Machine.stepOrBreak, Machine.spend, Action.effect_bind, Action.effect_get, hbudget,
    Action.effect_set, Action.effect_handle_of_ok hcycle, Bool.false_eq_true, ↓reduceIte,
    Action.effect_pure]

theorem step_of_error {f : Fault} (hbudget : m.budget = n + 1)
    (h : Machine.cycleOnce.effect { m with budget := n } = (.error f, m')) {r : Fault} {m'' : Machine}
    (hsettle : (Machine.settle f).effect m' = (.error r, m'')) : step.effect m = (.error r, m'') := by
  have hcycle : (do Machine.cycleOnce; return false : Action Machine Bool).effect { m with budget := n } =
      (.error f, m') := Action.effect_bind_of_error h _
  simp only [step, Machine.stepOrBreak, Machine.spend, Action.effect_bind, Action.effect_get, hbudget,
    Action.effect_set, Action.effect_handle_of_error hcycle, hsettle]

/-- What a machine has answered and become when the reference machine has come to a status. -/
def Answers (program : Assoc Int Assembly.Step) (budget : Nat) :
    Reference.Status → Except Fault Unit × Machine → Prop
  | .running s, (r, m) => r = .ok () ∧ Simulates program m s ∧ m.budget = budget
  | .exited, (r, m) => r = .error .normalExit ∧ m.halted = true
  | .unloaded, (r, m) => (∃ pc, r = .error (.missingKey pc)) ∧ m.halted = false

theorem step_answers (hsupported : Reference.Supported program) (h : Simulates program m s)
    (hbudget : m.budget = n + 1) :
    Answers program n (Reference.step program s) (step.effect m) := by
  have hspent := h.spend n
  unfold Reference.step Reference.fetch
  cases hget : program.get? (s.pc.toNat : Int) with
  | none =>
      -- nothing takes up a failed fetch, so that it ends the step
      have hcycle := Machine.cycleOnce_unloaded hspent hget
      rw [step_of_error hbudget hcycle rfl]
      exact ⟨⟨_, rfl⟩, h.running⟩
  | some loaded =>
      have hcycle := Machine.cycleOnce_loaded hsupported hspent hget
      obtain ⟨⟨ins, hins⟩, hregs⟩ := hsupported _ loaded hget
      have hload := Reference.Ins.loads_of_ofStep? hins
      rw [Option.bind_some, hins]
      cases hexecute : ins.execute s with
      | some s' =>
          obtain ⟨m', hperform, hholds, hkept⟩ :=
            Machine.perform_simulates hload hregs hspent.advanced hexecute s.pc.toNat
          simp only [hexecute]
          rw [step_of_ok hbudget (hcycle.trans hperform)]
          refine ⟨rfl, ⟨hholds, ?_, hkept.halted.trans h.running⟩, hkept.budget⟩
          intro a
          rw [hkept.memory]
          exact h.loaded a
      | none =>
          have hperform := Machine.perform_exits hload hexecute s.pc.toNat
            ({ m with budget := n } : Machine).advanced
          simp only [hexecute]
          rw [step_of_error hbudget (hcycle.trans hperform) rfl]
          exact ⟨rfl, rfl⟩

/-- A number of steps, as long as they succeed. -/
def stepTimes : Nat → Action Machine Unit
  | 0 => pure ()
  | k + 1 => do
      step
      stepTimes k

theorem stepTimes_answers (hsupported : Reference.Supported program) (h : Simulates program m s)
    {k b : Nat} (hbudget : m.budget = k + b) :
    Answers program b (Reference.after program s k) ((stepTimes k).effect m) := by
  induction k generalizing m s with
  | zero => exact ⟨rfl, h, hbudget.trans (Nat.zero_add b)⟩
  | succ k ih =>
      -- both machines take their first step; the hypothesis is about the states after it
      have hstep := step_answers (n := k + b) hsupported h (by omega)
      unfold Reference.after
      rw [stepTimes, Action.effect_bind]
      generalize step.effect m = out at hstep
      obtain ⟨r, m'⟩ := out
      cases hstatus : Reference.step program s with
      | running s' =>
          rw [hstatus] at hstep
          obtain ⟨rfl, hm', hbudget'⟩ := hstep
          exact ih hm' hbudget'
      | exited =>
          rw [hstatus] at hstep
          obtain ⟨rfl, hhalted⟩ := hstep
          exact ⟨rfl, hhalted⟩
      | unloaded =>
          rw [hstatus] at hstep
          obtain ⟨⟨pc, rfl⟩, hrunning⟩ := hstep
          exact ⟨⟨pc, rfl⟩, hrunning⟩

theorem untilHalted_eq_stepTimes (hsupported : Reference.Supported program) (h : Simulates program m s)
    {k n : Nat} (hbudget : k ≤ m.budget) (hk : k ≤ n)
    (hended : ∀ s', Reference.after program s k ≠ .running s') :
    (Machine.untilHalted step n).effect m = (stepTimes k).effect m := by
  induction k generalizing m s n with
  | zero => exact absurd rfl (hended s)
  | succ k ih =>
      obtain ⟨n, rfl⟩ : ∃ j, n = j + 1 := ⟨n - 1, by omega⟩
      obtain ⟨b, hb⟩ : ∃ b, m.budget = b + 1 := ⟨m.budget - 1, by omega⟩
      have hstep := step_answers hsupported h hb
      unfold Reference.after at hended
      simp only [Machine.untilHalted, stepTimes, Action.effect_bind, Action.effect_get, h.running,
        Bool.false_eq_true, ↓reduceIte]
      generalize step.effect m = out at hstep
      obtain ⟨r, m'⟩ := out
      cases hstatus : Reference.step program s with
      | running s' =>
          rw [hstatus] at hstep hended
          obtain ⟨rfl, hm', hbudget'⟩ := hstep
          exact ih hm' (by omega) (by omega) hended
      | exited =>
          rw [hstatus] at hstep
          obtain ⟨rfl, -⟩ := hstep
          rfl
      | unloaded =>
          rw [hstatus] at hstep
          obtain ⟨⟨pc, rfl⟩, -⟩ := hstep
          rfl

end Emulator

namespace RegisterFile

/-- A register file after any writes, with or without marks. -/
def written (writes : List (Int × Value × Bool)) : RegisterFile :=
  writes.foldl (fun rf w => ((write w.1 w.2.1 w.2.2).effect rf).2) {}

/-- Register zero was never written and what was written is signed. -/
structure Stored (rf : RegisterFile) : Prop where
  zero : rf.cells.get? 0 = none
  signed : ∀ r w, rf.cells.get? r = some w → w.sign = .signed

variable {rf : RegisterFile} {r : Int}

theorem Stored.insert (h : Stored rf) (hr : r ≠ 0) (w : Word) :
    Stored { rf with cells := rf.cells.insert r w.asSigned } := by
  constructor
  · exact (Assoc.get?_insert_of_ne (Ne.symm hr) _ _).trans h.zero
  · intro i w' hget
    by_cases hi : i = r
    · rw [hi, Assoc.get?_insert_self] at hget
      cases hget
      rfl
    · rw [Assoc.get?_insert_of_ne hi] at hget
      exact h.signed i w' hget

theorem write_cells (r : Int) (v : Value) (mark : Bool) (rf : RegisterFile) :
    ((write r v mark).effect rf).2.cells = rf.cells ∨
      r ≠ 0 ∧ ∃ w : Word, ((write r v mark).effect rf).2.cells = rf.cells.insert r w.asSigned := by
  unfold write
  by_cases hr : r = 0
  · rw [if_pos hr]
    exact .inl rfl
  · rw [if_neg hr]
    cases mark with
    | false =>
        cases v with
        | word w => exact .inr ⟨hr, w, rfl⟩
        | _ => exact .inl rfl
    | true =>
        simp only [↓reduceIte, Action.effect_bind, Action.effect_ofExcept, Action.effect_modify]
        cases Register.aliasOf r with
        | error f => exact .inl rfl
        | ok name =>
            cases v with
            | word w => exact .inr ⟨hr, w, rfl⟩
            | _ => exact .inl rfl

theorem Stored.write (h : Stored rf) (r : Int) (v : Value) (mark : Bool) :
    Stored ((write r v mark).effect rf).2 := by
  obtain hcells | ⟨hr, w, hcells⟩ := write_cells r v mark rf
  · exact ⟨hcells ▸ h.zero, hcells ▸ h.signed⟩
  · have hinsert := h.insert hr w
    exact ⟨hcells ▸ hinsert.zero, hcells ▸ hinsert.signed⟩

theorem stored_written (writes : List (Int × Value × Bool)) : Stored (written writes) := by
  have hfold : ∀ rf, Stored rf →
      Stored (writes.foldl (fun rf w => ((RegisterFile.write w.1 w.2.1 w.2.2).effect rf).2) rf) := by
    induction writes with
    | nil => exact fun rf h => h
    | cons w writes ih => exact fun rf h => ih _ (h.write _ _ _)
  exact hfold {} ⟨rfl, by simp [Assoc.get?]⟩

theorem Stored.value_content (h : Stored rf) (r : Int) :
    (rf.content r).value = (rf.content r).bits.toInt := by
  unfold content
  cases hget : rf.cells.get? r with
  | none => rfl
  | some w =>
      have hsigned := h.signed r w hget
      simp [Word.value, hsigned]

end RegisterFile

/-- The reference machine at the base of a program, with the contents of a register file; the first
argument register holds zero. -/
def Reference.State.start (base : Int) (rf : RegisterFile) : State :=
  ⟨.ofInt 32 base, fun r => if r.val = 10 then 0 else (rf.content r.val).bits⟩

namespace Emulator

/-- A machine with a program in its memory. -/
def loaded (base : Int) (program : Assoc Int Assembly.Step) (rf : RegisterFile) (input : List Text)
    (budget : Nat) : Machine :=
  { machine base input budget with regs := rf, memory := (Memory.ofBase base).load program }

/-- The machine from which a launch runs. -/
def started (m : Machine) : Machine :=
  { m with
    regs := { m.regs with cells := m.regs.cells.insert 10 ⟨.signed, 0⟩ }
    pc := .word m.memory.base }

theorem launch_effect (m : Machine) : launch.effect m = run.effect (started m) := by
  have hinit : initRegisters.effect m =
      (.ok (), { m with regs := { m.regs with cells := m.regs.cells.insert 10 ⟨.signed, 0⟩ } }) := rfl
  simp only [launch, Action.effect_bind, Action.effect_get, hinit, Action.effect_note, Machine.setPc,
    Action.effect_modify]
  rfl

theorem simulates_started {base : Int} {program : Assoc Int Assembly.Step} {rf : RegisterFile}
    (hconsecutive : program.Consecutive base) (hrf : rf.Stored) (input : List Text) (budget : Nat) :
    Simulates program (started (loaded base program rf input budget)) (.start base rf) := by
  have hstored : (started (loaded base program rf input budget)).regs.Stored :=
    hrf.insert (r := 10) (by decide) ⟨.signed, 0⟩
  have hbits : ∀ r < 32, ((started (loaded base program rf input budget)).regs.content (r : Nat)).bits =
      (Reference.State.start base rf).read (.ofNat 32 r) := by
    intro r hr
    have hzero : Fin.ofNat 32 r = 0 ↔ r = 0 := Reference.ofNat_eq_iff hr (by decide)
    have hcast : (r : Int) = 10 ↔ r = 10 := by omega
    have hr32 : (Fin.ofNat 32 r).val = r := Nat.mod_eq_of_lt hr
    change (RegisterFile.content { rf with cells := rf.cells.insert 10 ⟨.signed, 0⟩ } r).bits = _
    simp only [RegisterFile.content_insert, Reference.State.read, Reference.State.start, hzero,
      hcast, hr32]
    by_cases h0 : r = 0
    · subst h0
      simp only [RegisterFile.content, Int.ofNat_zero, hrf.zero]
      rfl
    · rw [if_neg h0]
      split <;> rfl
  exact ⟨⟨rfl, hbits, fun r _ => hstored.value_content r⟩, Memory.get?_load hconsecutive base, rfl⟩

end Emulator

section Program

open Assembly

variable {σ : Type} {st : SymbolTable} {base : Int} {lines : List Text} {x x' : σ}
  {program : Assoc Int Assembly.Step}

theorem fetch_fails_iff {m : Machine} {s : Reference.State} (h : Simulates program m s) :
    (∃ f, ((Machine.onMemory (Memory.fetch m.pc)).effect m).1 = .error f) ↔
      program.get? (s.pc.toNat : Int) = none := by
  rw [Machine.fetch_simulates h]
  cases program.get? (s.pc.toNat : Int) <;> simp

/-- A launched machine runs in step with the reference machine: after any number of steps they stand at
the same place with the same registers, no instruction can be fetched there exactly if none was loaded
there, and an environment call ends the run. -/
theorem Emulator.stepTimes_agrees [Evaluator]
    (hprogram : (interpret st base lines : Action σ _).effect x = (.ok program, x'))
    (hbase : 0 ≤ base) (hfits : base + 4 * program.length ≤ 0x100000000)
    (hops : ∀ e ∈ program, e.2.op ∈ Reference.Ins.mnemonics)
    (hregs : ∀ e ∈ program, Reference.Registers e.2) (writes : List (Int × Value × Bool))
    (input : List Text) (k b : Nat) :
    let m := loaded base program (.written writes) input (k + b)
    launch.effect m = run.effect (started m) ∧
    match Reference.after program (.start base (.written writes)) k with
    | .running s => ∃ m', (stepTimes k).effect (started m) = (.ok (), m') ∧
        m'.pc.value = s.pc.toNat ∧
        (∀ r : Fin 32, (m'.regs.content (r : Nat)).unsignedValue = (s.read r).toNat) ∧
        m'.halted = false ∧
        ((∃ f, ((Machine.onMemory (Memory.fetch m'.pc)).effect m').1 = .error f) ↔
          ∀ i < program.length, s.pc ≠ .ofInt 32 (base + 4 * (i : Nat)))
    | .exited => ∃ m', (stepTimes k).effect (started m) = (.error .normalExit, m') ∧
        launch.effect m = (.error .normalExit, m') ∧ m'.halted = true
    | .unloaded => ∃ pc m', (stepTimes k).effect (started m) = (.error (.missingKey pc), m') ∧
        launch.effect m = (.error (.missingKey pc), m') ∧ m'.halted = false := by
  intro m
  have hsupported := supported_of_interpret hprogram hops hregs
  obtain ⟨-, -, hconsecutive, -⟩ := interpret_eq_ok hprogram
  have hstart : Simulates program (started m) (.start base (.written writes)) :=
    simulates_started hconsecutive (RegisterFile.stored_written writes) input (k + b)
  have hbudget : (started m).budget = k + b := rfl
  have hsteps := stepTimes_answers hsupported hstart hbudget
  have hrun : (∀ s', Reference.after program (.start base (.written writes)) k ≠ .running s') →
      launch.effect m = (stepTimes k).effect (started m) := by
    intro hended
    rw [launch_effect]
    exact untilHalted_eq_stepTimes hsupported hstart (by omega) (by omega) hended
  refine ⟨launch_effect m, ?_⟩
  generalize (stepTimes k).effect (started m) = out at hsteps hrun
  obtain ⟨r, m'⟩ := out
  cases hstatus : Reference.after program (.start base (.written writes)) k with
  | running s =>
      rw [hstatus] at hsteps
      obtain ⟨rfl, hm', -⟩ := hsteps
      refine ⟨m', rfl, by rw [hm'.pc]; rfl, fun r => ?_, hm'.running, ?_⟩
      · have hbits := hm'.bits r r.isLt
        rw [Fin.ofNat_val_eq_self] at hbits
        exact congrArg BitVec.toNat hbits
      · rw [fetch_fails_iff hm', get?_eq_none_iff hconsecutive hbase hfits]
  | exited =>
      rw [hstatus] at hsteps hrun
      obtain ⟨rfl, hhalted⟩ := hsteps
      exact ⟨m', rfl, hrun (by simp), hhalted⟩
  | unloaded =>
      rw [hstatus] at hsteps hrun
      obtain ⟨⟨pc, rfl⟩, hrunning⟩ := hsteps
      exact ⟨pc, m', rfl, hrun (by simp), hrunning⟩

end Program

def countdown : List Text :=
  ["addi x5, x0, 2".toList, "addi x5, x5, -1".toList, "bne x5, x0, -4".toList, "ecall".toList]

def countdownSteps : Assoc Int Assembly.Step := [
  (4294967280, ⟨"addi".toList, some [5, 0], some 2⟩), (4294967284, ⟨"addi".toList, some [5, 5], some (-1)⟩),
  (4294967288, ⟨"bne".toList, some [5, 0], some (-4)⟩), (4294967292, ⟨"ecall".toList, none, none⟩)]

section StepTimesCountdown

open scoped Evaluator.Arithmetic

theorem Emulator.stepTimes_countdown :
    (Assembly.interpret [] 4294967280 countdown : Action Unit _).effect () = (.ok countdownSteps, ()) ∧
    ∃ m', (stepTimes 6).effect (started (loaded 4294967280 countdownSteps (.written []) [] 6)) =
      (.error .normalExit, m') ∧ m'.halted = true := by
  have hprogram : (Assembly.interpret [] 4294967280 countdown : Action Unit _).effect () =
      (.ok countdownSteps, ()) := Assembly.interpret_of_lineCalls [] (by decide +kernel) ()
  have hagrees := stepTimes_agrees hprogram (by decide) (by decide) (by decide +kernel)
    (by simp [countdownSteps, Reference.Registers]) [] [] 6 0
  have hexited : Reference.after countdownSteps (.start 4294967280 (.written [])) 6 = .exited := rfl
  rw [hexited] at hagrees
  obtain ⟨-, m', hsteps, -, hhalted⟩ := hagrees
  exact ⟨hprogram, m', hsteps, hhalted⟩

end StepTimesCountdown

end RvToolkit
