import RvToolkit.Proofs.Machine.Local
import RvToolkit.Proofs.Machine.Runs

namespace RvToolkit

namespace Machine

open RvToolkit.Action

variable {m m' : Machine} {f : Fault} {n : Nat}

theorem trap?_cases (h : m.trap? = some f) : f = .debuggerRequested ∨ f = .normalExit := by
  obtain ⟨ins, -, h⟩ := Option.bind_eq_some_iff.mp h
  split at h
  · unfold Instr.trap? at h
    split at h
    · obtain ⟨o, -, hf⟩ := Option.bind_eq_some_iff.mp h
      cases o with
      | ebreak | sbreak => exact .inl (Option.some.inj hf).symm
      | ecall => exact .inr (Option.some.inj hf).symm
      | _ => cases hf
    · cases h
  · cases h

/-- What a step does to a machine beside carrying out an instruction. -/
structure Progress (m m' : Machine) : Prop where
  memory : m'.memory = m.memory
  cycle : m'.cycle = m.cycle + 1
  debugging : m'.debugging = m.debugging
  input : m'.input = m.input
  budget : m'.budget + 1 = m.budget
  halted : m.halted = true → m'.halted = true

theorem progress_of_cycleOnce (hbudget : m.budget = n + 1) {r : Except Fault Unit}
    (h : cycleOnce.effect { m with budget := n } = (r, m')) : Progress m m' := by
  have hchassis := (cycleOnce_cases { m with budget := n }).1
  rw [h] at hchassis
  have hspent : m'.budget = n := (congrArg Machine.budget hchassis :)
  have hhalted : m'.halted = m.halted := (congrArg Machine.halted hchassis :)
  exact ⟨(congrArg Machine.memory hchassis :), (congrArg Machine.cycle hchassis :),
    (congrArg Machine.debugging hchassis :), (congrArg Machine.input hchassis :), by omega, hhalted.trans⟩

theorem Progress.halt (h : Progress m m') : Progress m { m' with halted := true } :=
  ⟨h.memory, h.cycle, h.debugging, h.input, h.budget, fun _ => rfl⟩

theorem settle_minor (hf : f.isMinor = true) (m : Machine) :
    (settle f).effect m = (.ok false, { m with halted := true }) ∨
      f.isOrdinary = true ∧ (settle f).effect m = (.error f, m) := by
  unfold settle
  split
  · cases hf
  · cases hf
  · rcases Fault.cases_of_isMinor hf with ⟨hreported, hordinary⟩ | ⟨hreported, t, ht⟩
    · rw [hreported]
      exact .inr ⟨hordinary, rfl⟩
    · rw [hreported, ht]
      exact .inl rfl

theorem settle_breakpoint (hdebugging : m.debugging = true) :
    (settle .debuggerRequested).effect m = (.error .debuggerRequested, m) := by
  simp only [settle, effect_bind, effect_get, hdebugging, ↓reduceIte, effect_fail]

theorem settle_exit (m : Machine) :
    (settle .normalExit).effect m = (.error .normalExit, { m with halted := true }) := rfl

theorem untilHalted_of_running (step : Action Machine Unit) (hhalted : m.halted = false) (n : Nat) :
    (untilHalted step (n + 1)).effect m = (step >>= fun _ => untilHalted step n).effect m := by
  simp only [untilHalted, effect_bind, effect_get, hhalted, Bool.false_eq_true, ↓reduceIte]

theorem untilHalted_of_halted (step : Action Machine Unit) (hhalted : m.halted = true) (hn : 0 < n) :
    (untilHalted step n).effect m = (.ok (), m) := by
  obtain ⟨n, rfl⟩ : ∃ i, n = i + 1 := ⟨n - 1, by omega⟩
  simp only [untilHalted, effect_bind, effect_get, hhalted, ↓reduceIte, effect_note]

end Machine

namespace Debugger

open RvToolkit.Action Machine

variable {m m' : Machine} {f : Fault} {n : Nat}

/-- What a step inside a session can leave. -/
inductive Stepped (m : Machine) : Except Fault Unit × Machine → Prop where
  | limited (hbudget : m.budget = 0) : Stepped m (.error .stepLimit, m)
  | worked {m' : Machine} (htrap : m.trap? = none) (h : Progress m m') : Stepped m (.ok (), m')
  | failed {m' : Machine} {f : Fault} (htrap : m.trap? = none) (h : Progress m m')
      (hf : f.isOrdinary = true) : Stepped m (.error f, m')
  | broke {m' : Machine} (htrap : m.trap? = some .debuggerRequested) (h : Progress m m') :
      Stepped m (.error .debuggerRequested, m')
  | exited {m' : Machine} (htrap : m.trap? = some .normalExit) (h : Progress m m')
      (hhalted : m'.halted = true) : Stepped m (.error .normalExit, m')

theorem stepOrBreak_of_ok (hbudget : m.budget = n + 1)
    (h : cycleOnce.effect { m with budget := n } = (.ok (), m')) :
    stepOrBreak.effect m = (.ok false, m') := by
  have hcycle : (do cycleOnce; return false : Action Machine Bool).effect { m with budget := n } =
      (.ok false, m') := effect_bind_of_ok h _
  simp only [stepOrBreak, spend, effect_bind, effect_get, hbudget, effect_set, effect_handle_of_ok hcycle]

theorem stepOrBreak_of_error (hbudget : m.budget = n + 1)
    (h : cycleOnce.effect { m with budget := n } = (.error f, m')) :
    stepOrBreak.effect m = (settle f).effect m' := by
  have hcycle : (do cycleOnce; return false : Action Machine Bool).effect { m with budget := n } =
      (.error f, m') := effect_bind_of_error h _
  simp only [stepOrBreak, spend, effect_bind, effect_get, hbudget, effect_set,
    effect_handle_of_error hcycle]

/-- What a step leaves where no breakpoint starts a session. -/
inductive Settled (m : Machine) : Except Fault Bool × Machine → Prop where
  | cycled {m' : Machine} {n : Nat} (htrap : m.trap? = none) (h : Progress m m')
      (hcycle : cycleOnce.effect { m with budget := n } = (.ok (), m')) : Settled m (.ok false, m')
  | halted {m' : Machine} (htrap : m.trap? = none) (h : Progress m m') (hhalted : m'.halted = true) :
      Settled m (.ok false, m')
  | failed {m' : Machine} {f : Fault} (htrap : m.trap? = none) (h : Progress m m')
      (hf : f.isOrdinary = true) : Settled m (.error f, m')
  | broke {m' : Machine} (htrap : m.trap? = some .debuggerRequested) (h : Progress m m') :
      Settled m (.error .debuggerRequested, m')
  | exited {m' : Machine} (htrap : m.trap? = some .normalExit) (h : Progress m m')
      (hhalted : m'.halted = true) : Settled m (.error .normalExit, m')

theorem settled_stepOrBreak (hbudget : m.budget = n + 1)
    (hbreak : m.trap? = some .debuggerRequested → m.debugging = true) :
    Settled m (stepOrBreak.effect m) := by
  have htrap : ({ m with budget := n } : Machine).trap? = m.trap? := rfl
  have hminor := (cycleOnce_cases { m with budget := n }).2
  cases hat : m.trap? with
  | some f =>
      have hcycle := cycleOnce_of_trap (htrap.trans hat)
      have hprogress := progress_of_cycleOnce hbudget hcycle
      rw [stepOrBreak_of_error hbudget hcycle]
      rcases trap?_cases hat with rfl | rfl
      · rw [settle_breakpoint (hprogress.debugging.trans (hbreak hat))]
        exact .broke hat hprogress
      · rw [settle_exit]
        exact .exited hat hprogress.halt rfl
  | none =>
      generalize hout : cycleOnce.effect { m with budget := n } = out at hminor
      have hprogress := progress_of_cycleOnce hbudget hout
      obtain ⟨f | u, m₁⟩ := out
      · rw [stepOrBreak_of_error hbudget hout]
        rcases settle_minor (hminor hat f rfl) m₁ with hsettle | ⟨hf, hsettle⟩
        · rw [hsettle]
          exact .halted hat hprogress.halt rfl
        · rw [hsettle]
          exact .failed hat hprogress hf
      · rw [stepOrBreak_of_ok hbudget hout]
        exact .cycled hat hprogress hout

theorem stepOrBreak_inside (hdebugging : m.debugging = true) :
    ∃ r m', stepOrBreak.effect m = (r, m') ∧ r ≠ .ok true ∧ Stepped m (r.map fun _ => (), m') := by
  cases hbudget : m.budget with
  | zero =>
      refine ⟨.error .stepLimit, m, ?_, by simp, .limited hbudget⟩
      simp only [stepOrBreak, spend, effect_bind, effect_get, hbudget, effect_fail]
  | succ n =>
      have hsettled := settled_stepOrBreak hbudget fun _ => hdebugging
      generalize stepOrBreak.effect m = out at hsettled
      cases hsettled with
      | cycled htrap h _ => exact ⟨_, _, rfl, by simp, .worked htrap h⟩
      | halted htrap h _ => exact ⟨_, _, rfl, by simp, .worked htrap h⟩
      | failed htrap h hf => exact ⟨_, _, rfl, by simp, .failed htrap h hf⟩
      | broke htrap h => exact ⟨_, _, rfl, by simp, .broke htrap h⟩
      | exited htrap h hhalted => exact ⟨_, _, rfl, by simp, .exited htrap h hhalted⟩

theorem stepped_inside (hdebugging : m.debugging = true) : Stepped m (stepInside.effect m) := by
  obtain ⟨r, m', hstep, -, hstepped⟩ := stepOrBreak_inside hdebugging
  rw [stepInside, effect_bind, hstep]
  cases r <;> exact hstepped

theorem step_inside (hdebugging : m.debugging = true) : Emulator.step.effect m = stepInside.effect m := by
  obtain ⟨r, m', hstep, hr, -⟩ := stepOrBreak_inside hdebugging
  rw [Emulator.step, stepInside, effect_bind, effect_bind, hstep]
  cases r with
  | error f => rfl
  | ok b =>
      obtain rfl : b = false := by simpa using hr
      rfl

/-- What a session makes of the end of a run: a breakpoint brings it back to the next command. -/
def resumed : Except Fault Unit → Except Fault Unit
  | .error .debuggerRequested => .ok ()
  | r => r

/-- By so many steps one has failed, or the machine has halted. -/
def Stops (m : Machine) (k : Nat) : Prop :=
  (∃ f, ((Emulator.stepTimes k).effect m).1 = .error f) ∨ ((Emulator.stepTimes k).effect m).2.halted = true

/-- What stops a machine and where, after the least number of steps that does. Each of them is a step of
the session, and the last one is made by a machine that runs. -/
structure StopsWith (m : Machine) (k : Nat) (r : Except Fault Unit) (m' : Machine) : Prop where
  effect : (Emulator.stepTimes k).effect m = (r, m')
  stops : Stops m k
  least : ∀ j < k, ¬ Stops m j
  inside : ∀ j < k, ∀ m₁, (Emulator.stepTimes j).effect m = (.ok (), m₁) →
    Emulator.step.effect m₁ = stepInside.effect m₁
  last : ∃ j m₁, k = j + 1 ∧ (Emulator.stepTimes j).effect m = (.ok (), m₁) ∧ m₁.debugging = true ∧
    stepInside.effect m₁ = (r, m')
  budget : r ≠ .error .stepLimit → k + m'.budget = m.budget

theorem Stepped.cases {r : Except Fault Unit} (h : Stepped m (r, m')) :
    m.budget = 0 ∧ r = .error .stepLimit ∧ m' = m ∨ Progress m m' := by
  cases h with
  | limited hbudget => exact .inl ⟨hbudget, rfl, rfl⟩
  | worked _ h | failed _ h _ | broke _ h | exited _ h _ => exact .inr h

theorem Stepped.progress {r : Except Fault Unit} (h : Stepped m (r, m')) (hr : r ≠ .error .stepLimit) :
    Progress m m' := by
  rcases h.cases with ⟨-, hlimit, -⟩ | hprogress
  · exact absurd hlimit hr
  · exact hprogress

theorem not_stops_zero (hhalted : m.halted = false) : ¬ Stops m 0 := by
  rintro (⟨f, hf⟩ | h)
  · cases hf
  · rw [Emulator.stepTimes, effect_pure, hhalted] at h
    cases h

theorem StopsWith.first {r : Except Fault Unit} (hhalted : m.halted = false)
    (hdebugging : m.debugging = true)
    (hstep : stepInside.effect m = (r, m')) (hr : (∃ f, r = .error f) ∨ m'.halted = true) :
    StopsWith m 1 r m' := by
  have heffect : (Emulator.stepTimes 1).effect m = (r, m') := by
    rw [Emulator.stepTimes, effect_bind, step_inside hdebugging, hstep]
    cases r <;> rfl
  have hstepped := stepped_inside hdebugging
  rw [hstep] at hstepped
  refine ⟨heffect, ?_, ?_, ?_, ⟨0, m, rfl, rfl, hdebugging, hstep⟩, ?_⟩
  · rw [Stops, heffect]
    exact hr
  · intro j hj
    obtain rfl : j = 0 := by omega
    exact not_stops_zero hhalted
  · intro j hj m₁ hm₁
    obtain rfl : j = 0 := by omega
    cases hm₁
    exact step_inside hdebugging
  · intro hlimit
    have hbudget := (hstepped.progress hlimit).budget
    omega

theorem StopsWith.next {k : Nat} {r : Except Fault Unit} {m₁ : Machine} (hhalted : m.halted = false)
    (hdebugging : m.debugging = true) (hstep : stepInside.effect m = (.ok (), m₁))
    (h : StopsWith m₁ k r m') : StopsWith m (k + 1) r m' := by
  have hsucc (j : Nat) : (Emulator.stepTimes (j + 1)).effect m = (Emulator.stepTimes j).effect m₁ := by
    rw [Emulator.stepTimes, effect_bind_of_ok ((step_inside hdebugging).trans hstep)]
  have hstops (j : Nat) : Stops m (j + 1) ↔ Stops m₁ j := by rw [Stops, Stops, hsucc]
  have hstepped := stepped_inside hdebugging
  rw [hstep] at hstepped
  obtain ⟨i, m₂, rfl, hm₂, hlast⟩ := h.last
  refine ⟨(hsucc _).trans h.effect, (hstops _).mpr h.stops, ?_, ?_,
    ⟨i + 1, m₂, rfl, (hsucc i).trans hm₂, hlast⟩, ?_⟩
  · intro j hj
    cases j with
    | zero => exact not_stops_zero hhalted
    | succ j => exact fun hj' => h.least j (by omega) ((hstops j).mp hj')
  · intro j hj m₃ hm₃
    cases j with
    | zero =>
        cases hm₃
        exact step_inside hdebugging
    | succ j => exact h.inside j (by omega) m₃ ((hsucc j).symm.trans hm₃)
  · intro hlimit
    have hfirst := (hstepped.progress (by simp)).budget
    have hrest := h.budget hlimit
    omega

theorem untilHalted_stopsWith (hhalted : m.halted = false) (hdebugging : m.debugging = true)
    (hn : m.budget < n) :
    ∃ k r m', StopsWith m k r m' ∧ (untilHalted stepInside n).effect m = (r, m') := by
  -- The loop of a run stops where single steps do; the budget leaves it rounds enough.
  induction n generalizing m with
  | zero => omega
  | succ n ih =>
      have hstepped := stepped_inside hdebugging
      rw [untilHalted_of_running stepInside hhalted]
      generalize hout : stepInside.effect m = out at hstepped
      obtain ⟨f | u, m₁⟩ := out
      · exact ⟨1, .error f, m₁, .first hhalted hdebugging hout (.inl ⟨f, rfl⟩), effect_bind_of_error hout _⟩
      · have hprogress := hstepped.progress (by simp)
        have hbudget := hprogress.budget
        rw [effect_bind_of_ok hout]
        cases hm₁ : m₁.halted with
        | true =>
            exact ⟨1, .ok (), m₁, .first hhalted hdebugging hout (.inr hm₁),
              untilHalted_of_halted stepInside hm₁ (by omega)⟩
        | false =>
            obtain ⟨k, r, m', hstops, heffect⟩ :=
              ih hm₁ (hprogress.debugging.trans hdebugging) (by omega)
            exact ⟨k + 1, r, m', hstops.next hhalted hdebugging hout, heffect⟩

theorem StopsWith.stepped {k : Nat} {r : Except Fault Unit} (h : StopsWith m k r m') :
    ∃ j m₁, k = j + 1 ∧ (Emulator.stepTimes j).effect m = (.ok (), m₁) ∧ Stepped m₁ (r, m') := by
  obtain ⟨j, m₁, hk, hm₁, hdebugging, hstep⟩ := h.last
  exact ⟨j, m₁, hk, hm₁, hstep ▸ stepped_inside hdebugging⟩

theorem leave_effect (hhalted : m.halted = true) : leave.effect m = (.error .normalExit, m) := by
  have hleave : leave.effect m = (.error .normalExit, { m with halted := true }) := rfl
  rw [hleave, ← hhalted]

theorem runWith_stopsWith (hhalted : m.halted = false) (hdebugging : m.debugging = true) :
    ∃ k r m', StopsWith m k r m' ∧ (runWith stepInside).effect m = (r, m') := by
  obtain ⟨k, r, m', hstops, hloop⟩ := untilHalted_stopsWith hhalted hdebugging (Nat.lt_succ_self m.budget)
  refine ⟨k, r, m', hstops, ?_⟩
  rw [runWith, effect_bind_of_ok (effect_get m)]
  exact hloop

theorem continueRun_of_stopsWith {k : Nat} {r : Except Fault Unit} (h : StopsWith m k r m')
    (hrun : (runWith stepInside).effect m = (r, m')) : continueRun.effect m = (resumed r, m') := by
  obtain ⟨j, m₁, -, -, hlast⟩ := h.stepped
  rw [continueRun, effect_handle, hrun]
  cases hlast with
  | limited | worked | broke => rfl
  | exited _ _ hhalted => exact leave_effect hhalted
  | @failed _ f _ _ hf =>
      cases f with
      | normalExit | debuggerRequested => cases hf
      | _ => rfl

/-- Continuing is stepping until a step fails or the machine halts: it leaves what the least such number
of steps leaves, and meets the fault of the last one. -/
theorem continueRun_eq_stepTimes (hhalted : m.halted = false) (hdebugging : m.debugging = true) :
    ∃ k r m', StopsWith m k r m' ∧ (runWith stepInside).effect m = (r, m') ∧
      continueRun.effect m = (resumed r, m') := by
  obtain ⟨k, r, m', hstops, hrun⟩ := runWith_stopsWith hhalted hdebugging
  exact ⟨k, r, m', hstops, hrun, continueRun_of_stopsWith hstops hrun⟩

def breakingMachine : Machine :=
  { Emulator.loaded 0 [(0, ⟨"addi".toList, some [10, 0], some 5⟩), (4, ⟨"ebreak".toList, none, none⟩)]
      {} [] 3 with debugging := true }

theorem continueRun_breaking :
    ∃ m', (Emulator.stepTimes 2).effect breakingMachine = (.error .debuggerRequested, m') ∧
      continueRun.effect breakingMachine = (.ok (), m') ∧ (m'.regs.content 10).value = 5 ∧
      m'.cycle = 2 := by
  obtain ⟨k, r, m', hstops, -, hcontinue⟩ := continueRun_eq_stepTimes (m := breakingMachine) rfl rfl
  have hrunning : ¬ Stops breakingMachine 1 := by
    rintro (⟨f, hf⟩ | h)
    · cases hf
    · cases h
  have hsecond : Stops breakingMachine 2 := .inl ⟨.debuggerRequested, rfl⟩
  obtain rfl : k = 2 := by
    have hzero : k ≠ 0 := fun h => not_stops_zero rfl (h ▸ hstops.stops)
    have hone : k ≠ 1 := fun h => hrunning (h ▸ hstops.stops)
    have htwo : ¬ 2 < k := fun h => hstops.least 2 h hsecond
    omega
  have heffect := hstops.effect
  obtain rfl : .error .debuggerRequested = r := congrArg Prod.fst heffect
  obtain rfl : _ = m' := congrArg Prod.snd heffect
  exact ⟨_, rfl, hcontinue, rfl, rfl⟩

end Debugger

end RvToolkit
