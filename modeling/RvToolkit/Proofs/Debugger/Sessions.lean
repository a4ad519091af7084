import RvToolkit.Proofs.Debugger.Commands

namespace RvToolkit

namespace Emulator

open RvToolkit.Action Machine

variable {m m₁ m' : Machine} {f : Fault}

theorem stepTimes_succ_of_error {j : Nat} (hsteps : (stepTimes j).effect m = (.ok (), m₁))
    (hstep : step.effect m₁ = (.error f, m')) : (stepTimes (j + 1)).effect m = (.error f, m') := by
  induction j generalizing m with
  | zero =>
      cases hsteps
      exact effect_bind_of_error hstep _
  | succ j ih =>
      obtain ⟨u, m₂, hfirst, hrest⟩ := effect_bind_eq_ok.mp hsteps
      rw [stepTimes, effect_bind_of_ok hfirst]
      exact ih hrest

theorem step_of_exit (hbudget : m.budget ≠ 0) (htrap : m.trap? = some .normalExit) :
    ∃ m', step.effect m = (.error .normalExit, m') := by
  obtain ⟨n, hn⟩ := Nat.exists_eq_succ_of_ne_zero hbudget
  have hcycle : cycleOnce.effect { m with budget := n } = (.error .normalExit, _) := cycleOnce_of_trap htrap
  have hstep := (Debugger.stepOrBreak_of_error hn hcycle).trans (settle_exit _)
  exact ⟨_, effect_bind_of_error hstep _⟩

end Emulator

namespace Debugger

open RvToolkit.Action Machine

variable {m m' : Machine} {f : Fault} {l : Text} {ws : List Text}

/-- Commands that end the whole run: refused ones, and a step into a breakpoint. -/
inductive Fatal (m : Machine) : List Text → Prop where
  | refused {ws : List Text} (h : Refused ws) : Fatal m ws
  | breakpoint (hbudget : m.budget ≠ 0) (htrap : m.trap? = some .debuggerRequested) :
      Fatal m ["n".toList]

/-- Commands with which the program exits. -/
inductive Exits (m : Machine) : List Text → Prop where
  | step (hbudget : m.budget ≠ 0) (htrap : m.trap? = some .normalExit) : Exits m ["n".toList]
  | resume {j : Nat} {m₁ : Machine} (hsteps : (Emulator.stepTimes j).effect m = (.ok (), m₁))
      (hrunning : ∀ i ≤ j, ¬ Stops m i) (hbudget : m₁.budget ≠ 0) (htrap : m₁.trap? = some .normalExit) :
      Exits m ["c".toList]

section Commands

theorem Stepped.eq_of_trap {r : Except Fault Unit} (h : Stepped m (r, m')) (hbudget : m.budget ≠ 0)
    (htrap : m.trap? = some f) : r = .error f := by
  cases h with
  | limited h => exact absurd h hbudget
  | worked hnone _ | failed hnone _ _ => cases hnone.symm.trans htrap
  | broke h _ | exited h _ _ =>
      cases h.symm.trans htrap
      rfl

theorem runWords_step_of_trap (hdebugging : m.debugging = true) (hbudget : m.budget ≠ 0)
    (htrap : m.trap? = some f) : ((runWords ["n".toList]).effect m).1 = .error f := by
  have hrun : (runWords ["n".toList]).effect m = stepInside.effect m := stepOnce_effect hdebugging
  rw [hrun]
  exact (stepped_inside hdebugging).eq_of_trap hbudget htrap

theorem runWords_of_refused (h : Refused ws) (m : Machine) :
    ∃ f, f.endsRun = true ∧ ((runWords ws).effect m).1 = .error f := by
  cases h with
  | noAddress => exact ⟨_, rfl, rfl⟩
  | @badAddress addr args h =>
      cases harg : Immediate.argument addr with
      | ok a => exact absurd harg (h a)
      | error f =>
          have hrun : (runWords ("dm".toList :: addr :: args)).effect m =
              (dumpMemory (addr :: args)).effect m := rfl
          refine ⟨f, Immediate.endsRun_of_argument harg, ?_⟩
          rw [hrun, dumpMemory, harg]
          rfl
  | @beyondFamily family first last n l r hsize hfirst hlast hlr hout =>
      obtain ⟨name, hname⟩ := RegisterFile.dumpRange_beyond hsize hlr hout m.regs
      have hdump : (dumpRegisters [family, first, last]).effect m.regs =
          (.error (.invalidRegister (.text name)), m.regs) := by
        simp only [dumpRegisters, hsize, Option.isNone_some, Bool.false_eq_true, ↓reduceIte, effect_bind,
          effect_ofExcept, hfirst, hlast, hname]
      have hrun : (runWords ["d".toList, family, first, last]).effect m =
          (onRegs (dumpRegisters [family, first, last])).effect m := rfl
      refine ⟨.invalidRegister (.text name), rfl, ?_⟩
      rw [hrun, onRegs, effect_within, hdump]

theorem runWords_of_fatal (hdebugging : m.debugging = true) (h : Fatal m ws) :
    ∃ f, f.endsRun = true ∧ ((runWords ws).effect m).1 = .error f := by
  cases h with
  | refused h => exact runWords_of_refused h m
  | breakpoint hbudget htrap => exact ⟨_, rfl, runWords_step_of_trap hdebugging hbudget htrap⟩

theorem runWords_of_exits (hdebugging : m.debugging = true) (h : Exits m ws) :
    ((runWords ws).effect m).1 = .error .normalExit := by
  cases h with
  | step hbudget htrap => exact runWords_step_of_trap hdebugging hbudget htrap
  | @resume j m₁ hsteps hrunning hbudget htrap =>
      have hhalted : m.halted = false := by
        cases hm : m.halted with
        | true => exact absurd (.inr hm) (hrunning 0 (Nat.zero_le j))
        | false => rfl
      obtain ⟨k, r, m', hstops, hrun⟩ := runWith_stopsWith hhalted hdebugging
      obtain ⟨m₂, hexit⟩ := Emulator.step_of_exit hbudget htrap
      have hlast := Emulator.stepTimes_succ_of_error hsteps hexit
      -- the exit is the first thing that stops the machine
      obtain rfl : k = j + 1 := by
        have hnext : Stops m (j + 1) := .inl ⟨.normalExit, by rw [hlast]⟩
        have hlower : ¬ k ≤ j := fun h => hrunning k h hstops.stops
        have hupper : ¬ j + 1 < k := fun h => hstops.least (j + 1) h hnext
        omega
      cases hlast.symm.trans hstops.effect
      have hcontinue : (runWords ["c".toList]).effect m = continueRun.effect m := rfl
      rw [hcontinue, continueRun_of_stopsWith hstops hrun]
      rfl

theorem StopsWith.exits {k : Nat} (h : StopsWith m k (.error .normalExit) m') : Exits m ["c".toList] := by
  obtain ⟨j, m₁, rfl, hsteps, hstepped⟩ := h.stepped
  cases hstepped with
  | failed _ _ hf => cases hf
  | exited htrap hprogress _ =>
      have hbudget := hprogress.budget
      exact .resume hsteps (fun i hi => h.least i (by omega)) (by omega) htrap

theorem Commanded.fault {r : Except Fault Unit} (h : Commanded m ws (r, m')) (hr : r = .error f) :
    f.isOrdinary = true ∨ f.endsRun = true ∧ Fatal m ws ∨ f = .normalExit ∧ Exits m ws ∨
      f = .stepLimit ∧ m'.budget = 0 := by
  cases h with
  | inspected _ _ _ h =>
      rcases h f hr with hordinary | ⟨hends, hrefused⟩
      · exact .inl hordinary
      · exact .inr (.inl ⟨hends, .refused hrefused⟩)
  | stepped h =>
      cases h with
      | limited hbudget =>
          cases hr
          exact .inr (.inr (.inr ⟨rfl, hbudget⟩))
      | worked => cases hr
      | failed _ _ hf =>
          cases hr
          exact .inl hf
      | broke htrap hprogress =>
          cases hr
          have hbudget := hprogress.budget
          exact .inr (.inl ⟨rfl, .breakpoint (by omega) htrap⟩)
      | exited htrap hprogress _ =>
          cases hr
          have hbudget := hprogress.budget
          exact .inr (.inr (.inl ⟨rfl, .step (by omega) htrap⟩))
  | rested => cases hr
  | continued _ h =>
      obtain ⟨j, m₁, -, -, hstepped⟩ := h.stepped
      cases hstepped with
      | limited hbudget =>
          cases hr
          exact .inr (.inr (.inr ⟨rfl, hbudget⟩))
      | worked | broke => cases hr
      | @failed _ f' _ _ hf =>
          cases f' with
          | debuggerRequested => cases hf
          | _ =>
              cases hr
              exact .inl hf
      | exited =>
          cases hr
          exact .inr (.inr (.inl ⟨rfl, h.exits⟩))

end Commands

section Lines

theorem told_of_not_isOrdinary (hf : f.isOrdinary = false) : told (.error f) = .error f := by
  rw [told, hf]
  rfl

theorem runLine_of_error (hwords : words l = .ok ws) (hf : f.isOrdinary = false)
    (h : ((runWords ws).effect m).1 = .error f) : ((runLine l).effect m).1 = .error f := by
  rw [runLine_of_words hwords, h]
  exact told_of_not_isOrdinary hf

theorem runLine_fault (hdebugging : m.debugging = true) (h : (runLine l).effect m = (.error f, m')) :
    ∃ ws, words l = .ok ws ∧ (f.endsRun = true ∧ Fatal m ws ∨ f = .normalExit ∧ Exits m ws ∨
      f = .stepLimit ∧ m'.budget = 0) := by
  cases hwords : words l with
  | error c =>
      rw [runLine_unread hwords] at h
      cases h
  | ok ws =>
      refine ⟨ws, rfl, ?_⟩
      have hcommanded := commanded hdebugging ws
      rw [runLine_of_words hwords] at h
      generalize (runWords ws).effect m = out at h hcommanded
      obtain ⟨f' | u, m₁⟩ := out
      · cases hordinary : f'.isOrdinary with
        | true => simp [told, hordinary] at h
        | false =>
            rw [told_of_not_isOrdinary hordinary] at h
            cases h
            rcases hcommanded.fault rfl with hf | hfault
            · cases hf.symm.trans hordinary
            · exact hfault
      · cases h

theorem runLines_cases (ls : List Text) (m : Machine) :
    (∃ m', Reaches m ls m' []) ∨
      ∃ m₁ l ls' f m', Reaches m ls m₁ (l :: ls') ∧
        (runLine l).effect { m₁ with input := ls' } = (.error f, m') ∧
        (runLines ls).effect m = (.error f, m') := by
  induction ls generalizing m with
  | nil => exact .inl ⟨m, .refl m []⟩
  | cons l ls ih =>
      rcases hline : (runLine l).effect { m with input := ls } with ⟨f | u, m₁⟩
      · refine .inr ⟨m, l, ls, f, m₁, .refl m _, hline, ?_⟩
        rw [runLines_cons, effect_bind_of_error hline]
      · rcases ih m₁ with ⟨m', hreaches⟩ | ⟨m₂, l', ls', f, m', hreaches, hfails, hruns⟩
        · exact .inl ⟨m', .line hline hreaches⟩
        · refine .inr ⟨m₂, l', ls', f, m', .line hline hreaches, hfails, ?_⟩
          rw [runLines_cons, effect_bind_of_ok hline, hruns]

theorem Reaches.runLines_of_error {ls ls' : List Text} (h : Reaches m ls m' (l :: ls'))
    (hline : ((runLine l).effect { m' with input := ls' }).1 = .error f) :
    ((runLines ls).effect m).1 = .error f := by
  rw [h.runLines_eq, runLines_cons, effect_bind]
  generalize (runLine l).effect { m' with input := ls' } = out at hline
  obtain ⟨r, m₁⟩ := out
  cases hline
  rfl

end Lines

section Ends

def opened (m : Machine) : Machine := { m with debugging := true }

/-- What a session makes of the result of its lines. -/
def closed : Except Fault Unit → Except Fault Unit
  | .ok () => .ok ()
  | .error .normalExit => .ok ()
  | .error f => if f.isReported then .error (.exit (-1)) else .error f

theorem closed_of_endsRun (h : f.endsRun = true) : closed (.error f) = .error (.exit (-1)) := by
  cases f with
  | parse _ | unknownAssembly _ | unimplemented _ | invalidRegister _ | invalidAddress _ | numberFormat _
  | debuggerRequested => rfl
  | _ => cases h

theorem session_effect (hdebugging : m.debugging = false) :
    session.effect m = (closed ((runLines m.input).effect (opened m)).1,
      { ((runLines m.input).effect (opened m)).2 with debugging := false }) := by
  have hopen : (set { m with debugging := true }).effect m = (.ok (), opened m) := rfl
  have hhelp : help.effect (opened m) = (.ok (), opened m) := rfl
  rw [session, effect_bind_of_ok (effect_get m), hdebugging, if_neg Bool.false_ne_true,
    effect_bind_of_ok hopen, effect_ensure, effect_bind_of_ok hhelp, effect_handle]
  obtain ⟨f | u, m'⟩ := (runLines m.input).effect (opened m)
  · cases f <;> rfl
  · rfl

/-- The session reads its input to the end. -/
def ReadsAll (m : Machine) : Prop := ∃ m', Reaches (opened m) m.input m' []

/-- The session comes to a command of this kind. -/
def Meets (m : Machine) (kind : Machine → List Text → Prop) : Prop :=
  ∃ m' l ls ws, Reaches (opened m) m.input m' (l :: ls) ∧ words l = .ok ws ∧
    kind { m' with input := ls } ws

theorem session_readsAll (hdebugging : m.debugging = false) (h : ReadsAll m) :
    (session.effect m).1 = .ok () := by
  obtain ⟨m', hreaches⟩ := h
  rw [session_effect hdebugging, hreaches.runLines_eq]
  rfl

theorem session_meets_fatal (hdebugging : m.debugging = false) (h : Meets m Fatal) :
    (session.effect m).1 = .error (.exit (-1)) := by
  obtain ⟨m', l, ls, ws, hreaches, hwords, hfatal⟩ := h
  have hinside : ({ m' with input := ls } : Machine).debugging = true := hreaches.debugging rfl
  obtain ⟨f, hends, hrun⟩ := runWords_of_fatal hinside hfatal
  have hline := runLine_of_error hwords (Fault.not_isOrdinary_of_endsRun hends) hrun
  rw [session_effect hdebugging, hreaches.runLines_of_error hline]
  exact closed_of_endsRun hends

theorem session_meets_exits (hdebugging : m.debugging = false) (h : Meets m Exits) :
    (session.effect m).1 = .ok () := by
  obtain ⟨m', l, ls, ws, hreaches, hwords, hexits⟩ := h
  have hinside : ({ m' with input := ls } : Machine).debugging = true := hreaches.debugging rfl
  have hline := runLine_of_error hwords rfl (runWords_of_exits hinside hexits)
  rw [session_effect hdebugging, hreaches.runLines_of_error hline]
  rfl

theorem session_cases (hdebugging : m.debugging = false) :
    ReadsAll m ∨ Meets m Fatal ∨ Meets m Exits ∨
      (session.effect m).1 = .error .stepLimit ∧ (session.effect m).2.budget = 0 := by
  rcases runLines_cases m.input (opened m) with hall | ⟨m₁, l, ls, f, m', hreaches, hline, hruns⟩
  · exact .inl hall
  · have hinside : ({ m₁ with input := ls } : Machine).debugging = true := hreaches.debugging rfl
    obtain ⟨ws, hwords, hfault⟩ := runLine_fault hinside hline
    rcases hfault with ⟨-, hfatal⟩ | ⟨-, hexits⟩ | ⟨rfl, hbudget⟩
    · exact .inr (.inl ⟨m₁, l, ls, ws, hreaches, hwords, hfatal⟩)
    · exact .inr (.inr (.inl ⟨m₁, l, ls, ws, hreaches, hwords, hexits⟩))
    · rw [session_effect hdebugging, hruns]
      exact .inr (.inr (.inr ⟨rfl, hbudget⟩))

/-- A session ends the whole run if and only if it comes to a command whose arguments it refuses or that
steps into a breakpoint. Otherwise it returns, after its last line or when the program exits, as long as
the budget allows the steps. -/
theorem session_ends_iff (hdebugging : m.debugging = false) :
    ((session.effect m).1 = .error (.exit (-1)) ↔ Meets m Fatal) ∧
      ((session.effect m).1 = .ok () ↔ ReadsAll m ∨ Meets m Exits) ∧
      ∀ f, (session.effect m).1 = .error f →
        f = .exit (-1) ∨ f = .stepLimit ∧ (session.effect m).2.budget = 0 := by
  have hfatal := session_meets_fatal (m := m) hdebugging
  have hexits := session_meets_exits (m := m) hdebugging
  have hall := session_readsAll (m := m) hdebugging
  rcases session_cases hdebugging with h | h | h | ⟨hlimit, hbudget⟩
  · refine ⟨⟨fun h' => ?_, hfatal⟩, iff_of_true (hall h) (.inl h), fun f hf => ?_⟩
    · cases (hall h).symm.trans h'
    · cases (hall h).symm.trans hf
  · refine ⟨iff_of_true (hfatal h) h, ⟨fun h' => ?_, fun h' => h'.elim hall hexits⟩, fun f hf => ?_⟩
    · cases (hfatal h).symm.trans h'
    · cases (hfatal h).symm.trans hf
      exact .inl rfl
  · refine ⟨⟨fun h' => ?_, hfatal⟩, iff_of_true (hexits h) (.inr h), fun f hf => ?_⟩
    · cases (hexits h).symm.trans h'
    · cases (hexits h).symm.trans hf
  · refine ⟨⟨fun h' => ?_, hfatal⟩, ⟨fun h' => ?_, fun h' => h'.elim hall hexits⟩, fun f hf => ?_⟩
    · cases hlimit.symm.trans h'
    · cases hlimit.symm.trans h'
    · cases hlimit.symm.trans hf
      exact .inr ⟨rfl, hbudget⟩

def promptedMachine (input : List Text) : Machine :=
  Emulator.loaded 0 [(0, ⟨"ebreak".toList, none, none⟩)] {} input 3

/-- An unknown command is told and the session goes on, but a malformed address or a step into the
breakpoint ends the run. -/
theorem session_promptedMachine :
    (session.effect (promptedMachine ["help".toList])).1 = .ok () ∧
      (session.effect (promptedMachine ["help".toList, "dm zz".toList])).1 = .error (.exit (-1)) ∧
      (session.effect (promptedMachine ["help".toList, "n".toList])).1 = .error (.exit (-1)) := by
  have hhelp (ls : List Text) (m : Machine) : (runLine "help".toList).effect { m with input := ls } =
      (.ok (), { m with input := ls }) := rfl
  refine ⟨?_, ?_, ?_⟩
  · exact (session_ends_iff rfl).2.1.mpr (.inl ⟨_, .line (hhelp _ _) (.refl _ _)⟩)
  · refine (session_ends_iff rfl).1.mpr ⟨_, _, _, _, .line (hhelp _ _) (.refl _ _), rfl, ?_⟩
    refine .refused (.badAddress fun a ha => ?_)
    cases ha
  · refine (session_ends_iff rfl).1.mpr ⟨_, _, _, _, .line (hhelp _ _) (.refl _ _), rfl, ?_⟩
    exact .breakpoint (by decide) rfl

end Ends

end Debugger

end RvToolkit
