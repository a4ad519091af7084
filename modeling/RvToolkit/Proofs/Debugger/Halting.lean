import RvToolkit.Proofs.Debugger.Commands

namespace RvToolkit.Debugger

open RvToolkit.Action Machine

variable {m m' : Machine} {l : Text} {ls : List Text}

/-- The registers, the program counter and the cycle are as they were. -/
structure Unmoved (m m' : Machine) : Prop where
  content : ∀ r, m'.regs.content r = m.regs.content r
  pc : m'.pc = m.pc
  cycle : m'.cycle = m.cycle

theorem Unmoved.trans {m₁ : Machine} (h : Unmoved m m₁) (h' : Unmoved m₁ m') : Unmoved m m' :=
  ⟨fun r => (h'.content r).trans (h.content r), h'.pc.trans h.pc, h'.cycle.trans h.cycle⟩

theorem unmoved_of_unmarked (h : unmarked m' = unmarked m) : Unmoved m m' := by
  have hcells : m'.regs.cells = m.regs.cells := congrArg (fun m => m.regs.cells) h
  exact ⟨RegisterFile.content_of_cells hcells, (congrArg Machine.pc h :), (congrArg Machine.cycle h :)⟩

def MakesStep (m : Machine) (l : Text) : Prop := words l = .ok ["n".toList] ∧ m.budget ≠ 0

/-- Among the lines that the session comes to is one that makes a step. -/
def ComesToStep (m : Machine) (ls : List Text) : Prop :=
  ∃ m' l ls', Reaches m ls m' (l :: ls') ∧ MakesStep m' l

theorem comesToStep_cons : ComesToStep m (l :: ls) ↔ MakesStep m l ∨
    ∃ m₁, (runLine l).effect { m with input := ls } = (.ok (), m₁) ∧ ComesToStep m₁ ls := by
  constructor
  · rintro ⟨m', l', ls', hreaches, hstep⟩
    cases hreaches with
    | refl => exact .inl hstep
    | line hline h => exact .inr ⟨_, hline, m', l', ls', h, hstep⟩
  · rintro (hstep | ⟨m₁, hline, m', l', ls', hreaches, hstep⟩)
    · exact ⟨m, l, ls, .refl m _, hstep⟩
    · exact ⟨m', l', ls', .line hline hreaches, hstep⟩

theorem not_comesToStep_nil : ¬ ComesToStep m [] := by
  rintro ⟨m', l, ls', hreaches, -⟩
  cases hreaches

theorem runLine_halted (hhalted : m.halted = true) (hdebugging : m.debugging = true) (l : Text) :
    ((runLine l).effect m).2.halted = true ∧
      (MakesStep m l ∧ ((runLine l).effect m).2.cycle = m.cycle + 1 ∨
        ¬ MakesStep m l ∧ Unmoved m ((runLine l).effect m).2) := by
  cases hwords : words l with
  | error c =>
      rw [runLine_unread hwords]
      refine ⟨hhalted, .inr ⟨fun h => ?_, unmoved_of_unmarked rfl⟩⟩
      cases hwords.symm.trans h.1
  | ok ws =>
      have hstep : MakesStep m l ↔ ws = ["n".toList] ∧ m.budget ≠ 0 := by simp [MakesStep, hwords]
      have hcommanded := commanded hdebugging ws
      rw [runLine_of_words hwords, hstep]
      generalize (runWords ws).effect m = out at hcommanded
      cases hcommanded with
      | inspected _ hws hm _ =>
          exact ⟨(congrArg Machine.halted hm).trans hhalted, .inr ⟨fun h => hws h.1, unmoved_of_unmarked hm⟩⟩
      | stepped h =>
          rcases h.cases with ⟨hbudget, -, rfl⟩ | hprogress
          · exact ⟨hhalted, .inr ⟨fun h => h.2 hbudget, unmoved_of_unmarked rfl⟩⟩
          · have hbudget := hprogress.budget
            exact ⟨hprogress.halted hhalted, .inl ⟨⟨rfl, by omega⟩, hprogress.cycle⟩⟩
      | rested => exact ⟨hhalted, .inr ⟨fun h => by simp at h, unmoved_of_unmarked rfl⟩⟩
      | continued hrunning _ => cases hhalted.symm.trans hrunning

theorem runLines_halted (hhalted : m.halted = true) (hdebugging : m.debugging = true) (ls : List Text) :
    ((runLines ls).effect m).2.halted = true ∧
      (ComesToStep m ls ∧ m.cycle < ((runLines ls).effect m).2.cycle ∨
        ¬ ComesToStep m ls ∧ Unmoved m ((runLines ls).effect m).2) := by
  -- The cycle only grows, so that no later line can undo a step.
  induction ls generalizing m with
  | nil => exact ⟨hhalted, .inr ⟨not_comesToStep_nil, unmoved_of_unmarked rfl⟩⟩
  | cons l ls ih =>
      obtain ⟨hm₁, hline⟩ := runLine_halted (m := { m with input := ls }) hhalted hdebugging l
      have hinside := debugging_runLine (m := { m with input := ls }) hdebugging l
      rw [comesToStep_cons, runLines_cons, effect_bind]
      generalize (runLine l).effect { m with input := ls } = out at hm₁ hline hinside
      obtain ⟨f | u, m₁⟩ := out
      · refine ⟨hm₁, ?_⟩
        rcases hline with ⟨hstep, hcycle⟩ | ⟨hstep, hunmoved⟩
        · exact .inl ⟨.inl hstep, Nat.lt_of_lt_of_eq (Nat.lt_succ_self m.cycle) hcycle.symm⟩
        · refine .inr ⟨?_, hunmoved.content, hunmoved.pc, hunmoved.cycle⟩
          rintro (h | ⟨_, h, -⟩)
          · exact hstep h
          · cases h
      · obtain ⟨hhalted', hrest⟩ := ih hm₁ hinside
        refine ⟨hhalted', ?_⟩
        dsimp only at hline hrest ⊢
        rcases hline with ⟨hstep, hcycle⟩ | ⟨hstep, hunmoved⟩
        · have hle : m₁.cycle ≤ ((runLines ls).effect m₁).2.cycle := by
            rcases hrest with ⟨-, hlt⟩ | ⟨-, h⟩
            · exact Nat.le_of_lt hlt
            · exact Nat.le_of_eq h.cycle.symm
          exact .inl ⟨.inl hstep, by omega⟩
        · have hfirst : Unmoved m m₁ := ⟨hunmoved.content, hunmoved.pc, hunmoved.cycle⟩
          rcases hrest with ⟨hcomes, hlt⟩ | ⟨hcomes, h⟩
          · exact .inl ⟨.inr ⟨m₁, rfl, hcomes⟩, hfirst.cycle ▸ hlt⟩
          · refine .inr ⟨?_, hfirst.trans h⟩
            rintro (h' | ⟨m₂, h', hcomes'⟩)
            · exact hstep h'
            · cases h'
              exact hcomes hcomes'

theorem run_halted (hhalted : m.halted = true) : Emulator.run.effect m = (.ok (), m) := by
  simp only [Emulator.run, runWith, untilHalted, effect_bind, effect_get, hhalted, ↓reduceIte, effect_note]

/-- A machine that has halted stays halted. A run does not touch it, and a session moves it if and only if
it comes to the command that makes a step. -/
theorem halted_unmoved_iff (hhalted : m.halted = true) :
    Emulator.run.effect m = (.ok (), m) ∧
      (m.debugging = true → ∀ ls, ((runLines ls).effect m).2.halted = true ∧
        (Unmoved m ((runLines ls).effect m).2 ↔ ¬ ComesToStep m ls)) := by
  refine ⟨run_halted hhalted, fun hdebugging ls => ?_⟩
  obtain ⟨hhalted', hlines⟩ := runLines_halted hhalted hdebugging ls
  refine ⟨hhalted', ?_⟩
  rcases hlines with ⟨hcomes, hlt⟩ | ⟨hcomes, hunmoved⟩
  · exact iff_of_false (fun h => Nat.ne_of_lt hlt h.cycle.symm) (not_not_intro hcomes)
  · exact iff_of_true hunmoved hcomes

def haltedMachine : Machine :=
  { Emulator.loaded 0 [(0, ⟨"addi".toList, some [1, 0], some 7⟩)] {} [] 3 with
    debugging := true, halted := true }

theorem haltedMachine_moves :
    Unmoved haltedMachine ((runLines ["c".toList, "ds".toList]).effect haltedMachine).2 ∧
      ¬ Unmoved haltedMachine ((runLines ["c".toList, "n".toList]).effect haltedMachine).2 ∧
      (((runLines ["c".toList, "n".toList]).effect haltedMachine).2.regs.content 1).value = 7 := by
  have hcontinue (ls : List Text) : (runLine "c".toList).effect { haltedMachine with input := ls } =
      (.ok (), { haltedMachine with input := ls }) := rfl
  have hsession := (halted_unmoved_iff (m := haltedMachine) rfl).2 rfl
  refine ⟨?_, ?_, rfl⟩
  · refine (hsession _).2.mpr ?_
    simp only [comesToStep_cons]
    rintro (⟨h, -⟩ | ⟨m₁, -, ⟨h, -⟩ | ⟨m₂, -, h⟩⟩)
    · cases h
    · cases h
    · exact not_comesToStep_nil h
  · intro h
    refine (hsession _).2.mp h ?_
    exact ⟨_, _, _, .line (hcontinue _) (.refl _ _), rfl, by decide⟩

end RvToolkit.Debugger
