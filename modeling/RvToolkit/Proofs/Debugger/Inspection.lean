import RvToolkit.Proofs.Debugger.Halting
import RvToolkit.Proofs.Debugger.Sessions

namespace RvToolkit.Debugger

open RvToolkit.Action Machine

variable {m m' : Machine} {l : Text} {ls ws : List Text}

/-- The first word of a line, if the line can be split into words and has one. -/
def firstWord? (l : Text) : Option Text := (words l).toOption.bind List.head?

/-- The machine after a command of this name that looks at it. The dump of the stack reads its pointer
and marks it; the other commands mark nothing. -/
def looked (name : Option Text) (m : Machine) : Machine :=
  if name = some "ds".toList then m.reading 2 else m

/-- What a run depends on is as it was. -/
structure Undisturbed (m m' : Machine) : Prop extends Unmoved m m' where
  halted : m'.halted = m.halted
  memory : m'.memory = m.memory

theorem Undisturbed.trans {m₁ : Machine} (h : Undisturbed m m₁) (h' : Undisturbed m₁ m') :
    Undisturbed m m' :=
  ⟨h.toUnmoved.trans h'.toUnmoved, h'.halted.trans h.halted, h'.memory.trans h.memory⟩

theorem undisturbed_looked (name : Option Text) (m : Machine) : Undisturbed m (looked name m) := by
  unfold looked
  split <;> exact ⟨⟨fun _ => rfl, rfl, rfl⟩, rfl, rfl⟩

theorem dumpStack_looked (m : Machine) : (dumpStack.effect m).2 = m.reading 2 := by
  have hsp : (onRegs (RegisterFile.readNamed "sp".toList true)).effect m =
      (.ok (m.regs.content 2), m.reading 2) := rfl
  rw [dumpStack, effect_bind_of_ok hsp]
  exact (keeps_onMemory (Memory.keeps_dump _) _).1

theorem runWords_looked (hcontinue : ws.head? ≠ some "c".toList) (hstep : ws.head? ≠ some "n".toList)
    (m : Machine) : ((runWords ws).effect m).2 = looked ws.head? m := by
  unfold looked
  split
  · next hstack =>
      obtain ⟨args, rfl⟩ := List.head?_eq_some_iff.mp hstack
      exact dumpStack_looked m
  · next hstack =>
      refine (keeps_runWords_of_head ?_ ?_ hstack m).1
      · rintro rfl
        exact hcontinue rfl
      · rintro rfl
        exact hstep rfl

theorem runLine_looked (hcontinue : firstWord? l ≠ some "c".toList) (hstep : firstWord? l ≠ some "n".toList)
    (m : Machine) : ((runLine l).effect m).2 = looked (firstWord? l) m := by
  unfold firstWord? at *
  cases hwords : words l with
  | error c =>
      rw [runLine_unread hwords]
      rfl
  | ok ws =>
      rw [hwords] at hcontinue hstep
      rw [runLine_of_words hwords]
      exact runWords_looked hcontinue hstep m

/-- Looking does not disturb. Whatever state the machine is in and whatever the line says, if its first
word is neither of the two commands that go on, the contents of the registers, the counter, the cycle, the
flag and the program are the same after it, be it answered, told to be wrong or refused with a report. -/
theorem runLine_undisturbed (m : Machine) (l : Text) (hcontinue : firstWord? l ≠ some "c".toList)
    (hstep : firstWord? l ≠ some "n".toList) :
    Undisturbed m ((runLine l).effect m).2 ∧ ((runLine l).effect m).2 = looked (firstWord? l) m := by
  have hlooked := runLine_looked hcontinue hstep m
  exact ⟨hlooked ▸ undisturbed_looked _ m, hlooked⟩

theorem runLine_undisturbed_prompted :
    let m := promptedMachine []
    (Undisturbed m ((runLine "ds c".toList).effect m).2 ∧
      ((runLine "ds c".toList).effect m).2.regs.lastRead = some "sp".toList) ∧
    (Undisturbed m ((runLine "dm 'z z'".toList).effect m).2 ∧
      ((runLine "dm 'z z'".toList).effect m).1 ≠ .ok ()) := by
  intro m
  obtain ⟨hstack, hmark⟩ := runLine_undisturbed m "ds c".toList (by decide) (by decide)
  obtain ⟨hmemory, -⟩ := runLine_undisturbed m "dm 'z z'".toList (by decide) (by decide)
  refine ⟨⟨hstack, hmark ▸ rfl⟩, hmemory, ?_⟩
  intro hok
  cases hok

theorem runLines_undisturbed (h : ∀ l ∈ ls, firstWord? l ≠ some "c".toList ∧ firstWord? l ≠ some "n".toList)
    (m : Machine) : Undisturbed m ((runLines ls).effect m).2 := by
  induction ls generalizing m with
  | nil => exact undisturbed_looked none m
  | cons l ls ih =>
      obtain ⟨⟨hcontinue, hstep⟩, hrest⟩ := List.forall_mem_cons.mp h
      have hinput : Undisturbed m { m with input := ls } := ⟨⟨fun _ => rfl, rfl, rfl⟩, rfl, rfl⟩
      have hline := hinput.trans (undisturbed_looked (firstWord? l) _)
      rw [← runLine_looked hcontinue hstep] at hline
      rw [runLines_cons, effect_bind]
      generalize (runLine l).effect { m with input := ls } = out at hline
      obtain ⟨f | u, m₁⟩ := out
      · exact hline
      · exact hline.trans (ih hrest m₁)

/-- A session in which one only looks gives the machine back as it was, whether it reads all its lines
or one of them ends the run. -/
theorem session_undisturbed
    (h : ∀ l ∈ m.input, firstWord? l ≠ some "c".toList ∧ firstWord? l ≠ some "n".toList) :
    Undisturbed m (session.effect m).2 := by
  cases hdebugging : m.debugging with
  | true =>
      rw [session, effect_bind_of_ok (effect_get m), if_pos hdebugging]
      exact undisturbed_looked none m
  | false =>
      have hlines := runLines_undisturbed h (opened m)
      rw [session_effect hdebugging]
      exact ⟨⟨hlines.content, hlines.pc, hlines.cycle⟩, hlines.halted, hlines.memory⟩

end RvToolkit.Debugger
