import RvToolkit.Proofs.Debugger.Stepping

namespace RvToolkit

def Fault.endsRun : Fault → Bool
  | .normalExit => false
  | f => f.isReported

theorem Fault.not_isOrdinary_of_endsRun {f : Fault} (h : f.endsRun = true) : f.isOrdinary = false := by
  cases f with
  | parse _ | unknownAssembly _ | unimplemented _ | invalidRegister _ | invalidAddress _ | numberFormat _
  | debuggerRequested => rfl
  | _ => cases h

theorem Immediate.isOrdinary_of_ofLiteral {t : Text} {f : Fault} (h : ofLiteral t = .error f) :
    f.isOrdinary = true := by
  unfold ofLiteral at h
  split at h <;> cases h
  rfl

theorem Immediate.endsRun_of_argument {t : Text} {f : Fault} (h : argument t = .error f) :
    f.endsRun = true := by
  unfold argument at h
  dsimp only at h
  split at h <;> cases h
  rfl

namespace Memory

open RvToolkit.Action

theorem keeps_fetch (addr : Address) : Keeps id (fun f => f.isOrdinary = true) (fetch addr) := by
  refine (keeps_note _ _).bind fun _ => keeps_get.bind fun m => ?_
  split
  · exact keeps_pure _
  · exact keeps_fail rfl

theorem keeps_isValid (addr : Address) : Keeps id (fun f => f.isOrdinary = true) (isValid addr) := by
  refine keeps_get.bind fun m => ?_
  have hrefuse (t : Text) : Keeps id (fun f => f.isOrdinary = true) (do
      note .error t
      return false : Action Memory Bool) := (keeps_note _ _).bind fun _ => keeps_pure _
  dsimp only
  split
  · exact hrefuse _
  · split
    · exact keeps_fail rfl
    · split
      · exact hrefuse _
      · split
        · exact keeps_fail rfl
        · split
          · exact hrefuse _
          · exact keeps_pure _

theorem keeps_dump (addr : Address) : Keeps id (fun f => f.isOrdinary = true) (dump addr) := by
  refine (keeps_isValid addr).bind fun valid => ?_
  split
  · refine (keeps_fetch _).bind fun ins => Keeps.bind (keeps_ofExcept ?_) fun _ => keeps_note _ _
    exact fun f => Instr.isOrdinary_of_render
  · exact keeps_pure ()

end Memory

namespace Debugger

open RvToolkit.Action Machine

variable {m m' : Machine} {f : Fault} {l : Text} {ws : List Text}

/-- Commands whose arguments a session refuses with a report. -/
inductive Refused : List Text → Prop where
  | noAddress : Refused ["dm".toList]
  | badAddress {addr : Text} {args : List Text} (h : ∀ a, Immediate.argument addr ≠ .ok a) :
      Refused ("dm".toList :: addr :: args)
  | beyondFamily {family first last : Text} {n : Nat} {l r : Int}
      (hsize : RegisterFile.familySize? family = some n) (hfirst : Immediate.ofLiteral first = .ok l)
      (hlast : Immediate.ofLiteral last = .ok r) (hlr : l < r) (hout : l < 0 ∨ n < r) :
      Refused ["d".toList, family, first, last]

def Complains (ws : List Text) (f : Fault) : Prop := f.isOrdinary = true ∨ f.endsRun = true ∧ Refused ws

/-- The machine without the marks on the registers last written and last read. -/
def unmarked (m : Machine) : Machine := { m with regs := { m.regs with lastSet := none, lastRead := none } }

section Inspection

theorem keeps_onMemory {α : Type} {P : Fault → Prop} {x : Action Memory α} (hx : Keeps id P x) :
    Keeps id P (onMemory x) := by
  refine hx.within fun mem m hmem => ?_
  cases (hmem : mem = m.memory)
  rfl

theorem keeps_onRegs {α : Type} {P : Fault → Prop} {x : Action RegisterFile α}
    (hx : Keeps RegisterFile.cells P x) : Keeps unmarked P (onRegs x) := by
  refine hx.within fun rf m hcells => ?_
  simp only [unmarked, hcells]

theorem keeps_help {υ : Type} {view : Machine → υ} {P : Fault → Prop} : Keeps view P help :=
  (keeps_note _ _).bind fun _ => keeps_forEach (fun _ => keeps_note _ _) helpLines

theorem keeps_showInstruction : Keeps id (fun f => f.isOrdinary = true) showInstruction := by
  refine keeps_get.bind fun m => (keeps_onMemory (Memory.keeps_fetch m.pc)).bind fun ins => ?_
  exact Keeps.bind (keeps_ofExcept fun f => Instr.isOrdinary_of_render) fun _ => keeps_note _ _

theorem keeps_dumpStack : Keeps unmarked (fun f => f.isOrdinary = true) dumpStack := by
  refine Keeps.bind (keeps_onRegs ?_) fun sp => (keeps_onMemory (Memory.keeps_dump _)).of_id unmarked
  refine (RegisterFile.keeps_readNamed "sp".toList true).mono ?_
  rintro f (hindex | ⟨r, hr⟩)
  · exact absurd hindex (RegisterFile.index_ne_error rfl f)
  · exact Register.isOrdinary_of_aliasOf hr

theorem keeps_dumpMemory (args : List Text) :
    Keeps id (Complains ("dm".toList :: args)) (dumpMemory args) := by
  cases args with
  | nil => exact keeps_fail (.inr ⟨rfl, .noAddress⟩)
  | cons addr args =>
      refine Keeps.ofExcept_bind ?_ fun a _ => (keeps_onMemory (Memory.keeps_dump _)).mono fun _ => .inl
      intro f hf
      refine .inr ⟨Immediate.endsRun_of_argument hf, .badAddress fun a ha => ?_⟩
      rw [hf] at ha
      cases ha

theorem keeps_dumpRegisters (args : List Text) :
    Keeps id (Complains ("d".toList :: args)) (dumpRegisters args) := by
  have hnever {ws : List Text} (f : Fault) (h : False) : Complains ws f := h.elim
  cases args with
  | nil => exact (RegisterFile.keeps_dump false).mono hnever
  | cons family args =>
      unfold dumpRegisters
      dsimp only
      split
      · exact keeps_note _ _
      · split
        · exact (RegisterFile.keeps_dumpFamily family).mono hnever
        · exact (RegisterFile.keeps_dumpNamed _).mono hnever
        · next first last =>
            refine Keeps.ofExcept_bind (fun f hf => .inl (Immediate.isOrdinary_of_ofLiteral hf)) fun l hl => ?_
            refine Keeps.ofExcept_bind (fun f hf => .inl (Immediate.isOrdinary_of_ofLiteral hf)) fun r hr => ?_
            refine (RegisterFile.keeps_dumpRange family l r).mono ?_
            rintro f ⟨n, i, hsize, hli, hir, hindex⟩
            have hbeyond : ¬ (0 ≤ i ∧ i < n) := fun hi =>
              RegisterFile.index_ne_error ((RegisterFile.isName_member_iff hsize i).mpr hi) f hindex
            obtain ⟨rfl, -⟩ := RegisterFile.index_eq_error_iff.mp hindex
            exact .inr ⟨rfl, .beyondFamily hsize hl hr (by omega) (by omega)⟩
        · exact keeps_note _ _

theorem keeps_withoutArgs {υ : Type} {view : Machine → υ} {name : String} {args : List Text}
    {x : Action Machine Unit} (hx : args = [] → Keeps view (Complains ws) x) :
    Keeps view (Complains ws) (withoutArgs name args x) := by
  cases args with
  | nil => exact hx rfl
  | cons a args => exact keeps_fail (.inl rfl)

theorem keeps_runWords_of_head (hcontinue : ws ≠ ["c".toList]) (hstep : ws ≠ ["n".toList])
    (hstack : ws.head? ≠ some "ds".toList) : Keeps id (Complains ws) (runWords ws) := by
  cases ws with
  | nil => exact keeps_pure ()
  | cons name args =>
      rw [runWords]
      cases hname : Command.ofName? name with
      | none =>
          refine (keeps_note _ _).bind fun _ => keeps_help.bind fun _ => ?_
          exact keeps_fail (.inl rfl)
      | some c =>
          have hmem := mem_of_lookup hname
          simp only [List.mem_cons, Prod.mk.injEq, List.not_mem_nil, or_false] at hmem
          rcases hmem with ⟨rfl, rfl⟩ | ⟨rfl, rfl⟩ | ⟨rfl, rfl⟩ | ⟨rfl, rfl⟩ | ⟨rfl, rfl⟩ | ⟨rfl, rfl⟩
          · exact keeps_withoutArgs fun _ => keeps_showInstruction.mono fun _ => .inl
          · exact keeps_withoutArgs fun hargs => absurd (hargs ▸ rfl) hcontinue
          · exact keeps_withoutArgs fun hargs => absurd (hargs ▸ rfl) hstep
          · refine (keeps_dumpRegisters args).within fun rf m hrf => ?_
            cases (hrf : rf = m.regs)
            rfl
          · exact absurd rfl hstack
          · exact keeps_dumpMemory args

theorem keeps_runWords (hcontinue : ws ≠ ["c".toList]) (hstep : ws ≠ ["n".toList]) :
    Keeps unmarked (Complains ws) (runWords ws) := by
  -- Where the stack is dumped, its pointer is marked as read.
  by_cases hstack : ws.head? = some "ds".toList
  · obtain ⟨args, rfl⟩ := List.head?_eq_some_iff.mp hstack
    exact keeps_dumpStack.mono fun _ => .inl
  · exact (keeps_runWords_of_head hcontinue hstep hstack).of_id unmarked

end Inspection

theorem stepOnce_effect (hdebugging : m.debugging = true) : stepOnce.effect m = stepInside.effect m := by
  have hstepped := stepped_inside hdebugging
  rw [stepOnce, effect_handle]
  generalize stepInside.effect m = out at hstepped
  cases hstepped with
  | limited | worked | broke => rfl
  | exited _ _ hhalted => exact leave_effect hhalted
  | @failed _ f _ _ hf =>
      cases f with
      | normalExit => cases hf
      | _ => rfl

theorem continueRun_halted (hhalted : m.halted = true) : continueRun.effect m = (.ok (), m) := by
  simp only [continueRun, runWith, untilHalted, effect_handle, effect_bind, effect_get, hhalted, ↓reduceIte,
    effect_note]

/-- What a command can leave: the machine as it was, the marks apart, or after a step, or where
continuing stops. -/
inductive Commanded (m : Machine) : List Text → Except Fault Unit × Machine → Prop where
  | inspected {ws : List Text} {r : Except Fault Unit} {m' : Machine} (hcontinue : ws ≠ ["c".toList])
      (hstep : ws ≠ ["n".toList]) (hm : unmarked m' = unmarked m) (hr : ∀ f, r = .error f → Complains ws f) :
      Commanded m ws (r, m')
  | stepped {r : Except Fault Unit} {m' : Machine} (h : Stepped m (r, m')) :
      Commanded m ["n".toList] (r, m')
  | rested (hhalted : m.halted = true) : Commanded m ["c".toList] (.ok (), m)
  | continued {k : Nat} {r : Except Fault Unit} {m' : Machine} (hhalted : m.halted = false)
      (h : StopsWith m k r m') : Commanded m ["c".toList] (resumed r, m')

theorem commanded (hdebugging : m.debugging = true) (ws : List Text) :
    Commanded m ws ((runWords ws).effect m) := by
  by_cases hstep : ws = ["n".toList]
  · subst hstep
    have hrun : (runWords ["n".toList]).effect m = stepInside.effect m := stepOnce_effect hdebugging
    rw [hrun]
    exact .stepped (stepped_inside hdebugging)
  · by_cases hcontinue : ws = ["c".toList]
    · subst hcontinue
      have hrun : (runWords ["c".toList]).effect m = continueRun.effect m := rfl
      rw [hrun]
      cases hhalted : m.halted with
      | true =>
          rw [continueRun_halted hhalted]
          exact .rested hhalted
      | false =>
          obtain ⟨k, r, m', hstops, hrun⟩ := runWith_stopsWith hhalted hdebugging
          rw [continueRun_of_stopsWith hstops hrun]
          exact .continued hhalted hstops
    · have hkeeps := keeps_runWords hcontinue hstep m
      exact .inspected hcontinue hstep hkeeps.1 hkeeps.2

theorem Commanded.debugging {r : Except Fault Unit} (hdebugging : m.debugging = true)
    (h : Commanded m ws (r, m')) : m'.debugging = true := by
  have hstepped {m₁ : Machine} (hm₁ : m₁.debugging = true) {r : Except Fault Unit}
      (h : Stepped m₁ (r, m')) : m'.debugging = true := by
    rcases h.cases with ⟨-, -, rfl⟩ | hprogress
    · exact hm₁
    · exact hprogress.debugging.trans hm₁
  cases h with
  | inspected _ _ hm _ => exact (congrArg Machine.debugging hm).trans hdebugging
  | stepped h => exact hstepped hdebugging h
  | rested _ => exact hdebugging
  | continued _ h =>
      obtain ⟨j, m₁, -, -, hm₁, hlast⟩ := h.last
      exact hstepped hm₁ (hlast ▸ stepped_inside hm₁)

/-- What a command line makes of the result of its command: ordinary conditions are told. -/
def told : Except Fault Unit → Except Fault Unit
  | .ok () => .ok ()
  | .error f => if f.isOrdinary then .ok () else .error f

theorem runLine_of_words (h : words l = .ok ws) (m : Machine) :
    (runLine l).effect m = (told ((runWords ws).effect m).1, ((runWords ws).effect m).2) := by
  rw [runLine, effect_handle, h]
  obtain ⟨f | u, m'⟩ := (runWords ws).effect m
  · cases hf : f.isOrdinary <;> simp [told, hf]
  · rfl

theorem runLine_unread {c : ValueCause} (h : words l = .error c) (m : Machine) :
    (runLine l).effect m = (.ok (), m) := by
  rw [runLine, effect_handle, h]
  rfl

theorem debugging_runLine (hdebugging : m.debugging = true) (l : Text) :
    ((runLine l).effect m).2.debugging = true := by
  cases hwords : words l with
  | error c => rwa [runLine_unread hwords]
  | ok ws =>
      rw [runLine_of_words hwords]
      exact (commanded hdebugging ws).debugging hdebugging

/-- A session that has answered the lines in between stands at a machine with these lines left. -/
inductive Reaches : Machine → List Text → Machine → List Text → Prop where
  | refl (m : Machine) (ls : List Text) : Reaches m ls m ls
  | line {m m₁ m' : Machine} {l : Text} {ls ls' : List Text}
      (hline : (runLine l).effect { m with input := ls } = (.ok (), m₁)) (h : Reaches m₁ ls m' ls') :
      Reaches m (l :: ls) m' ls'

theorem runLines_cons (l : Text) (ls : List Text) (m : Machine) :
    (runLines (l :: ls)).effect m = (runLine l >>= fun _ => runLines ls).effect { m with input := ls } := by
  rw [runLines, effect_bind, effect_modify]

theorem Reaches.runLines_eq {ls ls' : List Text} (h : Reaches m ls m' ls') :
    (runLines ls).effect m = (runLines ls').effect m' := by
  induction h with
  | refl => rfl
  | line hline _ ih => rw [runLines_cons, effect_bind_of_ok hline, ih]

theorem Reaches.debugging {ls ls' : List Text} (h : Reaches m ls m' ls') (hdebugging : m.debugging = true) :
    m'.debugging = true := by
  induction h with
  | refl => exact hdebugging
  | @line m m₁ m' l ls ls' hline _ ih =>
      have hm₁ := debugging_runLine (m := { m with input := ls }) hdebugging l
      rw [hline] at hm₁
      exact ih hm₁

end Debugger

end RvToolkit
