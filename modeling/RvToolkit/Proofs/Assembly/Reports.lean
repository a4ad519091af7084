import RvToolkit.Proofs.Assembly.Expansion
import RvToolkit.Proofs.Assembly.Link
import RvToolkit.Proofs.Instruction.Misreading

namespace RvToolkit

namespace Assembly

section Escapes

variable [Evaluator] {st : SymbolTable} {pc : Int} {e : Fault}

/-- A value that cannot be written as a distance from an address. -/
inductive Unwritten (pc : Int) (v : Value) : Fault → Prop where
  | distance {e : Fault} (hword : ∀ w, v ≠ .word w) (hsub : Evaluator.Uncombined .sub v pc e) : Unwritten pc v e

/-- A text with a symbol that cannot be written, once the symbols before it have been. -/
inductive Unlinked (pc : Int) (st : SymbolTable) (t : Text) : Fault → Prop where
  | symbol {before after : SymbolTable} {name u : Text} {v : Value} {e : Fault}
      (hst : st = before ++ (name, v) :: after) (hlink : before.link pc t = .ok u)
      (hoccurs : Text.occurs name u = true) (hwritten : Unwritten pc v e) : Unlinked pc st t e

/-- An operand with a symbol that cannot be written, or one that becomes the name of a register with a line
break behind it. -/
inductive MisreadOperand (st : SymbolTable) (pc : Int) (t : Text) : Fault → Prop where
  | symbol {e : Fault} (hunlinked : Unlinked pc st t e) : MisreadOperand st pc t e
  | register {u : Text} {e : Fault} (hlink : st.link pc t = .ok u) (hunlisted : Register.Unlisted u e) :
      MisreadOperand st pc t e

theorem MisreadOperand.stray_or_raised {t : Text} (h : MisreadOperand st pc t e) :
    e.isStray = true ∨ Evaluator.Raises e := by
  cases h with
  | symbol hunlinked =>
      obtain ⟨-, -, -, ⟨-, hsub⟩⟩ := hunlinked
      exact hsub.stray_or_raised
  | register _ hunlisted =>
      cases hunlisted
      exact .inl rfl

/-- A line that cannot be encoded at an address, for a reason that is not reported. -/
inductive MisreadLine (st : SymbolTable) (pc : Int) (line : Text) : Fault → Prop where
  | blank (htokens : tokens line = []) : MisreadLine st pc line .missingItem
  | operand {op t : Text} {before after : List Text} {e : Fault}
      (htokens : tokens line = op :: (before ++ t :: after))
      (hbefore : ∀ u ∈ before, ∃ v, resolveOperand st pc u = .ok v) (hmisread : MisreadOperand st pc t e) :
      MisreadLine st pc line e
  | instruction {op : Text} {args resolved : List Text} {f : Format} {e : Fault}
      (htokens : tokens line = op :: args) (hargs : args.mapM (resolveOperand st pc) = .ok resolved)
      (hformat : Isa.base.format? op = some f) (hmisread : Instruction.Misread op f resolved e) :
      MisreadLine st pc line e

theorem MisreadLine.stray_or_raised {line : Text} (h : MisreadLine st pc line e) :
    e.isStray = true ∨ Evaluator.Raises e := by
  cases h with
  | blank => exact .inl rfl
  | operand _ _ hmisread => exact hmisread.stray_or_raised
  | instruction _ _ _ hmisread => exact hmisread.stray_or_raised

/-- Texts that come to a fault which is not reported: reading comes to a halt at a line, or the first line
that cannot be encoded is misread. -/
inductive Unreported (text : Text) (base : Int) : Fault → Prop where
  | halted {before after : List Text} {line : Text} {r : Reader} {a : Assembly} {e : Fault}
      (hlines : Text.lines text = before ++ line :: after)
      (hbefore : (readLines 0 {} before).effect ⟨base, Text.lines text, [], [], [], [], []⟩ = (.ok r, a))
      (hhalts : StopsReading r a line e) : Unreported text base e
  | misread {a : Assembly} {before after : List Text} {line : Text} {cs : List Coded} {e : Fault}
      (hread : (read text).effect ⟨base, [], [], [], [], [], []⟩ = (.ok (), a))
      (hlines : a.mnemonics = before ++ line :: after) (hbefore : Encodes a.symbols a.base before cs)
      (hline : MisreadLine a.symbols (a.base + 4 * before.length) (Text.trim line) e) :
      Unreported text base e

theorem Unreported.stray_or_raised {text : Text} {base : Int} (h : Unreported text base e) :
    e.isStray = true ∨ Evaluator.Raises e := by
  cases h with
  | halted _ _ hhalts => exact hhalts.stray_or_raised
  | misread _ _ _ hline => exact hline.stray_or_raised

/-- Where the values of constants do not depend on the program, reading halts at code only if the code calls
a macro without lines. -/
theorem callsEmpty_of_stopsReading [Evaluator.Textual] {text code : Text} {base : Int}
    {before after : List Text}
    {line : Text} {r : Reader} {a : Assembly} (hlines : Text.lines text = before ++ line :: after)
    (hbefore : (readLines 0 {} before).effect ⟨base, Text.lines text, [], [], [], [], []⟩ = (.ok r, a))
    (hcode : Line.classify (withoutComment line) = .code code) (h : StopsReading r a line e) :
    CallsEmpty a.macros code := by
  have hline : ∀ l ∈ Text.lines text, '\n' ∉ l := fun l hl hc =>
    absurd (Text.isLineBreak_of_mem_lines hl _ hc) (by decide)
  rw [hlines, List.forall_mem_append, List.forall_mem_cons] at hline
  have hstart : Sound {} ⟨base, Text.lines text, [], [], [], [], []⟩ := ⟨by simp, by simp, by simp⟩
  exact (hstart.readLines hline.1 hbefore).callsEmpty hline.2.1 h hcode

end Escapes

section ShortLine

open scoped Evaluator.Arithmetic

end ShortLine

end Assembly

end RvToolkit
