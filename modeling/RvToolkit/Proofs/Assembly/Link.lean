import RvToolkit.Proofs.Assembly.Reading
import RvToolkit.Proofs.Assembly.Steps
import RvToolkit.Proofs.Instruction.RoundTrip

namespace RvToolkit

namespace Text

theorem occurs_self (t : Text) : occurs t t = true := by
  cases t with
  | nil => rfl
  | cons c cs => simp [occurs]

theorem replaceFrom_length (pat new t : Text) : replaceFrom pat new t.length t = [] := by
  induction t with
  | nil => rfl
  | cons c cs ih => exact ih

theorem replace_self {pat : Text} (h : pat ≠ []) (new : Text) : replace pat new pat = new := by
  obtain ⟨c, cs, rfl⟩ := List.exists_cons_of_ne_nil h
  simp [replace, replaceFrom, replaceFrom_length]

end Text

namespace Register

theorem isName_cons {c : Char} {cs : Text} (hline : '\n' ∉ c :: cs) (hc : c.isLower = false) :
    isName (c :: cs) = false := by
  have hnumbered : ∀ t ∈ numberedNames, t.head?.all Char.isLower = true := by decide
  have haliases : ∀ p ∈ aliases, p.1.head?.all Char.isLower = true := by decide
  have hchomp : Text.chomp (c :: cs) = c :: cs := Instruction.chomp_eq_self hline
  have hnot : c :: cs ∉ numberedNames := by
    intro hmem
    simpa [hc] using hnumbered _ hmem
  have hnone : aliases.lookup (c :: cs) = none := by
    cases hlookup : aliases.lookup (c :: cs) with
    | none => rfl
    | some n => simpa [hc] using haliases _ (mem_of_lookup hlookup)
  simp [isName, isNumbered, isAlias, ofAlias?, hchomp, hnone, hnot]

theorem isName_ofInt (i : Int) : isName (Text.ofInt i) = false := by
  obtain ⟨ds, htext, hne, hds, -⟩ := Number.exists_ofInt i
  obtain ⟨d, ds', rfl⟩ := List.exists_cons_of_ne_nil hne
  have hlower : ∀ d < 10, d.digitChar.isLower = false := by decide
  rw [htext]
  by_cases hi : i < 0
  · rw [decide_eq_true hi, if_pos rfl]
    exact isName_cons (by simp) (by decide)
  · rw [decide_eq_false hi, if_neg Bool.false_ne_true]
    exact isName_cons (by simp) (hlower d (hds d List.mem_cons_self))

end Register

namespace Assembly

namespace SymbolTable

theorem link_untouched [Evaluator] {st : SymbolTable} {t : Text} (h : ∀ p ∈ st, Text.occurs p.1 t = false)
    (pc : Int) : link pc st t = .ok t := by
  induction st with
  | nil => rfl
  | cons p st ih =>
      obtain ⟨name, v⟩ := p
      rw [link, h (name, v) (by simp)]
      exact ih fun q hq => h q (by simp [hq])

theorem link_append [Evaluator] (pc : Int) (st st' : SymbolTable) (t : Text) :
    link pc (st ++ st') t = link pc st t >>= link pc st' := by
  induction st generalizing t with
  | nil => rfl
  | cons p st ih =>
      obtain ⟨name, v⟩ := p
      rw [List.cons_append, link, link]
      split
      · cases relative pc v with
        | error e => rfl
        | ok shown => exact ih _
      · exact ih t

theorem link_symbol [Evaluator] {before after : SymbolTable} {name : Text} {v pc : Int} (hname : name ≠ [])
    (hbefore : ∀ p ∈ before, Text.occurs p.1 name = false)
    (hafter : ∀ p ∈ after, Text.occurs p.1 (Text.ofInt (v - pc)) = false)
    (hdigits : (Nat.toDigits 10 (v - pc).natAbs).length ≤ Number.maxDigits) :
    link pc (before ++ (name, .int v) :: after) name = .ok (Text.ofInt (v - pc)) := by
  have hshown : relative pc (.int v) = .ok (Text.ofInt (v - pc)) := by
    rw [relative_int, decimalText]
    exact if_neg (by omega)
  -- the name outlives the symbols before it, its number those after it
  rw [link_append, link_untouched hbefore]
  change link pc ((name, .int v) :: after) name = _
  rw [link, Text.occurs_self, hshown]
  change link pc after (Text.replace name (Text.ofInt (v - pc)) name) = _
  rw [Text.replace_self hname, link_untouched hafter]

end SymbolTable

/-- The number that the last operand of a branch or a jump spells. -/
def offsetOf [Evaluator] (f : Format) (t : Text) : Except Fault Int :=
  match f with
  | .B => Immediate.toInteger (.text t)
  | _ => do Immediate.toInteger (← Instruction.jumpOperand (.text t))

/-- The operand, with the symbols written into it, spells a number that is `d` modulo the size of the
field. -/
def Spells [Evaluator] (f : Format) (st : SymbolTable) (pc : Int) (operand : Text) (d : Int) : Prop :=
  ∃ t m, resolveOperand st pc operand = .ok t ∧ offsetOf f t = .ok m ∧
    m % 2 ^ f.immediateBits = d % 2 ^ f.immediateBits

/-- A label on a line that the other symbols leave alone: no later line sets it anew, no symbol listed
before it stands in its name, and no symbol listed after it stands in its number. -/
structure Undisturbed (lines : List Text) (st : SymbolTable) (i : Nat) (name : Text) (d : Int) : Prop where
  last : ∀ j, i < j → (lineAt? lines j).bind Line.symbol? ≠ some name
  before : ∀ p ∈ st.takeWhile (fun p => p.1 ≠ name), Text.occurs p.1 name = false
  after : ∀ p ∈ (st.dropWhile (fun p => p.1 ≠ name)).tail, Text.occurs p.1 (Text.ofInt d) = false

theorem split_of_get? {st : SymbolTable} {name : Text} {v : Value} (h : st.get? name = some v) :
    st = st.takeWhile (fun p => p.1 ≠ name) ++
      (name, v) :: (st.dropWhile (fun p => p.1 ≠ name)).tail := by
  induction st with
  | nil => simp [Assoc.get?] at h
  | cons p st ih =>
      obtain ⟨a, b⟩ := p
      rw [Assoc.get?] at h
      by_cases ha : a = name
      · obtain rfl : b = v := by simpa [ha] using h
        simp [ha]
      · rw [if_neg ha] at h
        simpa [ha] using ih h

theorem digits_of_fits {d : Int} (hd : d.natAbs ≤ 2 ^ 20) :
    (Nat.toDigits 10 d.natAbs).length ≤ Number.maxDigits := by
  have h := (Nat.length_toDigits_le_iff (b := 10) (n := d.natAbs) (k := 7) (by decide) (by decide)).mpr
    (by omega)
  exact Nat.le_trans h (by decide)

theorem wrap_eq_iff {n : Nat} {v d : Int} (hd : d.bmod (2 ^ n) = d) :
    Immediate.wrap n v = d ↔ v % 2 ^ n = d % 2 ^ n := by
  constructor
  · rintro rfl
    rw [Instruction.wrap_eq_bmod, Bits.bmod_emod_two_pow]
  · intro h
    rw [Instruction.wrap_eq_bmod, ← Bits.emod_bmod_two_pow, h, Bits.emod_bmod_two_pow, hd]

theorem ne_nil_of_word? {line name rest : Text} (h : Line.word? line = some (name, rest)) :
    name ≠ [] := by
  unfold Line.word? at h
  split at h
  · simp at h
  · rename_i hne
    obtain ⟨rfl, -⟩ : line.takeWhile Text.isWord = name ∧ line.dropWhile Text.isWord = rest := by
      simpa using h
    exact hne

theorem word?_of_label? {line name : Text} (h : Line.label? line = some name) :
    ∃ rest, Line.word? line = some (name, rest) := by
  unfold Line.label? at h
  split at h
  · rename_i hword
    simp_all
  · simp at h

theorem label?_of_classify {line name : Text} (h : Line.classify line = .label name) :
    Line.label? line = some name := by
  unfold Line.classify at h
  -- three other kinds of lines are tried before a label
  split at h
  · simp at h
  · split at h
    · simp at h
    · split at h
      · simp at h
      · split at h
        · rename_i hlabel
          rw [hlabel]
          exact congrArg some (Line.label.inj h)
        · simp at h

theorem label_ne_nil {lines : List Text} {i : Nat} {name : Text}
    (h : lineAt? lines i = some (.label name)) : name ≠ [] := by
  unfold lineAt? at h
  split at h
  · simp at h
  · obtain ⟨line, -, hline⟩ := Option.map_eq_some_iff.mp h
    obtain ⟨rest, hword⟩ := word?_of_label? (label?_of_classify hline)
    exact ne_nil_of_word? hword

theorem spells_of_undisturbed [Evaluator] {base pc d : Int} {lines : List Text} {r : Reader} {a : Assembly}
    {i : Nat} {name : Text} {f : Format} (hreached : Reached base lines r a)
    (hlabel : lineAt? lines i = some (.label name)) (hd : addressOfLine a i - pc = d)
    (hfits : d.natAbs ≤ 2 ^ 20) (h : Undisturbed lines a.symbols i name d) :
    Spells f a.symbols pc name d := by
  have hdigits := digits_of_fits hfits
  have htable := split_of_get? (hreached.label_eq name i hlabel h.last)
  have hlink : a.symbols.link pc name = .ok (Text.ofInt d) := by
    subst hd
    rw [htable]
    exact SymbolTable.link_symbol (label_ne_nil hlabel) h.before h.after hdigits
  refine ⟨Text.ofInt d, d, ?_, ?_, rfl⟩
  · simp only [resolveOperand, hlink]
    change (if Register.isName (Text.ofInt d) then _ else _) = _
    rw [Register.isName_ofInt]
    rfl
  · cases f with
    | B => exact Immediate.toInteger_ofInt hdigits
    | R | I | S | U | J =>
        simp only [offsetOf, Instruction.jumpOperand_ofInt hdigits]
        rfl

theorem mapM_append_singleton {g : Text → Except Fault Text} {args resolved : List Text} {operand : Text}
    (h : (args ++ [operand]).mapM g = .ok resolved) :
    ∃ front t, resolved = front ++ [t] ∧ g operand = .ok t := by
  rw [List.mapM_append, Except.bind_eq_ok] at h
  obtain ⟨front, -, h⟩ := h
  obtain ⟨last, hlast, h⟩ := Except.bind_eq_ok.mp h
  rw [List.mapM_cons, Except.bind_eq_ok] at hlast
  obtain ⟨t, ht, hlast⟩ := hlast
  cases hlast
  cases h
  exact ⟨front, t, rfl, ht⟩

theorem imm_of_lastOperand [Evaluator] {f : Format} {op : Text} {front : List Text} {t : Text} {e : Encoded}
    (hf : f = .B ∨ f = .J)
    (h : Instruction.encodeWith f op ((front ++ [t]).map .text) = .ok e) :
    ∃ m, offsetOf f t = .ok m ∧ e.operands.imm = some (Immediate.wrap f.immediateBits m) := by
  rcases hf with rfl | rfl
  · obtain ⟨c, a, b, x, rs1, rs2, v, -, hargs, -, -, hv, rfl⟩ := Instruction.encodeB_eq_ok h
    obtain rfl : Value.text t = x := by simpa using congrArg List.getLast? hargs
    exact ⟨v, hv, rfl⟩
  · obtain ⟨c, a, imm, x, rd, v, -, hargs, hx, -, hv, rfl⟩ := Instruction.encodeJ_eq_ok h
    obtain rfl : Value.text t = imm := by simpa using congrArg List.getLast? hargs
    refine ⟨v, ?_, rfl⟩
    simp only [offsetOf, hx]
    exact Instruction.toInteger_of_plain? hv

theorem steps_eq_ok [Evaluator] {a a' : Assembly} {ss : Assoc Int Step}
    (h : steps.effect a = (.ok ss, a')) :
    (interpret a.symbols a.base a.mnemonics : Action Assembly _).effect a = (.ok ss, a') := by
  obtain ⟨a₁, s₁, hget, hbody⟩ := Action.effect_bind_eq_ok.mp h
  obtain ⟨ha₁, hs₁⟩ := Action.effect_get_eq_ok.mp hget
  rw [ha₁, hs₁] at hbody
  obtain ⟨ss', s₂, hinterpret, hlast⟩ := Action.effect_bind_eq_ok.mp hbody
  split at hlast
  · simp at hlast
  · obtain ⟨hss, hs₂⟩ := Action.effect_pure_eq_ok.mp hlast
    rw [hinterpret, hss, hs₂]

/-- A branch or a jump to a label has the distance to the label for its immediate, where that fits, if
and only if the operand spells it after all symbols have been written; it does so for a label that the
other symbols leave alone. -/
theorem imm_eq_distance_iff [Evaluator] [Evaluator.Textual] {text : Text} {base : Int} {a a' : Assembly}
    {log log' : Log}
    {ss : Assoc Int Step} {i k : Nat} {line op name : Text} {args : List Text} {f : Format} {d : Int}
    (hread : ofText text base = ⟨log, a, .ok ()⟩) (hsteps : steps.run a = ⟨log', a', .ok ss⟩)
    (hline : a.mnemonics[k]? = some line) (htokens : tokens (Text.trim line) = op :: (args ++ [name]))
    (hformat : Isa.base.format? op = some f) (hf : f = .B ∨ f = .J)
    (hlabel : lineAt? (Text.lines text) i = some (.label name))
    (hd : addressOfLine a i - (base + 4 * k) = d)
    (hfits : -2 ^ (f.immediateBits - 1) ≤ d ∧ d < 2 ^ (f.immediateBits - 1)) :
    ∃ step, ss.get? (base + 4 * k) = some step ∧ step.op = op ∧
      (step.operands.imm = some d ↔ Spells f a.symbols (base + 4 * k) name d) ∧
      (Undisturbed (Text.lines text) a.symbols i name d → step.operands.imm = some d) := by
  have heffect : (read text).effect ⟨base, [], [], [], [], [], []⟩ = (.ok (), a) := by
    change ((ofText text base).result, (ofText text base).state) = _
    rw [hread]
  have hrun : steps.effect a = (.ok ss, a') := by
    change ((steps.run a).result, (steps.run a).state) = _
    rw [hsteps]
  obtain ⟨r, hreached⟩ := read_reached rfl heffect
  obtain ⟨-, -, hplaced, hall⟩ := interpret_eq_ok (steps_eq_ok hrun)
  rw [hreached.base_eq] at hplaced hall
  obtain ⟨op', e, hencode, hget⟩ := hall k line hline
  obtain ⟨args', resolved, f', htokens', hresolved, hformat', he⟩ := lineCall_eq_ok.mp hencode
  obtain ⟨rfl, rfl⟩ : op' = op ∧ args' = args ++ [name] := by simpa [htokens'] using htokens
  obtain rfl : f = f' := Option.some.inj (hformat.symm.trans hformat')
  obtain ⟨front, t, rfl, ht⟩ := mapM_append_singleton hresolved
  obtain ⟨m, hm, himm⟩ := imm_of_lastOperand hf he
  have hbmod : d.bmod (2 ^ f.immediateBits) = d := by
    rcases hf with rfl | rfl <;> apply Int.bmod_eq_of_le <;>
      simp only [Format.immediateBits] at hfits ⊢ <;> omega
  have hiff : e.operands.imm = some d ↔ Spells f a.symbols (base + 4 * k) name d := by
    rw [himm, Option.some.injEq, wrap_eq_iff hbmod]
    constructor
    · intro h
      exact ⟨t, m, ht, hm, h⟩
    · rintro ⟨t', m', ht', hm', h⟩
      obtain rfl : t = t' := Except.ok.inj (ht.symm.trans ht')
      obtain rfl : m = m' := Except.ok.inj (hm.symm.trans hm')
      exact h
  refine ⟨⟨op', e.operands⟩, ?_, rfl, hiff, fun h => hiff.mpr ?_⟩
  · rw [hplaced.get?_eq, hget]
    rfl
  · have hsmall : d.natAbs ≤ 2 ^ 20 := by
      rcases hf with rfl | rfl <;> simp only [Format.immediateBits] at hfits <;> omega
    exact spells_of_undisturbed hreached hlabel hd hsmall h

def nestedLabels : Text := "l:\n addi x0, x0, 0\nl2:\n jal x0, l2\n".toList

section ImmNestedLabels

open scoped Evaluator.Arithmetic

/-- The jump stands at its label, but the number written for the shorter name becomes part of its
operand, and the immediate is not zero. -/
theorem imm_nestedLabels :
    ∃ ss step, (ofText nestedLabels 0).result = .ok () ∧
      (steps.run (ofText nestedLabels 0).state).result = .ok ss ∧ ss.get? 4 = some step ∧
      addressOfLine (ofText nestedLabels 0).state 2 = 4 ∧ step.operands.imm ≠ some 0 := by
  have hread : (ofText nestedLabels 0).result = .ok () := Except.eq_ok_of_toOption (by decide +kernel)
  have hsteps : (steps.run (ofText nestedLabels 0).state).result =
      .ok [(0, ⟨"addi".toList, ⟨some [0, 0], some 0⟩⟩), (4, ⟨"jal".toList, ⟨some [0], some (-42)⟩⟩)] :=
    Except.eq_ok_of_toOption (by decide +kernel)
  have hline : (ofText nestedLabels 0).state.mnemonics[1]? = some "jal x0, l2".toList := by
    decide +kernel
  have haddress : addressOfLine (ofText nestedLabels 0).state 2 = 4 := by decide +kernel
  obtain ⟨step, hstep, -, hiff, -⟩ := imm_eq_distance_iff (d := 0) (i := 2) (f := .J)
    (a := (ofText nestedLabels 0).state) (by rw [← hread]) (by rw [← hsteps]) hline
    (by decide +kernel : _ = "jal".toList :: (["x0".toList] ++ ["l2".toList])) (by decide) (.inr rfl)
    (by decide +kernel) (by rw [haddress]; rfl) (by decide)
  refine ⟨_, step, hread, hsteps, hstep, haddress, fun h => ?_⟩
  obtain ⟨t, m, ht, hm, hcongr⟩ := hiff.mp h
  have hlinked : resolveOperand (ofText nestedLabels 0).state.symbols 4 "l2".toList = .ok "-42".toList :=
    Except.eq_ok_of_toOption (by decide +kernel)
  have hnumber : offsetOf .J "-42".toList = .ok (-42) := Except.eq_ok_of_toOption (by decide +kernel)
  obtain rfl : "-42".toList = t := Except.ok.inj (hlinked.symm.trans ht)
  obtain rfl : -42 = m := Except.ok.inj (hnumber.symm.trans hm)
  exact absurd hcongr (by decide)

end ImmNestedLabels

end Assembly

end RvToolkit
