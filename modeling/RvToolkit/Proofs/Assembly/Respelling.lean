import RvToolkit.Proofs.Assembly.Recasing

namespace RvToolkit

namespace Text

variable {t : Text}

theorem subset_of_occurs {pat : Text} (h : occurs pat t = true) : pat ⊆ t := by
  induction t with
  | nil =>
      obtain rfl : pat = [] := by simpa [occurs] using h
      exact List.nil_subset _
  | cons c t ih =>
      rcases Bool.or_eq_true_iff.mp h with h | h
      · exact (List.isPrefixOf_iff_prefix.mp h).subset
      · exact List.Subset.trans (ih h) (List.subset_cons_self c t)

theorem Small.replace {pat new : Text} (ht : Small t)
    (hnew : Small new) : Small (Text.replace pat new t) := by
  intro c hc
  rcases mem_or_mem_of_mem_replace hc with hc | hc
  · exact ht c hc
  · exact hnew c hc

end Text

/-- What the evaluator writes for a difference has small characters only. -/
def Evaluator.WritesSmall [Evaluator] : Prop :=
  ∀ v i t, Evaluator.combined .sub v i = .ok t → Text.Small t

namespace Assembly

open Text

namespace SymbolTable

variable {st : SymbolTable} {name t : Text} {v : Value}

/-- The symbols that an operand can name. -/
def live (st : SymbolTable) : SymbolTable := st.filter fun p => p.1.all isSmall

theorem live_cons (h : Small name) : live ((name, v) :: st) = (name, v) :: live st :=
  List.filter_cons_of_pos (List.all_eq_true.mpr h)

theorem live_cons_of_not_small (h : ¬ Small name) : live ((name, v) :: st) = live st :=
  List.filter_cons_of_neg (mt List.all_eq_true.mp h)

theorem live_insert (h : Small name) : live (st.insert name v) = (live st).insert name v := by
  induction st with
  | nil => exact live_cons h
  | cons p st ih =>
      obtain ⟨name', v'⟩ := p
      rw [Assoc.insert]
      by_cases heq : name' = name
      · rw [if_pos heq, heq, live_cons h, live_cons h, Assoc.insert, if_pos rfl]
      · rw [if_neg heq]
        by_cases hsmall : Small name'
        · rw [live_cons hsmall, live_cons hsmall, Assoc.insert, if_neg heq, ih]
        · rw [live_cons_of_not_small hsmall, live_cons_of_not_small hsmall, ih]

theorem live_insert_of_not_small (h : ¬ Small name) : live (st.insert name v) = live st := by
  induction st with
  | nil => exact live_cons_of_not_small h
  | cons p st ih =>
      obtain ⟨name', v'⟩ := p
      rw [Assoc.insert]
      by_cases heq : name' = name
      · rw [if_pos heq, heq, live_cons_of_not_small h, live_cons_of_not_small h]
      · rw [if_neg heq]
        by_cases hsmall : Small name'
        · rw [live_cons hsmall, live_cons hsmall, ih]
        · rw [live_cons_of_not_small hsmall, live_cons_of_not_small hsmall, ih]

variable [Evaluator]

theorem relative_small (hsmall : Evaluator.WritesSmall) {pc : Int}
    (h : relative pc v = .ok t) : Small t := by
  unfold relative at h
  split at h
  · cases h
    exact small_of_subset_signs (Number.ofInt_subset_signs _)
  · rw [Evaluator.combine_eq] at h
    split at h
    · split at h
      · exact small_of_subset_signs (decimalText_subset_signs h)
      · cases h
        exact small_of_subset_signs (Number.shortest_subset_signs _)
      · cases h
    · exact hsmall _ _ _ h

theorem link_live (hsmall : Evaluator.WritesSmall) (pc : Int) (st : SymbolTable) (ht : Small t) :
    link pc (live st) t = link pc st t := by
  -- What stands in an operand has small characters only, also after symbols have been written
  -- as numbers.
  induction st generalizing t with
  | nil => rfl
  | cons p st ih =>
      obtain ⟨name, v⟩ := p
      by_cases hname : Small name
      · rw [live_cons hname, link, link]
        split
        · cases hshown : relative pc v with
          | error e => rfl
          | ok shown => exact ih (ht.replace (relative_small hsmall hshown))
        · exact ih ht
      · have hoccurs : ¬ occurs name t = true := fun h => hname fun c hc => ht c (subset_of_occurs h hc)
        rw [live_cons_of_not_small hname, link, if_neg hoccurs]
        exact ih ht

end SymbolTable

open SymbolTable

section Codes

variable {st st' : SymbolTable} {pc : Int} {line line' : Text}

theorem small_of_mem_tokens {w : Text} (h : w ∈ tokens line) : Small w := by
  obtain ⟨u, -, rfl⟩ := List.mem_map.mp h
  exact small_lower u

variable [Evaluator] (hsmall : Evaluator.WritesSmall)

include hsmall

theorem resolveOperand_live (hst : live st = live st') {t : Text} (ht : Small t) :
    resolveOperand st pc t = resolveOperand st' pc t := by
  rw [resolveOperand, resolveOperand, ← link_live hsmall pc st ht, ← link_live hsmall pc st' ht, hst]

theorem resolveOperands_live (hst : live st = live st') {ts : List Text} (h : ∀ t ∈ ts, Small t) :
    resolveOperands st pc ts = resolveOperands st' pc ts := by
  have hmap (us : List Text) (hus : ∀ t ∈ us, Small t) :
      us.mapM (resolveOperand st pc) = us.mapM (resolveOperand st' pc) := by
    induction us with
    | nil => rfl
    | cons u us ih =>
        rw [List.forall_mem_cons] at hus
        rw [List.mapM_cons, List.mapM_cons, resolveOperand_live hsmall hst hus.1, ih hus.2]
  cases ts with
  | nil => rfl
  | cons op args =>
      rw [List.forall_mem_cons] at h
      rw [resolveOperands, resolveOperands, hmap args h.2]

theorem lineCall_fold (hst : live st = live st') (hfold : fold line = fold line') :
    lineCall st pc line = lineCall st' pc line' := by
  have htokens : tokens (trim line) = tokens (trim line') := by
    rw [← tokens_fold, ← tokens_fold (trim line'), ← trim_fold, ← trim_fold, hfold]
  have hresolved : resolveOperands st pc (tokens (trim line)) = resolveOperands st' pc (tokens (trim line')) := by
    rw [← htokens]
    exact resolveOperands_live hsmall hst fun t ht => small_of_mem_tokens ht
  rw [lineCall, lineCall, hresolved]

theorem lineCalls_fold (hst : live st = live st') {ls ls' : List Text} (h : ls.map fold = ls'.map fold) :
    lineCalls st pc ls = lineCalls st' pc ls' := by
  induction ls generalizing pc ls' with
  | nil =>
      obtain rfl : ls' = [] := List.map_eq_nil_iff.mp h.symm
      rfl
  | cons l ls ih =>
      cases ls' with
      | nil => cases h
      | cons l' ls' =>
          obtain ⟨hline, hrest⟩ := List.cons.inj h
          rw [lineCalls, lineCalls, lineCall_fold hsmall hst hline, ih hrest]

end Codes

/-- Letters, digits and underscores, as in the names of labels and macros. -/
def IsName (n : Text) : Prop := n ≠ [] ∧ ∀ c ∈ n, isWord c = true

/-- Which spellings of a label where it is set, of a macro where it is defined and of the first word of an
instruction stand for each other. -/
structure Spelling where
  label : Text → Text → Prop
  macroName : Text → Text → Prop
  call : Text → Text → Prop

/-- Labels that an operand can name keep their spelling, and calls are spelled like the macros. -/
structure Spelling.Harmless (R : Spelling) : Prop where
  labels : ∀ n n', R.label n n' → IsName n → fold n = fold n' → (lower n = n ∨ lower n' = n') → n = n'
  calls : ∀ m m' w w', R.macroName m m' → R.call w w' → IsName m → fold m = fold m' → fold w = fold w' →
    (m = w ↔ m' = w')

/-- Lines outside macros that differ in the case of names, registers and mnemonics only. The values of a
constant are the same, or it has none. -/
inductive Matches [Evaluator] (R : Spelling) : Line → Line → Prop where
  | blank : Matches R .blank .blank
  | macroStart {m m' : Text} (args : List Text) (h : R.macroName m m') (hfold : fold m = fold m') :
      Matches R (.macroStart m args) (.macroStart m' args)
  | directive (name args : Text) : Matches R (.directive name args) (.directive name args)
  | ignored {name name' : Text} (args args' : Text) (h : name ≠ "equ".toList) (h' : name' ≠ "equ".toList) :
      Matches R (.directive name args) (.directive name' args')
  | constant {args args' left left' right right' : Text} (h : args.splitOn ',' = [left, right])
      (h' : args'.splitOn ',' = [left', right']) (hfold : fold left = fold left')
      (hvalue : (Evaluator.constantOf (trim right)).toOption = (Evaluator.constantOf (trim right')).toOption) :
      Matches R (.directive "equ".toList args) (.directive "equ".toList args')
  | label {n n' : Text} (h : R.label n n') (hfold : fold n = fold n') : Matches R (.label n) (.label n')
  | code {t t' : Text} (hfold : fold t = fold t') (hcall : R.call (headWord t) (headWord t'))
      (hplain : '\\' ∉ t ∨ ∀ m m', R.macroName m m' → m ≠ headWord t) : Matches R (.code t) (.code t')

def Line.opens : Line → Option (List Text)
  | .macroStart _ args => some args
  | _ => none

/-- Lines in lockstep that differ in the case of names, registers and mnemonics only. The first argument has
the arguments of the macro that is open. -/
inductive Respelled [Evaluator] (R : Spelling) : Option (List Text) → List Text → List Text → Prop where
  | nil {open? : Option (List Text)} : Respelled R open? [] []
  | outside {l l' : Text} {ls ls' : List Text}
      (h : Matches R (Line.classify (withoutComment l)) (Line.classify (withoutComment l')))
      (hrest : Respelled R (Line.classify (withoutComment l)).opens ls ls') :
      Respelled R none (l :: ls) (l' :: ls')
  | inside {args : List Text} {l l' : Text} {ls ls' : List Text}
      (hend : Line.isMacroEnd (withoutComment l) = Line.isMacroEnd (withoutComment l'))
      (h : Recased args none (withoutComment l) (withoutComment l'))
      (hrest : Respelled R (if Line.isMacroEnd (withoutComment l) then none else some args) ls ls') :
      Respelled R (some args) (l :: ls) (l' :: ls')

section Names

variable {t name : Text}

theorem isName_of_word? {rest : Text} (h : Line.word? t = some (name, rest)) : IsName name := by
  refine ⟨ne_nil_of_word? h, fun c hc => ?_⟩
  unfold Line.word? at h
  split at h
  · cases h
  · cases h
    exact List.mem_takeWhile_imp hc

theorem isName_of_label (h : Line.classify t = .label name) : IsName name := by
  obtain ⟨rest, hword⟩ := word?_of_label? (label?_of_classify h)
  exact isName_of_word? hword

theorem isName_of_macroStart {args : List Text} (h : Line.classify t = .macroStart name args) :
    IsName name := by
  have hstart : Line.macroStart? t = some (name, args) := by
    unfold Line.classify at h
    split at h
    · cases h
    · split at h
      · next heq =>
          cases h
          exact heq
      · split at h
        · cases h
        · split at h <;> cases h
  unfold Line.macroStart? at hstart
  dsimp only at hstart
  split at hstart
  · split at hstart
    · split at hstart
      · split at hstart
        · next hword =>
            cases hstart
            exact isName_of_word? hword
        · cases hstart
      · cases hstart
    · cases hstart
  · cases hstart

end Names

theorem name_congr {left left' : Text}
    (h : fold left = fold left') : lower (trim left) = lower (trim left') := by
  rw [← lower_fold, ← trim_fold, h, trim_fold, lower_fold]

section Constants

variable [Evaluator] {args args' left left' right right' : Text} (h : args.splitOn ',' = [left, right])
  (h' : args'.splitOn ',' = [left', right']) (hfold : fold left = fold left')
  (hvalue : (Evaluator.constantOf (trim right)).toOption = (Evaluator.constantOf (trim right')).toOption)

include h h' hfold hvalue

theorem equate_congr [Evaluator.Textual] (s : Assembly) :
    ((equate args).effect s).1 = .ok () ↔ ((equate args').effect s).1 = .ok () := by
  simp only [equate, h, h', name_congr hfold, Action.effect_handle, effect_define]
  rcases Except.toOption_eq hvalue with ⟨v, hv, hv'⟩ | ⟨e, e', he, he'⟩
  · rw [hv, hv']
  · rw [he, he']
    simp

theorem define_congr (st : SymbolTable) : st.define args = st.define args' := by
  simp only [SymbolTable.define, h, h', name_congr hfold]
  rcases Except.toOption_eq hvalue with ⟨v, hv, hv'⟩ | ⟨e, e', he, he'⟩
  · rw [hv, hv']
  · rw [he, he']

end Constants

theorem live_define [Evaluator] (args : Text) {st st' : SymbolTable} (hst : live st = live st') :
    live (st.define args) = live (st'.define args) := by
  unfold SymbolTable.define
  split
  · split
    · rw [live_insert (small_lower _), live_insert (small_lower _), hst]
    · exact hst
  · exact hst

theorem fold_headWord {t t' : Text} (h : fold t = fold t') : fold (headWord t) = fold (headWord t') := by
  have hhead (ws : List Text) : fold (ws.headD []) = (ws.map fold).headD [] := by
    cases ws <;> rfl
  rw [headWord, headWord, hhead, hhead, ← wordsWithoutCommas_fold, ← wordsWithoutCommas_fold, h]

/-- Macros that are being read: the same arguments, and lines that differ in case only. -/
structure OpenMacro.Alike (R : Spelling) (m m' : OpenMacro) : Prop where
  name : R.macroName m.name m'.name
  isName : IsName m.name
  fold_eq : fold m.name = fold m'.name
  args_eq : m.args = m'.args
  body : List.Forall₂ (Recased m.args none) m.body m'.body

namespace Definitions

/-- Definitions after lines in lockstep. -/
structure Alike (R : Spelling) (d d' : Definitions) : Prop where
  inside : Option.Rel (OpenMacro.Alike R) d.inside d'.inside
  macros : ∀ w w', R.call w w' → fold w = fold w' → Option.Rel Macro.Alike (d.macros.get? w) (d'.macros.get? w')
  named : ∀ w m, d.macros.get? w = some m → ∃ w', R.macroName w w'

/-- What a line does does not depend on its case. -/
structure Respells [Evaluator] (R : Spelling) (d d' : Definitions) (l l' : Text) : Prop where
  next : Alike R (d.next l) (d'.next l')
  accepts : d.Accepts l ↔ d'.Accepts l'
  added : (d.added l).map fold = (d'.added l').map fold
  enter : ∀ address st st', live st = live st' → live (d.enter address l st) = live (d'.enter address l' st')

variable {R : Spelling} {d d' : Definitions} {m m' : OpenMacro} {l l' : Text}

theorem Alike.insert (hR : R.Harmless) (h : Alike R d d') (hm : m.Alike R m') :
    Alike R ⟨none, d.macros.insert m.name ⟨m.args, m.body.reverse⟩⟩
      ⟨none, d'.macros.insert m'.name ⟨m'.args, m'.body.reverse⟩⟩ := by
  refine ⟨.none, ?_, ?_⟩
  · intro w w' hcall hfold
    have hiff := hR.calls _ _ w w' hm.name hcall hm.isName hm.fold_eq hfold
    by_cases hw : m.name = w
    · rw [← hw, ← hiff.mp hw, Assoc.get?_insert_self, Assoc.get?_insert_self]
      exact .some ⟨hm.args_eq, List.rel_reverse hm.body⟩
    · rw [Assoc.get?_insert_of_ne (Ne.symm hw), Assoc.get?_insert_of_ne (Ne.symm (mt hiff.mpr hw))]
      exact h.macros w w' hcall hfold
  · intro w m₁ hget
    by_cases hw : m.name = w
    · exact ⟨m'.name, hw ▸ hm.name⟩
    · rw [Assoc.get?_insert_of_ne (Ne.symm hw)] at hget
      exact h.named w m₁ hget

theorem respells_inside [Evaluator] (hR : R.Harmless) (h : Alike R d d') (hin : d.inside = some m)
    (hend : Line.isMacroEnd (withoutComment l) = Line.isMacroEnd (withoutComment l'))
    (hline : Recased m.args none (withoutComment l) (withoutComment l')) : Respells R d d' l l' := by
  obtain ⟨inside, macros⟩ := d
  obtain ⟨inside', macros'⟩ := d'
  obtain rfl : inside = some m := hin
  obtain ⟨m', rfl, hm⟩ : ∃ m', inside' = some m' ∧ m.Alike R m' := by
    have hinside := h.inside
    cases hinside with
    | some hm => exact ⟨_, rfl, hm⟩
  refine ⟨?_, Iff.rfl, rfl, fun _ _ _ hst => hst⟩
  have hempty : (withoutComment l).isEmpty = (withoutComment l').isEmpty := by
    rw [← List.isEmpty_map (f := Char.toLower), ← List.isEmpty_map (f := Char.toLower) (l := withoutComment l')]
    exact congrArg List.isEmpty hline.fold_eq
  rw [Definitions.next, Definitions.next]
  dsimp only
  rw [← hempty, ← hend]
  split
  · exact h
  · split
    · exact Alike.insert hR h hm
    · refine ⟨.some ?_, h.macros, h.named⟩
      exact ⟨hm.name, hm.isName, hm.fold_eq, hm.args_eq, .cons hline hm.body⟩

theorem live_label (hR : R.Harmless) {n n' : Text} (hlabel : R.label n n') (hname : IsName n)
    (hfold : fold n = fold n') {st st' : SymbolTable} (hst : live st = live st') (v : Value) :
    live (st.insert n v) = live (st'.insert n' v) := by
  have hsame := hR.labels n n' hlabel hname hfold
  rw [lower_eq_self_iff, lower_eq_self_iff] at hsame
  by_cases hn : Small n
  · obtain rfl := hsame (.inl hn)
    rw [live_insert hn, live_insert hn, hst]
  · have hn' : ¬ Small n' := by
      intro hn'
      exact hn (hsame (.inr hn') ▸ hn')
    rw [live_insert_of_not_small hn, live_insert_of_not_small hn', hst]

theorem respells_outside [Evaluator] [Evaluator.Textual] (hR : R.Harmless) (h : Alike R d d')
    (hout : d.inside = none)
    (hline : Matches R (Line.classify (withoutComment l)) (Line.classify (withoutComment l'))) :
    Respells R d d' l l' := by
  obtain ⟨inside, macros⟩ := d
  obtain ⟨inside', macros'⟩ := d'
  obtain rfl : inside = none := hout
  obtain rfl : inside' = none := by
    have hinside := h.inside
    cases hinside
    rfl
  generalize hclass : Line.classify (withoutComment l) = line at hline
  generalize hclass' : Line.classify (withoutComment l') = line' at hline
  cases hline with
  | blank =>
      refine ⟨?_, ?_, ?_, fun address st st' hst => ?_⟩
      · simpa only [Definitions.next, hclass, hclass'] using h
      · simp only [Accepts, hclass, hclass']
      · simp only [Definitions.added, hclass, hclass']
      · simpa only [Definitions.enter, hclass, hclass'] using hst
  | @macroStart m m' args hname hfold =>
      refine ⟨?_, ?_, ?_, fun address st st' hst => ?_⟩
      · simp only [Definitions.next, hclass, hclass']
        exact ⟨.some ⟨hname, isName_of_macroStart hclass, hfold, rfl, .nil⟩, h.macros, h.named⟩
      · simp only [Accepts, hclass, hclass']
      · simp only [Definitions.added, hclass, hclass']
      · simpa only [Definitions.enter, hclass, hclass'] using hst
  | directive name args =>
      refine ⟨?_, ?_, ?_, fun address st st' hst => ?_⟩
      · simpa only [Definitions.next, hclass, hclass'] using h
      · simp only [Accepts, hclass, hclass']
      · simp only [Definitions.added, hclass, hclass']
      · simp only [Definitions.enter, hclass, hclass']
        split
        · exact live_define args hst
        · exact hst
  | ignored args args' hname hname' =>
      refine ⟨?_, ?_, ?_, fun address st st' hst => ?_⟩
      · simpa only [Definitions.next, hclass, hclass'] using h
      · simp only [Accepts, hclass, hclass', Assembly.directive, if_neg hname, if_neg hname']
      · simp only [Definitions.added, hclass, hclass']
      · simpa only [Definitions.enter, hclass, hclass', if_neg hname, if_neg hname'] using hst
  | constant hargs hargs' hfold hvalue =>
      refine ⟨?_, ?_, ?_, fun address st st' hst => ?_⟩
      · simpa only [Definitions.next, hclass, hclass'] using h
      · simpa only [Accepts, hclass, hclass', Assembly.directive, if_true] using
          equate_congr hargs hargs' hfold hvalue _
      · simp only [Definitions.added, hclass, hclass']
      · simp only [Definitions.enter, hclass, hclass', if_true, define_congr hargs hargs' hfold hvalue]
        exact live_define _ hst
  | @label n n' hlabel hfold =>
      refine ⟨?_, ?_, ?_, fun address st st' hst => ?_⟩
      · simpa only [Definitions.next, hclass, hclass'] using h
      · simp only [Accepts, hclass, hclass']
      · simp only [Definitions.added, hclass, hclass']
      · simp only [Definitions.enter, hclass, hclass']
        exact live_label hR hlabel (isName_of_label hclass) hfold hst _
  | @code t t' hfold hcall hplain =>
      have hfound := h.macros _ _ hcall (fold_headWord hfold)
      have hnone (hno : ∀ m m', R.macroName m m' → m ≠ headWord t) : macros.get? (headWord t) = none := by
        cases hget : macros.get? (headWord t) with
        | none => rfl
        | some m =>
            obtain ⟨w', hw'⟩ := h.named _ m hget
            exact absurd rfl (hno _ w' hw')
      have hexpand := fold_expand hfold hfound (hplain.imp_right hnone)
      obtain ⟨hlines, htest⟩ := map_fold_expansion hexpand
      refine ⟨?_, ?_, ?_, fun address st st' hst => ?_⟩
      · simpa only [Definitions.next, hclass, hclass'] using h
      · simp only [Accepts, hclass, hclass', htest]
      · simpa only [Definitions.added, hclass, hclass'] using hlines
      · simpa only [Definitions.enter, hclass, hclass'] using hst

end Definitions

section Run

open Definitions

variable {R : Spelling} {d d' : Definitions} {l l' : Text} {ls ls' : List Text} {args? : Option (List Text)}

theorem args_next_outside (hout : d.inside = none) :
    (d.next l).inside.map OpenMacro.args = (Line.classify (withoutComment l)).opens := by
  rw [Definitions.next, hout]
  cases hclass : Line.classify (withoutComment l) <;> simp [Line.opens, hout]

theorem args_next_inside {m : OpenMacro} (hin : d.inside = some m) :
    (d.next l).inside.map OpenMacro.args =
      if Line.isMacroEnd (withoutComment l) then none else some m.args := by
  rw [Definitions.next, hin]
  dsimp only
  by_cases hempty : withoutComment l = []
  · rw [hempty]
    simp [hin, Line.isMacroEnd]
  · by_cases hend : Line.isMacroEnd (withoutComment l) = true
    · simp [hempty, hend]
    · simp [hempty, hend]

/-- Lines that are both accepted or both refused, and that list the same instructions and set the same
symbols, up to the case of what is read in lower case later. -/
structure Concurs [Evaluator] (d d' : Definitions) (ls ls' : List Text) : Prop where
  accepts : d.AcceptsAll ls ↔ d'.AcceptsAll ls'
  listed : (scan added d ls).flatten.map fold = (scan added d' ls').flatten.map fold
  symbols : ∀ base n st st', live st = live st' →
    live (symbolsFrom base d n st ls) = live (symbolsFrom base d' n st' ls')

theorem Concurs.cons [Evaluator] (hline : Respells R d d' l l')
    (h : Concurs (d.next l) (d'.next l') ls ls') :
    Concurs d d' (l :: ls) (l' :: ls') := by
  have hlength : (d.added l).length = (d'.added l').length := by
    have hmapped := congrArg List.length hline.added
    rwa [List.length_map, List.length_map] at hmapped
  refine ⟨?_, ?_, ?_⟩
  · rw [AcceptsAll, AcceptsAll, hline.accepts, h.accepts]
  · rw [scan, scan, List.flatten_cons, List.flatten_cons, List.map_append, List.map_append, hline.added, h.listed]
  · intro base n st st' hst
    rw [symbolsFrom, symbolsFrom, hlength]
    exact h.symbols _ _ _ _ (hline.enter _ st st' hst)

theorem Respelled.concurs [Evaluator] [Evaluator.Textual] (hR : R.Harmless)
    (h : Respelled R args? ls ls') (hd : Alike R d d')
    (hargs : d.inside.map OpenMacro.args = args?) : Concurs d d' ls ls' := by
  induction h generalizing d d' with
  | nil => exact ⟨Iff.rfl, rfl, fun _ _ _ _ hst => hst⟩
  | @outside l l' ls ls' hline hrest ih =>
      have hout : d.inside = none := Option.map_eq_none_iff.mp hargs
      have hstep := respells_outside hR hd hout hline
      exact .cons hstep (ih hstep.next (args_next_outside hout))
  | @inside args l l' ls ls' hend hline hrest ih =>
      obtain ⟨m, hin, rfl⟩ := Option.map_eq_some_iff.mp hargs
      have hstep := respells_inside hR hd hin hend hline
      exact .cons hstep (ih hstep.next (args_next_inside hin))

end Run

theorem encodings_refused [Evaluator] [Evaluator.Textual] {text : Text} {base : Int}
    (h : ¬ Definitions.AcceptsAll {} (Text.lines text)) :
    (encodings text base).toOption = none := by
  have hread : ¬ (ofText text base).result = .ok () := mt ofText_ok_iff.mp h
  rw [encodings]
  cases hresult : (ofText text base).result with
  | error e => rfl
  | ok u => exact absurd hresult hread

theorem encodings_respelled [Evaluator] [Evaluator.Textual] (hsmall : Evaluator.WritesSmall) {R : Spelling}
    (hR : R.Harmless) {t t' : Text} (h : Respelled R none (Text.lines t) (Text.lines t')) (base : Int) :
    (encodings t base).toOption = (encodings t' base).toOption := by
  have hstart : Definitions.Alike R {} {} := by
    refine ⟨.none, fun _ _ _ _ => .none, ?_⟩
    intro w m hget
    cases hget
  have hconcurs := h.concurs hR hstart rfl
  by_cases haccepts : Definitions.AcceptsAll {} (Text.lines t)
  · have haccepts' := hconcurs.accepts.mp haccepts
    have hcalls : lineCalls (symbolsOf base (Text.lines t)) base (listing (Text.lines t)).flatten =
        lineCalls (symbolsOf base (Text.lines t')) base (listing (Text.lines t')).flatten :=
      lineCalls_fold hsmall (hconcurs.symbols base 0 [] [] rfl) hconcurs.listed
    rw [encodings_eq (ofText_ok_iff.mpr haccepts), encodings_eq (ofText_ok_iff.mpr haccepts'), hcalls]
  · rw [encodings_refused haccepts, encodings_refused (mt hconcurs.accepts.mpr haccepts)]

end Assembly

end RvToolkit
