import Mathlib.Data.List.Forall2
import RvToolkit.Proofs.Assembly.Listing
import RvToolkit.Proofs.Assembly.Relocation

namespace RvToolkit

theorem length_flatten_le {α : Type} {xs ys : List (List α)}
    (h : List.Forall₂ (fun x y => x = y ∨ x = []) xs ys) : xs.flatten.length ≤ ys.flatten.length := by
  induction h with
  | nil => exact Nat.le_refl _
  | cons hhead _ ih =>
      rw [List.flatten_cons, List.flatten_cons, List.length_append, List.length_append]
      rcases hhead with rfl | rfl
      · omega
      · rw [List.length_nil]
        omega

theorem flatten_eq_iff {α : Type} {xs ys : List (List α)}
    (h : List.Forall₂ (fun x y => x = y ∨ x = []) xs ys) : xs.flatten = ys.flatten ↔ xs = ys := by
  refine ⟨fun heq => ?_, fun heq => by rw [heq]⟩
  induction h with
  | nil => rfl
  | @cons x y xs ys hhead htail ih =>
      rw [List.flatten_cons, List.flatten_cons] at heq
      rcases hhead with rfl | rfl
      · rw [ih (List.append_cancel_left heq)]
      · have hlength := congrArg List.length heq
        have hle := length_flatten_le htail
        rw [List.nil_append, List.length_append] at hlength
        obtain rfl : y = [] := List.eq_nil_of_length_eq_zero (by omega)
        rw [ih heq]

namespace Assembly

namespace Line

def behindLabel (t : Text) : Text := ((t.dropWhile Text.isWord).drop 1).dropWhile Text.isBlank

theorem length_behindLabel_lt {t name : Text} (h : classify t = .label name) :
    (behindLabel t).length < t.length := by
  have hpos : 0 < t.length := by
    rw [List.length_pos_iff]
    rintro rfl
    cases h
  have hword := (List.dropWhile_sublist (l := t) Text.isWord).length_le
  have hblank := (List.dropWhile_sublist (l := (t.dropWhile Text.isWord).drop 1) Text.isBlank).length_le
  rw [List.length_drop] at hblank
  rw [behindLabel]
  omega

def statement? (t : Text) : Option Text :=
  match _h : classify t with
  | .code c => some c
  | .label _ => statement? (behindLabel t)
  | .blank | .macroStart .. | .directive .. => none
termination_by t.length
decreasing_by exact length_behindLabel_lt _h

theorem statement?_of_code {t c : Text} (h : classify t = .code c) : statement? t = some c := by
  rw [statement?, h]

theorem statement?_of_label {t name : Text} (h : classify t = .label name) :
    statement? t = statement? (behindLabel t) := by
  rw [statement?, h]

end Line

/-- Can every line that a text stands for be an instruction? -/
def instructs (macros : Assoc Text Macro) (t : Text) : Bool :=
  ((expand { base := 0, macros := macros } t).splitOn '\n').all fun line =>
    (isInstruction line).toOption = some true

theorem instructs_iff {macros : Assoc Text Macro} {t : Text} :
    instructs macros t = true ↔
      ∀ l ∈ (expand { base := 0, macros := macros } t).splitOn '\n', isInstruction l = .ok true := by
  rw [instructs, List.all_eq_true]
  constructor
  · intro h l hl
    exact Except.eq_ok_of_toOption (by simpa using h l hl)
  · intro h l hl
    rw [h l hl]
    rfl

namespace Definitions

/-- The instructions that are written on a line, before or behind a label. -/
def written (d : Definitions) (line : Text) : List Text :=
  match d.inside, Line.statement? (withoutComment line) with
  | none, some c => if instructs d.macros c then expansion d.macros c else []
  | _, _ => []

def Accepts [Evaluator] (d : Definitions) (line : Text) : Prop :=
  match d.inside, Line.classify (withoutComment line) with
  | none, .directive name args => ((directive name args).effect { base := 0 }).1 = .ok ()
  | none, .code t => instructs d.macros t = true
  | _, _ => True

def AcceptsAll [Evaluator] : Definitions → List Text → Prop
  | _, [] => True
  | d, line :: lines => d.Accepts line ∧ (d.next line).AcceptsAll lines

theorem acceptsAll_append [Evaluator] {d : Definitions} {lines rest : List Text} :
    d.AcceptsAll (lines ++ rest) ↔ d.AcceptsAll lines ∧ (d.after lines).AcceptsAll rest := by
  induction lines generalizing d with
  | nil => simp [AcceptsAll, after]
  | cons line lines ih =>
      rw [List.cons_append, AcceptsAll, AcceptsAll, ih, and_assoc]
      rfl

end Definitions

theorem directive_result [Evaluator] [Evaluator.Textual] (name args : Text) (s s' : Assembly) :
    ((directive name args).effect s).1 = ((directive name args).effect s').1 := by
  by_cases hname : name = "equ".toList
  · rw [directive, if_pos hname, equate]
    split
    · rename_i constant value _
      rw [Action.effect_handle, Action.effect_handle, effect_define, effect_define]
      cases Evaluator.constantOf (Text.trim value) with
      | error e => rfl
      | ok v =>
          dsimp only
          cases Evaluator.display v with
          | error e => rfl
          | ok shown => rfl
    · rfl
  · rw [directive, if_neg hname]
    rfl

theorem forEach_addInstruction_of_all (index : Nat) {lines : List Text} (s : Assembly)
    (h : ∀ l ∈ lines, isInstruction l = .ok true) :
    ∃ s', (Action.forEach (addInstruction index) lines).effect s = (.ok (), s') := by
  induction lines generalizing s with
  | nil => exact ⟨s, rfl⟩
  | cons line lines ih =>
      obtain ⟨s₂, hrest⟩ := ih { s with
        indices := s.indices ++ [index]
        mnemonics := s.mnemonics ++ [Text.trim (Text.squeeze line)] } fun l hl => h l (by simp [hl])
      refine ⟨s₂, Action.effect_bind_eq_ok.mpr ⟨(), _, ?_, hrest⟩⟩
      rw [addInstruction, h line (by simp)]
      rfl

theorem readLine_ok_iff [Evaluator] [Evaluator.Textual] (index : Nat) {line : Text} {r : Reader}
    {s : Assembly} :
    (∃ r' s', (readLine index r line).effect s = (.ok r', s')) ↔
      Definitions.Accepts ⟨r.inside, s.macros⟩ line := by
  obtain ⟨inside, count⟩ := r
  cases inside with
  | some m =>
      refine iff_of_true ?_ trivial
      simp only [readLine, readInside]
      split
      · exact ⟨_, _, rfl⟩
      · split
        · exact ⟨_, _, rfl⟩
        · exact ⟨_, _, rfl⟩
  | none =>
      simp only [readLine, readOutside, Definitions.Accepts]
      cases hclass : Line.classify (withoutComment line) with
      | blank | macroStart | label => exact iff_of_true ⟨_, _, rfl⟩ trivial
      | directive name args =>
          dsimp only
          rw [directive_result name args { base := 0 } s]
          constructor
          · rintro ⟨r', s', h⟩
            obtain ⟨⟨⟩, s₁, hset, -⟩ := Action.effect_bind_eq_ok.mp h
            rw [hset]
          · intro h
            refine ⟨⟨none, count⟩, ((directive name args).effect s).2, ?_⟩
            exact Action.effect_bind_eq_ok.mpr ⟨(), _, Prod.ext h rfl, rfl⟩
      | code t =>
          dsimp only
          rw [instructs_iff]
          constructor
          · rintro ⟨r', s', h⟩
            obtain ⟨a, s₁, hget, hcode⟩ := Action.effect_bind_eq_ok.mp h
            obtain ⟨ha, hs₁⟩ := Action.effect_get_eq_ok.mp hget
            rw [ha, hs₁] at hcode
            obtain ⟨⟨⟩, s₂, hadd, -⟩ := Action.effect_bind_eq_ok.mp hcode
            exact (forEach_addInstruction_eq_ok hadd).1
          · intro h
            obtain ⟨s', hadd⟩ := forEach_addInstruction_of_all index s h
            exact ⟨_, s', Action.effect_bind_eq_ok.mpr ⟨s, s, rfl,
              Action.effect_bind_eq_ok.mpr ⟨(), s', hadd, rfl⟩⟩⟩

theorem readLines_ok_iff [Evaluator] [Evaluator.Textual] (index : Nat) (lines : List Text) {r : Reader}
    {s : Assembly} :
    (∃ r' s', (readLines index r lines).effect s = (.ok r', s')) ↔
      Definitions.AcceptsAll ⟨r.inside, s.macros⟩ lines := by
  induction lines generalizing index r s with
  | nil => exact iff_of_true ⟨r, s, rfl⟩ trivial
  | cons line lines ih =>
      rw [Definitions.AcceptsAll, ← readLine_ok_iff index]
      constructor
      · rintro ⟨r', s', h⟩
        obtain ⟨r₁, s₁, hline, hrest⟩ := Action.effect_bind_eq_ok.mp h
        refine ⟨⟨r₁, s₁, hline⟩, ?_⟩
        rw [← (readLine_listed hline).definitions, ← ih (index + 1)]
        exact ⟨r', s', hrest⟩
      · rintro ⟨⟨r₁, s₁, hline⟩, hrest⟩
        rw [← (readLine_listed hline).definitions, ← ih (index + 1)] at hrest
        obtain ⟨r', s', hrest⟩ := hrest
        exact ⟨r', s', Action.effect_bind_eq_ok.mpr ⟨r₁, s₁, hline, hrest⟩⟩

theorem ofText_ok_iff [Evaluator] [Evaluator.Textual] {text : Text} {base : Int} :
    (ofText text base).result = .ok () ↔ Definitions.AcceptsAll {} (Text.lines text) := by
  have hlines := readLines_ok_iff 0 (Text.lines text) (r := {})
    (s := ⟨base, Text.lines text, [], [], [], [], []⟩)
  refine Iff.trans ?_ hlines
  constructor
  · intro h
    obtain ⟨r, hread⟩ := read_eq_ok.mp (Action.effect_of_run (Outcome.eq_of_result h))
    exact ⟨r, _, hread⟩
  · rintro ⟨r, s, hread⟩
    have heffect : (read text).effect ⟨base, [], [], [], [], [], []⟩ = (.ok (), s) :=
      read_eq_ok.mpr ⟨r, hread⟩
    exact congrArg Prod.fst heffect

namespace Line

def isLabel : Line → Bool
  | .label _ => true
  | _ => false

theorem exists_of_isLabel {l : Line} (h : l.isLabel = true) : ∃ name, l = .label name := by
  cases l with
  | label name => exact ⟨name, rfl⟩
  | blank | macroStart | directive | code => cases h

end Line

theorem exists_label_of_any {l : Option Line}
    (h : l.any Line.isLabel = true) : ∃ name, l = some (.label name) := by
  cases l with
  | none => cases h
  | some l =>
      obtain ⟨name, rfl⟩ := Line.exists_of_isLabel h
      exact ⟨name, rfl⟩

namespace Definitions

variable {d : Definitions} {line name c : Text} {lines : List Text}

theorem accepts_of_label [Evaluator] (hout : d.inside = none)
    (hlabel : Line.classify (withoutComment line) = .label name) :
    d.Accepts line := by
  rw [Accepts, hout, hlabel]
  trivial

theorem accepts_of_code [Evaluator] (hout : d.inside = none)
    (hcode : Line.classify (withoutComment line) = .code c) :
    d.Accepts line ↔ instructs d.macros c = true := by
  rw [Accepts, hout, hcode]

theorem added_eq_written [Evaluator] (h : d.Accepts line)
    (hlabel : d.inside = none → (Line.classify (withoutComment line)).isLabel = false) :
    d.added line = d.written line := by
  obtain ⟨inside, macros⟩ := d
  cases inside with
  | some m => rfl
  | none =>
      cases hclass : Line.classify (withoutComment line) with
      | code c =>
          rw [added_of_code rfl hclass, written, Line.statement?_of_code hclass]
          exact (if_pos ((accepts_of_code rfl hclass).mp h)).symm
      | label name =>
          rw [hclass] at hlabel
          cases hlabel rfl
      | blank | macroStart | directive =>
          have hnone : Line.statement? (withoutComment line) = none := by rw [Line.statement?, hclass]
          simp only [added, written, hclass, hnone]

theorem forall₂_scan [Evaluator] (h : d.AcceptsAll lines) :
    List.Forall₂ (fun x y => x = y ∨ x = []) (scan added d lines) (scan written d lines) := by
  induction lines generalizing d with
  | nil => exact .nil
  | cons line lines ih =>
      refine .cons ?_ (ih h.2)
      by_cases hlabel : d.inside = none → (Line.classify (withoutComment line)).isLabel = false
      · exact .inl (added_eq_written h.1 hlabel)
      · obtain ⟨hout, hlabel⟩ := Classical.not_imp.mp hlabel
        obtain ⟨name, hname⟩ := Line.exists_of_isLabel (Bool.eq_true_of_not_eq_false hlabel)
        exact .inr (added_of_label hout hname)

theorem AcceptsAll.getElem? [Evaluator] (h : d.AcceptsAll lines) {j : Nat} (hline : lines[j]? = some line) :
    (d.after (lines.take j)).Accepts line := by
  induction lines generalizing d j with
  | nil => simp at hline
  | cons l lines ih =>
      cases j with
      | zero =>
          obtain rfl : l = line := by simpa using hline
          exact h.1
      | succ j => exact ih h.2 hline

end Definitions

/-- Line `j` has the instruction `c` behind a label. -/
def Labelled (lines : List Text) (j : Nat) (c : Text) : Prop :=
  ∃ line name, lines[j]? = some line ∧ lineAt? lines j = some (.label name) ∧
    Line.statement? (withoutComment line) = some c ∧ instructs (definitionsAt lines j).macros c = true

theorem getElem?_listing [Evaluator] {lines : List Text} {line : Text} {j : Nat}
    (h : Definitions.AcceptsAll {} lines) (hline : lines[j]? = some line) :
    (listing lines)[j]? = some
      (if (lineAt? lines j).any Line.isLabel then [] else (definitionsAt lines j).written line) := by
  rw [listing, Definitions.getElem?_scan, hline, Option.map_some, ← definitionsAt, Option.some.injEq,
    lineAt?_of_getElem? hline]
  have haccepts : (definitionsAt lines j).Accepts line := h.getElem? hline
  cases hin : (definitionsAt lines j).inside with
  | some m => exact Definitions.added_eq_written haccepts (by simp [hin])
  | none =>
      cases hlabel : (Line.classify (withoutComment line)).isLabel with
      | true =>
          obtain ⟨name, hname⟩ := Line.exists_of_isLabel hlabel
          rw [Definitions.added_of_label hin hname]
          simp [hlabel]
      | false =>
          rw [Definitions.added_eq_written haccepts fun _ => hlabel]
          simp [hlabel]

theorem flatten_listing_eq_iff [Evaluator] {lines : List Text} (h : Definitions.AcceptsAll {} lines) :
    (listing lines).flatten = (Definitions.scan Definitions.written {} lines).flatten ↔
      ∀ j c, ¬ Labelled lines j c := by
  rw [listing, flatten_eq_iff (Definitions.forall₂_scan h), ← listing]
  constructor
  · rintro heq j c ⟨line, name, hline, hlabel, hc, hinstructs⟩
    have hwritten := congrArg (·[j]?) heq
    obtain ⟨-, -, hout, -⟩ := exists_of_lineAt? hlabel
    rw [getElem?_listing_label hlabel, Definitions.getElem?_scan, hline, Option.map_some, ← definitionsAt,
      Definitions.written, hout, hc] at hwritten
    simp only [hinstructs, if_true, Option.some.injEq] at hwritten
    exact expansion_ne_nil _ _ hwritten.symm
  · intro hnone
    apply List.ext_getElem?
    intro j
    cases hline : lines[j]? with
    | none => rw [listing, Definitions.getElem?_scan, Definitions.getElem?_scan, hline]; rfl
    | some line =>
        rw [getElem?_listing h hline, Definitions.getElem?_scan, hline, Option.map_some, ← definitionsAt]
        by_cases hlabel : (lineAt? lines j).any Line.isLabel = true
        · rw [if_pos hlabel, Option.some.injEq, Definitions.written]
          split
          · rename_i c hout hc
            obtain ⟨name, hname⟩ := exists_label_of_any hlabel
            refine (if_neg ?_).symm
            intro hinstructs
            exact hnone j c ⟨line, name, hline, hname, hc, hinstructs⟩
          · rfl
        · rw [if_neg hlabel]

/-- The second text has on a line of its own the instruction `c` that the first has behind a label; the
macros are those defined before it. -/
inductive Parted : List Text → List Text → Assoc Text Macro → Text → Prop where
  | intro {before after : List Text} {line label rest name c : Text} (hout : insideAfter before = false)
      (hline : Line.classify (withoutComment line) = .label name)
      (hlabel : Line.classify (withoutComment label) = .label name)
      (halone : Line.behindLabel (withoutComment label) = [])
      (hrest : withoutComment rest = Line.behindLabel (withoutComment line))
      (hcode : Line.classify (withoutComment rest) = .code c) :
      Parted (before ++ line :: after) (before ++ label :: rest :: after)
        (Definitions.after {} before).macros c

section Parted

variable {lines lines' : List Text} {macros : Assoc Text Macro} {c : Text}

theorem Parted.listing (h : Parted lines lines' macros c) :
    ∃ front back, (listing lines).flatten = front ++ back ∧
      (listing lines').flatten = front ++ expansion macros c ++ back := by
  obtain @⟨before, after, line, label, rest, name, c, hout, hline, hlabel, -, -, hcode⟩ := h
  have hnone := inside_after_eq_none hout
  refine ⟨(Assembly.listing before).flatten,
    (Definitions.scan Definitions.added (Definitions.after {} before) after).flatten, ?_, ?_⟩
  · rw [Assembly.listing, Definitions.scan_append, Definitions.scan, Definitions.next_of_label hnone hline,
      Definitions.added_of_label hnone hline, List.flatten_append, List.flatten_cons, List.nil_append]
    rfl
  · rw [Assembly.listing, Definitions.scan_append, Definitions.scan, Definitions.next_of_label hnone hlabel,
      Definitions.added_of_label hnone hlabel, Definitions.scan, Definitions.next_of_code hnone hcode,
      Definitions.added_of_code hnone hcode, List.flatten_append, List.flatten_cons, List.flatten_cons,
      List.nil_append, ← List.append_assoc]
    rfl

theorem Parted.acceptsAll_iff [Evaluator] (h : Parted lines lines' macros c) :
    Definitions.AcceptsAll {} lines' ↔ Definitions.AcceptsAll {} lines ∧ instructs macros c = true := by
  obtain @⟨before, after, line, label, rest, name, c, hout, hline, hlabel, -, -, hcode⟩ := h
  have hnone := inside_after_eq_none hout
  rw [Definitions.acceptsAll_append, Definitions.acceptsAll_append, Definitions.AcceptsAll,
    Definitions.AcceptsAll, Definitions.AcceptsAll, Definitions.next_of_label hnone hline,
    Definitions.next_of_label hnone hlabel, Definitions.next_of_code hnone hcode,
    Definitions.accepts_of_code hnone hcode]
  have hl := Definitions.accepts_of_label hnone hline
  have hl' := Definitions.accepts_of_label hnone hlabel
  tauto

end Parted

theorem Encodes.length_eq [Evaluator] {st : SymbolTable} {pc : Int} {lines : List Text} {cs : List Coded}
    (h : Encodes st pc lines cs) : cs.length = lines.length := by
  induction h with
  | nil => rfl
  | cons _ _ _ _ _ ih => rw [List.length_cons, List.length_cons, ih]

theorem length_encodings [Evaluator] [Evaluator.Textual] {text : Text} {base : Int} {es : List Text}
    (h : encodings text base = .ok es) :
    es.length = (listing (Text.lines text)).flatten.length := by
  obtain ⟨⟨⟩, hread, h⟩ := Except.bind_eq_ok.mp h
  obtain ⟨⟨⟩, hassemble, h⟩ := Except.bind_eq_ok.mp h
  obtain rfl := Except.ok.inj h
  obtain ⟨cs, hcs, hstate⟩ := assemble_eq_ok (Action.effect_of_run (Outcome.eq_of_result hassemble))
  rw [hstate, List.length_map, hcs.length_eq, (ofText_listed (Outcome.eq_of_result hread)).2.1]

/-- The instructions of a text are those written on its lines without a label, line by line. They are all
that is written if and only if no instruction stands behind a label. To write such an instruction on a
line of its own adds it to the program and never gives the same code. -/
theorem mnemonics_eq_written_iff [Evaluator] [Evaluator.Textual] {text : Text} {base : Int}
    {a : Assembly} {log : Log} (h : ofText text base = ⟨log, a, .ok ()⟩) :
    (∃ parts : List (List Text), a.mnemonics = parts.flatten ∧ parts.length = a.lines.length ∧
      ∀ (j : Nat) line, a.lines[j]? = some line → parts[j]? = some
        (if (lineAt? a.lines j).any Line.isLabel then [] else (definitionsAt a.lines j).written line)) ∧
    (a.mnemonics = (Definitions.scan Definitions.written {} a.lines).flatten ↔
      ∀ j c, ¬ Labelled a.lines j c) ∧
    ∀ text' macros c, Parted a.lines (Text.lines text') macros c →
      ((ofText text' base).result = .ok () ↔ instructs macros c = true) ∧
      ((ofText text' base).result = .ok () → ∃ front back, a.mnemonics = front ++ back ∧
        (ofText text' base).state.mnemonics = front ++ expansion macros c ++ back) ∧
      ∀ es es', encodings text base = .ok es → encodings text' base = .ok es' → es.length < es'.length := by
  have haccepts : Definitions.AcceptsAll {} (Text.lines text) :=
    ofText_ok_iff.mp (congrArg Outcome.result h)
  obtain ⟨hlines, hmnemonics, -⟩ := ofText_listed h
  rw [hlines, hmnemonics]
  refine ⟨⟨listing (Text.lines text), rfl, Definitions.length_scan, ?_⟩, flatten_listing_eq_iff haccepts, ?_⟩
  · intro j line hline
    exact getElem?_listing haccepts hline
  · intro text' macros c hparted
    obtain ⟨front, back, hflat, hflat'⟩ := hparted.listing
    refine ⟨?_, ?_, ?_⟩
    · rw [ofText_ok_iff, hparted.acceptsAll_iff]
      exact and_iff_right haccepts
    · intro hread
      refine ⟨front, back, hflat, ?_⟩
      rw [(ofText_listed (Outcome.eq_of_result hread)).2.1, hflat']
    · intro es es' hes hes'
      have hne := List.length_pos_iff.mpr (expansion_ne_nil macros c)
      rw [length_encodings hes, length_encodings hes', hflat, hflat']
      simp only [List.length_append]
      omega

def labelledLine : Text := "addi x2, x0, 2\nl: addi x1, x0, 1\n".toList

def labelApart : Text := "addi x2, x0, 2\nl:\naddi x1, x0, 1\n".toList

section EncodingsLabelledLine

open scoped Evaluator.Arithmetic

theorem encodings_labelledLine :
    (ofText labelledLine 0).result = .ok () ∧
    (ofText labelledLine 0).state.mnemonics ≠
      (Definitions.scan Definitions.written {} (ofText labelledLine 0).state.lines).flatten ∧
    Parted (ofText labelledLine 0).state.lines (Text.lines labelApart) [] "addi x1, x0, 1".toList ∧
    ∃ es es', encodings labelledLine 0 = .ok es ∧ encodings labelApart 0 = .ok es' ∧
      es.length < es'.length := by
  have hread : (ofText labelledLine 0).result = .ok () := Except.eq_ok_of_toOption (by decide +kernel)
  have hlines : (ofText labelledLine 0).state.lines =
      ["addi x2, x0, 2".toList] ++ "l: addi x1, x0, 1".toList :: [] := by decide +kernel
  have hapart : Text.lines labelApart =
      ["addi x2, x0, 2".toList] ++ "l:".toList :: "addi x1, x0, 1".toList :: [] := by decide +kernel
  have hlabel : Line.classify (withoutComment "l: addi x1, x0, 1".toList) = .label "l".toList := by
    decide +kernel
  have hbehind : Line.behindLabel (withoutComment "l: addi x1, x0, 1".toList) = "addi x1, x0, 1".toList := by
    decide +kernel
  have hcode : Line.classify "addi x1, x0, 1".toList = .code "addi x1, x0, 1".toList := by decide +kernel
  have hparted : Parted (ofText labelledLine 0).state.lines (Text.lines labelApart) []
      "addi x1, x0, 1".toList := by
    rw [hlines, hapart]
    exact .intro (by decide +kernel) hlabel (by decide +kernel) (by decide +kernel)
      (by decide +kernel) (by decide +kernel)
  have hlabelled : Labelled (ofText labelledLine 0).state.lines 1 "addi x1, x0, 1".toList := by
    refine ⟨"l: addi x1, x0, 1".toList, "l".toList, by rw [hlines]; rfl, by decide +kernel, ?_, by decide +kernel⟩
    rw [Line.statement?_of_label hlabel, hbehind, Line.statement?_of_code hcode]
  obtain ⟨-, hiff, hparts⟩ := mnemonics_eq_written_iff (Outcome.eq_of_result hread)
  have hes : encodings labelledLine 0 = .ok ["00000000001000000000000100010011".toList] :=
    Except.eq_ok_of_toOption (by decide +kernel)
  have hes' : encodings labelApart 0 = .ok ["00000000001000000000000100010011".toList,
      "00000000000100000000000010010011".toList] := Except.eq_ok_of_toOption (by decide +kernel)
  exact ⟨hread, fun heq => hiff.mp heq _ _ hlabelled, hparted, _, _, hes, hes',
    (hparts labelApart _ _ hparted).2.2 _ _ hes hes'⟩

end EncodingsLabelledLine

end Assembly

end RvToolkit
