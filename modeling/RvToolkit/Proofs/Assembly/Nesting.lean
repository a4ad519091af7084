import RvToolkit.Proofs.Assembly.Expansion
import RvToolkit.Proofs.Assembly.LabelledLines
import RvToolkit.Proofs.Assembly.Recasing

namespace RvToolkit

namespace Text

variable {c : Char} {t w cur : Text} {ws : List Text}

theorem wordsFrom_squeezeFrom {after : Bool} (hcur : after = true → cur = []) (t : Text) :
    wordsFrom cur (squeezeFrom after t) = wordsFrom cur t := by
  induction t generalizing cur after with
  | nil => rfl
  | cons c t ih =>
      have hspace : isBlank ' ' = true := by decide
      by_cases hc : isBlank c = true
      · have hrest : wordsFrom [] (squeezeFrom true t) = wordsFrom [] t := ih fun _ => rfl
        rw [squeezeFrom, if_pos hc, wordsFrom, if_pos hc]
        cases after with
        | true =>
            obtain rfl := hcur rfl
            exact hrest
        | false =>
            rw [if_neg Bool.false_ne_true, wordsFrom, if_pos hspace, hrest]
      · rw [squeezeFrom, if_neg hc, wordsFrom, if_neg hc, wordsFrom, if_neg hc]
        exact ih fun h => absurd h Bool.false_ne_true

theorem words_squeeze (t : Text) : words (squeeze t) = words t :=
  wordsFrom_squeezeFrom (fun h => absurd h Bool.false_ne_true) t

theorem words_dropWhile (t : Text) : words (t.dropWhile isBlank) = words t := by
  induction t with
  | nil => rfl
  | cons c t ih =>
      rw [List.dropWhile_cons]
      split
      · rename_i hc
        rw [ih, words, words, wordsFrom, if_pos hc]
        rfl
      · rfl

theorem wordsFrom_append_blanks {u : Text} (hu : ∀ c ∈ u, isBlank c = true) (cur t : Text) :
    wordsFrom cur (t ++ u) = wordsFrom cur t := by
  induction t generalizing cur with
  | nil =>
      induction u generalizing cur with
      | nil => rfl
      | cons c u ih =>
          obtain ⟨hc, hu⟩ := List.forall_mem_cons.mp hu
          have hcons : wordsFrom cur ([] ++ c :: u) =
              if cur.isEmpty then wordsFrom [] ([] ++ u) else cur.reverse :: wordsFrom [] ([] ++ u) := if_pos hc
          rw [hcons, ih hu]
          rfl
  | cons c t ih =>
      rw [List.cons_append, wordsFrom, wordsFrom, ih, ih]

theorem words_trimEnd (t : Text) : words (trimEnd t) = words t := by
  have hsplit : trimEnd t ++ (t.reverse.takeWhile isBlank).reverse = t := by
    rw [trimEnd, ← List.reverse_append, List.takeWhile_append_dropWhile, List.reverse_reverse]
  have hblank : ∀ c ∈ (t.reverse.takeWhile isBlank).reverse, isBlank c = true := fun c hc =>
    List.mem_takeWhile_imp (List.mem_reverse.mp hc)
  have hwords := wordsFrom_append_blanks hblank [] (trimEnd t)
  rw [hsplit] at hwords
  exact hwords.symm

theorem words_trim_squeeze (t : Text) : words (trim (squeeze t)) = words t := by
  rw [trim, words_trimEnd, words_dropWhile, words_squeeze]

theorem prefix_of_wordsFrom (hcur : cur ≠ []) (h : wordsFrom cur t = w :: ws) : cur.reverse <+: w := by
  induction t generalizing cur with
  | nil =>
      rw [wordsFrom, if_neg (by simpa using hcur)] at h
      obtain ⟨rfl, -⟩ := List.cons.inj h
      exact List.prefix_rfl
  | cons c t ih =>
      by_cases hc : isBlank c = true
      · rw [wordsFrom, if_pos hc, if_neg (by simpa using hcur)] at h
        obtain ⟨rfl, -⟩ := List.cons.inj h
        exact List.prefix_rfl
      · rw [wordsFrom, if_neg hc] at h
        have hprefix := ih (List.cons_ne_nil c cur) h
        rw [List.reverse_cons] at hprefix
        exact (List.prefix_append _ _).trans hprefix

theorem wordsFrom_filter (h : wordsFrom cur t = w :: ws) (hw : ',' ∉ w) :
    ∃ ws', wordsFrom cur (t.filter (· ≠ ',')) = w :: ws' := by
  have hcomma : isBlank ',' = false := by decide
  induction t generalizing cur with
  | nil => exact ⟨ws, h⟩
  | cons c t ih =>
      by_cases hc : isBlank c = true
      · have hne : c ≠ ',' := by
          rintro rfl
          rw [hcomma] at hc
          cases hc
        rw [List.filter_cons_of_pos (by simpa using hne), wordsFrom, if_pos hc]
        rw [wordsFrom, if_pos hc] at h
        split at h
        · rename_i hcur
          rw [if_pos hcur]
          exact ih h
        · rename_i hcur
          rw [if_neg hcur]
          obtain ⟨rfl, -⟩ := List.cons.inj h
          exact ⟨_, rfl⟩
      · rw [wordsFrom, if_neg hc] at h
        have hne : c ≠ ',' := by
          rintro rfl
          exact hw ((prefix_of_wordsFrom (List.cons_ne_nil _ _) h).subset (by simp))
        rw [List.filter_cons_of_pos (by simpa using hne), wordsFrom, if_neg hc]
        exact ih h

end Text

namespace Assembly

open Text

theorem comma_notMem_of_isMnemonic {w : Text} (h : isMnemonic w = true) : ',' ∉ w := by
  have hletter : isLetter ',' = false := by decide
  have hsplit : w.takeWhile isLetter ++ w.dropWhile isLetter = w := List.takeWhile_append_dropWhile
  obtain ⟨-, htail⟩ := Bool.and_eq_true_iff.mp h
  rw [← hsplit, List.mem_append, not_or]
  refine ⟨fun hmem => ?_, ?_⟩
  · rw [List.mem_takeWhile_imp hmem] at hletter
    cases hletter
  · split at htail
    · rename_i hnil
      rw [hnil]
      exact List.not_mem_nil
    · rename_i cs hcons
      obtain ⟨-, hall⟩ := Bool.and_eq_true_iff.mp htail
      rw [hcons, List.mem_cons, not_or]
      refine ⟨by decide, fun hmem => ?_⟩
      have hspec := List.all_eq_true.mp hall ',' hmem
      rw [hletter] at hspec
      cases hspec
    · cases htail

/-- The text begins with the name of a macro. -/
def calls (macros : Assoc Text Macro) (t : Text) : Bool :=
  (words t).head?.any fun w => (macros.get? w).isSome

/-- An instruction that is listed for a line: the line itself if it calls no macro, or a line of the macro
that it calls, with its arguments written in. -/
inductive Origin (macros : Assoc Text Macro) (c : Text) : Text → Prop where
  | own (hcalls : calls macros c = false) : Origin macros c (trim (squeeze c))
  | called {name l : Text} {given : List Text} {m : Macro} (hwords : wordsWithoutCommas c = name :: given)
      (hm : macros.get? name = some m) (hl : l ∈ m.lines) :
      Origin macros c (trim (squeeze (Macro.fill (Macro.bind m given) l)))

section Expansion

variable {macros : Assoc Text Macro} {c name l : Text} {given : List Text} {m : Macro}

theorem wordsWithoutCommas_of_isInstruction (h : isInstruction c = .ok true) :
    ∃ ws given, words c = headWord c :: ws ∧ wordsWithoutCommas c = headWord c :: given := by
  unfold isInstruction at h
  cases hwords : words c with
  | nil =>
      rw [hwords] at h
      cases h
  | cons w ws =>
      rw [hwords] at h
      obtain ⟨given, hfirst⟩ := wordsFrom_filter hwords (comma_notMem_of_isMnemonic (Except.ok.inj h))
      have hwords' : wordsWithoutCommas c = w :: given := hfirst
      have hhead : headWord c = w := by
        rw [headWord, hwords']
        rfl
      rw [hhead]
      exact ⟨ws, given, rfl, hwords'⟩

theorem calls_of_isInstruction (h : isInstruction c = .ok true) (hnone : macros.get? (headWord c) = none) :
    calls macros c = false := by
  obtain ⟨ws, -, hwords, -⟩ := wordsWithoutCommas_of_isInstruction h
  rw [calls, hwords]
  simp [hnone]

theorem exists_wordsWithoutCommas (hc : c.Solid) (h : instructs macros c = true) :
    ∃ given, wordsWithoutCommas c = headWord c :: given := by
  cases hwords : wordsWithoutCommas c with
  | cons name given => exact ⟨given, by rw [headWord, hwords]; rfl⟩
  | nil =>
      have hself : expand { base := 0, macros := macros } c = c := by
        rw [expand, hwords]
      have haccepted := instructs_iff.mp h c
      rw [hself, List.splitOn_eq_singleton hc.1] at haccepted
      obtain ⟨-, given, -, hcons⟩ := wordsWithoutCommas_of_isInstruction (haccepted List.mem_cons_self)
      rw [hwords] at hcons
      cases hcons

theorem calls_listed (macros : Assoc Text Macro) (l : Text) :
    calls macros (trim (squeeze l)) = calls macros l := by
  rw [calls, words_trim_squeeze, calls]

theorem expansion_of_none (hc : c.Solid) (hnone : macros.get? (headWord c) = none) :
    expansion macros c = [trim (squeeze c)] := by
  rw [expansion, expand_of_none hnone, List.splitOn_eq_singleton hc.1]
  rfl

theorem expansion_of_call (hmacros : ∀ p ∈ macros, ∀ l ∈ p.2.lines, l.Solid)
    (hwords : wordsWithoutCommas c = name :: given) (hm : macros.get? name = some m) (hne : m.lines ≠ []) :
    expansion macros c = m.lines.map fun l => trim (squeeze (Macro.fill (Macro.bind m given) l)) := by
  have hgiven : ∀ w ∈ given, w.Solid := fun w hw =>
    solid_of_mem_wordsWithoutCommas (hwords ▸ List.mem_cons_of_mem _ hw)
  have hfilled : ∀ l ∈ m.lines.map (Macro.fill (Macro.bind m given)), '\n' ∉ l := by
    rw [List.forall_mem_map]
    intro l hl
    exact (solid_fill (hmacros _ (Assoc.mem_of_get? hm) l hl) (solid_of_mem_bind hgiven)).1
  rw [expansion, expand_call hwords hm, join_eq_intercalate, List.splitOn_intercalate _ hfilled (by simpa using hne),
    List.map_map]
  rfl

theorem lines_ne_nil_of_instructs (h : instructs macros c = true)
    (hwords : wordsWithoutCommas c = name :: given)
    (hm : macros.get? name = some m) : m.lines ≠ [] := by
  intro hnil
  have hempty : expand { base := 0, macros := macros } c = [] :=
    expand_of_callsEmpty ⟨name, given, m, hwords, hm, hnil⟩
  have haccepted := instructs_iff.mp h []
  rw [hempty, List.splitOn_nil] at haccepted
  cases haccepted List.mem_cons_self

end Expansion

namespace Definitions

/-- No line of a macro is blank or more than a line. -/
structure Sound (d : Definitions) : Prop where
  macros : ∀ p ∈ d.macros, ∀ l ∈ p.2.lines, l.Solid
  body : ∀ m, d.inside = some m → ∀ l ∈ m.body, l.Solid

theorem Sound.next {d : Definitions} {line : Text} (h : d.Sound)
    (hline : '\n' ∉ line) : (d.next line).Sound := by
  unfold Definitions.next
  split
  · rename_i m hinside
    split
    · exact h
    · rename_i hne
      split
      · refine ⟨?_, fun m' hm' => by cases hm'⟩
        intro p hp l hl
        rcases Assoc.eq_or_mem_of_mem_insert hp with rfl | hp
        · exact h.body m hinside l (List.mem_reverse.mp hl)
        · exact h.macros p hp l hl
      · refine ⟨h.macros, ?_⟩
        rintro m' hm'
        cases hm'
        rw [List.forall_mem_cons]
        exact ⟨solid_withoutComment hline (by simpa using hne), h.body m hinside⟩
  · split
    · refine ⟨h.macros, ?_⟩
      rintro m' hm'
      cases hm'
      exact List.forall_mem_nil _
    · exact h

theorem Sound.after {d : Definitions} {lines : List Text} (h : d.Sound) (hlines : ∀ l ∈ lines, '\n' ∉ l) :
    (d.after lines).Sound := by
  induction lines generalizing d with
  | nil => exact h
  | cons line lines ih =>
      obtain ⟨hline, hlines⟩ := List.forall_mem_cons.mp hlines
      exact ih (h.next hline) hlines

theorem exists_of_mem_added {d : Definitions} {line e : Text} (h : e ∈ d.added line) :
    ∃ c, d.inside = none ∧ Line.classify (withoutComment line) = .code c ∧ e ∈ expansion d.macros c := by
  unfold added at h
  split at h
  · rename_i c hinside hclass
    exact ⟨c, hinside, hclass, h⟩
  · cases h

end Definitions

theorem sound_definitionsAt {lines : List Text} (hlines : ∀ l ∈ lines, '\n' ∉ l) (j : Nat) :
    (definitionsAt lines j).Sound :=
  Definitions.Sound.after ⟨List.forall_mem_nil _, fun m hm => by cases hm⟩ fun l hl =>
    hlines l (List.mem_of_mem_take hl)

theorem zip_origins (index : Nat) (cs : List (List Text)) :
    cs.flatten.zip (origins index cs) = (cs.zipIdx index).flatMap fun p => p.1.map fun e => (e, p.2) := by
  have hreplicate (c : List Text) (i : Nat) : c.zip (List.replicate c.length i) = c.map fun e => (e, i) := by
    induction c with
    | nil => rfl
    | cons e c ih => exact congrArg ((e, i) :: ·) ih
  induction cs generalizing index with
  | nil => rfl
  | cons c cs ih =>
      rw [List.flatten_cons, origins, List.zip_append (by simp), ih, List.zipIdx_cons, List.flatMap_cons, hreplicate]

section Text

variable {text : Text} {base : Int} {a : Assembly} {log : Log}

theorem mem_zip_iff [Evaluator] [Evaluator.Textual] (h : ofText text base = ⟨log, a, .ok ()⟩) {e : Text}
    {j : Nat} :
    (e, j) ∈ a.mnemonics.zip a.indices ↔
      ∃ c, lineAt? a.lines j = some (.code c) ∧ e ∈ expansion (definitionsAt a.lines j).macros c := by
  obtain ⟨hlines, hmnemonics, hindices⟩ := ofText_listed h
  rw [hmnemonics, hindices, zip_origins, hlines, List.mem_flatMap]
  constructor
  · rintro ⟨⟨es, i⟩, hentry, he⟩
    obtain ⟨e', he', hpair⟩ := List.mem_map.mp he
    obtain ⟨rfl, rfl⟩ := Prod.mk.inj hpair
    have hlisted := List.mk_mem_zipIdx_iff_getElem?.mp hentry
    rw [listing, Definitions.getElem?_scan] at hlisted
    obtain ⟨line, hline, rfl⟩ := Option.map_eq_some_iff.mp hlisted
    obtain ⟨c, hinside, hclass, hmem⟩ := Definitions.exists_of_mem_added he'
    refine ⟨c, ?_, hmem⟩
    rw [lineAt?_of_getElem? hline, definitionsAt, hinside, hclass]
    rfl
  · rintro ⟨c, hline, he⟩
    obtain ⟨line, hline, hinside, hclass⟩ := exists_of_lineAt? hline
    refine ⟨((definitionsAt (Text.lines text) j).added line, j), ?_, List.mem_map.mpr ⟨e, ?_, rfl⟩⟩
    · rw [List.mk_mem_zipIdx_iff_getElem?, listing, Definitions.getElem?_scan, hline]
      rfl
    · rw [Definitions.added_of_code hinside hclass]
      exact he

theorem accepted_line [Evaluator] [Evaluator.Textual] (h : ofText text base = ⟨log, a, .ok ()⟩)
    {c : Text} {j : Nat} (hline : lineAt? a.lines j = some (.code c)) :
    c.Solid ∧ (definitionsAt a.lines j).Sound ∧ instructs (definitionsAt a.lines j).macros c = true := by
  have hlines : a.lines = Text.lines text := (ofText_listed h).1
  rw [hlines] at hline ⊢
  obtain ⟨line, hget, hinside, hclass⟩ := exists_of_lineAt? hline
  have hbreak : ∀ l ∈ Text.lines text, '\n' ∉ l := fun l hl hc =>
    absurd (Text.isLineBreak_of_mem_lines hl _ hc) (by decide)
  have haccepts := (ofText_ok_iff.mp (congrArg Outcome.result h)).getElem? hget
  rw [← definitionsAt, Definitions.accepts_of_code hinside hclass] at haccepts
  obtain ⟨rfl, hne⟩ := code_of_classify hclass
  exact ⟨solid_withoutComment (hbreak line (List.mem_of_getElem? hget)) hne, sound_definitionsAt hbreak j, haccepts⟩

theorem origin_of_mem [Evaluator] [Evaluator.Textual] (h : ofText text base = ⟨log, a, .ok ()⟩)
    {c e : Text} {j : Nat}
    (hline : lineAt? a.lines j = some (.code c)) (he : e ∈ expansion (definitionsAt a.lines j).macros c) :
    Origin (definitionsAt a.lines j).macros c e := by
  obtain ⟨hsolid, hsound, haccepts⟩ := accepted_line h hline
  cases hfound : (definitionsAt a.lines j).macros.get? (headWord c) with
  | none =>
      rw [expansion_of_none hsolid hfound, List.mem_singleton] at he
      have hself : isInstruction c = .ok true := by
        refine instructs_iff.mp haccepts c ?_
        rw [expand_of_none hfound, List.splitOn_eq_singleton hsolid.1]
        exact List.mem_cons_self
      rw [he]
      exact .own (calls_of_isInstruction hself hfound)
  | some m =>
      obtain ⟨given, hwords⟩ := exists_wordsWithoutCommas hsolid haccepts
      rw [expansion_of_call hsound.macros hwords hfound (lines_ne_nil_of_instructs haccepts hwords hfound)] at he
      obtain ⟨l, hl, rfl⟩ := List.mem_map.mp he
      exact .called hwords hfound hl

/-- Macros are expanded once. Each entry of an accepted program is its line, which then calls no macro, or
a filled line of the macro that its line calls. So no entry begins with the name of a macro that is
defined before its line if and only if no filled line of a call does. -/
theorem expanded_once [Evaluator] [Evaluator.Textual] (h : ofText text base = ⟨log, a, .ok ()⟩) :
    (∀ e j, (e, j) ∈ a.mnemonics.zip a.indices →
      ∃ c, lineAt? a.lines j = some (.code c) ∧ Origin (definitionsAt a.lines j).macros c e) ∧
    ((∀ e j, (e, j) ∈ a.mnemonics.zip a.indices → calls (definitionsAt a.lines j).macros e = false) ↔
      ∀ j c name given m, lineAt? a.lines j = some (.code c) → wordsWithoutCommas c = name :: given →
        (definitionsAt a.lines j).macros.get? name = some m →
        ∀ l ∈ m.lines, calls (definitionsAt a.lines j).macros (Macro.fill (Macro.bind m given) l) = false) := by
  have horigin (e : Text) (j : Nat) (he : (e, j) ∈ a.mnemonics.zip a.indices) :
      ∃ c, lineAt? a.lines j = some (.code c) ∧ Origin (definitionsAt a.lines j).macros c e := by
    obtain ⟨c, hline, hmem⟩ := (mem_zip_iff h).mp he
    exact ⟨c, hline, origin_of_mem h hline hmem⟩
  refine ⟨horigin, ?_, ?_⟩
  · intro hnone j c name given m hline hwords hm l hl
    obtain ⟨-, hsound, haccepts⟩ := accepted_line h hline
    have hexpansion := expansion_of_call hsound.macros hwords hm (lines_ne_nil_of_instructs haccepts hwords hm)
    rw [← calls_listed]
    refine hnone _ j ((mem_zip_iff h).mpr ⟨c, hline, ?_⟩)
    rw [hexpansion]
    exact List.mem_map_of_mem hl
  · intro hbodies e j he
    obtain ⟨c, hline, horigin⟩ := horigin e j he
    cases horigin with
    | own hcalls => rw [calls_listed, hcalls]
    | called hwords hm hl =>
        rw [calls_listed]
        exact hbodies j c _ _ _ hline hwords hm _ hl

def nested : Text :=
  ".macro inc r\naddi \\r, \\r, 1\n.endm\n.macro twice r\ninc \\r\ninc \\r\n.endm\ntwice x1\n".toList

section ExpandedOnceNested

open scoped Evaluator.Arithmetic

theorem expanded_once_nested :
    (ofText nested 0).state.mnemonics = ["inc x1".toList, "inc x1".toList] ∧
    calls (definitionsAt (ofText nested 0).state.lines 7).macros "inc x1".toList = true ∧
    ¬ ∀ e j, (e, j) ∈ (ofText nested 0).state.mnemonics.zip (ofText nested 0).state.indices →
      calls (definitionsAt (ofText nested 0).state.lines j).macros e = false := by
  have hread : (ofText nested 0).result = .ok () := Except.eq_ok_of_toOption (by decide +kernel)
  have hlines : (ofText nested 0).state.lines = Text.lines nested := (ofText_listed (Outcome.eq_of_result hread)).1
  have hline : lineAt? (Text.lines nested) 7 = some (.code "twice x1".toList) := by decide +kernel
  have hmacro : (definitionsAt (Text.lines nested) 7).macros.get? "twice".toList =
      some ⟨["r".toList], ["inc \\r".toList, "inc \\r".toList]⟩ := by decide +kernel
  have hinner : calls (definitionsAt (Text.lines nested) 7).macros "inc x1".toList = true := by decide +kernel
  refine ⟨by decide +kernel, hlines ▸ hinner, ?_⟩
  rw [(expanded_once (Outcome.eq_of_result hread)).2, hlines]
  intro hnone
  have hcalls := hnone 7 _ "twice".toList ["x1".toList] _ hline (by decide) hmacro "inc \\r".toList List.mem_cons_self
  exact absurd (hinner.symm.trans hcalls) (by decide)

end ExpandedOnceNested

end Text

end Assembly

end RvToolkit
