import RvToolkit.Proofs.Assembly.Respelling
import RvToolkit.Proofs.Assembly.Spacing
import RvToolkit.Proofs.Assembly.Words

namespace RvToolkit

namespace Text

variable {c : Char} {t : Text}

theorem isWord_toLower : isWord ∘ Char.toLower = isWord := funext (apply_toLower (by decide))

theorem isWord_of_isBlank (h : isBlank c = true) : isWord c = false := by
  have hpoints : (blankSpans.flatMap fun p => List.range' p.1 (p.2 + 1 - p.1)).all
      (fun n => !isWord (Char.ofNat n)) = true := by decide +kernel
  obtain ⟨p, hp, hspan⟩ := List.any_eq_true.mp h
  simp only [Bool.and_eq_true, decide_eq_true_eq] at hspan
  have hmem : c.toNat ∈ List.range' p.1 (p.2 + 1 - p.1) := List.mem_range'_1.mpr (by omega)
  have hc := List.all_eq_true.mp hpoints c.toNat (List.mem_flatMap.mpr ⟨p, hp, hmem⟩)
  rw [Char.ofNat_toNat] at hc
  simpa using hc

theorem isBlank_of_isLineBreak (h : isLineBreak c = true) : isBlank c = true := by
  simp only [isLineBreak, isBlank, inSpans, blankSpans, List.any_cons, List.any_nil, Bool.or_eq_true,
    Bool.and_eq_true, decide_eq_true_eq, Bool.or_false] at h ⊢
  omega

theorem fold_unlines (ls : List Text) : fold (unlines ls) = unlines (ls.map fold) := by
  induction ls with
  | nil => rfl
  | cons l ls ih =>
      rw [unlines, List.flatMap_cons, fold_append, ← unlines, ih]
      simp [unlines, List.flatMap_cons, show Char.toLower '\n' = '\n' by decide]

end Text

namespace Assembly

open Text

namespace IsName

variable {n rest : Text} {c : Char}

theorem of_test (h : (!n.isEmpty && n.all isWord) = true) : IsName n := by
  rw [Bool.and_eq_true, List.all_eq_true] at h
  exact ⟨by simpa using h.1, h.2⟩

theorem notMem (h : IsName n) (hc : isWord c = false) : c ∉ n := by
  intro hmem
  have hword := h.2 c hmem
  rw [hc] at hword
  cases hword

theorem isBlank (h : IsName n) (hc : c ∈ n) : isBlank c = false := by
  rw [← Bool.not_eq_true]
  exact fun hblank => h.notMem (isWord_of_isBlank hblank) hc

theorem isLineBreak (h : IsName n) (hc : c ∈ n) : isLineBreak c = false := by
  rw [← Bool.not_eq_true]
  exact fun hbreak => h.notMem (isWord_of_isBlank (isBlank_of_isLineBreak hbreak)) hc

theorem of_fold {n' : Text} (h : IsName n) (hfold : fold n = fold n') : IsName n' := by
  have hall : n'.all isWord = n.all isWord := by
    rw [← isWord_toLower, ← List.all_map, ← List.all_map]
    exact congrArg (·.all isWord) hfold.symm
  refine ⟨fun hnil => h.1 ?_, ?_⟩
  · rw [hnil] at hfold
    exact fold_eq_nil.mp hfold
  · rw [← List.all_eq_true, hall, List.all_eq_true]
    exact h.2

theorem word?_append (h : IsName n) (hrest : rest.head?.all (fun c => !isWord c) = true) :
    Line.word? (n ++ rest) = some (n, rest) := by
  have hfront : rest.takeWhile isWord = [] ∧ rest.dropWhile isWord = rest := by
    cases rest with
    | nil => exact ⟨rfl, rfl⟩
    | cons c rest =>
        have hc : isWord c = false := by simpa using hrest
        simp [hc]
  have htake : (n ++ rest).takeWhile isWord = n := by
    rw [List.takeWhile_append_of_pos h.2, hfront.1, List.append_nil]
  have hdrop : (n ++ rest).dropWhile isWord = rest := by
    rw [List.dropWhile_append_of_pos h.2, hfront.2]
  obtain ⟨c, cs, rfl⟩ := List.exists_cons_of_ne_nil h.1
  rw [Line.word?, htake, hdrop]

theorem classify_append (h : IsName n) (hrest : rest.head?.all (fun c => !isWord c) = true) :
    Line.classify (n ++ rest) = if rest.head? = some ':' then .label n else .code (n ++ rest) := by
  have hword := h.word?_append hrest
  obtain ⟨c, cs, hn⟩ := List.exists_cons_of_ne_nil h.1
  have hdot : c ≠ '.' := by
    rintro rfl
    exact h.notMem (by decide) (hn ▸ List.mem_cons_self)
  have hstart : Line.macroStart? (n ++ rest) = none := by
    rw [hn, Line.macroStart?]
    exact if_neg (by simp [List.isPrefixOf, hdot.symm])
  have hdirective : Line.directive? (n ++ rest) = none := by
    rw [hn, List.cons_append, Line.directive?]
    exact fun _ heq => hdot (List.cons.inj heq).1
  have hempty : (n ++ rest).isEmpty = false := by simp [hn]
  rw [Line.classify, hempty, hstart, hdirective, Line.label?, hword]
  cases rest with
  | nil => rfl
  | cons d rest =>
      by_cases hd : d = ':'
      · subst hd
        rfl
      · simp [hd]

end IsName

theorem withoutComment_eq_self {t : Text} (hsemicolon : ';' ∉ t) (hhash : '#' ∉ t) (htrim : trim t = t) :
    withoutComment t = t := by
  have hkeep : t.takeWhile (fun c => c ≠ ';' && c ≠ '#') = t := by
    rw [List.takeWhile_eq_self_iff]
    intro c hc
    have hne : c ≠ ';' := fun heq => hsemicolon (heq ▸ hc)
    have hne' : c ≠ '#' := fun heq => hhash (heq ▸ hc)
    simp [hne, hne']
  rw [withoutComment, hkeep, htrim]

def jump (r u : Text) : Text := "jal".toList ++ ' ' :: join [',', ' '] [r, u]

/-- A name that an operand can be. -/
structure SmallName (u : Text) : Prop where
  isName : IsName u
  small : Small u

theorem SmallName.plain {u : Text} (h : SmallName u) : Plain u :=
  ⟨h.isName.1, h.isName.isBlank, h.isName.notMem (by decide), h.small.lower⟩

section Jump

variable {r u : Text}

theorem mem_jump {c : Char} (h : c ∈ jump r u) : c ∈ "jal ,".toList ∨ c ∈ r ∨ c ∈ u := by
  simp only [jump, join, List.mem_append, List.mem_cons] at h ⊢
  grind

theorem notMem_jump {c : Char} (hr : IsName r) (hu : IsName u) (hc : isWord c = false)
    (hfront : c ∉ "jal ,".toList) : c ∉ jump r u := by
  intro hmem
  rcases mem_jump hmem with hmem | hmem | hmem
  · exact hfront hmem
  · exact hr.notMem hc hmem
  · exact hu.notMem hc hmem

theorem isLineBreak_jump (hr : IsName r) (hu : IsName u) : ∀ c ∈ jump r u, isLineBreak c = false := by
  have hfront : "jal ,".toList.all (fun c => !isLineBreak c) = true := by decide
  intro c hc
  rcases mem_jump hc with hc | hc | hc
  · simpa using List.all_eq_true.mp hfront c hc
  · exact hr.isLineBreak hc
  · exact hu.isLineBreak hc

theorem jump_written (hr : SmallName r) (hu : SmallName u) : trim (jump r u) = jump r u ∧
    tokens (jump r u) = ["jal".toList, r, u] ∧ squeeze (jump r u) = jump r u := by
  have hjal : Plain "jal".toList := plain_of_isPlain (by decide)
  have hoperand : ∀ w ∈ [u], Plain w := List.forall_mem_singleton.mpr hu.plain
  obtain ⟨htrim, htokens⟩ := tokens_written hjal hr.plain hoperand
  exact ⟨htrim, htokens, squeeze_written hjal hr.plain hoperand⟩

theorem classify_jump (hr : SmallName r) (hu : SmallName u) :
    Line.classify (withoutComment (jump r u)) = .code (jump r u) := by
  have hname : IsName "jal".toList := .of_test (by decide)
  have hspace : (' ' :: join [',', ' '] [r, u]).head?.all (fun c => !isWord c) = true :=
    (by decide : (!isWord ' ') = true)
  have hsemicolon : ';' ∉ jump r u := notMem_jump hr.isName hu.isName (by decide) (by decide)
  have hhash : '#' ∉ jump r u := notMem_jump hr.isName hu.isName (by decide) (by decide)
  rw [withoutComment_eq_self hsemicolon hhash (jump_written hr hu).1]
  exact hname.classify_append hspace

theorem expansion_jump (hr : SmallName r) (hu : SmallName u) :
    expansion [] (jump r u) = [jump r u] ∧ instructs [] (jump r u) = true := by
  obtain ⟨htrim, -, hsqueeze⟩ := jump_written hr hu
  have hexpand : expand { base := 0, macros := [] } (jump r u) = jump r u := expand_of_none rfl
  have hnewline : '\n' ∉ jump r u := fun hmem => absurd (isLineBreak_jump hr.isName hu.isName _ hmem) (by decide)
  refine ⟨?_, ?_⟩
  · rw [expansion, hexpand, List.splitOn_eq_singleton hnewline, List.map_singleton, hsqueeze, htrim]
  · rw [instructs_iff, hexpand, List.splitOn_eq_singleton hnewline, List.forall_mem_singleton]
    rfl

end Jump

theorem encodings_single [Evaluator] [Evaluator.Textual] {t c : Text} {ls : List Text}
    (hlines : Text.lines t = ls) (haccepts : Definitions.AcceptsAll {} ls)
    (hlisting : (listing ls).flatten = [c]) (base : Int) :
    encodings t base = (lineCall (symbolsOf base ls) base c).map fun c => [c.2.binary] := by
  subst hlines
  rw [encodings_eq (ofText_ok_iff.mpr haccepts), hlisting, lineCalls]
  cases lineCall (symbolsOf base (Text.lines t)) base c with
  | error e => rfl
  | ok e => rfl

namespace Definitions

variable {d : Definitions} {line : Text} {st : SymbolTable}

theorem enter_of_label [Evaluator] {name : Text} (hout : d.inside = none)
    (hlabel : Line.classify (withoutComment line) = .label name) (address : Int) :
    d.enter address line st = st.insert name (.int address) := by
  rw [enter, hout, hlabel]

theorem enter_of_code [Evaluator] {c : Text} (hout : d.inside = none)
    (hcode : Line.classify (withoutComment line) = .code c)
    (address : Int) : d.enter address line st = st := by
  rw [enter, hout, hcode]

end Definitions

section Labels

open Definitions SymbolTable

variable {r u x : Text}

theorem IsName.classify_label (h : IsName x) : Line.classify (withoutComment (x ++ [':'])) = .label x := by
  have htrim : trim (x ++ [':']) = x ++ [':'] := by
    refine trim_eq_self fun c hc => ?_
    rcases List.mem_append.mp hc with hc | hc
    · exact h.isBlank hc
    · rw [List.mem_singleton.mp hc]
      decide
  have hsemicolon : ';' ∉ x ++ [':'] := List.not_mem_append (h.notMem (by decide)) (by decide)
  have hhash : '#' ∉ x ++ [':'] := List.not_mem_append (h.notMem (by decide)) (by decide)
  rw [withoutComment_eq_self hsemicolon hhash htrim]
  exact h.classify_append (by decide)

theorem IsName.isLineBreak_label (h : IsName x) : ∀ c ∈ x ++ [':'], Text.isLineBreak c = false := by
  intro c hc
  rcases List.mem_append.mp hc with hc | hc
  · exact h.isLineBreak hc
  · rw [List.mem_singleton.mp hc]
    decide

theorem encodings_label_before [Evaluator] [Evaluator.Textual] (hr : SmallName r) (hu : SmallName u)
    (hx : IsName x) :
    encodings (unlines [x ++ [':'], jump r u]) 0 =
      (lineCall [(x, .int 0)] 0 (jump r u)).map fun c => [c.2.binary] := by
  have hlabel := hx.classify_label
  have hcode := classify_jump hr hu
  obtain ⟨hexpansion, hinstructs⟩ := expansion_jump hr hu
  have hlines := lines_unlines (List.forall_mem_cons.mpr ⟨hx.isLineBreak_label,
    List.forall_mem_singleton.mpr (isLineBreak_jump hr.isName hu.isName)⟩)
  rw [encodings_single hlines]
  · rw [symbolsOf, symbolsFrom, symbolsFrom, symbolsFrom, next_of_label rfl hlabel, added_of_label rfl hlabel,
      enter_of_label rfl hlabel, enter_of_code rfl hcode]
    rfl
  · rw [AcceptsAll, AcceptsAll, next_of_label rfl hlabel, accepts_of_code rfl hcode]
    exact ⟨accepts_of_label rfl hlabel, hinstructs, trivial⟩
  · rw [listing, scan, scan, scan, next_of_label rfl hlabel, added_of_label rfl hlabel, added_of_code rfl hcode,
      hexpansion]
    rfl

theorem encodings_label_behind [Evaluator] [Evaluator.Textual] (hr : SmallName r) (hu : SmallName u)
    (hx : IsName x) :
    encodings (unlines [jump r u, x ++ [':']]) 0 =
      (lineCall [(x, .int 4)] 0 (jump r u)).map fun c => [c.2.binary] := by
  have hlabel := hx.classify_label
  have hcode := classify_jump hr hu
  obtain ⟨hexpansion, hinstructs⟩ := expansion_jump hr hu
  have hlines := lines_unlines (List.forall_mem_cons.mpr ⟨isLineBreak_jump hr.isName hu.isName,
    List.forall_mem_singleton.mpr hx.isLineBreak_label⟩)
  rw [encodings_single hlines]
  · rw [symbolsOf, symbolsFrom, symbolsFrom, symbolsFrom, next_of_code rfl hcode, added_of_code rfl hcode,
      enter_of_label rfl hlabel, enter_of_code rfl hcode, hexpansion]
    rfl
  · rw [AcceptsAll, AcceptsAll, next_of_code rfl hcode, accepts_of_code rfl hcode]
    exact ⟨hinstructs, accepts_of_label rfl hlabel, trivial⟩
  · rw [listing, scan, scan, scan, next_of_code rfl hcode, added_of_label rfl hlabel, added_of_code rfl hcode,
      hexpansion]
    rfl

theorem lineCall_jump [Evaluator] {v : Int} {e : Encoded} (hr : SmallName r) (hu : SmallName u)
    (hdigits : (Nat.toDigits 10 v.natAbs).length ≤ Number.maxDigits) (hfree : occurs u r = false)
    (hregister : resolveOperand [] 0 r = .ok "x0".toList)
    (he : Instruction.encodeWith .J "jal".toList [.text "x0".toList, .text (ofInt v)] = .ok e) :
    lineCall [(u, .int v)] 0 (jump r u) = .ok ("jal".toList, e) := by
  have hfirst : resolveOperand [(u, .int v)] 0 r = .ok "x0".toList := by
    rw [← hregister, resolveOperand, link_untouched (List.forall_mem_singleton.mpr hfree)]
    rfl
  have hlast : resolveOperand [(u, .int v)] 0 u = .ok (ofInt v) := by
    have hlink : link 0 ([] ++ (u, .int v) :: []) u = .ok (ofInt (v - 0)) :=
      link_symbol hu.isName.1 (List.forall_mem_nil _) (List.forall_mem_nil _) (by rwa [Int.sub_zero])
    rw [Int.sub_zero] at hlink
    rw [resolveOperand, ← List.nil_append [(u, Value.int v)], hlink]
    change (if Register.isName (ofInt v) then _ else _) = _
    rw [Register.isName_ofInt]
    rfl
  obtain ⟨htrim, htokens, -⟩ := jump_written hr hu
  refine lineCall_eq_ok.mpr ⟨[r, u], ["x0".toList, ofInt v], .J, by rw [htrim, htokens], ?_, rfl, he⟩
  rw [List.mapM_cons, List.mapM_cons, hfirst, hlast]
  rfl

theorem encodeWith_jal [Evaluator] : Instruction.encodeWith .J "jal".toList [.text "x0".toList, .text (ofInt 0)] =
      .ok ⟨111, ⟨some [0], some 0⟩⟩ ∧
    Instruction.encodeWith .J "jal".toList [.text "x0".toList, .text (ofInt 4)] =
      .ok ⟨4194415, ⟨some [0], some 4⟩⟩ := by
  have hzero : Instruction.jumpOperand (.text (ofInt 0)) = .ok (.int 0) := Instruction.jumpOperand_ofInt (by decide)
  have hfour : Instruction.jumpOperand (.text (ofInt 4)) = .ok (.int 4) := Instruction.jumpOperand_ofInt (by decide)
  refine ⟨?_, ?_⟩
  · simp only [Instruction.encodeWith, Instruction.encodeJ, hzero]
    rfl
  · simp only [Instruction.encodeWith, Instruction.encodeJ, hfour]
    rfl

theorem exists_jump [Evaluator] (hu : SmallName u) :
    ∃ r e e', SmallName r ∧ lineCall [(u, .int 0)] 0 (jump r u) = .ok ("jal".toList, e) ∧
      lineCall [(u, .int 4)] 0 (jump r u) = .ok ("jal".toList, e') ∧ e.binary ≠ e'.binary := by
  have hregisters : ["x0".toList, "zero".toList].all (fun r => (!r.isEmpty && r.all isWord) && r.all isSmall) =
      true := by decide
  have hresolved : ∀ r ∈ ["x0".toList, "zero".toList], resolveOperand [] 0 r = .ok "x0".toList := by
    rw [List.forall_mem_cons, List.forall_mem_singleton]
    exact ⟨rfl, rfl⟩
  -- the two names of the register have no letter in common, so the label is not part of both
  obtain ⟨r, hr, hfree⟩ : ∃ r ∈ ["x0".toList, "zero".toList], occurs u r = false := by
    have hdisjoint : "x0".toList.all (fun c => !"zero".toList.contains c) = true := by decide
    obtain ⟨c, cs, hcons⟩ := List.exists_cons_of_ne_nil hu.isName.1
    have hc : c ∈ u := by simp [hcons]
    by_cases hnumbered : occurs u "x0".toList = true
    · refine ⟨"zero".toList, by simp, ?_⟩
      rw [← Bool.not_eq_true]
      intro halias
      have hother := List.all_eq_true.mp hdisjoint c (subset_of_occurs hnumbered hc)
      rw [List.contains_iff_mem.mpr (subset_of_occurs halias hc)] at hother
      cases hother
    · exact ⟨"x0".toList, by simp, by simpa using hnumbered⟩
  have hregister := hresolved r hr
  have htest := List.all_eq_true.mp hregisters r hr
  rw [Bool.and_eq_true] at htest
  have hr : SmallName r := ⟨.of_test htest.1, List.all_eq_true.mp htest.2⟩
  obtain ⟨hzero, hfour⟩ := encodeWith_jal
  exact ⟨r, _, _, hr, lineCall_jump hr hu (by decide) hfree hregister hzero,
    lineCall_jump hr hu (by decide) hfree hregister hfour, by decide +kernel⟩

end Labels

theorem Respelled.of_classify [Evaluator] {R : Spelling} {l l' : Text} {ls ls' : List Text} {k k' : Line}
    (hl : Line.classify (withoutComment l) = k) (hl' : Line.classify (withoutComment l') = k')
    (hmatch : Matches R k k') (hrest : Respelled R k.opens ls ls') : Respelled R none (l :: ls) (l' :: ls') := by
  subst hl hl'
  exact .outside hmatch hrest

theorem lineCall_of_not_small [Evaluator] (hsmall : Evaluator.WritesSmall) {x line : Text} (hx : ¬ Small x)
    (v : Value) (pc : Int) : lineCall [(x, v)] pc line = lineCall [] pc line :=
  lineCall_fold hsmall (SymbolTable.live_cons_of_not_small hx) rfl

section Calls

open Definitions

def definitionLines (m : Text) : List Text :=
  [".macro ".toList ++ m, "jal x0, 0".toList, "jal x0, 0".toList, ".endm".toList]

def callLines (m w : Text) : List Text := definitionLines m ++ [w]

def twoJumps : Macro := ⟨[], ["jal x0, 0".toList, "jal x0, 0".toList]⟩

variable {m w : Text}

theorem IsName.classify_start (h : IsName m) :
    Line.classify (withoutComment (".macro ".toList ++ m)) = .macroStart m [] := by
  have hsemicolon : ';' ∉ ".macro ".toList ++ m := List.not_mem_append (by decide) (h.notMem (by decide))
  have hhash : '#' ∉ ".macro ".toList ++ m := List.not_mem_append (by decide) (h.notMem (by decide))
  have htrim : trim (".macro".toList ++ ([' '] ++ m)) = ".macro".toList ++ ([' '] ++ m) := by
    have hmark : ".macro".toList.all (fun c => !Text.isBlank c) = true := by decide
    refine trim_between (by decide) (fun c hc => ?_) h.1 (fun c hc => h.isBlank hc) [' ']
    simpa using List.all_eq_true.mp hmark c hc
  have hdrop : m.dropWhile Text.isBlank = m := by
    obtain ⟨c, cs, hcons⟩ := List.exists_cons_of_ne_nil h.1
    have hc : Text.isBlank c = false := h.isBlank (by simp [hcons])
    rw [hcons]
    exact List.dropWhile_cons_of_neg (by simp [hc])
  have hword : Line.word? (m ++ []) = some (m, []) := h.word?_append rfl
  have hstart : Line.macroStart? (".macro ".toList ++ m) = some (m, []) := by
    have hmark : ".macro".toList.isPrefixOf (".macro ".toList ++ m) = true := rfl
    have hbehind : (".macro ".toList ++ m).drop ".macro".toList.length = ' ' :: m := rfl
    have hspace : Text.isBlank ' ' = true := by decide
    rw [List.append_nil] at hword
    simp only [Line.macroStart?, hmark, hbehind, hspace, hdrop, hword, if_true]
    rfl
  rw [withoutComment_eq_self hsemicolon hhash htrim, Line.classify, hstart]
  rfl

theorem IsName.wordsWithoutCommas (h : IsName w) : wordsWithoutCommas w = [w] := by
  have hfilter : w.filter (· ≠ ',') = w := by
    refine List.filter_eq_self.mpr fun c hc => ?_
    have hne : c ≠ ',' := fun heq => h.notMem (by decide) (heq ▸ hc)
    simpa using hne
  rw [Assembly.wordsWithoutCommas, hfilter]
  exact words_eq_singleton h.1 fun c hc => h.isBlank hc

theorem IsName.classify_code (h : IsName w) : Line.classify (withoutComment w) = .code w := by
  have htrim : trim w = w := trim_eq_self fun c hc => h.isBlank hc
  have hclass : Line.classify (w ++ []) = .code (w ++ []) := h.classify_append rfl
  rw [withoutComment_eq_self (h.notMem (by decide)) (h.notMem (by decide)) htrim]
  rwa [List.append_nil] at hclass

theorem listing_callLines [Evaluator] (hm : IsName m) (hw : IsName w) :
    (listing (callLines m w)).flatten = expansion [(m, twoJumps)] w ∧
      (AcceptsAll {} (callLines m w) ↔ instructs [(m, twoJumps)] w = true) ∧
      symbolsOf 0 (callLines m w) = [] := by
  have hstart := hm.classify_start
  have hcode := hw.classify_code
  have hnext : next {} (".macro ".toList ++ m) = ⟨some ⟨m, [], []⟩, []⟩ := by rw [next, hstart]
  have hafter : after {} (definitionLines m) = ⟨none, [(m, twoJumps)]⟩ := by
    rw [after, definitionLines, List.foldl_cons, hnext]
    rfl
  refine ⟨?_, ?_, ?_⟩
  · have hadded : added {} (".macro ".toList ++ m) = [] := by rw [added, hstart]
    have hnone : (scan added {} (definitionLines m)).flatten = [] := by
      rw [definitionLines, scan, hnext, hadded]
      rfl
    rw [listing, callLines, scan_append, List.flatten_append, hnone, hafter, scan, scan, added_of_code rfl hcode]
    exact List.append_nil _
  · have haccepts : Accepts {} (".macro ".toList ++ m) := by
      rw [Accepts, hstart]
      trivial
    have hall : AcceptsAll {} (definitionLines m) := by
      rw [definitionLines, AcceptsAll, hnext]
      exact ⟨haccepts, trivial, trivial, trivial, trivial⟩
    rw [callLines, acceptsAll_append, hafter, AcceptsAll, accepts_of_code rfl hcode]
    exact ⟨fun h => h.2.1, fun h => ⟨hall, h, trivial⟩⟩
  · have henter : enter {} (0 + 4 * (0 : Nat)) (".macro ".toList ++ m) [] = [] := by rw [enter, hstart]
    have hnone : symbolsFrom 0 {} 0 [] (definitionLines m) = [] := by
      rw [definitionLines, symbolsFrom, hnext, henter]
      rfl
    rw [symbolsOf, callLines, symbolsFrom_append, hafter, hnone, symbolsFrom, symbolsFrom, enter_of_code rfl hcode]

theorem isLineBreak_callLines (hm : IsName m) (hw : IsName w) :
    ∀ l ∈ callLines m w, ∀ c ∈ l, isLineBreak c = false := by
  have hfixed {l : Text} (hl : l.all (fun c => !isLineBreak c) = true) : ∀ c ∈ l, isLineBreak c = false := by
    intro c hc
    simpa using List.all_eq_true.mp hl c hc
  have hbody : ∀ l ∈ ["jal x0, 0".toList, "jal x0, 0".toList, ".endm".toList],
      ∀ c ∈ l, isLineBreak c = false := by
    simp only [List.forall_mem_cons]
    exact ⟨hfixed (by decide), hfixed (by decide), hfixed (by decide), List.forall_mem_nil _⟩
  refine List.forall_mem_append.mpr ⟨List.forall_mem_cons.mpr ⟨?_, hbody⟩, List.forall_mem_singleton.mpr ?_⟩
  · exact List.forall_mem_append.mpr ⟨hfixed (by decide), fun c hc => hm.isLineBreak hc⟩
  · exact fun c hc => hw.isLineBreak hc

theorem encodings_called [Evaluator] [Evaluator.Textual] (hm : IsName m) :
    ∃ code, (encodings (unlines (callLines m m)) 0).toOption = some [code, code] := by
  have hlines := lines_unlines (isLineBreak_callLines hm hm)
  obtain ⟨hlisting, haccepts, hsymbols⟩ := listing_callLines hm hm
  have hexpand : expand { base := 0, macros := [(m, twoJumps)] } m = "jal x0, 0\njal x0, 0".toList := by
    have hget : Assoc.get? m [(m, twoJumps)] = some twoJumps := if_pos rfl
    rw [expand_call hm.wordsWithoutCommas hget]
    decide
  have hexpansion : expansion [(m, twoJumps)] m = ["jal x0, 0".toList, "jal x0, 0".toList] := by
    rw [expansion, hexpand]
    decide
  have hinstructs : instructs [(m, twoJumps)] m = true := by
    rw [instructs, hexpand]
    decide
  have hread : (ofText (unlines (callLines m m)) 0).result = .ok () := by
    rw [ofText_ok_iff, hlines]
    exact haccepts.mpr hinstructs
  refine ⟨Encoded.binary ⟨111, ⟨some [0], some 0⟩⟩, ?_⟩
  have hcall (pc : Int) : lineCall [] pc "jal x0, 0".toList = .ok ("jal".toList, ⟨111, ⟨some [0], some 0⟩⟩) :=
    lineCall_eq_ok.mpr ⟨["x0".toList, "0".toList], ["x0".toList, "0".toList], .J, by decide +kernel, rfl, rfl,
      encodeWith_jal.1⟩
  rw [encodings_eq hread, hlines, hlisting, hexpansion, hsymbols, lineCalls, lineCalls, hcall, hcall]
  rfl

theorem encodings_uncalled [Evaluator] [Evaluator.Textual] (hm : IsName m) (hw : IsName w) (hne : m ≠ w)
    {es : List Text}
    (h : (encodings (unlines (callLines m w)) 0).toOption = some es) : es.length = 1 := by
  have hlines := lines_unlines (isLineBreak_callLines hm hw)
  obtain ⟨hlisting, -, -⟩ := listing_callLines hm hw
  have hexpansion : expansion [(m, twoJumps)] w = [trim (squeeze w)] := by
    have hnone : Assoc.get? (headWord w) [(m, twoJumps)] = none := by
      rw [headWord, hw.wordsWithoutCommas]
      exact if_neg hne
    have hnewline : '\n' ∉ w := fun hmem => absurd (hw.isLineBreak hmem) (by decide)
    rw [expansion, expand_of_none hnone, List.splitOn_eq_singleton hnewline]
    rfl
  by_cases haccepts : Definitions.AcceptsAll {} (callLines m w)
  · rw [encodings_single hlines haccepts (hlisting.trans hexpansion)] at h
    cases hcode : lineCall (symbolsOf 0 (callLines m w)) 0 (trim (squeeze w)) with
    | error e =>
        rw [hcode] at h
        cases h
    | ok e =>
        rw [hcode] at h
        cases h
        rfl
  · rw [encodings_refused (by rwa [hlines])] at h
    cases h

theorem respelled_callLines [Evaluator] {R : Spelling} {m' w' : Text} (hname : R.macroName m m')
    (hcall : R.call w w')
    (hm : IsName m) (hw : IsName w) (hfold : fold m = fold m') (hfold' : fold w = fold w') :
    Respelled R none (callLines m w) (callLines m' w') := by
  have hm' := hm.of_fold hfold
  have hw' := hw.of_fold hfold'
  have hkept {ls ls' : List Text} (hrest : Respelled R (some []) ls ls') :
      Respelled R (some []) ("jal x0, 0".toList :: ls) ("jal x0, 0".toList :: ls') :=
    .inside rfl (.of_fold rfl (by decide)) hrest
  have hclosed {ls ls' : List Text} (hrest : Respelled R none ls ls') :
      Respelled R (some []) (".endm".toList :: ls) (".endm".toList :: ls') :=
    .inside rfl (.of_fold rfl (by decide)) hrest
  have hwords : R.call (headWord w) (headWord w') := by
    rwa [headWord, headWord, hw.wordsWithoutCommas, hw'.wordsWithoutCommas]
  have hcode : Matches R (.code w) (.code w') := .code hfold' hwords (.inl (hw.notMem (by decide)))
  exact .of_classify hm.classify_start hm'.classify_start (.macroStart [] hname hfold)
    (hkept (hkept (hclosed (.of_classify hw.classify_code hw'.classify_code hcode .nil))))

end Calls

section Necessity

variable [Evaluator] {R : Spelling}
    (h : ∀ t t' base, fold t = fold t' → Respelled R none (Text.lines t) (Text.lines t') →
  (encodings t base).toOption = (encodings t' base).toOption)

include h

theorem encodings_unlines {ls ls' : List Text} (hls : ∀ l ∈ ls, ∀ c ∈ l, isLineBreak c = false)
    (hls' : ∀ l ∈ ls', ∀ c ∈ l, isLineBreak c = false) (hfold : ls.map fold = ls'.map fold)
    (hrespelled : Respelled R none ls ls') :
    (encodings (unlines ls) 0).toOption = (encodings (unlines ls') 0).toOption := by
  apply h
  · rw [fold_unlines, fold_unlines, hfold]
  · rwa [lines_unlines hls, lines_unlines hls']

variable [Evaluator.Textual]

theorem eq_iff_eq_of_call {m m' w w' : Text} (hname : R.macroName m m') (hcall : R.call w w')
    (hm : IsName m) (hfold : fold m = fold m') (hfold' : fold w = fold w') : m = w ↔ m' = w' := by
  have hm' : IsName m' := hm.of_fold hfold
  have hencodings (hw : IsName w) : (encodings (unlines (callLines m w)) 0).toOption =
      (encodings (unlines (callLines m' w')) 0).toOption := by
    have hw' := hw.of_fold hfold'
    refine encodings_unlines h (isLineBreak_callLines hm hw) (isLineBreak_callLines hm' hw') ?_ ?_
    · simp [callLines, definitionLines, hfold, hfold']
    · exact respelled_callLines hname hcall hm hw hfold hfold'
  constructor
  · rintro rfl
    by_contra hne
    obtain ⟨code, hcalled⟩ := encodings_called hm
    rw [hencodings hm] at hcalled
    have hlength := encodings_uncalled hm' (hm.of_fold hfold') hne hcalled
    cases hlength
  · rintro rfl
    by_contra hne
    have hw := hm'.of_fold hfold'.symm
    obtain ⟨code, hcalled⟩ := encodings_called hm'
    rw [← hencodings hw] at hcalled
    have hlength := encodings_uncalled hm hw hne hcalled
    cases hlength

variable (hjal : R.call "jal".toList "jal".toList)

include hjal

theorem lineCall_labels {x x' r u : Text} (hlabel : R.label x x') (hx : IsName x) (hx' : IsName x')
    (hfold : fold x = fold x') (hr : SmallName r) (hu : SmallName u) :
    ((lineCall [(x, .int 0)] 0 (jump r u)).map fun c => [c.2.binary]).toOption =
      ((lineCall [(x', .int 0)] 0 (jump r u)).map fun c => [c.2.binary]).toOption ∧
    ((lineCall [(x, .int 4)] 0 (jump r u)).map fun c => [c.2.binary]).toOption =
      ((lineCall [(x', .int 4)] 0 (jump r u)).map fun c => [c.2.binary]).toOption := by
  have hcode := classify_jump hr hu
  have hmatch : Matches R (.code (jump r u)) (.code (jump r u)) :=
    .code rfl hjal (.inl (notMem_jump hr.isName hu.isName (by decide) (by decide)))
  have hlabels : Matches R (.label x) (.label x') := .label hlabel hfold
  have hbreak := isLineBreak_jump hr.isName hu.isName
  refine ⟨?_, ?_⟩
  · rw [← encodings_label_before hr hu hx, ← encodings_label_before hr hu hx']
    refine encodings_unlines h ?_ ?_ (by simp [hfold]) ?_
    · exact List.forall_mem_cons.mpr ⟨hx.isLineBreak_label, List.forall_mem_singleton.mpr hbreak⟩
    · exact List.forall_mem_cons.mpr ⟨hx'.isLineBreak_label, List.forall_mem_singleton.mpr hbreak⟩
    · exact .of_classify hx.classify_label hx'.classify_label hlabels (.of_classify hcode hcode hmatch .nil)
  · rw [← encodings_label_behind hr hu hx, ← encodings_label_behind hr hu hx']
    refine encodings_unlines h ?_ ?_ (by simp [hfold]) ?_
    · exact List.forall_mem_cons.mpr ⟨hbreak, List.forall_mem_singleton.mpr hx.isLineBreak_label⟩
    · exact List.forall_mem_cons.mpr ⟨hbreak, List.forall_mem_singleton.mpr hx'.isLineBreak_label⟩
    · exact .of_classify hcode hcode hmatch (.of_classify hx.classify_label hx'.classify_label hlabels .nil)

theorem eq_of_label (hsmall : Evaluator.WritesSmall) {x x' : Text} (hlabel : R.label x x')
    (hx : IsName x) (hfold : fold x = fold x') (hlower : Small x ∨ Small x') : x = x' := by
  have hx' : IsName x' := hx.of_fold hfold
  by_cases hboth : Small x ∧ Small x'
  · exact hboth.1.eq_of_fold_eq hboth.2 hfold
  · exfalso
    -- the label in small letters is seen, the other is not, wherever it stands
    rcases hlower with hlower | hlower
    · have hlarge : ¬ Small x' := fun hx' => hboth ⟨hlower, hx'⟩
      obtain ⟨r, e, e', hr, hbefore, hbehind, hne⟩ := exists_jump ⟨hx, hlower⟩
      obtain ⟨heq, heq'⟩ := lineCall_labels h hjal hlabel hx hx' hfold hr ⟨hx, hlower⟩
      rw [hbefore, lineCall_of_not_small hsmall hlarge] at heq
      rw [hbehind, lineCall_of_not_small hsmall hlarge, ← heq] at heq'
      exact hne (by simpa [Except.map, Except.toOption] using heq'.symm)
    · have hlarge : ¬ Small x := fun hx => hboth ⟨hx, hlower⟩
      obtain ⟨r, e, e', hr, hbefore, hbehind, hne⟩ := exists_jump ⟨hx', hlower⟩
      obtain ⟨heq, heq'⟩ := lineCall_labels h hjal hlabel hx hx' hfold hr ⟨hx', hlower⟩
      rw [hbefore, lineCall_of_not_small hsmall hlarge] at heq
      rw [hbehind, lineCall_of_not_small hsmall hlarge, heq] at heq'
      exact hne (by simpa [Except.map, Except.toOption] using heq')

end Necessity

/-- Programs in different case, with labels, macros and the first words of instructions spelled as `R` allows
and all other words free, have the same encodings or both fail, if and only if `R` keeps every label that
an operand can name and lets calls follow their macros. -/
theorem encodings_case_iff [Evaluator] [Evaluator.Textual] (hsmall : Evaluator.WritesSmall) (R : Spelling)
    (hjal : R.call "jal".toList "jal".toList) :
    (∀ t t' base, fold t = fold t' → Respelled R none (Text.lines t) (Text.lines t') →
      (encodings t base).toOption = (encodings t' base).toOption) ↔ R.Harmless := by
  constructor
  · intro h
    refine ⟨?_, ?_⟩
    · intro n n' hlabel hname hfold hlower
      rw [lower_eq_self_iff, lower_eq_self_iff] at hlower
      exact eq_of_label h hjal hsmall hlabel hname hfold hlower
    · intro m m' w w' hname hcall hm hfold hfold'
      exact eq_iff_eq_of_call h hname hcall hm hfold hfold'
  · intro hR t t' base _ hrespelled
    exact encodings_respelled hsmall hR hrespelled base

section EncodingsCaseJump

open scoped Evaluator.Arithmetic

theorem encodings_case_jump :
    let free : Spelling := ⟨fun _ _ => True, fun _ _ => True, fun _ _ => True⟩
    let kept : Spelling := ⟨fun n n' => n = n', fun _ _ => False, fun _ _ => True⟩
    (¬ ∀ t t' base, fold t = fold t' → Respelled free none (Text.lines t) (Text.lines t') →
      (encodings t base).toOption = (encodings t' base).toOption) ∧
    kept.Harmless ∧
    (encodings "loop:\njal x0, loop\n".toList 0).toOption =
      (encodings "loop:\nJAL X0, LooP\n".toList 0).toOption := by
  intro free kept
  have hsmall : Evaluator.WritesSmall := by
    intro v i t h
    cases h
  have hkept : kept.Harmless := ⟨fun _ _ hlabel _ _ _ => hlabel, fun _ _ _ _ hname _ _ _ _ => hname.elim⟩
  refine ⟨fun h => ?_, hkept, ?_⟩
  · have hlabels := ((encodings_case_iff hsmall free trivial).mp h).labels
    have heq := hlabels "a".toList "A".toList trivial (.of_test (by decide)) (by decide) (.inl (by decide))
    exact absurd heq (by decide)
  · have hlines : Text.lines "loop:\njal x0, loop\n".toList = ["loop:".toList, "jal x0, loop".toList] := by decide
    have hlines' : Text.lines "loop:\nJAL X0, LooP\n".toList = ["loop:".toList, "JAL X0, LooP".toList] := by decide
    refine (encodings_case_iff hsmall kept trivial).mpr hkept _ _ 0 (by decide) ?_
    rw [hlines, hlines']
    have hlabel : Matches kept (.label "loop".toList) (.label "loop".toList) := .label rfl rfl
    have hcode : Matches kept (.code "jal x0, loop".toList) (.code "JAL X0, LooP".toList) :=
      .code (by decide) trivial (.inl (by decide))
    exact .of_classify (by decide) (by decide) hlabel (.of_classify (by decide) (by decide) hcode .nil)

end EncodingsCaseJump

end Assembly

end RvToolkit
