import RvToolkit.Proofs.Assembly.Reading
import RvToolkit.Proofs.Instruction.Unreadable
import RvToolkit.Proofs.OneLine

namespace RvToolkit

namespace Assoc

variable {α β : Type} [DecidableEq α] {k : α} {v : β} {es : Assoc α β}

theorem mem_of_get? (h : get? k es = some v) : (k, v) ∈ es := by
  induction es with
  | nil => cases h
  | cons e es ih =>
      obtain ⟨a, b⟩ := e
      rw [get?] at h
      split at h
      · rename_i ha
        cases h
        rw [ha]
        exact List.mem_cons_self
      · exact List.mem_cons_of_mem _ (ih h)

theorem eq_or_mem_of_mem_insert {p : α × β} (h : p ∈ insert k v es) : p = (k, v) ∨ p ∈ es := by
  induction es with
  | nil => exact .inl (List.mem_singleton.mp h)
  | cons e es ih =>
      obtain ⟨a, b⟩ := e
      rw [insert] at h
      split at h
      · rcases List.mem_cons.mp h with h | h
        · exact .inl h
        · exact .inr (List.mem_cons_of_mem _ h)
      · rcases List.mem_cons.mp h with h | h
        · exact .inr (h ▸ List.mem_cons_self)
        · exact (ih h).imp id (List.mem_cons_of_mem _)

theorem mem_of_mem_ofPairs {ps : List (α × β)} {p : α × β} (h : p ∈ ofPairs ps) : p ∈ ps := by
  have hfold (es : Assoc α β) (hp : p ∈ ps.foldl (fun es p => insert p.1 p.2 es) es) : p ∈ es ∨ p ∈ ps := by
    clear h
    induction ps generalizing es with
    | nil => exact .inl hp
    | cons q ps ih =>
        rcases ih _ hp with h | h
        · rcases eq_or_mem_of_mem_insert h with h | h
          · exact .inr (h ▸ List.mem_cons_self)
          · exact .inl h
        · exact .inr (List.mem_cons_of_mem _ h)
  exact (hfold [] h).resolve_left List.not_mem_nil

end Assoc

namespace Text

variable {c : Char} {t : Text}

/-- A single line that is not blank. -/
def Solid (t : Text) : Prop := '\n' ∉ t ∧ ∃ c ∈ t, isBlank c = false

theorem mem_trim (h : c ∈ t) (hc : isBlank c = false) : c ∈ trim t := by
  have hdrop {u : Text} (hu : c ∈ u) : c ∈ u.dropWhile isBlank := by
    induction u with
    | nil => exact hu
    | cons d u ih =>
        rw [List.dropWhile_cons]
        split
        · rename_i hd
          rcases List.mem_cons.mp hu with rfl | hu
          · cases hc.symm.trans hd
          · exact ih hu
        · exact hu
  exact List.mem_reverse.mpr (hdrop (List.mem_reverse.mpr (hdrop h)))

theorem mem_squeeze (h : c ∈ t) (hc : isBlank c = false) : c ∈ squeeze t := by
  have hfrom (after : Bool) (u : Text) (hu : c ∈ u) : c ∈ squeezeFrom after u := by
    induction u generalizing after with
    | nil => exact hu
    | cons d u ih =>
        rw [squeezeFrom]
        rcases List.mem_cons.mp hu with rfl | hu
        · rw [if_neg (by rw [hc]; decide)]
          exact List.mem_cons_self
        · split
          · split
            · exact ih true hu
            · exact List.mem_cons_of_mem _ (ih true hu)
          · exact List.mem_cons_of_mem _ (ih false hu)
  exact hfrom false t h

theorem Solid.trim (h : Solid t) : Solid (Text.trim t) := by
  obtain ⟨hline, c, hc, hblank⟩ := h
  exact ⟨fun hmem => hline (mem_of_mem_trim hmem), c, mem_trim hc hblank, hblank⟩

theorem Solid.squeeze (h : Solid t) : Solid (Text.squeeze t) := by
  obtain ⟨-, c, hc, hblank⟩ := h
  exact ⟨newline_notMem_squeeze t, c, mem_squeeze hc hblank, hblank⟩

theorem solid_of_trim (hline : '\n' ∉ t) (h : Text.trim t ≠ []) : Solid (Text.trim t) := by
  obtain ⟨c, u, hu⟩ := List.exists_cons_of_ne_nil h
  refine ⟨fun hmem => hline (mem_of_mem_trim hmem), c, ?_, isBlank_of_trim_eq_cons hu⟩
  rw [hu]
  exact List.mem_cons_self

theorem Solid.words_ne_nil (h : Solid t) : words t ≠ [] := by
  have hfrom (cur u : Text) (hu : cur ≠ [] ∨ ∃ c ∈ u, isBlank c = false) : wordsFrom cur u ≠ [] := by
    fun_induction wordsFrom cur u with
    | case1 cur hempty => simp_all
    | case2 cur hempty => exact List.cons_ne_nil _ _
    | case3 cur c cs hblank hempty ih =>
        refine ih (.inr ?_)
        obtain ⟨d, hd, hne⟩ := hu.resolve_left (by simpa using hempty)
        rcases List.mem_cons.mp hd with rfl | hd
        · cases hne.symm.trans hblank
        · exact ⟨d, hd, hne⟩
    | case4 cur c cs hblank hempty ih => exact List.cons_ne_nil _ _
    | case5 cur c cs hblank ih => exact ih (.inl (List.cons_ne_nil _ _))
  exact hfrom [] t (.inr h.2)

theorem isBlank_of_mem_words {w : Text} (h : w ∈ words t) : w ≠ [] ∧ ∀ c ∈ w, isBlank c = false := by
  have hfrom (cur u : Text) (hcur : ∀ c ∈ cur, isBlank c = false) :
      ∀ w ∈ wordsFrom cur u, w ≠ [] ∧ ∀ c ∈ w, isBlank c = false := by
    fun_induction wordsFrom cur u with
    | case1 cur hempty => exact List.forall_mem_nil _
    | case2 cur hempty => simpa using ⟨by simpa using hempty, hcur⟩
    | case3 cur c cs hblank hempty ih => exact ih (List.forall_mem_nil _)
    | case4 cur c cs hblank hempty ih =>
        rw [List.forall_mem_cons]
        exact ⟨by simpa using ⟨by simpa using hempty, hcur⟩, ih (List.forall_mem_nil _)⟩
    | case5 cur c cs hblank ih =>
        exact ih (List.forall_mem_cons.mpr ⟨Bool.eq_false_iff.mpr hblank, hcur⟩)
  exact hfrom [] t (List.forall_mem_nil _) w h

theorem solid_of_mem_words {w : Text} (h : w ∈ words t) : Solid w := by
  obtain ⟨hne, hblank⟩ := isBlank_of_mem_words h
  obtain ⟨c, u, rfl⟩ := List.exists_cons_of_ne_nil hne
  refine ⟨fun hmem => ?_, c, List.mem_cons_self, hblank c List.mem_cons_self⟩
  exact absurd (hblank '\n' hmem) (by decide)

theorem Solid.replace {pat new : Text} (h : Solid t) (hpat : pat ≠ []) (hnew : Solid new) :
    Solid (Text.replace pat new t) := by
  have hfrom (u : Text) (hu : ∃ c ∈ u, isBlank c = false) :
      ∃ c ∈ replaceFrom pat new 0 u, isBlank c = false := by
    induction u with
    | nil => exact hu
    | cons d u ih =>
        rw [replaceFrom]
        split
        · obtain ⟨c, hc, hblank⟩ := hnew.2
          exact ⟨c, List.mem_append_left _ hc, hblank⟩
        · obtain ⟨c, hc, hblank⟩ := hu
          rcases List.mem_cons.mp hc with rfl | hc
          · exact ⟨c, List.mem_cons_self, hblank⟩
          · obtain ⟨c', hc', hblank'⟩ := ih ⟨c, hc, hblank⟩
            exact ⟨c', List.mem_cons_of_mem _ hc', hblank'⟩
  refine ⟨?_, ?_⟩
  · intro hmem
    rcases mem_or_mem_of_mem_replace hmem with hmem | hmem
    · exact h.1 hmem
    · exact hnew.1 hmem
  · rw [Text.replace, if_neg (by simpa using hpat)]
    exact hfrom t h.2

theorem join_eq_intercalate (sep : Text) (ts : List Text) : join sep ts = sep.intercalate ts := by
  induction ts with
  | nil => rfl
  | cons t ts ih =>
      cases ts with
      | nil => simp [join]
      | cons u ts => rw [join, ih, List.intercalate_cons_cons, List.append_assoc]

end Text

namespace Assembly

theorem solid_of_mem_wordsWithoutCommas {line w : Text} (h : w ∈ wordsWithoutCommas line) : w.Solid :=
  Text.solid_of_mem_words h

theorem solid_withoutComment {line : Text} (hline : '\n' ∉ line) (h : withoutComment line ≠ []) :
    (withoutComment line).Solid :=
  Text.solid_of_trim (fun hmem => hline ((List.takeWhile_sublist _).subset hmem)) h

theorem solid_fill {binding : Assoc Text Text} {line : Text} (hline : line.Solid)
    (hbinding : ∀ p ∈ binding, p.2.Solid) : (Macro.fill binding line).Solid := by
  unfold Macro.fill
  induction binding generalizing line with
  | nil => exact hline
  | cons p binding ih =>
      rw [List.forall_mem_cons] at hbinding
      exact ih (hline.replace (List.cons_ne_nil _ _) hbinding.1) hbinding.2

theorem solid_of_mem_bind {m : Macro} {given : List Text} (hgiven : ∀ w ∈ given, w.Solid) :
    ∀ p ∈ Macro.bind m given, p.2.Solid := by
  intro p hp
  exact hgiven p.2 (List.of_mem_zip (Assoc.mem_of_mem_ofPairs hp)).2

/-- The line calls a macro without lines. -/
def CallsEmpty (macros : Assoc Text Macro) (line : Text) : Prop :=
  ∃ name given m, wordsWithoutCommas line = name :: given ∧ macros.get? name = some m ∧ m.lines = []

theorem solid_of_mem_expand {a : Assembly} {line : Text} (hline : line.Solid)
    (hmacros : ∀ p ∈ a.macros, ∀ l ∈ p.2.lines, l.Solid) (hcalls : ¬ CallsEmpty a.macros line) :
    ∀ l ∈ (expand a line).splitOn '\n', Text.Solid l := by
  have hself : ∀ l ∈ line.splitOn '\n', Text.Solid l := by
    rw [List.splitOn_eq_singleton hline.1, List.forall_mem_singleton]
    exact hline
  unfold expand
  split
  · exact hself
  · rename_i name given hwords
    split
    · rename_i m hm
      have hgiven : ∀ w ∈ given, w.Solid := by
        intro w hw
        exact solid_of_mem_wordsWithoutCommas (hwords ▸ List.mem_cons_of_mem _ hw)
      have hfilled : ∀ l ∈ m.lines.map (Macro.fill (Macro.bind m given)), Text.Solid l := by
        rw [List.forall_mem_map]
        intro l hl
        exact solid_fill (hmacros _ (Assoc.mem_of_get? hm) l hl) (solid_of_mem_bind hgiven)
      have hne : m.lines.map (Macro.fill (Macro.bind m given)) ≠ [] := by
        intro hnil
        exact hcalls ⟨name, given, m, hwords, hm, List.map_eq_nil_iff.mp hnil⟩
      -- without line feeds in them, the split gives back the lines that were joined
      rw [Text.join_eq_intercalate, List.splitOn_intercalate _ (fun l hl => (hfilled l hl).1) hne]
      exact hfilled
    · exact hself

theorem expand_of_callsEmpty {a : Assembly} {line : Text} (h : CallsEmpty a.macros line) :
    expand a line = [] := by
  obtain ⟨name, given, m, hwords, hm, hlines⟩ := h
  rw [expand, hwords]
  simp only [hm, hlines]
  rfl

theorem code_of_classify {line text : Text} (h : Line.classify line = .code text) :
    text = line ∧ line ≠ [] := by
  unfold Line.classify at h
  split at h
  · cases h
  · rename_i hne
    split at h
    · cases h
    · split at h
      · cases h
      · split at h
        · cases h
        · cases h
          exact ⟨rfl, by simpa using hne⟩

section Halting

variable [Evaluator] {index : Nat} {line : Text} {r : Reader} {a : Assembly} {e : Fault}

/-- A constant whose value is not found, or cannot be shown, for a reason that no handler stops. -/
inductive Undefined (a : Assembly) (t : Text) : Fault → Prop where
  | value {e : Fault} (hvalue : ((Evaluator.constantValue t).effect a).1 = .error e)
      (hordinary : e.isOrdinary = false) (hreported : e.isReported = false) : Undefined a t e
  | shown {v : Value} {a' : Assembly} {e : Fault} (hvalue : (Evaluator.constantValue t).effect a = (.ok v, a'))
      (hshown : Evaluator.display v = .error e) (hordinary : e.isOrdinary = false)
      (hreported : e.isReported = false) : Undefined a t e

/-- A line at which reading comes to a halt without a report: one of the pieces that it stands for has no
words, or it sets a constant that is undefined. -/
inductive StopsReading (r : Reader) (a : Assembly) (line : Text) : Fault → Prop where
  | blank {text piece : Text} {before after : List Text} (hr : r.inside = none)
      (hclass : Line.classify (withoutComment line) = .code text)
      (hpieces : (expand a text).splitOn '\n' = before ++ piece :: after)
      (hbefore : ∀ l ∈ before, isInstruction l = .ok true) (hblank : Text.words piece = []) :
      StopsReading r a line .missingItem
  | constant {args name value : Text} {e : Fault} (hr : r.inside = none)
      (hclass : Line.classify (withoutComment line) = .directive "equ".toList args)
      (hargs : args.splitOn ',' = [name, value]) (hundefined : Undefined a (Text.trim value) e) :
      StopsReading r a line e

theorem Undefined.raised {t : Text} (h : Undefined a t e) : Evaluator.Raises e := by
  cases h with
  | value hvalue =>
      unfold Evaluator.constantValue at hvalue
      split at hvalue
      · cases hvalue
      · exact .constant hvalue
  | shown _ hshown hordinary =>
      unfold Evaluator.display at hshown
      split at hshown
      · -- a number that is too long is an ordinary condition
        have hlong := Evaluator.escapes_decimalText.mp ⟨hshown, by assumption⟩
        rw [hlong.2] at hordinary
        cases hordinary
      · cases hshown
      · cases hshown
      · cases hshown
      · cases hshown
      · exact .shown hshown

theorem StopsReading.stray_or_raised (h : StopsReading r a line e) : e.isStray = true ∨ Evaluator.Raises e := by
  cases h with
  | blank => exact .inl rfl
  | constant _ _ _ hundefined => exact .inr hundefined.raised

end Halting

/-- What holds while a text is read: no line of a macro and no instruction is blank. -/
structure Sound (r : Reader) (a : Assembly) : Prop where
  macros : ∀ p ∈ a.macros, ∀ l ∈ p.2.lines, Text.Solid l
  body : ∀ m, r.inside = some m → ∀ l ∈ m.body, Text.Solid l
  mnemonics : ∀ l ∈ a.mnemonics, Text.Solid l

section Step

variable [Evaluator] {index : Nat} {line : Text} {r r' : Reader} {a a' : Assembly} {e : Fault}

theorem Sound.callsEmpty (hs : Sound r a) (hline : '\n' ∉ line) {text : Text} (h : StopsReading r a line e)
    (hcode : Line.classify (withoutComment line) = .code text) : CallsEmpty a.macros text := by
  obtain ⟨rfl, hne⟩ := code_of_classify hcode
  by_contra hcalls
  have hsolid := solid_of_mem_expand (solid_withoutComment hline hne) hs.macros hcalls
  cases h with
  | blank hr hclass hpieces hbefore hblank =>
      obtain ⟨rfl, -⟩ := code_of_classify hclass
      exact (hsolid _ (hpieces ▸ List.mem_append_right _ List.mem_cons_self)).words_ne_nil hblank
  | constant hr hclass => cases hcode.symm.trans hclass

variable [Evaluator.Textual]

theorem Sound.step (hline : '\n' ∉ line) (hs : Sound r a)
    (h : (readLine index r line).effect a = (.ok r', a')) : Sound r' a' := by
  cases readLine_step h with
  | skip | blank | directive => exact hs
  | constant | label => exact ⟨hs.macros, hs.body, hs.mnemonics⟩
  | @close m _ _ hr _ =>
      refine ⟨?_, nofun, hs.mnemonics⟩
      intro p hp l hl
      rcases Assoc.eq_or_mem_of_mem_insert hp with rfl | hp
      · exact hs.body m hr l (List.mem_reverse.mp hl)
      · exact hs.macros p hp l hl
  | @keep m _ _ hr hne _ =>
      refine ⟨hs.macros, ?_, hs.mnemonics⟩
      rintro m' hm'
      cases hm'
      rw [List.forall_mem_cons]
      exact ⟨solid_withoutComment hline hne, hs.body m hr⟩
  | macroStart =>
      refine ⟨hs.macros, ?_, hs.mnemonics⟩
      rintro m hm
      cases hm
      exact List.forall_mem_nil _
  | code hr hclass hlines haccepted =>
      obtain ⟨rfl, hne⟩ := code_of_classify hclass
      subst hlines
      -- the call of a macro without lines would not have been accepted
      have hcalls : ¬ CallsEmpty a.macros (withoutComment line) := by
        intro hcalls
        rw [expand_of_callsEmpty hcalls, List.splitOn_nil] at haccepted
        cases haccepted [] List.mem_cons_self
      refine ⟨hs.macros, nofun, ?_⟩
      intro l hl
      rcases List.mem_append.mp hl with hl | hl
      · exact hs.mnemonics l hl
      · obtain ⟨piece, hpiece, rfl⟩ := List.mem_map.mp hl
        have hsolid := solid_of_mem_expand (solid_withoutComment hline hne) hs.macros hcalls piece hpiece
        exact hsolid.squeeze.trim

theorem Sound.readLines {lines : List Text} (hlines : ∀ l ∈ lines, '\n' ∉ l) (hs : Sound r a)
    (h : (readLines index r lines).effect a = (.ok r', a')) : Sound r' a' := by
  induction lines generalizing index r a with
  | nil =>
      obtain ⟨rfl, rfl⟩ := Action.effect_pure_eq_ok.mp h
      exact hs
  | cons line lines ih =>
      rw [List.forall_mem_cons] at hlines
      obtain ⟨r₁, a₁, hline, hrest⟩ := Action.effect_bind_eq_ok.mp h
      exact ih hlines.2 (hs.step hlines.1 hline) hrest

end Step

end Assembly

end RvToolkit
