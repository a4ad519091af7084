import RvToolkit.Proofs.Assembly.Nesting
import RvToolkit.Proofs.Assembly.Substitution

namespace RvToolkit

namespace Text

variable {w t u : Text}

theorem wordsFrom_append (hw : ∀ c ∈ w, isBlank c = false) (cur t : Text) :
    wordsFrom cur (w ++ t) = wordsFrom (w.reverse ++ cur) t := by
  induction w generalizing cur with
  | nil => rfl
  | cons c w ih =>
      obtain ⟨hc, hw⟩ := List.forall_mem_cons.mp hw
      rw [List.cons_append, wordsFrom, hc, if_neg Bool.false_ne_true, ih hw, List.reverse_cons, List.append_assoc,
        List.singleton_append]

theorem words_append (hne : w ≠ []) (hw : ∀ c ∈ w, isBlank c = false)
    (ht : ∀ c ∈ t.head?, isBlank c = true) :
    words (w ++ t) = w :: words t := by
  have hcur : ¬ (w.reverse ++ []).isEmpty = true := by simpa using hne
  rw [words, wordsFrom_append hw]
  cases t with
  | nil =>
      rw [wordsFrom, if_neg hcur, List.append_nil, List.reverse_reverse]
      rfl
  | cons c t =>
      have hc : isBlank c = true := ht c rfl
      rw [words, wordsFrom, wordsFrom, if_pos hc, if_pos hc, if_neg hcur, List.append_nil, List.reverse_reverse]
      rfl

theorem words_append_of_blank (hu : ∀ c ∈ u, isBlank c = true) (t : Text) : words (u ++ t) = words t := by
  rw [← words_dropWhile, List.dropWhile_append_of_pos hu, words_dropWhile]

theorem prefix_of_words (hne : w ≠ []) (hw : ∀ c ∈ w, isBlank c = false) {v : Text} {vs : List Text}
    (h : words (w ++ t) = v :: vs) : w <+: v := by
  rw [words, wordsFrom_append hw] at h
  have hprefix := prefix_of_wordsFrom (by simpa using hne) h
  rwa [List.append_nil, List.reverse_reverse] at hprefix

theorem join_injective {ts ts' : List Text} {sep : Char} (hlength : ts.length = ts'.length)
    (hts : ∀ t ∈ ts, sep ∉ t)
    (hts' : ∀ t ∈ ts', sep ∉ t) (h : join [sep] ts = join [sep] ts') : ts = ts' := by
  by_cases hnil : ts = []
  · subst hnil
    exact (List.length_eq_zero_iff.mp hlength.symm).symm
  · have hnil' : ts' ≠ [] := by
      rintro rfl
      exact hnil (List.length_eq_zero_iff.mp hlength)
    rw [join_eq_intercalate, join_eq_intercalate] at h
    rw [← List.splitOn_intercalate _ hts hnil, h, List.splitOn_intercalate _ hts' hnil']

theorem filter_eq_self_of_notMem {sep : Char} (h : sep ∉ t) : t.filter (· ≠ sep) = t := by
  refine List.filter_eq_self.mpr fun c hc => ?_
  have hne : c ≠ sep := fun heq => h (heq ▸ hc)
  simpa using hne

theorem filter_join (sep : Char) (ts : List Text) (hts : ∀ t ∈ ts, sep ∉ t) :
    (join [sep] ts).filter (· ≠ sep) = ts.flatten := by
  induction ts with
  | nil => rfl
  | cons t ts ih =>
      obtain ⟨ht, hts⟩ := List.forall_mem_cons.mp hts
      cases ts with
      | nil => rw [join, filter_eq_self_of_notMem ht, List.flatten_singleton]
      | cons u ts =>
          rw [join, List.filter_append, List.filter_append, filter_eq_self_of_notMem ht, ih hts, List.flatten_cons]
          simp

end Text

namespace Assembly

open Text

/-- The line that calls a macro: its name, and blanks and a value for each argument, with commas between
them. -/
def callText (name : Text) (gs : List (Text × Text)) : Text :=
  name ++ Text.join [','] (gs.map fun e => e.1 ++ e.2)

/-- The words that are read behind the name. -/
def given (gs : List (Text × Text)) : List Text := words (gs.flatMap fun e => e.1 ++ e.2)

/-- Blanks have to follow the name. No value is empty or has a comma in it. -/
structure IsCall (gs : List (Text × Text)) : Prop where
  blank : ∀ e ∈ gs, ∀ c ∈ e.1, isBlank c = true
  first : ∀ e ∈ gs.head?, e.1 ≠ []
  value : ∀ e ∈ gs, e.2 ≠ [] ∧ ',' ∉ e.2

section Given

variable {name : Text} {gs : List (Text × Text)} {e : Text × Text}

theorem head?_flatMap (hblank : ∀ e ∈ gs, ∀ c ∈ e.1, isBlank c = true) (hfirst : ∀ e ∈ gs.head?, e.1 ≠ []) :
    ∀ c ∈ (gs.flatMap fun e => e.1 ++ e.2).head?, isBlank c = true := by
  intro c hc
  cases gs with
  | nil => cases hc
  | cons e gs =>
      obtain ⟨d, ds, hcons⟩ := List.exists_cons_of_ne_nil (hfirst e rfl)
      rw [List.flatMap_cons, hcons] at hc
      obtain rfl := Option.some.inj hc
      exact hblank e List.mem_cons_self _ (hcons ▸ List.mem_cons_self)

theorem given_cons (hblank : ∀ c ∈ e.1, isBlank c = true) (gs : List (Text × Text)) :
    given (e :: gs) = words (e.2 ++ gs.flatMap fun e => e.1 ++ e.2) := by
  rw [given, List.flatMap_cons, List.append_assoc, words_append_of_blank hblank]

theorem wordsWithoutCommas_callText (hname : IsName name) (hgs : IsCall gs) :
    wordsWithoutCommas (callText name gs) = name :: given gs := by
  have hcomma : ∀ t ∈ gs.map fun e => e.1 ++ e.2, ',' ∉ t := by
    refine List.forall_mem_map.mpr fun e he => List.not_mem_append (fun hmem => ?_) (hgs.value e he).2
    exact absurd (hgs.blank e he _ hmem) (by decide)
  have hfilter : (callText name gs).filter (· ≠ ',') = name ++ gs.flatMap fun e => e.1 ++ e.2 := by
    rw [callText, List.filter_append, filter_eq_self_of_notMem (hname.notMem (by decide)), filter_join ',' _ hcomma,
      List.flatMap_def]
  rw [wordsWithoutCommas, hfilter]
  exact words_append hname.1 (fun c hc => hname.isBlank hc) (head?_flatMap hgs.blank hgs.first)

theorem given_of_spaced (hblank : ∀ e ∈ gs, ∀ c ∈ e.1, isBlank c = true)
    (h : ∀ e ∈ gs, e.1 ≠ [] ∧ IsValue e.2) : given gs = gs.map Prod.snd := by
  induction gs with
  | nil => rfl
  | cons e gs ih =>
      obtain ⟨he, hblank⟩ := List.forall_mem_cons.mp hblank
      obtain ⟨hvalue, h⟩ := List.forall_mem_cons.mp h
      have hbehind := head?_flatMap hblank fun e he => (h e (List.mem_of_mem_head? he)).1
      rw [given_cons he, words_append hvalue.2.1 (fun c hc => (hvalue.2.2 c hc).1) hbehind, List.map_cons,
        ← ih hblank h, given]

theorem spaced_of_given (hblank : ∀ e ∈ gs, ∀ c ∈ e.1, isBlank c = true) (hvalues : ∀ e ∈ gs, IsValue e.2)
    (h : given gs = gs.map Prod.snd) : ∀ e ∈ gs.tail, e.1 ≠ [] := by
  -- Values without blanks before them would be read as one.
  induction gs with
  | nil => exact List.forall_mem_nil _
  | cons e gs ih =>
      obtain ⟨he, hblank⟩ := List.forall_mem_cons.mp hblank
      obtain ⟨hvalue, hvalues⟩ := List.forall_mem_cons.mp hvalues
      rw [given_cons he, List.map_cons] at h
      have hfirst : ∀ e' ∈ gs.head?, e'.1 ≠ [] := by
        intro e' he' hnil
        obtain ⟨gs', rfl⟩ := List.head?_eq_some_iff.mp he'
        have hvalue' := hvalues e' List.mem_cons_self
        rw [List.flatMap_cons, hnil, List.nil_append, ← List.append_assoc] at h
        have hprefix := prefix_of_words (by simp [hvalue.1]) ?_ h
        · have hlength := hprefix.length_le
          have hpos := List.length_pos_iff.mpr hvalue'.1
          rw [List.length_append] at hlength
          omega
        · intro c hc
          rcases List.mem_append.mp hc with hc | hc
          · exact (hvalue.2 c hc).1
          · exact (hvalue'.2 c hc).1
      rw [words_append hvalue.1 (fun c hc => (hvalue.2 c hc).1) (head?_flatMap hblank hfirst)] at h
      have hrest := ih hblank hvalues (List.cons.inj h).2
      cases gs with
      | nil => exact List.forall_mem_nil _
      | cons e' gs => exact List.forall_mem_cons.mpr ⟨hfirst e' rfl, hrest⟩

theorem given_eq_iff (hgs : IsCall gs) : given gs = gs.map Prod.snd ↔ ∀ e ∈ gs, e.1 ≠ [] ∧ IsValue e.2 := by
  refine ⟨fun h => ?_, given_of_spaced hgs.blank⟩
  have hvalues : ∀ e ∈ gs, IsValue e.2 := by
    intro e he
    obtain ⟨hne, hblank⟩ := isBlank_of_mem_words (t := gs.flatMap fun e => e.1 ++ e.2)
      (show e.2 ∈ given gs from h ▸ List.mem_map_of_mem he)
    exact ⟨hne, fun c hc => ⟨hblank c hc, fun heq => (hgs.value e he).2 (heq ▸ hc)⟩⟩
  have htail := spaced_of_given hgs.blank hvalues h
  intro e he
  refine ⟨?_, hvalues e he⟩
  cases gs with
  | nil => cases he
  | cons e' gs =>
      rcases List.mem_cons.mp he with rfl | he
      · exact hgs.first e rfl
      · exact htail e he

end Given

/-- The lines of a macro with the words that are given in place of its arguments. -/
def substituted (m : Macro) (ws : List Text) : Text := Text.join ['\n'] (m.lines.map (substitute (m.args.zip ws)))

section Expanding

variable {a : Assembly} {m : Macro} {name l : Text} {gs : List (Text × Text)} {ws : List Text}
    {b : Assoc Text Text}

theorem prefix_map_fst_zip (args ws : List Text) : (args.zip ws).map Prod.fst <+: args := by
  induction args generalizing ws with
  | nil => exact List.prefix_rfl
  | cons p args ih =>
      cases ws with
      | nil => exact List.nil_prefix
      | cons w ws => exact (List.prefix_cons_inj p).mpr (ih ws)

theorem dropLast_subset_append (args args' : List Text) : args.dropLast ⊆ (args ++ args').dropLast := by
  cases args' with
  | nil => rw [List.append_nil]; exact List.Subset.refl _
  | cons p args' =>
      rw [List.dropLast_append_cons]
      exact fun q hq => List.mem_append_left _ ((List.dropLast_sublist args).subset hq)

theorem expand_callText (hname : IsName name) (hm : a.macros.get? name = some m) (hnodup : m.args.Nodup)
    (hgs : IsCall gs) :
    expand a (callText name gs) = Text.join ['\n'] (m.lines.map (Macro.fill (m.args.zip (given gs)))) := by
  have hbind : Macro.bind m (given gs) = m.args.zip (given gs) :=
    Assoc.ofPairs_of_nodup (hnodup.sublist (prefix_map_fst_zip m.args (given gs)).sublist)
  rw [expand, wordsWithoutCommas_callText hname hgs]
  simp only [hm, hbind]

theorem fill_zip_of_plain (hnames : ∀ p ∈ m.args, IsName p) (hsep : Separated m.args l)
    (hws : ∀ w ∈ ws, '\\' ∉ w) :
    Macro.fill (m.args.zip ws) l = substitute (m.args.zip ws) l := by
  obtain ⟨args', hargs⟩ := prefix_map_fst_zip m.args ws
  refine fill_eq_substitute ?_ ?_ (hargs ▸ hsep).of_append
  · exact fun p hp => hnames p (hargs ▸ List.mem_append_left _ hp)
  · exact fun e he => hws e.2 (List.of_mem_zip ((List.dropLast_sublist _).subset he)).2

theorem fill_zip_of_last (hnames : ∀ p ∈ m.args, IsName p) (hsep : Separated m.args l)
    (hlast : ∀ s ∈ references l, ident s ∉ m.args.dropLast) (ws : List Text) :
    Macro.fill (m.args.zip ws) l = substitute (m.args.zip ws) l := by
  obtain ⟨args', hargs⟩ := prefix_map_fst_zip m.args ws
  have hdropLast := dropLast_subset_append ((m.args.zip ws).map Prod.fst) args'
  rw [hargs] at hdropLast
  refine fill_of_last ?_ (hargs ▸ hsep).of_append fun s hs hmem => hlast s hs (hdropLast hmem)
  exact fun p hp => hnames p (hargs ▸ List.mem_append_left _ hp)

def spaced (b : Assoc Text Text) : List (Text × Text) := b.map fun e => ([' '], e.2)

theorem isCall_spaced (hb : ∀ e ∈ b, IsValue e.2) : IsCall (spaced b) ∧ given (spaced b) = b.map Prod.snd := by
  have hblank : ∀ e ∈ spaced b, ∀ c ∈ e.1, isBlank c = true := by
    refine List.forall_mem_map.mpr fun e _ => ?_
    rw [List.forall_mem_singleton]
    decide
  have hvalues : ∀ e ∈ spaced b, e.1 ≠ [] ∧ IsValue e.2 :=
    List.forall_mem_map.mpr fun e he => ⟨List.cons_ne_nil _ _, hb e he⟩
  refine ⟨⟨hblank, fun e he => (hvalues e (List.mem_of_mem_head? he)).1, fun e he => ?_⟩, ?_⟩
  · obtain ⟨-, hne, hvalue⟩ := hvalues e he
    exact ⟨hne, fun hmem => (hvalue _ hmem).2 rfl⟩
  · rw [given_of_spaced hblank hvalues, spaced, List.map_map]
    rfl

theorem fill_of_expand (hname : IsName name) (hm : a.macros.get? name = some m) (hnodup : m.args.Nodup)
    (hnames : ∀ p ∈ m.args, IsName p) (hlines : ∀ l ∈ m.lines, '\n' ∉ l) (hb : b.map Prod.fst = m.args)
    (hvalues : ∀ e ∈ b, IsValue e.2)
    (h : expand a (callText name (spaced b)) = substituted m (given (spaced b))) :
    ∀ l ∈ m.lines, Macro.fill b l = substitute b l := by
  obtain ⟨hcall, hgiven⟩ := isCall_spaced hvalues
  have hzip : m.args.zip (given (spaced b)) = b := by
    rw [hgiven, ← hb]
    exact (List.zip_of_prod rfl rfl).symm
  rw [expand_callText hname hm hnodup hcall, substituted, hzip] at h
  have hbreak : ∀ e ∈ b, '\n' ∉ e.2 := by
    intro e he hmem
    exact absurd ((hvalues e he).2 _ hmem).1 (by decide)
  have hkeys : ∀ e ∈ b, IsName e.1 := fun e he => hnames e.1 (hb ▸ List.mem_map_of_mem he)
  refine List.map_inj_left.mp (join_injective ?_ ?_ ?_ h)
  · rw [List.length_map, List.length_map]
  · refine List.forall_mem_map.mpr fun l hl => List.count_eq_zero.mp ?_
    rw [count_fill (by decide) (by decide) hkeys hbreak, List.count_eq_zero.mpr (hlines l hl)]
  · refine List.forall_mem_map.mpr fun l hl => List.count_eq_zero.mp ?_
    rw [count_substitute_of_notMem (by decide) (by decide) hbreak, List.count_eq_zero.mpr (hlines l hl)]

theorem notMem_given (hgs : IsCall gs) (hplain : ∀ e ∈ gs, '\\' ∉ e.2) : ∀ w ∈ given gs, '\\' ∉ w := by
  intro w hw hmem
  obtain ⟨e, he, hmem⟩ := List.mem_flatMap.mp (mem_of_mem_words hw hmem)
  rcases List.mem_append.mp hmem with hmem | hmem
  · exact absurd (hgs.blank e he _ hmem) (by decide)
  · exact hplain e he hmem

/-- The words behind the name are the values exactly if blanks are before each of them and none are in it.
With values that have no backslashes, all calls with a value for each argument are the substitution of
these words exactly if the arguments are separated. With any values they are exactly if, moreover, no
argument but the last is referred to. -/
theorem call_substituted (hname : IsName name) (hm : a.macros.get? name = some m) (hnodup : m.args.Nodup)
    (hnames : ∀ p ∈ m.args, IsName p) (hlines : ∀ l ∈ m.lines, '\n' ∉ l) :
    (∀ gs, IsCall gs → wordsWithoutCommas (callText name gs) = name :: given gs ∧
      (given gs = gs.map Prod.snd ↔ ∀ e ∈ gs, e.1 ≠ [] ∧ IsValue e.2)) ∧
    ((∀ gs, IsCall gs → gs.length = m.args.length → (∀ e ∈ gs, '\\' ∉ e.2) →
      expand a (callText name gs) = substituted m (given gs)) ↔ ∀ l ∈ m.lines, Separated m.args l) ∧
    ((∀ gs, IsCall gs → gs.length = m.args.length → expand a (callText name gs) = substituted m (given gs)) ↔
      ∀ l ∈ m.lines, Separated m.args l ∧ ∀ s ∈ references l, ident s ∉ m.args.dropLast) := by
  have hlength {b : Assoc Text Text} (hb : b.map Prod.fst = m.args) : (spaced b).length = m.args.length := by
    rw [spaced, List.length_map, ← hb, List.length_map]
  have hseparated (h : ∀ gs, IsCall gs → gs.length = m.args.length → (∀ e ∈ gs, '\\' ∉ e.2) →
      expand a (callText name gs) = substituted m (given gs)) : ∀ l ∈ m.lines, Separated m.args l := by
    intro l hl
    refine separated_of_fill hnodup hnames fun b hb hvalues => ?_
    have hvalue : ∀ e ∈ b, IsValue e.2 := fun e he => (hvalues e he).1
    refine fill_of_expand hname hm hnodup hnames hlines hb hvalue ?_ l hl
    exact h _ (isCall_spaced hvalue).1 (hlength hb) (List.forall_mem_map.mpr fun e he => (hvalues e he).2)
  refine ⟨fun gs hgs => ⟨wordsWithoutCommas_callText hname hgs, given_eq_iff hgs⟩, ⟨hseparated, ?_⟩, ?_, ?_⟩
  · intro hsep gs hgs _ hplain
    rw [expand_callText hname hm hnodup hgs, substituted,
      List.map_congr_left fun l hl => fill_zip_of_plain hnames (hsep l hl) (notMem_given hgs hplain)]
  · intro h l hl
    have hsep := hseparated (fun gs hgs hcount _ => h gs hgs hcount) l hl
    refine ⟨hsep, last_of_fill hnodup hnames hsep fun b hb hvalues => ?_⟩
    refine fill_of_expand hname hm hnodup hnames hlines hb hvalues ?_ l hl
    exact h _ (isCall_spaced hvalues).1 (hlength hb)
  · intro h gs hgs _
    rw [expand_callText hname hm hnodup hgs, substituted,
      List.map_congr_left fun l hl => fill_zip_of_last hnames (h l hl).1 (h l hl).2 (given gs)]

def shortFirst : Macro := ⟨["a".toList, "ab".toList], ["addi \\ab, x0, 1".toList]⟩

theorem call_substituted_overlapping :
    expand { base := 0, macros := [("m".toList, shortFirst)] } "m x1, x2".toList = "addi x1b, x0, 1".toList ∧
    substituted shortFirst ["x1".toList, "x2".toList] = "addi x2, x0, 1".toList ∧
    ¬ ∀ gs, IsCall gs → gs.length = shortFirst.args.length → (∀ e ∈ gs, '\\' ∉ e.2) →
      expand { base := 0, macros := [("m".toList, shortFirst)] } (callText "m".toList gs) =
        substituted shortFirst (given gs) := by
  refine ⟨by decide +kernel, by decide +kernel, fun h => ?_⟩
  have hname : IsName "m".toList := .of_test (by decide)
  have hnames : ∀ p ∈ shortFirst.args, IsName p :=
    List.forall_mem_cons.mpr ⟨.of_test (by decide), List.forall_mem_singleton.mpr (.of_test (by decide))⟩
  have hlines : ∀ l ∈ shortFirst.lines, '\n' ∉ l := List.forall_mem_singleton.mpr (by decide)
  have hsep := (call_substituted (a := { base := 0, macros := [("m".toList, shortFirst)] }) hname rfl (by decide)
    hnames hlines).2.1.mp h "addi \\ab, x0, 1".toList List.mem_cons_self
  have hident := hsep [] "a".toList ["ab".toList] rfl "ab, x0, 1".toList [] List.suffix_rfl List.not_mem_nil
    (.inl ⟨"b, x0, 1".toList, rfl⟩)
  exact absurd hident (by decide)

end Expanding

end Assembly

end RvToolkit
