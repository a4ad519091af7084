import RvToolkit.Assembly.Basic
import RvToolkit.Proofs.OneLine

namespace RvToolkit

namespace Text

variable {c : Char} {t u : Text}

def capitals : Text := "ABCDEFGHIJKLMNOPQRSTUVWXYZ".toList

/-- The text with its ASCII letters in lower case. -/
def fold (t : Text) : Text := t.map Char.toLower

theorem toLower_eq_or_mem (c : Char) : c.toLower = c ∨ c ∈ capitals := by
  by_cases hc : c.toNat < 128
  · have hascii : (List.range 128).all (fun n => (Char.ofNat n).toLower = Char.ofNat n ||
        capitals.contains (Char.ofNat n)) = true := by decide
    have hchar := List.all_eq_true.mp hascii c.toNat (List.mem_range.mpr hc)
    simpa [Char.ofNat_toNat] using hchar
  · left
    unfold Char.toLower
    rw [dif_neg]
    intro hcapital
    have hhigh : c.toNat ≤ 90 := hcapital.2
    omega

theorem apply_toLower {β : Type} [DecidableEq β] {f : Char → β}
    (h : capitals.all (fun c => f c.toLower = f c) = true) (c : Char) : f c.toLower = f c := by
  rcases toLower_eq_or_mem c with hc | hc
  · rw [hc]
  · simpa using List.all_eq_true.mp h c hc

theorem isBlank_toLower : isBlank ∘ Char.toLower = isBlank := funext (apply_toLower (by decide))

theorem isLetter_toLower : Assembly.isLetter ∘ Char.toLower = Assembly.isLetter :=
  funext (apply_toLower (by decide))

theorem isCaseless_of_letter {n : Nat} (h : 65 ≤ n ∧ n ≤ 90 ∨ 97 ≤ n ∧ n ≤ 122) :
    inSpans caselessSpans n = false := by
  -- The letters are cased, so the search for the end of a word stops at them.
  have hspans : caselessSpans.all (fun p => p.2 < 65 || (90 < p.1 && p.2 < 97) || 122 < p.1) = true := by
    decide +kernel
  rw [inSpans, List.any_eq_false]
  intro p hp
  have hspan := List.all_eq_true.mp hspans p hp
  simp only [Bool.or_eq_true, Bool.and_eq_true, decide_eq_true_eq] at hspan ⊢
  omega

theorem isCaseless_toLower : isCaseless ∘ Char.toLower = isCaseless := by
  have hletter : capitals.all (fun c => (65 ≤ c.toNat && c.toNat ≤ 90) &&
      (97 ≤ c.toLower.toNat && c.toLower.toNat ≤ 122)) = true := by decide
  funext c
  rcases toLower_eq_or_mem c with hc | hc
  · rw [Function.comp_apply, hc]
  · have hcode := List.all_eq_true.mp hletter c hc
    simp only [Bool.and_eq_true, decide_eq_true_eq] at hcode
    rw [Function.comp_apply, isCaseless, isCaseless, isCaseless_of_letter (.inl hcode.1),
      isCaseless_of_letter (.inr hcode.2)]

theorem isCased_toLower (c : Char) : isCased c.toLower = isCased c := apply_toLower (by decide) c

theorem lowerChar_toLower (c : Char) : lowerChar c.toLower = lowerChar c := apply_toLower (by decide) c

/-- No letter of the ASCII range. -/
def isNeutral (d : Char) : Bool := capitals.all fun c => c.toLower ≠ d && c ≠ d

theorem toLower_eq_iff {d : Char} (h : isNeutral d = true) (c : Char) : c.toLower = d ↔ c = d := by
  rcases toLower_eq_or_mem c with hc | hc
  · rw [hc]
  · have hne := List.all_eq_true.mp h c hc
    rw [Bool.and_eq_true, decide_eq_true_eq, decide_eq_true_eq] at hne
    exact iff_of_false hne.1 hne.2

@[simp] theorem fold_nil : fold [] = [] := rfl

@[simp] theorem fold_cons (c : Char) (t : Text) : fold (c :: t) = c.toLower :: fold t := rfl

@[simp] theorem fold_append (t u : Text) : fold (t ++ u) = fold t ++ fold u := List.map_append

theorem fold_reverse (t : Text) : fold t.reverse = (fold t).reverse := List.map_reverse

theorem fold_eq_nil : fold t = [] ↔ t = [] := List.map_eq_nil_iff

theorem dropWhile_fold {p : Char → Bool} (h : p ∘ Char.toLower = p) (t : Text) :
    (fold t).dropWhile p = fold (t.dropWhile p) := by
  rw [fold, List.dropWhile_map, h, fold]

theorem takeWhile_fold {p : Char → Bool} (h : p ∘ Char.toLower = p) (t : Text) :
    (fold t).takeWhile p = fold (t.takeWhile p) := by
  rw [fold, List.takeWhile_map, h, fold]

theorem trim_fold (t : Text) : trim (fold t) = fold (trim t) := by
  rw [trim, trim, trimEnd, trimEnd, dropWhile_fold isBlank_toLower, ← fold_reverse,
    dropWhile_fold isBlank_toLower, ← fold_reverse]

theorem words_fold (t : Text) : words (fold t) = (words t).map fold := by
  have hfrom (cur t : Text) : wordsFrom (fold cur) (fold t) = (wordsFrom cur t).map fold := by
    induction t generalizing cur with
    | nil =>
        rw [fold_nil, wordsFrom, wordsFrom]
        cases cur with
        | nil => rfl
        | cons c cur => simp [fold_reverse]
    | cons c t ih =>
        have hc : isBlank c.toLower = isBlank c := congrFun isBlank_toLower c
        have hnil := ih []
        have hcons := ih (c :: cur)
        rw [fold_cons, wordsFrom, wordsFrom, hc]
        cases hblank : isBlank c with
        | false => exact hcons
        | true =>
            cases cur with
            | nil => exact hnil
            | cons d cur =>
                simp only [fold_cons, List.isEmpty_cons, if_true, Bool.false_eq_true, if_false, List.map_cons]
                rw [← fold_cons, ← fold_reverse]
                exact congrArg (_ :: ·) hnil
  exact hfrom [] t

theorem squeeze_fold (t : Text) : squeeze (fold t) = fold (squeeze t) := by
  have hfrom (after : Bool) : squeezeFrom after (fold t) = fold (squeezeFrom after t) := by
    induction t generalizing after with
    | nil => rfl
    | cons c t ih =>
        have hc : isBlank c.toLower = isBlank c := congrFun isBlank_toLower c
        rw [fold_cons, squeezeFrom, squeezeFrom, hc]
        cases isBlank c with
        | false => exact congrArg (_ :: ·) (ih false)
        | true =>
            cases after with
            | true => exact ih true
            | false => exact congrArg (' ' :: ·) (ih true)
  exact hfrom false

theorem splitOn_fold {sep : Char} (h : isNeutral sep = true) (t : Text) :
    (fold t).splitOn sep = (t.splitOn sep).map fold := by
  induction t with
  | nil => rfl
  | cons c t ih =>
      rw [fold_cons, List.splitOn_cons_eq_if_modifyHead, List.splitOn_cons_eq_if_modifyHead, ih]
      simp only [beq_iff_eq, toLower_eq_iff h]
      split
      · rfl
      · cases t.splitOn sep with
        | nil => rfl
        | cons w ws => rfl

theorem cutAt_fold {sep : Char} (h : isNeutral sep = true) (t : Text) :
    cutAt sep (fold t) = (cutAt sep t).map fun p => (fold p.1, fold p.2) := by
  induction t with
  | nil => rfl
  | cons c t ih =>
      rw [fold_cons, cutAt, cutAt, ih]
      simp only [toLower_eq_iff h]
      split
      · rfl
      · cases cutAt sep t with
        | none => rfl
        | some p => rfl

theorem join_fold (sep : Text) (ts : List Text) : fold (join sep ts) = join (fold sep) (ts.map fold) := by
  induction ts with
  | nil => rfl
  | cons t ts ih =>
      cases ts with
      | nil => rfl
      | cons u ts =>
          rw [join, fold_append, fold_append, ih]
          rfl

theorem meetsCased_fold (t : Text) : meetsCased (fold t) = meetsCased t := by
  rw [meetsCased, meetsCased, dropWhile_fold isCaseless_toLower]
  cases t.dropWhile isCaseless with
  | nil => rfl
  | cons c t => exact isCased_toLower c

theorem lower_fold (t : Text) : lower (fold t) = lower t := by
  have hfrom (seen : Text) : lowerFrom (fold seen) (fold t) = lowerFrom seen t := by
    induction t generalizing seen with
    | nil => rfl
    | cons c t ih =>
        have hsigma := toLower_eq_iff (d := Char.ofNat 931) (by decide) c
        have hdotted := toLower_eq_iff (d := Char.ofNat 304) (by decide) c
        have hrest := ih (c :: seen)
        rw [fold_cons] at hrest ⊢
        simp only [lowerFrom, hsigma, hdotted, meetsCased_fold, lowerChar_toLower, hrest]
  exact hfrom []

/-- A character that is its own lower case wherever it stands. -/
def isSmall (c : Char) : Bool := lowerChar c = c && c ≠ Char.ofNat 931 && c ≠ Char.ofNat 304

theorem isSmall_iff : isSmall c = true ↔ lowerChar c = c ∧ c ≠ Char.ofNat 931 ∧ c ≠ Char.ofNat 304 := by
  simp only [isSmall, Bool.and_eq_true, decide_eq_true_eq, and_assoc]

def Small (t : Text) : Prop := ∀ c ∈ t, isSmall c = true

theorem Small.lower (h : Small t) : lower t = t := by
  have hfrom (seen : Text) : lowerFrom seen t = t := by
    induction t generalizing seen with
    | nil => rfl
    | cons c cs ih =>
        obtain ⟨hlower, hsigma, hdotted⟩ := isSmall_iff.mp (h c List.mem_cons_self)
        rw [lowerFrom, if_neg hsigma, if_neg hdotted, hlower, ih fun d hd => h d (List.mem_cons_of_mem c hd)]
        rfl
  exact hfrom []

def inRun (r : Nat × Nat × Nat × Int) (n : Nat) : Bool :=
  r.1 ≤ n && n ≤ r.2.1 && (n - r.1) % r.2.2.1 = 0

def image (r : Nat × Nat × Nat × Int) (n : Nat) : Nat := ((n : Int) + r.2.2.2).toNat

/-- The small letters of the run `x` are no capitals of the run `y`: they lie above or below, or at the
other parity. -/
def apart (x y : Nat × Nat × Nat × Int) : Bool :=
  Nat.blt (image x x.2.1) y.1 || Nat.blt y.2.1 (image x x.1) ||
    (y.2.2.1 == 2 && image x x.1 % 2 != y.1 % 2 && (x.2.2.1 == 2 || x.1 == x.2.1))

theorem inRun_image {x y : Nat × Nat × Nat × Int} {n : Nat} (hx : 0 < image x x.1) (h : apart x y = true)
    (hn : inRun x n = true) : inRun y (image x n) = false := by
  obtain ⟨a, b, s, d⟩ := x
  obtain ⟨a', b', s', d'⟩ := y
  simp only [apart, image, inRun, Bool.and_eq_true, Bool.or_eq_true, Nat.blt_eq, beq_iff_eq, bne_iff_ne,
    decide_eq_true_eq] at hx h hn
  rw [← Bool.not_eq_true, image, inRun]
  simp only [Bool.and_eq_true, decide_eq_true_eq]
  obtain ⟨⟨hfirst, hlast⟩, hstep⟩ := hn
  rintro ⟨⟨hfirst', hlast'⟩, hstep'⟩
  rcases h with (h | h) | ⟨⟨rfl, hparity⟩, rfl | h⟩
  · omega
  · omega
  · omega
  · omega

theorem apart_capitalRuns : (capitalRuns.all fun x => Nat.blt 90 (image x x.1) && apart x (304, 304, 1, 0) &&
    capitalRuns.all (apart x)) = true := by
  decide +kernel

theorem isSmall_of_runs (hcapital : 90 < c.toNat) (hdotted : c.toNat ≠ 304)
    (h : ∀ r ∈ capitalRuns, inRun r c.toNat = false) : isSmall c = true := by
  rw [isSmall_iff]
  refine ⟨?_, ?_, ?_⟩
  · unfold lowerChar
    split
    · unfold Char.toLower
      refine dif_neg fun hc => ?_
      have hle : c.toNat ≤ 90 := hc.2
      omega
    · split
      · rename_i a b s d hfind
        have hrun := List.find?_some hfind
        exact absurd hrun (ne_true_of_eq_false (h _ (List.mem_of_find?_eq_some hfind)))
      · rfl
  · rintro rfl
    have hsigma := h (931, 939, 1, 32) (by decide)
    revert hsigma
    decide
  · rintro rfl
    exact hdotted rfl

theorem isSmall_image {x : Nat × Nat × Nat × Int} {n : Nat} (hx : x ∈ capitalRuns) (hn : inRun x n = true) :
    isSmall (Char.ofNat (image x n)) = true := by
  have hapart := List.all_eq_true.mp apart_capitalRuns x hx
  simp only [Bool.and_eq_true, Nat.blt_eq, List.all_eq_true] at hapart
  obtain ⟨⟨hlow, hdotted⟩, hruns⟩ := hapart
  by_cases hvalid : (image x n).isValidChar
  · have hcode : (Char.ofNat (image x n)).toNat = image x n := by
      rw [Char.ofNat, dif_pos hvalid]
      rfl
    apply isSmall_of_runs
    · rw [hcode]
      simp only [image, inRun, Bool.and_eq_true, decide_eq_true_eq] at hlow hn ⊢
      omega
    · rw [hcode]
      intro heq
      have hfree := inRun_image (by omega) hdotted hn
      rw [heq] at hfree
      revert hfree
      decide
    · intro r hr
      rw [hcode]
      exact inRun_image (by omega) (hruns r hr) hn
  · rw [Char.ofNat, dif_neg hvalid]
    decide

theorem lowerChar_cases (h : ¬ c.toNat < 128) :
    lowerChar c = c ∨ ∃ x ∈ capitalRuns, inRun x c.toNat = true ∧ lowerChar c = Char.ofNat (image x c.toNat) := by
  unfold lowerChar
  rw [if_neg h]
  split
  · rename_i a b s d hfind
    have hrun := List.find?_some hfind
    exact .inr ⟨(a, b, s, d), List.mem_of_find?_eq_some hfind, hrun, rfl⟩
  · exact .inl rfl

theorem isSmall_lowerChar (hsigma : c ≠ Char.ofNat 931) (hdotted : c ≠ Char.ofNat 304) :
    isSmall (lowerChar c) = true := by
  by_cases hascii : c.toNat < 128
  · have hall : (List.range 128).all (fun n => isSmall (lowerChar (Char.ofNat n))) = true := by decide +kernel
    have hc := List.all_eq_true.mp hall c.toNat (List.mem_range.mpr hascii)
    rwa [Char.ofNat_toNat] at hc
  · rcases lowerChar_cases hascii with hsame | ⟨x, hx, hrun, hlower⟩
    · rw [hsame]
      exact isSmall_iff.mpr ⟨hsame, hsigma, hdotted⟩
    · rw [hlower]
      exact isSmall_image hx hrun

theorem small_lower (t : Text) : Small (lower t) := by
  have hfrom (seen : Text) : Small (lowerFrom seen t) := by
    induction t generalizing seen with
    | nil => simp [lowerFrom, Small]
    | cons c cs ih =>
        intro d hd
        rw [lowerFrom] at hd
        rcases List.mem_append.mp hd with hd | hd
        · split at hd
          · rw [List.mem_singleton.mp hd]
            split <;> decide
          · split at hd
            · rcases List.mem_cons.mp hd with rfl | hd
              · decide
              · rw [List.mem_singleton.mp hd]
                decide
            · rw [List.mem_singleton.mp hd]
              exact isSmall_lowerChar (by assumption) (by assumption)
        · exact ih _ d hd
  exact hfrom []

theorem lower_eq_self_iff : lower t = t ↔ Small t := ⟨fun h => h ▸ small_lower t, Small.lower⟩

theorem Small.eq_of_fold_eq (ht : Small t) (hu : Small u) (h : fold t = fold u) : t = u := by
  rw [← ht.lower, ← hu.lower, ← lower_fold t, ← lower_fold u, h]

theorem small_of_subset_signs (h : t ⊆ Number.signs) : Small t := by
  have hsigns : Number.signs.all isSmall = true := by decide
  exact fun c hc => List.all_eq_true.mp hsigns c (h hc)

end Text

namespace Assembly

open Text

theorem wordsWithoutCommas_fold (t : Text) :
    wordsWithoutCommas (fold t) = (wordsWithoutCommas t).map fold := by
  have hcomma : (fun c : Char => decide (c ≠ ',')) ∘ Char.toLower = fun c => decide (c ≠ ',') := by
    funext c
    simp only [Function.comp_apply, ne_eq, toLower_eq_iff (d := ',') (by decide)]
  rw [wordsWithoutCommas, wordsWithoutCommas, ← words_fold, fold, List.filter_map, hcomma, fold]

theorem isMnemonic_fold (w : Text) : isMnemonic (fold w) = isMnemonic w := by
  have hchar (c : Char) : (isLetter c.toLower || c.toLower.isDigit) = (isLetter c || c.isDigit) :=
    apply_toLower (f := fun c => isLetter c || c.isDigit) (by decide) c
  have hall (t : Text) : ((fold t).all fun c => isLetter c || c.isDigit) =
      t.all fun c => isLetter c || c.isDigit := by
    rw [fold, List.all_map]
    exact congrArg t.all (funext hchar)
  have hhead : (fold (w.takeWhile isLetter)).isEmpty = (w.takeWhile isLetter).isEmpty := List.isEmpty_map
  unfold isMnemonic
  dsimp only
  rw [takeWhile_fold isLetter_toLower, dropWhile_fold isLetter_toLower, hhead]
  refine congrArg (!(w.takeWhile isLetter).isEmpty && ·) ?_
  cases w.dropWhile isLetter with
  | nil => rfl
  | cons c cs =>
      have hdot := toLower_eq_iff (d := '.') (by decide) c
      by_cases hc : c = '.'
      · subst hc
        change (!(fold cs).isEmpty && (fold cs).all _) = (!cs.isEmpty && cs.all _)
        rw [hall, fold, List.isEmpty_map]
      · rw [fold_cons]
        have hc' := fun h => hc (hdot.mp h)
        split
        · next heq => cases heq
        · next heq => exact absurd (List.cons.inj heq).1 hc'
        · split
          · next heq => cases heq
          · next heq => exact absurd (List.cons.inj heq).1 hc
          · rfl

theorem isInstruction_fold (line : Text) : isInstruction (fold line) = isInstruction line := by
  rw [isInstruction, isInstruction, words_fold]
  cases words line with
  | nil => rfl
  | cons w ws => exact congrArg Except.ok (isMnemonic_fold w)

theorem tokens_fold (line : Text) : tokens (fold line) = tokens line := by
  have hwords (ws : List Text) : ((ws.map fold).filter fun w => !w.isEmpty).map Text.lower =
      (ws.filter fun w => !w.isEmpty).map Text.lower := by
    have hempty : (fun w : Text => !w.isEmpty) ∘ fold = fun w => !w.isEmpty := by
      funext w
      cases w <;> rfl
    rw [List.filter_map, hempty, List.map_map]
    exact List.map_congr_left fun w _ => lower_fold w
  have hrest (t : Text) : ((fold t).splitOn ',').map trim = ((t.splitOn ',').map trim).map fold := by
    rw [splitOn_fold (by decide), List.map_map, List.map_map]
    exact List.map_congr_left fun w _ => trim_fold w
  unfold tokens
  simp only [trim_fold, cutAt_fold (by decide : isNeutral ' ' = true)]
  cases cutAt ' ' (trim line) with
  | none => exact hwords [trim line, []]
  | some p =>
      dsimp only [Option.map_some]
      rw [hrest]
      exact hwords (p.1 :: (p.2.splitOn ',').map trim)

end Assembly

end RvToolkit
