import RvToolkit.Assembly.Line
import RvToolkit.Assembly.Symbol
import RvToolkit.Proofs.Decimal

namespace RvToolkit

namespace Text

variable {c : Char} {t : Text}

theorem mem_of_mem_trimEnd (h : c ∈ trimEnd t) : c ∈ t := by
  have hrev := (List.dropWhile_sublist isBlank).subset (List.mem_reverse.mp h)
  exact List.mem_reverse.mp hrev

theorem mem_of_mem_trim (h : c ∈ trim t) : c ∈ t :=
  (List.dropWhile_sublist isBlank).subset (mem_of_mem_trimEnd h)

theorem isBlank_of_trim_eq_cons {u : Text} (h : trim t = c :: u) : isBlank c = false := by
  have hstart : c :: u <+: t.dropWhile isBlank := by
    rw [← h, trim, trimEnd, ← List.reverse_suffix, List.reverse_reverse]
    exact List.dropWhile_suffix isBlank
  obtain ⟨rest, hrest⟩ := hstart
  have hhead := List.head?_dropWhile_not isBlank t
  rw [← hrest] at hhead
  simpa using hhead

theorem eq_append_of_cutAt {sep : Char} {before after : Text} (h : cutAt sep t = some (before, after)) :
    t = before ++ sep :: after := by
  induction t generalizing before with
  | nil => cases h
  | cons d t ih =>
      rw [cutAt] at h
      split at h
      · rename_i hd
        cases h
        rw [hd]
        rfl
      · obtain ⟨⟨before', after'⟩, hcut, hpair⟩ := Option.map_eq_some_iff.mp h
        cases hpair
        rw [ih hcut]
        rfl

theorem mem_of_mem_words {w : Text} (hw : w ∈ words t) (h : c ∈ w) : c ∈ t := by
  have hfrom (cur u : Text) (hw : w ∈ wordsFrom cur u) : c ∈ cur ∨ c ∈ u := by
    fun_induction wordsFrom cur u with
    | case1 => cases hw
    | case2 cur hempty =>
        rw [List.mem_singleton.mp hw] at h
        exact .inl (List.mem_reverse.mp h)
    | case3 cur d cs hblank hempty ih => exact .inr (List.mem_cons_of_mem d ((ih hw).resolve_left List.not_mem_nil))
    | case4 cur d cs hblank hempty ih =>
        rcases List.mem_cons.mp hw with rfl | hw
        · exact .inl (List.mem_reverse.mp h)
        · exact .inr (List.mem_cons_of_mem d ((ih hw).resolve_left List.not_mem_nil))
    | case5 cur d cs hblank ih =>
        rcases ih hw with hmem | hmem
        · rcases List.mem_cons.mp hmem with rfl | hmem
          · exact .inr List.mem_cons_self
          · exact .inl hmem
        · exact .inr (List.mem_cons_of_mem d hmem)
  exact (hfrom [] t hw).resolve_left List.not_mem_nil

theorem mem_or_mem_of_mem_replace {pat new : Text} (h : c ∈ replace pat new t) : c ∈ t ∨ c ∈ new := by
  have hfrom (k : Nat) (u : Text) (hu : c ∈ replaceFrom pat new k u) : c ∈ u ∨ c ∈ new := by
    fun_induction replaceFrom pat new k u with
    | case1 => cases hu
    | case2 k d cs ih => exact (ih hu).imp_left (List.mem_cons_of_mem d)
    | case3 d cs hpat ih =>
        rcases List.mem_append.mp hu with hu | hu
        · exact .inr hu
        · exact (ih hu).imp_left (List.mem_cons_of_mem d)
    | case4 d cs hpat ih =>
        rcases List.mem_cons.mp hu with rfl | hu
        · exact .inl List.mem_cons_self
        · exact (ih hu).imp_left (List.mem_cons_of_mem d)
  unfold replace at h
  split at h
  · rcases List.mem_append.mp h with h | h
    · exact .inr h
    · obtain ⟨d, hd, h⟩ := List.mem_flatMap.mp h
      rcases List.mem_cons.mp h with rfl | h
      · exact .inl hd
      · exact .inr h
  · exact hfrom 0 t h

theorem newline_notMem_squeeze (t : Text) : '\n' ∉ squeeze t := by
  have hfrom (after : Bool) (u : Text) : '\n' ∉ squeezeFrom after u := by
    fun_induction squeezeFrom after u with
    | case1 => simp
    | case2 c cs hblank ih => exact ih
    | case3 after c cs hblank hafter ih => simp [ih]
    | case4 after c cs hblank ih =>
        intro h
        rcases List.mem_cons.mp h with rfl | h
        · exact hblank (by decide)
        · exact ih h
  exact hfrom false t

theorem isLineBreak_of_mem_lines {line : Text} (h : line ∈ lines t) :
    ∀ c ∈ line, isLineBreak c = false := by
  have hfrom (cur u : Text) (hcur : ∀ c ∈ cur, isLineBreak c = false) :
      ∀ l ∈ linesFrom cur u, ∀ c ∈ l, isLineBreak c = false := by
    have hreverse : ∀ c ∈ cur.reverse, isLineBreak c = false := fun c hc => hcur c (List.mem_reverse.mp hc)
    fun_induction linesFrom cur u with
    | case1 => exact List.forall_mem_nil _
    | case2 => exact List.forall_mem_singleton.mpr hreverse
    | case3 cur cs ih =>
        exact List.forall_mem_cons.mpr ⟨hreverse, ih (List.forall_mem_nil _) (List.forall_mem_nil _)⟩
    | case4 cur c cs _ hbreak ih =>
        exact List.forall_mem_cons.mpr ⟨hreverse, ih (List.forall_mem_nil _) (List.forall_mem_nil _)⟩
    | case5 cur c cs _ hbreak ih =>
        have hcons : ∀ d ∈ c :: cur, isLineBreak d = false :=
          List.forall_mem_cons.mpr ⟨Bool.eq_false_iff.mpr hbreak, hcur⟩
        exact ih hcons fun d hd => hcons d (List.mem_reverse.mp hd)
  exact hfrom [] t (List.forall_mem_nil _) line h

end Text

namespace Number

def signs : Text := "0123456789+-.aefin".toList

theorem toDigits_subset_signs (n : Nat) : Nat.toDigits 10 n ⊆ signs := by
  have hdigit : ∀ d < 10, d.digitChar ∈ signs := by decide
  obtain ⟨ds, htext, -, hds, -⟩ := exists_toDigits (by decide : 1 < 10) n
  rw [htext]
  intro c hc
  obtain ⟨d, hd, rfl⟩ := List.mem_map.mp hc
  exact hdigit d (hds d hd)

theorem ofInt_subset_signs (i : Int) : Text.ofInt i ⊆ signs := by
  cases i with
  | ofNat n => exact toDigits_subset_signs n
  | negSucc n => exact List.cons_subset.mpr ⟨by decide, toDigits_subset_signs (n + 1)⟩

theorem layOut_subset_signs {ds : Text} (h : ds ⊆ signs) (point : Int) : layOut ds point ⊆ signs := by
  have hzeros (n : Nat) : List.replicate n '0' ⊆ signs := by
    intro c hc
    rw [(List.mem_replicate.mp hc).2]
    decide
  unfold layOut
  split
  · split
    · refine List.cons_subset.mpr ⟨by decide, List.cons_subset.mpr ⟨by decide, ?_⟩⟩
      exact List.append_subset.mpr ⟨hzeros _, h⟩
    · split
      · exact List.append_subset.mpr ⟨List.append_subset.mpr ⟨h, hzeros _⟩, by decide⟩
      · exact List.append_subset.mpr ⟨fun c hc => h (List.mem_of_mem_take hc),
          List.cons_subset.mpr ⟨by decide, fun c hc => h (List.mem_of_mem_drop hc)⟩⟩
  · have hexponent : ('e' :: (if point - 1 < 0 then '-' else '+') ::
        Text.padLeft 2 '0' (Nat.toDigits 10 (point - 1).natAbs) : Text) ⊆ signs := by
      refine List.cons_subset.mpr ⟨by decide, List.cons_subset.mpr ⟨by split <;> decide, ?_⟩⟩
      exact List.append_subset.mpr ⟨hzeros _, toDigits_subset_signs _⟩
    dsimp only
    split
    · exact hexponent
    · exact List.cons_subset.mpr ⟨(List.cons_subset.mp h).1, hexponent⟩
    · obtain ⟨hfirst, hrest⟩ := List.cons_subset.mp h
      refine List.cons_subset.mpr ⟨hfirst, List.cons_subset.mpr ⟨by decide, ?_⟩⟩
      exact List.append_subset.mpr ⟨hrest, hexponent⟩

theorem shortest_subset_signs (x : Float) : shortest x ⊆ signs := by
  have hdigits (n : Nat) : dropZeros (Nat.toDigits 10 n) ⊆ signs := by
    intro c hc
    have hmem := (List.dropWhile_sublist _).subset (List.mem_reverse.mp hc)
    exact toDigits_subset_signs n (List.mem_reverse.mp hmem)
  unfold shortest
  split
  · decide
  · split <;> decide
  · rename_i negative m e hparts
    have hsign : (if negative then ['-'] else [] : Text) ⊆ signs := by cases negative <;> decide
    dsimp only
    split
    · exact List.append_subset.mpr ⟨hsign, by decide⟩
    · exact List.append_subset.mpr ⟨hsign, layOut_subset_signs (hdigits _) _⟩

end Number

theorem decimalText_subset_signs {i : Int} {t : Text} (h : decimalText i = .ok t) : t ⊆ Number.signs := by
  unfold decimalText at h
  dsimp only at h
  split at h
  · cases h
  · cases h
    exact Number.ofInt_subset_signs i

end RvToolkit
