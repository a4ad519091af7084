import RvToolkit.Proofs.Assembly.Expansion
import RvToolkit.Proofs.Folding
import RvToolkit.Proofs.Instruction.Halves

namespace RvToolkit

namespace Text

variable {t : Text}

/-- A word that the reader of a line takes as it is. -/
structure Plain (t : Text) : Prop where
  ne_nil : t ≠ []
  isBlank : ∀ {c : Char}, c ∈ t → isBlank c = false
  comma_notMem : ',' ∉ t
  lower : lower t = t

def plainChars : Text := "abcdefghijklmnopqrstuvwxyz0123456789-".toList

theorem plain_of_subset (hne : t ≠ []) (h : t ⊆ plainChars) : Plain t := by
  have hchars : plainChars.all (fun c => !Text.isBlank c && isSmall c) = true := by decide
  have hspec (c : Char) (hc : c ∈ t) : Text.isBlank c = false ∧ isSmall c = true := by
    simpa using List.all_eq_true.mp hchars c (h hc)
  refine ⟨hne, fun {c} hc => (hspec c hc).1, fun hc => absurd (h hc) (by decide), ?_⟩
  exact Small.lower fun c hc => (hspec c hc).2

def isPlain (t : Text) : Bool := !t.isEmpty && t.all plainChars.contains

theorem plain_of_isPlain (h : isPlain t = true) : Plain t := by
  obtain ⟨hne, hall⟩ := Bool.and_eq_true_iff.mp h
  refine plain_of_subset (by simpa using hne) fun c hc => ?_
  simpa using List.all_eq_true.mp hall c hc

theorem trim_between {a b : Text} (ha : a ≠ []) (ha' : ∀ c ∈ a, isBlank c = false) (hb : b ≠ [])
    (hb' : ∀ c ∈ b, isBlank c = false) (m : Text) : trim (a ++ (m ++ b)) = a ++ (m ++ b) := by
  have hkeep {u : Text} (hne : u ≠ []) (hu : ∀ c ∈ u, isBlank c = false) (rest : Text) :
      (u ++ rest).dropWhile isBlank = u ++ rest := by
    obtain ⟨c, cs, rfl⟩ := List.exists_cons_of_ne_nil hne
    exact List.dropWhile_cons_of_neg (by simp [hu c List.mem_cons_self])
  have hend := hkeep (List.reverse_ne_nil_iff.mpr hb) fun c hc => hb' c (List.mem_reverse.mp hc)
  rw [trim, hkeep ha ha', trimEnd, List.reverse_append, List.reverse_append, List.append_assoc, hend]
  simp

theorem words_eq_singleton (hne : t ≠ []) (h : ∀ c ∈ t, isBlank c = false) : words t = [t] := by
  have hfrom (cur u : Text) (hcur : cur ≠ [] ∨ u ≠ []) (hu : ∀ c ∈ u, isBlank c = false) :
      wordsFrom cur u = [cur.reverse ++ u] := by
    induction u generalizing cur with
    | nil =>
        have hne : cur ≠ [] := hcur.resolve_right fun hnil => hnil rfl
        rw [wordsFrom, if_neg (by simpa using hne), List.append_nil]
    | cons c u ih =>
        obtain ⟨hc, hu⟩ := List.forall_mem_cons.mp hu
        rw [wordsFrom, hc, if_neg Bool.false_ne_true, ih (c :: cur) (.inl (List.cons_ne_nil c cur)) hu]
        simp
  exact hfrom [] t (.inr hne) h

theorem trim_space_cons (h : Plain t) : trim (' ' :: t) = t := by
  have hspace : (' ' :: t).dropWhile Text.isBlank = t.dropWhile Text.isBlank := List.dropWhile_cons_of_pos (by decide)
  rw [trim, hspace]
  exact trim_eq_self fun c hc => h.isBlank hc

theorem squeezeFrom_append {u : Text} (hne : u ≠ []) (hu : ∀ c ∈ u, isBlank c = false) (after : Bool)
    (rest : Text) : squeezeFrom after (u ++ rest) = u ++ squeezeFrom false rest := by
  induction u generalizing after with
  | nil => exact absurd rfl hne
  | cons c u ih =>
      obtain ⟨hc, hu⟩ := List.forall_mem_cons.mp hu
      rw [List.cons_append, squeezeFrom, hc, List.cons_append]
      refine congrArg (c :: ·) ?_
      cases u with
      | nil => rfl
      | cons d u => exact ih (List.cons_ne_nil d u) hu false

/-- Words parted by a comma and a space are parted by a comma, with a space in front of all but the
first. -/
theorem join_comma_space (w : Text) (ws : List Text) :
    join [',', ' '] (w :: ws) = join [','] (w :: ws.map (' ' :: ·)) := by
  induction ws generalizing w with
  | nil => rfl
  | cons u ws ih =>
      rw [join, ih, List.map_cons, join]
      cases ws <;> simp [join]

theorem join_concat (sep w : Text) {ws : List Text} (h : ws ≠ []) :
    join sep (ws ++ [w]) = join sep ws ++ (sep ++ w) := by
  induction ws with
  | nil => exact absurd rfl h
  | cons u ws ih =>
      cases ws with
      | nil => simp [join]
      | cons v ws =>
          rw [List.cons_append, List.cons_append, join, ← List.cons_append, ih (List.cons_ne_nil v ws), join]
          simp

end Text

namespace Assembly

open Text

variable {σ : Type} {op : Text} {ws : List Text}

theorem filter_map_lower (h : ∀ w ∈ ws, Plain w) :
    (ws.filter fun w => !w.isEmpty).map Text.lower = ws := by
  have hne : ws.filter (fun w => !w.isEmpty) = ws :=
    List.filter_eq_self.mpr fun w hw => by simp [(h w hw).ne_nil]
  rw [hne]
  exact (List.map_congr_left fun w hw => (h w hw).lower).trans (List.map_id ws)

theorem tokens_of_plain (h : Plain op) : tokens op = [op] := by
  have hcut : cutAt ' ' op = none := by
    cases hcut : cutAt ' ' op with
    | none => rfl
    | some p =>
        have hsplit := eq_append_of_cutAt hcut
        have hblank := h.isBlank (c := ' ') (by rw [hsplit]; simp)
        exact absurd hblank (by decide)
  unfold tokens
  simp only [trim_eq_self fun c => h.isBlank, hcut]
  have hempty : [op, []].filter (fun w => !List.isEmpty w) = [op].filter fun w => !List.isEmpty w := by
    simp [List.filter_cons]
  rw [List.splitOn_nil]
  change ([op, []].filter _).map Text.lower = [op]
  rw [hempty]
  exact filter_map_lower (by simpa using h)

theorem tokens_written {w : Text} (hop : Plain op) (hw : Plain w) (hws : ∀ u ∈ ws, Plain u) :
    trim (op ++ ' ' :: join [',', ' '] (w :: ws)) = op ++ ' ' :: join [',', ' '] (w :: ws) ∧
    tokens (op ++ ' ' :: join [',', ' '] (w :: ws)) = op :: w :: ws := by
  have hall : ∀ u ∈ w :: ws, Plain u := List.forall_mem_cons.mpr ⟨hw, hws⟩
  have htrim : trim (op ++ ' ' :: join [',', ' '] (w :: ws)) = op ++ ' ' :: join [',', ' '] (w :: ws) := by
    -- the line ends with its last word
    obtain ⟨m, u, hu, hjoin⟩ : ∃ m u, Plain u ∧ join [',', ' '] (w :: ws) = m ++ u := by
      rcases List.eq_nil_or_concat ws with rfl | ⟨front, u, rfl⟩
      · exact ⟨[], w, hw, rfl⟩
      · refine ⟨join [',', ' '] (w :: front) ++ [',', ' '], u, hws u (by simp), ?_⟩
        rw [List.concat_eq_append, ← List.cons_append, join_concat _ _ (List.cons_ne_nil w front),
          List.append_assoc]
    rw [hjoin]
    exact trim_between hop.ne_nil (fun c hc => hop.isBlank hc) hu.ne_nil (fun c hc => hu.isBlank hc) (' ' :: m)
  have hspace : ' ' ∉ op := fun hmem => absurd (hop.isBlank hmem) (by decide)
  have hpieces : (join [',', ' '] (w :: ws)).splitOn ',' = w :: ws.map (' ' :: ·) := by
    rw [join_comma_space, join_eq_intercalate]
    refine List.splitOn_intercalate _ ?_ (List.cons_ne_nil _ _)
    intro piece hpiece
    rcases List.mem_cons.mp hpiece with rfl | hpiece
    · exact hw.comma_notMem
    · obtain ⟨u, hu, rfl⟩ := List.mem_map.mp hpiece
      simpa using (hws u hu).comma_notMem
  have htrimmed : (w :: ws.map (' ' :: ·)).map trim = w :: ws := by
    rw [List.map_cons, List.map_map, trim_eq_self fun c => hw.isBlank]
    refine congrArg (w :: ·) ((List.map_congr_left fun u hu => ?_).trans (List.map_id ws))
    exact trim_space_cons (hws u hu)
  refine ⟨htrim, ?_⟩
  unfold tokens
  simp only [htrim, cutAt_append hspace, hpieces, htrimmed]
  exact filter_map_lower (List.forall_mem_cons.mpr ⟨hop, hall⟩)

theorem squeeze_written {w : Text} (hop : Plain op) (hw : Plain w) (hws : ∀ u ∈ ws, Plain u) :
    squeeze (op ++ ' ' :: join [',', ' '] (w :: ws)) = op ++ ' ' :: join [',', ' '] (w :: ws) := by
  have hjoin (after : Bool) : squeezeFrom after (join [',', ' '] (w :: ws)) = join [',', ' '] (w :: ws) := by
    induction ws generalizing w after with
    | nil =>
        have hword := squeezeFrom_append hw.ne_nil (fun c hc => hw.isBlank hc) after []
        rw [List.append_nil] at hword
        exact hword.trans (List.append_nil w)
    | cons u ws ih =>
        obtain ⟨hu, hws⟩ := List.forall_mem_cons.mp hws
        have hblank : ∀ c ∈ w ++ [','], isBlank c = false := by
          intro c hc
          rcases List.mem_append.mp hc with hc | hc
          · exact hw.isBlank hc
          · rw [List.mem_singleton.mp hc]
            decide
        have hparted : join [',', ' '] (w :: u :: ws) = (w ++ [',']) ++ ' ' :: join [',', ' '] (u :: ws) := by
          simp [join]
        rw [hparted, squeezeFrom_append (by simp) hblank]
        exact congrArg ((w ++ [',']) ++ ' ' :: ·) (ih hu hws true)
  rw [squeeze, squeezeFrom_append hop.ne_nil fun c hc => hop.isBlank hc]
  exact congrArg (op ++ ' ' :: ·) (hjoin true)

end Assembly

end RvToolkit
