import Mathlib.Data.List.Induction
import RvToolkit.Proofs.Assembly.CaseSensitivity
import RvToolkit.Proofs.Assembly.Expansion

namespace RvToolkit

namespace Assoc

variable {α β : Type} [DecidableEq α] {k : α} {b b' : Assoc α β}

theorem get?_append : get? k (b ++ b') = (get? k b).or (get? k b') := by
  induction b with
  | nil => rfl
  | cons e b ih =>
      obtain ⟨a, v⟩ := e
      rw [List.cons_append, get?, get?, ih]
      split <;> rfl

theorem get?_eq_none_iff : get? k b = none ↔ k ∉ b.map Prod.fst := by
  induction b with
  | nil => simp [get?]
  | cons e b ih =>
      obtain ⟨a, v⟩ := e
      rw [get?, List.map_cons, List.mem_cons, not_or, ← ih]
      split
      · rename_i ha
        simp [ha]
      · rename_i ha
        simp [Ne.symm ha]

theorem ofPairs_of_nodup {ps : List (α × β)} (h : (ps.map Prod.fst).Nodup) : ofPairs ps = ps := by
  have hfrom (es : Assoc α β) (hes : ((es ++ ps).map Prod.fst).Nodup) :
      ps.foldl (fun es p => insert p.1 p.2 es) es = es ++ ps := by
    clear h
    induction ps generalizing es with
    | nil => exact (List.append_nil es).symm
    | cons p ps ih =>
        have hp : p.1 ∉ es.map Prod.fst := by
          rw [List.map_append, List.map_cons, List.nodup_append] at hes
          intro hmem
          exact hes.2.2 p.1 hmem p.1 List.mem_cons_self rfl
        have hsplit : es ++ p :: ps = (es ++ [p]) ++ ps := by simp
        rw [List.foldl_cons, insert_of_notMem hp, hsplit]
        exact ih _ (hsplit ▸ hes)
  exact hfrom [] h

end Assoc

namespace Text

variable {p v u t : Text} {x : Char}

def occurrences (p : Text) : Text → Nat
  | [] => 0
  | c :: t => (if ('\\' :: p).isPrefixOf (c :: t) then 1 else 0) + occurrences p t

theorem occurrences_le_append (u t : Text) : occurrences p t ≤ occurrences p (u ++ t) := by
  induction u with
  | nil => exact Nat.le_refl _
  | cons c u ih =>
      rw [List.cons_append, occurrences]
      exact Nat.le_trans ih (Nat.le_add_left _ _)

theorem occurrences_append (hu : '\\' ∉ u) (t : Text) : occurrences p (u ++ t) = occurrences p t := by
  induction u with
  | nil => rfl
  | cons c u ih =>
      obtain ⟨hc, hu⟩ := not_or.mp (mt List.mem_cons.mpr hu)
      have hnone : ¬ ('\\' :: p).isPrefixOf (c :: (u ++ t)) = true := by
        rw [List.isPrefixOf_iff_prefix, List.cons_prefix_cons]
        exact fun h => hc h.1
      rw [List.cons_append, occurrences, if_neg hnone, ih hu, Nat.zero_add]

theorem succ_occurrences_le (hu : u ≠ []) (h : '\\' :: p <+: u ++ t) :
    occurrences p t + 1 ≤ occurrences p (u ++ t) := by
  obtain ⟨c, u, rfl⟩ := List.exists_cons_of_ne_nil hu
  rw [List.cons_append] at h ⊢
  rw [occurrences, if_pos (List.isPrefixOf_iff_prefix.mpr h), Nat.add_comm]
  exact Nat.add_le_add_left (occurrences_le_append u t) 1

theorem count_replace (hp : '\\' ∉ p) (hx : x ∉ '\\' :: p) (v t : Text) :
    (replace ('\\' :: p) v t).count x = t.count x + occurrences p t * v.count x := by
  have hpat : '\\' :: p ≠ [] := List.cons_ne_nil _ _
  -- reading goes on behind an occurrence, so the induction is on the length
  induction hlength : t.length using Nat.strongRecOn generalizing t with
  | ind n ih =>
      by_cases hfront : '\\' :: p <+: t
      · obtain ⟨rest, rfl⟩ := hfront
        have hshort : rest.length < n := by
          rw [← hlength, List.length_append, List.length_cons]
          omega
        have hhit : ('\\' :: p).isPrefixOf ('\\' :: (p ++ rest)) = true :=
          List.isPrefixOf_iff_prefix.mpr ⟨rest, rfl⟩
        have hone : occurrences p ('\\' :: p ++ rest) = 1 + occurrences p rest := by
          rw [List.cons_append, occurrences, occurrences_append hp, if_pos hhit]
        rw [replace_append hpat, List.count_append, List.count_append, ih rest.length hshort rest rfl, hone,
          List.count_eq_zero.mpr hx, Nat.add_mul]
        omega
      · cases t with
        | nil =>
            rw [replace_nil hpat, occurrences, Nat.zero_mul, Nat.add_zero]
        | cons c t =>
            have hnone : ¬ ('\\' :: p).isPrefixOf (c :: t) = true := mt List.isPrefixOf_iff_prefix.mp hfront
            rw [replace_cons hpat hfront, List.count_cons, List.count_cons,
              ih t.length (by simp [← hlength]) t rfl, occurrences, if_neg hnone, Nat.zero_add]
            omega

theorem replace_of_notMem (hu : '\\' ∉ u) (v t : Text) :
    replace ('\\' :: p) v (u ++ t) = u ++ replace ('\\' :: p) v t := by
  induction u with
  | nil => rfl
  | cons c u ih =>
      obtain ⟨hc, hu⟩ := not_or.mp (mt List.mem_cons.mpr hu)
      have hfront : ¬ '\\' :: p <+: c :: (u ++ t) := fun h => hc (List.cons_prefix_cons.mp h).1
      rw [List.cons_append, replace_cons (List.cons_ne_nil _ _) hfront, ih hu, List.cons_append]

end Text

namespace Assembly

open Text

/-- What follows each backslash of a line, up to the next one. -/
def references : Text → List Text
  | [] => []
  | c :: t => if c = '\\' then t.takeWhile (· ≠ '\\') :: references t else references t

/-- The name that is meant where `s` follows a backslash: all the letters, digits and underscores there. -/
def ident (s : Text) : Text := s.takeWhile Text.isWord

def piece (b : Assoc Text Text) (s : Text) : Text :=
  match b.get? (ident s) with
  | some v => v ++ s.dropWhile Text.isWord
  | none => '\\' :: s

/-- The values of all names at once, wherever one is meant. -/
def substitute (b : Assoc Text Text) (line : Text) : Text :=
  line.takeWhile (· ≠ '\\') ++ (references line).flatMap (piece b)

/-- Among what follows the backslashes of a line, nothing but the name begins with it when its turn comes,
and nothing that is not the name can be completed to it by the value of a name written before. -/
def Separate (before : List Text) (p : Text) (refs : List Text) : Prop :=
  ∀ s rest, s :: rest <:+ refs → ident s ∉ before →
    (p <+: s ∨ s <+: p ∧ ∃ s' ∈ rest.head?, ident s' ∈ before) → ident s = p

/-- Each argument is separate from those that are written in before it. -/
def Separated (args : List Text) (line : Text) : Prop :=
  ∀ before p after, args = before ++ p :: after → Separate before p (references line)

section Pieces

variable {b b' : Assoc Text Text} {s line p v : Text} {refs : List Text}

theorem piece_of_some (h : b.get? (ident s) = some v) : piece b s = v ++ s.dropWhile Text.isWord := by
  rw [piece, h]

theorem piece_of_none (h : b.get? (ident s) = none) : piece b s = '\\' :: s := by
  rw [piece, h]

theorem backslash_notMem_references : ∀ s ∈ references line, '\\' ∉ s := by
  induction line with
  | nil => exact List.forall_mem_nil _
  | cons c t ih =>
      rw [references]
      split
      · refine List.forall_mem_cons.mpr ⟨fun hmem => ?_, ih⟩
        simpa using List.mem_takeWhile_imp hmem
      · exact ih

theorem ident_append_dropWhile (s : Text) : ident s ++ s.dropWhile Text.isWord = s :=
  List.takeWhile_append_dropWhile

theorem substitute_congr (h : ∀ s ∈ references line, b.get? (ident s) = b'.get? (ident s)) :
    substitute b line = substitute b' line := by
  have hpieces : (references line).flatMap (piece b) = (references line).flatMap (piece b') := by
    refine List.flatMap_congr fun s hs => ?_
    rw [piece, piece, h s hs]
  rw [substitute, substitute, hpieces]

theorem substitute_nil (line : Text) : substitute [] line = line := by
  induction line with
  | nil => rfl
  | cons c t ih =>
      rw [substitute] at ih ⊢
      by_cases hc : c = '\\'
      · rw [references, if_pos hc, List.takeWhile_cons_of_neg (by simpa using hc), List.flatMap_cons, hc]
        change '\\' :: (t.takeWhile (· ≠ '\\') ++ _) = _
        rw [ih]
      · rw [references, if_neg hc, List.takeWhile_cons_of_pos (by simpa using hc), List.cons_append, ih]

theorem prefix_iff_of_separate (hp : IsName p) (hs : b.get? (ident s) = none)
    (hsep : Separate (b.map Prod.fst) p (s :: refs)) :
    p <+: s ++ refs.flatMap (piece b) ↔ ident s = p := by
  have hnot := Assoc.get?_eq_none_iff.mp hs
  have hmeant := hsep s refs List.suffix_rfl hnot
  constructor
  · intro hprefix
    rcases List.prefix_or_prefix_of_prefix hprefix (List.prefix_append s _) with hp' | hs'
    · exact hmeant (.inl hp')
    · obtain ⟨q, rfl⟩ := hs'
      have hq : q <+: refs.flatMap (piece b) := (List.prefix_append_right_inj s).mp hprefix
      cases q with
      | nil => exact hmeant (.inl (by simp))
      | cons c q =>
          refine hmeant (.inr ⟨List.prefix_append s _, ?_⟩)
          -- a value has to stand behind, since a name does not go on with a backslash
          cases refs with
          | nil => simp at hq
          | cons s' refs =>
              refine ⟨s', rfl, ?_⟩
              by_contra hs'
              rw [List.flatMap_cons, piece_of_none (Assoc.get?_eq_none_iff.mpr hs'), List.cons_append] at hq
              obtain ⟨rfl, -⟩ := List.cons_prefix_cons.mp hq
              exact absurd (hp.2 '\\' (by simp)) (by decide)
  · intro hident
    have hpart : p <+: s := hident ▸ List.takeWhile_prefix _
    exact hpart.trans (List.prefix_append s _)

theorem replace_pieces (hp : IsName p) (hb : ∀ q ∈ b, '\\' ∉ q.2) (v : Text)
    (hrefs : ∀ s ∈ refs, '\\' ∉ s) (hsep : Separate (b.map Prod.fst) p refs) :
    replace ('\\' :: p) v (refs.flatMap (piece b)) = refs.flatMap (piece (b ++ [(p, v)])) := by
  induction refs with
  | nil => exact replace_nil (List.cons_ne_nil _ _)
  | cons s refs ih =>
      obtain ⟨hs, hrefs⟩ := List.forall_mem_cons.mp hrefs
      have hrest := ih hrefs fun s' rest hsuffix => hsep s' rest (hsuffix.trans (List.suffix_cons s refs))
      have htail : '\\' ∉ s.dropWhile Text.isWord := fun hmem => hs ((List.dropWhile_sublist _).subset hmem)
      rw [List.flatMap_cons, List.flatMap_cons]
      cases hget : b.get? (ident s) with
      | some w =>
          have hget' : Assoc.get? (ident s) (b ++ [(p, v)]) = some w := by
            rw [Assoc.get?_append, hget]
            rfl
          have hw : '\\' ∉ w ++ s.dropWhile Text.isWord :=
            List.not_mem_append (hb _ (Assoc.mem_of_get? hget)) htail
          rw [piece_of_some hget, piece_of_some hget', replace_of_notMem hw, hrest]
      | none =>
          have hfront := prefix_iff_of_separate hp hget hsep
          have hget' : Assoc.get? (ident s) (b ++ [(p, v)]) = if p = ident s then some v else none := by
            rw [Assoc.get?_append, hget]
            rfl
          rw [piece_of_none hget]
          by_cases hident : ident s = p
          · rw [if_pos hident.symm] at hget'
            have hsplit : '\\' :: s ++ refs.flatMap (piece b) =
                '\\' :: p ++ (s.dropWhile Text.isWord ++ refs.flatMap (piece b)) := by
              rw [List.cons_append, List.cons_append, ← List.append_assoc, ← hident, ident_append_dropWhile]
            rw [hsplit, replace_append (List.cons_ne_nil _ _), replace_of_notMem htail, hrest, piece_of_some hget',
              List.append_assoc]
          · rw [if_neg (Ne.symm hident)] at hget'
            have hnone : ¬ '\\' :: p <+: '\\' :: (s ++ refs.flatMap (piece b)) := fun h =>
              hident (hfront.mp (List.cons_prefix_cons.mp h).2)
            rw [List.cons_append, replace_cons (List.cons_ne_nil _ _) hnone, replace_of_notMem hs, hrest,
              piece_of_none hget', List.cons_append]

theorem replace_substitute (hp : IsName p) (hb : ∀ q ∈ b, '\\' ∉ q.2) (v : Text)
    (hsep : Separate (b.map Prod.fst) p (references line)) :
    replace ('\\' :: p) v (substitute b line) = substitute (b ++ [(p, v)]) line := by
  have hfront : '\\' ∉ line.takeWhile (· ≠ '\\') := fun hmem => by simpa using List.mem_takeWhile_imp hmem
  rw [substitute, replace_of_notMem hfront, replace_pieces hp hb v backslash_notMem_references hsep, substitute]

end Pieces

section Filling

variable {args : List Text} {b : Assoc Text Text} {line : Text}

theorem fill_append (b b' : Assoc Text Text) (line : Text) :
    Macro.fill (b ++ b') line = Macro.fill b' (Macro.fill b line) := List.foldl_append

theorem Separated.of_append {args' : List Text}
    (h : Separated (args ++ args') line) : Separated args line := by
  intro before p after hargs
  exact h before p (after ++ args') (by rw [hargs, List.append_assoc, List.cons_append])

theorem fill_eq_substitute (hnames : ∀ p ∈ b.map Prod.fst, IsName p)
    (hvalues : ∀ q ∈ b.dropLast, '\\' ∉ q.2)
    (hsep : Separated (b.map Prod.fst) line) : Macro.fill b line = substitute b line := by
  induction b using List.reverseRecOn with
  | nil => exact (substitute_nil line).symm
  | append_singleton b q ih =>
      obtain ⟨p, v⟩ := q
      rw [List.map_append, List.map_singleton] at hnames hsep
      rw [List.dropLast_concat] at hvalues
      have hbefore : Macro.fill b line = substitute b line := by
        refine ih (fun p hp => hnames p (List.mem_append_left _ hp)) ?_ hsep.of_append
        exact fun q hq => hvalues q ((List.dropLast_sublist b).subset hq)
      rw [fill_append, hbefore]
      exact replace_substitute (hnames p (by simp)) hvalues v (hsep _ p [] rfl)

theorem count_fill {x : Char} (hx : x ≠ '\\') (hword : Text.isWord x = false)
    (hnames : ∀ q ∈ b, IsName q.1)
    (hvalues : ∀ q ∈ b, x ∉ q.2) : (Macro.fill b line).count x = line.count x := by
  induction b generalizing line with
  | nil => rfl
  | cons q b ih =>
      obtain ⟨hq, hnames⟩ := List.forall_mem_cons.mp hnames
      obtain ⟨hv, hvalues⟩ := List.forall_mem_cons.mp hvalues
      have hpat : x ∉ '\\' :: q.1 := by
        rw [List.mem_cons, not_or]
        exact ⟨hx, hq.notMem hword⟩
      change (Macro.fill b (replace ('\\' :: q.1) q.2 line)).count x = _
      rw [ih hnames hvalues, count_replace (hq.notMem (by decide)) hpat, List.count_eq_zero.mpr hv, Nat.mul_zero,
        Nat.add_zero]

theorem count_piece {x : Char} (hx : x ≠ '\\') (hword : Text.isWord x = false) (s : Text) :
    (piece b s).count x = s.count x + ((b.get? (ident s)).getD []).count x := by
  have hident : (ident s).count x = 0 := by
    refine List.count_eq_zero.mpr fun hmem => ?_
    rw [List.mem_takeWhile_imp hmem] at hword
    cases hword
  have hsplit : s.count x = (s.dropWhile Text.isWord).count x := by
    conv_lhs => rw [← ident_append_dropWhile s]
    rw [List.count_append, hident, Nat.zero_add]
  cases hget : b.get? (ident s) with
  | some v =>
      rw [piece_of_some hget, List.count_append, hsplit, Nat.add_comm]
      rfl
  | none =>
      rw [piece_of_none hget, List.count_cons_of_ne (Ne.symm hx)]
      rfl

theorem count_substitute {x : Char} (hx : x ≠ '\\') (hword : Text.isWord x = false) :
    (substitute b line).count x =
      line.count x + ((references line).map fun s => ((b.get? (ident s)).getD []).count x).sum := by
  have hpieces (refs : List Text) : (refs.flatMap (piece b)).count x =
      (refs.flatMap (piece [])).count x + (refs.map fun s => ((b.get? (ident s)).getD []).count x).sum := by
    induction refs with
    | nil => rfl
    | cons s refs ih =>
        have hs : (piece [] s).count x = s.count x := count_piece hx hword s
        rw [List.flatMap_cons, List.flatMap_cons, List.count_append, List.count_append, ih, count_piece hx hword, hs,
          List.map_cons, List.sum_cons]
        omega
  have hline : line.count x = (substitute [] line).count x := by rw [substitute_nil]
  rw [hline, substitute, substitute, List.count_append, List.count_append, hpieces, Nat.add_assoc]

theorem count_getD {x : Char} (h : ∀ e ∈ b, x ∉ e.2) (k : Text) : ((b.get? k).getD []).count x = 0 := by
  cases hget : b.get? k with
  | none => rfl
  | some v => exact List.count_eq_zero.mpr (h _ (Assoc.mem_of_get? hget))

theorem count_substitute_of_notMem {x : Char} (hx : x ≠ '\\') (hword : Text.isWord x = false)
    (h : ∀ e ∈ b, x ∉ e.2) : (substitute b line).count x = line.count x := by
  rw [count_substitute hx hword, List.map_congr_left fun s _ => count_getD h (ident s)]
  simp

section Mistakes

variable {q : Text} {refs : List Text}

theorem occurrences_cons (hq : q ∉ b.map Prod.fst) (s : Text) (refs : List Text) :
    occurrences q (refs.flatMap (piece b)) + (if ident s = q then 1 else 0) ≤
      occurrences q ((s :: refs).flatMap (piece b)) := by
  rw [List.flatMap_cons]
  split
  · rename_i hident
    have hpiece : piece b s = '\\' :: s := piece_of_none (Assoc.get?_eq_none_iff.mpr (hident ▸ hq))
    have hfront : '\\' :: q <+: piece b s ++ refs.flatMap (piece b) := by
      rw [hpiece, ← hident]
      exact ((List.prefix_cons_inj _).mpr (List.takeWhile_prefix _)).trans (List.prefix_append _ _)
    exact succ_occurrences_le (hpiece ▸ List.cons_ne_nil _ _) hfront
  · exact occurrences_le_append _ _

theorem countP_ident_cons (q s : Text) (refs : List Text) :
    (s :: refs).countP (ident · = q) = refs.countP (ident · = q) + if ident s = q then 1 else 0 := by
  rw [List.countP_cons]
  simp

theorem countP_le_occurrences (hq : q ∉ b.map Prod.fst) (refs : List Text) :
    refs.countP (ident · = q) ≤ occurrences q (refs.flatMap (piece b)) := by
  induction refs with
  | nil => exact Nat.zero_le _
  | cons s refs ih =>
      rw [countP_ident_cons]
      exact (Nat.add_le_add_right ih _).trans (occurrences_cons hq s refs)

/-- The name is found at the front of a part that does not mean it. -/
def Mistaken (b : Assoc Text Text) (q : Text) (refs : List Text) : Prop :=
  ∃ s rest, s :: rest <:+ refs ∧ ident s ≠ q ∧ piece b s ≠ [] ∧ '\\' :: q <+: (s :: rest).flatMap (piece b)

theorem countP_lt_occurrences (hq : q ∉ b.map Prod.fst) (h : Mistaken b q refs) :
    refs.countP (ident · = q) < occurrences q (refs.flatMap (piece b)) := by
  obtain ⟨s, rest, ⟨front, rfl⟩, hident, hne, hfront⟩ := h
  induction front with
  | nil =>
      rw [List.flatMap_cons] at hfront
      have hone := succ_occurrences_le hne hfront
      have hle := countP_le_occurrences hq rest
      rw [List.nil_append, countP_ident_cons, if_neg hident, List.flatMap_cons]
      omega
  | cons s' front ih =>
      rw [List.cons_append, countP_ident_cons]
      exact Nat.lt_of_lt_of_le (Nat.add_lt_add_right ih _) (occurrences_cons hq s' _)

variable {b₁ b₂ : Assoc Text Text}

theorem count_fill_dot (hnames : ∀ e ∈ b₁ ++ (q, ['.']) :: b₂, IsName e.1)
    (hdots : ∀ e ∈ b₁ ++ b₂, '.' ∉ e.2) (hbefore : Macro.fill b₁ line = substitute b₁ line) :
    (Macro.fill (b₁ ++ (q, ['.']) :: b₂) line).count '.' =
      line.count '.' + occurrences q ((references line).flatMap (piece b₁)) := by
  -- A full stop as the value of a name counts how often the name is found.
  have hdot : '.' ≠ '\\' ∧ Text.isWord '.' = false := by decide
  have hq : IsName q := hnames (q, ['.']) (by simp)
  have hpat : '.' ∉ '\\' :: q := by
    rw [List.mem_cons, not_or]
    exact ⟨hdot.1, hq.notMem hdot.2⟩
  have hfront : '\\' ∉ line.takeWhile (· ≠ '\\') := fun hmem => by simpa using List.mem_takeWhile_imp hmem
  have hb₁ : (substitute b₁ line).count '.' = line.count '.' :=
    count_substitute_of_notMem hdot.1 hdot.2 fun e he => hdots e (List.mem_append_left _ he)
  have hb₂ : (Macro.fill b₂ (replace ('\\' :: q) ['.'] (substitute b₁ line))).count '.' =
      (replace ('\\' :: q) ['.'] (substitute b₁ line)).count '.' :=
    count_fill hdot.1 hdot.2 (fun e he => hnames e (by simp [he])) fun e he => hdots e (by simp [he])
  rw [fill_append, hbefore]
  change (Macro.fill b₂ (replace ('\\' :: q) ['.'] (substitute b₁ line))).count '.' = _
  rw [hb₂, count_replace (hq.notMem (by decide)) hpat, hb₁, substitute, occurrences_append hfront]
  simp

theorem count_substitute_dot (hq : q ∉ b₁.map Prod.fst) (hdots : ∀ e ∈ b₁ ++ b₂, '.' ∉ e.2) :
    (substitute (b₁ ++ (q, ['.']) :: b₂) line).count '.' =
      line.count '.' + (references line).countP (ident · = q) := by
  have hvalue (s : Text) : ((Assoc.get? (ident s) (b₁ ++ (q, ['.']) :: b₂)).getD []).count '.' =
      if ident s = q then 1 else 0 := by
    split
    · rename_i hident
      rw [hident, Assoc.get?_append, Assoc.get?_eq_none_iff.mpr hq, Assoc.get?, if_pos rfl]
      rfl
    · rename_i hident
      have hskip : Assoc.get? (ident s) (b₁ ++ (q, ['.']) :: b₂) = Assoc.get? (ident s) (b₁ ++ b₂) := by
        rw [Assoc.get?_append, Assoc.get?_append, Assoc.get?, if_neg (Ne.symm hident)]
      rw [hskip]
      exact count_getD hdots (ident s)
  have hsum (refs : List Text) :
      (refs.map fun s => if ident s = q then 1 else 0).sum = refs.countP (ident · = q) := by
    induction refs with
    | nil => rfl
    | cons s refs ih => rw [List.map_cons, List.sum_cons, ih, countP_ident_cons, Nat.add_comm]
  rw [count_substitute (by decide) (by decide), List.map_congr_left fun s _ => hvalue s, hsum]

theorem not_mistaken (hnodup : ((b₁ ++ (q, ['.']) :: b₂).map Prod.fst).Nodup)
    (hnames : ∀ e ∈ b₁ ++ (q, ['.']) :: b₂, IsName e.1) (hdots : ∀ e ∈ b₁ ++ b₂, '.' ∉ e.2)
    (hbefore : Macro.fill b₁ line = substitute b₁ line)
    (h : Macro.fill (b₁ ++ (q, ['.']) :: b₂) line = substitute (b₁ ++ (q, ['.']) :: b₂) line) :
    ¬ Mistaken b₁ q (references line) := by
  have hq : q ∉ b₁.map Prod.fst := by
    rw [List.map_append, List.map_cons, List.nodup_append] at hnodup
    exact fun hmem => hnodup.2.2 q hmem q List.mem_cons_self rfl
  have hfound := count_fill_dot hnames hdots hbefore
  rw [h, count_substitute_dot hq hdots] at hfound
  intro hmistaken
  have hlt := countP_lt_occurrences hq hmistaken
  omega

end Mistakes

end Filling

/-- What can be given for an argument: a word without commas. -/
def IsValue (v : Text) : Prop := v ≠ [] ∧ ∀ c ∈ v, Text.isBlank c = false ∧ c ≠ ','

section Exact

variable {args : List Text} {line : Text}

theorem IsName.isValue {n : Text} (h : IsName n) : IsValue n :=
  ⟨h.1, fun c hc => ⟨h.isBlank hc, fun heq => h.notMem (by decide) (heq ▸ hc)⟩⟩

theorem IsValue.backslash {v : Text} (h : IsValue v) : IsValue ('\\' :: v) :=
  ⟨List.cons_ne_nil _ _, List.forall_mem_cons.mpr ⟨by decide, h.2⟩⟩

theorem isValue_dot : IsValue ['.'] ∧ '\\' ∉ ['.'] := by
  refine ⟨⟨List.cons_ne_nil _ _, ?_⟩, by decide⟩
  rw [List.forall_mem_singleton]
  decide

def shared (r : Text) (names : List Text) : Assoc Text Text := names.map (·, r)

theorem map_fst_shared (r : Text) (names : List Text) : (shared r names).map Prod.fst = names := by
  rw [shared, List.map_map]
  exact List.map_id names

theorem snd_of_mem_shared {r : Text} {names : List Text} {e : Text × Text}
    (h : e ∈ shared r names) : e.2 = r := by
  obtain ⟨n, -, rfl⟩ := List.mem_map.mp h
  rfl

theorem get?_shared {r k : Text} {names : List Text}
    (h : k ∈ names) : (shared r names).get? k = some r := by
  cases hget : (shared r names).get? k with
  | none =>
      rw [Assoc.get?_eq_none_iff, map_fst_shared] at hget
      exact absurd h hget
  | some v => exact congrArg some (snd_of_mem_shared (Assoc.mem_of_get? hget))

theorem ident_of_isName {n : Text} (h : IsName n) : ident n = n := by
  rw [ident, List.takeWhile_eq_self_iff]
  exact h.2

/-- What is not the name, but begins with it or can be completed to it, is taken for the name under some
value. -/
theorem exists_mistaken {before refs rest : List Text} {p s : Text} (hp : IsName p)
    (hsuffix : s :: rest <:+ refs)
    (hnot : ident s ∉ before) (hs : p <+: s ∨ s <+: p ∧ ∃ s' ∈ rest.head?, ident s' ∈ before)
    (hne : ident s ≠ p) :
    ∃ r, IsName r ∧ Mistaken (shared r before) p refs := by
  have hpiece (r : Text) : piece (shared r before) s = '\\' :: s :=
    piece_of_none (Assoc.get?_eq_none_iff.mpr (by rwa [map_fst_shared]))
  have hmistaken (r : Text) (hfront : p <+: s ++ rest.flatMap (piece (shared r before))) :
      Mistaken (shared r before) p refs := by
    refine ⟨s, rest, hsuffix, hne, by simp [hpiece r], ?_⟩
    rw [List.flatMap_cons, hpiece r, List.cons_append, List.prefix_cons_inj]
    exact hfront
  rcases hs with hs | ⟨⟨r, hr⟩, s', hs', hmem⟩
  · exact ⟨p, hp, hmistaken p (hs.trans (List.prefix_append s _))⟩
  · have hname : IsName r := by
      refine ⟨?_, fun c hc => hp.2 c (hr ▸ List.mem_append_right s hc)⟩
      rintro rfl
      rw [List.append_nil] at hr
      exact hne ((congrArg ident hr).trans (ident_of_isName hp))
    obtain ⟨rest', rfl⟩ := List.head?_eq_some_iff.mp hs'
    refine ⟨r, hname, hmistaken r ?_⟩
    rw [List.flatMap_cons, piece_of_some (get?_shared hmem), ← hr, List.append_assoc]
    exact (List.prefix_append_right_inj s).mpr (List.prefix_append r _)

/-- Values that show whether `q` is mistaken: a full stop for it, and its own name for all that come after. -/
def probe (b : Assoc Text Text) (q : Text)
    (after : List Text) : Assoc Text Text := b ++ (q, ['.']) :: shared q after

section Probe

variable {b : Assoc Text Text} {q : Text} {after : List Text}

theorem map_fst_probe (b : Assoc Text Text) (q : Text) (after : List Text) :
    (probe b q after).map Prod.fst = b.map Prod.fst ++ q :: after := by
  rw [probe, List.map_append, List.map_cons, map_fst_shared]

theorem forall_mem_probe {P : Text → Prop} (hb : ∀ e ∈ b, P e.2) (hdot : P ['.']) (hq : P q) :
    ∀ e ∈ probe b q after, P e.2 := by
  intro e he
  rcases List.mem_append.mp he with he | he
  · exact hb e he
  · rcases List.mem_cons.mp he with rfl | he
    · exact hdot
    · rwa [snd_of_mem_shared he]

theorem not_mistaken_of_probe (hnodup : args.Nodup) (hnames : ∀ p ∈ args, IsName p)
    (hargs : args = b.map Prod.fst ++ q :: after) (hvalues : ∀ e ∈ b.dropLast, '\\' ∉ e.2)
    (hdots : ∀ e ∈ b, '.' ∉ e.2) (hsep : Separated (b.map Prod.fst) line)
    (h : Macro.fill (probe b q after) line = substitute (probe b q after) line) : ¬ Mistaken b q (references line) := by
  have hkeys : (probe b q after).map Prod.fst = args := (map_fst_probe b q after).trans hargs.symm
  have hbefore : Macro.fill b line = substitute b line :=
    fill_eq_substitute (fun p hp => hnames p (hargs ▸ List.mem_append_left _ hp)) hvalues hsep
  refine not_mistaken (hkeys.symm ▸ hnodup) ?_ ?_ hbefore h
  · intro e he
    exact hnames e.1 (hkeys ▸ List.mem_map_of_mem he)
  · intro e he
    rcases List.mem_append.mp he with he | he
    · exact hdots e he
    · rw [snd_of_mem_shared he]
      exact (hnames q (by simp [hargs])).notMem (by decide)

end Probe

theorem separated_of_fill (hnodup : args.Nodup) (hnames : ∀ p ∈ args, IsName p)
    (h : ∀ b : Assoc Text Text, b.map Prod.fst = args → (∀ e ∈ b, IsValue e.2 ∧ '\\' ∉ e.2) →
      Macro.fill b line = substitute b line) : Separated args line := by
  intro before p after hargs
  -- all names written before are separate already
  induction hlength : before.length using Nat.strongRecOn generalizing before p after with
  | ind n ih =>
      intro s rest hsuffix hnot hs
      by_contra hne
      have hp : IsName p := hnames p (by simp [hargs])
      obtain ⟨r, hr, hmistaken⟩ := exists_mistaken hp hsuffix hnot hs hne
      have hsplit : args = (shared r before).map Prod.fst ++ p :: after := by rw [map_fst_shared, hargs]
      have hsep : Separated ((shared r before).map Prod.fst) line := by
        rw [map_fst_shared]
        intro before' p' after' hbefore
        refine ih before'.length ?_ before' p' (after' ++ p :: after) ?_ rfl
        · rw [← hlength, hbefore, List.length_append, List.length_cons]
          omega
        · rw [hargs, hbefore, List.append_assoc, List.cons_append]
      have hvalue {v : Text} (hv : IsName v) : IsValue v ∧ '\\' ∉ v := ⟨hv.isValue, hv.notMem (by decide)⟩
      have hshared {x : Char} (hx : Text.isWord x = false) : ∀ e ∈ shared r before, x ∉ e.2 := fun e he =>
        snd_of_mem_shared he ▸ hr.notMem hx
      refine not_mistaken_of_probe hnodup hnames hsplit ?_ (hshared (by decide)) hsep (h _ ?_ ?_) hmistaken
      · exact fun e he => hshared (by decide) e ((List.dropLast_sublist _).subset he)
      · rw [map_fst_probe, hsplit]
      · refine forall_mem_probe (P := fun v => IsValue v ∧ '\\' ∉ v) (fun e he => ?_) isValue_dot (hvalue hp)
        rw [snd_of_mem_shared he]
        exact hvalue hr

theorem replace_eq_self {p : Text} (hp : IsName p) (v : Text) (hsep : Separate [] p (references line))
    (hnone : ∀ s ∈ references line, ident s ≠ p) : replace ('\\' :: p) v line = line := by
  have hstep : replace ('\\' :: p) v (substitute [] line) = substitute [(p, v)] line :=
    replace_substitute hp (List.forall_mem_nil _) v hsep
  have hsame : substitute [(p, v)] line = substitute [] line :=
    substitute_congr fun s hs => if_neg (Ne.symm (hnone s hs))
  rw [hsame, substitute_nil] at hstep
  exact hstep

theorem fill_eq_self {b : Assoc Text Text} (h : ∀ e ∈ b, replace ('\\' :: e.1) e.2 line = line) :
    Macro.fill b line = line := by
  induction b with
  | nil => rfl
  | cons e b ih =>
      obtain ⟨he, hb⟩ := List.forall_mem_cons.mp h
      change Macro.fill b (replace ('\\' :: e.1) e.2 line) = line
      rw [he]
      exact ih hb

theorem fill_of_last {b : Assoc Text Text} (hnames : ∀ p ∈ b.map Prod.fst, IsName p)
    (hsep : Separated (b.map Prod.fst) line)
    (hlast : ∀ s ∈ references line, ident s ∉ (b.map Prod.fst).dropLast) :
    Macro.fill b line = substitute b line := by
  rcases List.eq_nil_or_concat b with rfl | ⟨b, ⟨q, v⟩, rfl⟩
  · exact (substitute_nil line).symm
  · rw [List.concat_eq_append] at hnames hsep hlast ⊢
    rw [List.map_append, List.map_singleton] at hnames hsep hlast
    rw [List.dropLast_concat] at hlast
    -- nothing written before is referred to, so that each name is separate on its own
    have hempty {before after : List Text} {p : Text} (hsplit : b.map Prod.fst ++ [q] = before ++ p :: after)
        (hbefore : before ⊆ b.map Prod.fst) : Separate [] p (references line) := by
      intro s rest hsuffix _ hs
      refine hsep before p after hsplit s rest hsuffix ?_ (.inl ?_)
      · exact fun hmem => hlast s (hsuffix.subset List.mem_cons_self) (hbefore hmem)
      · refine hs.resolve_right ?_
        rintro ⟨-, s', -, hmem⟩
        exact List.not_mem_nil hmem
    have hinit : Macro.fill b line = line := by
      refine fill_eq_self fun e he => ?_
      obtain ⟨b₁, b₂, rfl⟩ := List.append_of_mem he
      rw [List.map_append, List.map_cons] at hempty hlast hnames
      refine replace_eq_self (hnames e.1 (by simp)) e.2 (hempty (List.append_assoc ..) ?_) ?_
      · exact List.subset_append_left _ _
      · intro s hs heq
        exact hlast s hs (by simp [heq])
    have hstep : replace ('\\' :: q) v (substitute [] line) = substitute [(q, v)] line :=
      replace_substitute (hnames q (by simp)) (List.forall_mem_nil _) v (hempty rfl (List.Subset.refl _))
    rw [substitute_nil] at hstep
    rw [fill_append, hinit]
    change replace ('\\' :: q) v line = _
    rw [hstep]
    refine substitute_congr fun s hs => ?_
    rw [Assoc.get?_append, Assoc.get?_eq_none_iff.mpr (hlast s hs)]
    rfl

theorem mistaken_of_spelled {before refs : List Text} {p q s : Text} (hp : p ∉ before) (hne : p ≠ q)
    (hs : s ∈ refs)
    (hident : ident s = p) (r : Text) : Mistaken (shared r before ++ [(p, '\\' :: q)]) q refs := by
  obtain ⟨front, rest, rfl⟩ := List.append_of_mem hs
  have hget : Assoc.get? (ident s) (shared r before ++ [(p, '\\' :: q)]) = some ('\\' :: q) := by
    rw [hident, Assoc.get?_append, Assoc.get?_eq_none_iff.mpr (by rwa [map_fst_shared]), Assoc.get?, if_pos rfl]
    rfl
  refine ⟨s, rest, List.suffix_append front _, hident ▸ hne, by simp [piece_of_some hget], ?_⟩
  rw [List.flatMap_cons, piece_of_some hget, List.append_assoc]
  exact List.prefix_append _ _

theorem split_of_mem_dropLast {p : Text} (h : p ∈ args.dropLast) :
    ∃ before q after, args = before ++ p :: q :: after := by
  obtain ⟨before, back, hfront⟩ := List.append_of_mem h
  have hne : args ≠ [] := by
    rintro rfl
    exact List.not_mem_nil h
  obtain ⟨q, after, hback⟩ := List.exists_cons_of_ne_nil (List.append_ne_nil_of_right_ne_nil back
    (List.cons_ne_nil (args.getLast hne) []))
  refine ⟨before, q, after, ?_⟩
  rw [← List.dropLast_append_getLast hne, hfront, List.append_assoc, List.cons_append, hback]

theorem last_of_fill (hnodup : args.Nodup) (hnames : ∀ p ∈ args, IsName p) (hsep : Separated args line)
    (h : ∀ b : Assoc Text Text, b.map Prod.fst = args → (∀ e ∈ b, IsValue e.2) →
      Macro.fill b line = substitute b line) : ∀ s ∈ references line, ident s ∉ args.dropLast := by
  intro s hs hmem
  obtain ⟨before, q, after, hargs⟩ := split_of_mem_dropLast hmem
  have hq : IsName q := hnames q (by simp [hargs])
  -- the value of `ident s` is the spelling of the argument that comes next
  have hkeys : (shared q before ++ [(ident s, '\\' :: q)]).map Prod.fst = before ++ [ident s] := by
    rw [List.map_append, map_fst_shared, List.map_singleton]
  have hsplit : args = (shared q before ++ [(ident s, '\\' :: q)]).map Prod.fst ++ q :: after := by
    rw [hkeys, hargs, List.append_assoc, List.singleton_append]
  have hvalues {P : Text → Prop} (hname : P q) (hspelled : P ('\\' :: q)) :
      ∀ e ∈ shared q before ++ [(ident s, '\\' :: q)], P e.2 := by
    intro e he
    rcases List.mem_append.mp he with he | he
    · rwa [snd_of_mem_shared he]
    · rwa [List.mem_singleton.mp he]
  have hmistaken : Mistaken (shared q before ++ [(ident s, '\\' :: q)]) q (references line) := by
    rw [hargs, List.nodup_append] at hnodup
    refine mistaken_of_spelled ?_ ?_ hs rfl q
    · exact fun hmem => hnodup.2.2 _ hmem _ List.mem_cons_self rfl
    · exact fun heq => (List.nodup_cons.mp hnodup.2.1).1 (heq ▸ List.mem_cons_self)
  refine not_mistaken_of_probe hnodup hnames hsplit ?_ ?_ (hsplit ▸ hsep).of_append (h _ ?_ ?_) hmistaken
  · rw [List.dropLast_concat]
    exact fun e he => snd_of_mem_shared he ▸ hq.notMem (by decide)
  · refine hvalues (P := ('.' ∉ ·)) (hq.notMem (by decide)) ?_
    rw [List.mem_cons, not_or]
    exact ⟨by decide, hq.notMem (by decide)⟩
  · rw [map_fst_probe, hsplit]
  · exact forall_mem_probe (hvalues hq.isValue hq.isValue.backslash) isValue_dot.1 hq.isValue

end Exact

end Assembly

end RvToolkit
