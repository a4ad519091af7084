import Mathlib.Data.List.Forall2
import RvToolkit.Proofs.Assembly.Constants
import RvToolkit.Proofs.Assembly.LabelledLines
import RvToolkit.Proofs.Folding

namespace RvToolkit

namespace Text

variable {pat new : Text}

theorem replaceFrom_eq_drop (k : Nat)
    (t : Text) : replaceFrom pat new k t = replaceFrom pat new 0 (t.drop k) := by
  induction t generalizing k with
  | nil => cases k <;> rfl
  | cons c t ih =>
      cases k with
      | zero => rfl
      | succ k => exact ih k

theorem replace_append (h : pat ≠ [])
    (t : Text) : replace pat new (pat ++ t) = new ++ replace pat new t := by
  obtain ⟨c, pat, rfl⟩ := List.exists_cons_of_ne_nil h
  have hfront : (c :: pat).isPrefixOf (c :: (pat ++ t)) = true :=
    List.isPrefixOf_iff_prefix.mpr (List.prefix_append (c :: pat) t)
  have hrest : (pat ++ t).drop ((c :: pat).length - 1) = t := List.drop_left
  simp only [replace, List.isEmpty_cons, Bool.false_eq_true, if_false]
  rw [List.cons_append, replaceFrom, if_pos hfront, replaceFrom_eq_drop, hrest]

theorem replace_cons {c : Char} {t : Text} (hne : pat ≠ []) (h : ¬ pat <+: c :: t) :
    replace pat new (c :: t) = c :: replace pat new t := by
  have hfront : ¬ pat.isPrefixOf (c :: t) = true := mt List.isPrefixOf_iff_prefix.mp h
  have hempty : pat.isEmpty = false := by simpa using hne
  rw [replace, replace, hempty, replaceFrom, if_neg hfront]
  rfl

theorem replace_nil (h : pat ≠ []) : replace pat new [] = [] := by
  have hempty : pat.isEmpty = false := by simpa using h
  rw [replace, hempty]
  rfl

end Text

namespace Assembly

open Text

theorem mem_of_mem_wordsWithoutCommas {t w : Text} {c : Char} (hw : w ∈ wordsWithoutCommas t) (hc : c ∈ w) :
    c ∈ t := (List.mem_filter.mp (mem_of_mem_words hw hc)).1

def unfinished (args : List Text) (s : Text) : Option Text :=
  if args.any fun p => s.isPrefixOf p && s ≠ p then some s else none

theorem unfinished_of_append {args : List Text} {s p : Text} {c : Char} (h : s ++ c :: p ∈ args) :
    unfinished args s = some s := by
  refine if_pos (List.any_eq_true.mpr ⟨_, h, ?_⟩)
  simp

/-- Two lines of a macro that differ in case only, and not in the names of its arguments. What stands after
a backslash is the same as long as it can be such a name, and no other backslash may follow before that:
the value written there could end the name. -/
inductive Recased (args : List Text) : Option Text → Text → Text → Prop where
  | nil {s : Option Text} : Recased args s [] []
  | free {c c' : Char} {t t' : Text} (hc : c.toLower = c'.toLower) (hne : c ≠ '\\')
      (h : Recased args none t t') : Recased args none (c :: t) (c' :: t')
  | opened {t t' : Text} (h : Recased args (unfinished args []) t t') :
      Recased args none ('\\' :: t) ('\\' :: t')
  | kept {s : Text} {c : Char} {t t' : Text} (hne : c ≠ '\\')
      (h : Recased args (unfinished args (s ++ [c])) t t') : Recased args (some s) (c :: t) (c :: t')

namespace Recased

variable {args : List Text} {s : Option Text} {t t' v v' : Text}

theorem symm (h : Recased args s t t') : Recased args s t' t := by
  induction h with
  | nil => exact .nil
  | @free c c' t t' hc hne _ ih =>
      refine .free hc.symm (fun hc' => hne ?_) ih
      rw [hc', toLower_eq_iff (by decide)] at hc
      exact hc
  | opened _ ih => exact .opened ih
  | kept hne _ ih => exact .kept hne ih

theorem fold_eq (h : Recased args s t t') : fold t = fold t' := by
  induction h with
  | nil => rfl
  | free hc _ _ ih => rw [fold_cons, fold_cons, hc, ih]
  | opened _ ih | kept _ _ ih => rw [fold_cons, fold_cons, ih]

theorem weaken (h : Recased args s t t') : Recased args none t t' := by
  induction h with
  | nil => exact .nil
  | free hc hne h _ => exact .free hc hne h
  | opened h _ => exact .opened h
  | kept hne _ ih => exact .free rfl hne ih

theorem free_append (hfold : fold v = fold v') (hv : '\\' ∉ v) (h : Recased args none t t') :
    Recased args none (v ++ t) (v' ++ t') := by
  induction v generalizing v' with
  | nil =>
      obtain rfl : v' = [] := fold_eq_nil.mp hfold.symm
      exact h
  | cons c v ih =>
      cases v' with
      | nil => cases hfold
      | cons c' v' =>
          obtain ⟨hc, hfold⟩ := List.cons.inj hfold
          rw [List.mem_cons, not_or] at hv
          exact .free hc (Ne.symm hv.1) (ih hfold hv.2)

theorem of_fold (hfold : fold v = fold v') (hv : '\\' ∉ v) : Recased args none v v' := by
  have happend : Recased args none (v ++ []) (v' ++ []) := free_append hfold hv .nil
  rwa [List.append_nil, List.append_nil] at happend

theorem exists_of_append {begun p : Text} (hp : begun ++ p ∈ args)
    (h : Recased args (unfinished args begun) (p ++ t) t') :
    ∃ rest, t' = p ++ rest ∧ Recased args none t rest := by
  induction p generalizing begun t' with
  | nil => exact ⟨t', rfl, h.weaken⟩
  | cons c p ih =>
      rw [unfinished_of_append hp] at h
      cases h with
      | kept hne h =>
          obtain ⟨rest, rfl, hrest⟩ := ih (by simpa using hp) h
          exact ⟨rest, rfl, hrest⟩

theorem exists_of_prefix {p : Text} (hp : p ∈ args) (h : Recased args s t t') (hfront : '\\' :: p <+: t) :
    s = none ∧ ∃ rest rest', t = '\\' :: p ++ rest ∧ t' = '\\' :: p ++ rest' ∧ Recased args none rest rest' := by
  obtain ⟨rest, rfl⟩ := hfront
  rw [List.cons_append] at h
  cases h with
  | free _ hne _ | kept hne _ => exact absurd rfl hne
  | opened h =>
      obtain ⟨rest', rfl, hrest⟩ := exists_of_append (show [] ++ p ∈ args from hp) h
      exact ⟨rfl, rest, rest', rfl, rfl, hrest⟩

theorem replace {p : Text} (hp : p ∈ args) (hfold : fold v = fold v') (hv : '\\' ∉ v)
    (h : Recased args s t t') :
    Recased args s (Text.replace ('\\' :: p) v t) (Text.replace ('\\' :: p) v' t') := by
  have hpat : '\\' :: p ≠ [] := List.cons_ne_nil _ _
  -- the lines are read on from behind the argument, so the induction is on their length
  induction hlength : t.length using Nat.strongRecOn generalizing s t t' with
  | ind n ih =>
      by_cases hfront : '\\' :: p <+: t
      · obtain ⟨rfl, rest, rest', rfl, rfl, hrest⟩ := h.exists_of_prefix hp hfront
        rw [replace_append hpat, replace_append hpat]
        refine free_append hfold hv (ih rest.length ?_ hrest rfl)
        rw [← hlength, List.length_append, List.length_cons]
        omega
      · have hfront' : ¬ '\\' :: p <+: t' := by
          intro hfront'
          obtain ⟨-, rest', rest, -, hrest, -⟩ := h.symm.exists_of_prefix hp hfront'
          exact hfront ⟨rest, hrest.symm⟩
        cases h with
        | nil =>
            rw [replace_nil hpat, replace_nil hpat]
            exact .nil
        | free hc hne h =>
            rw [replace_cons hpat hfront, replace_cons hpat hfront']
            exact .free hc hne (ih _ (by simp [← hlength]) h rfl)
        | opened h =>
            rw [replace_cons hpat hfront, replace_cons hpat hfront']
            exact .opened (ih _ (by simp [← hlength]) h rfl)
        | kept hne h =>
            rw [replace_cons hpat hfront, replace_cons hpat hfront']
            exact .kept hne (ih _ (by simp [← hlength]) h rfl)

end Recased

def BindsAlike (args : List Text) (b b' : Assoc Text Text) : Prop :=
  List.Forall₂ (fun p p' => p.1 = p'.1 ∧ p.1 ∈ args ∧ fold p.2 = fold p'.2 ∧ '\\' ∉ p.2) b b'

theorem BindsAlike.insert {args : List Text} {b b' : Assoc Text Text} {p v v' : Text}
    (h : BindsAlike args b b') (hp : p ∈ args) (hfold : fold v = fold v') (hv : '\\' ∉ v) :
    BindsAlike args (b.insert p v) (b'.insert p v') := by
  induction h with
  | nil => exact .cons ⟨rfl, hp, hfold, hv⟩ .nil
  | @cons e e' b b' he hrest ih =>
      obtain ⟨key, value⟩ := e
      obtain ⟨key', value'⟩ := e'
      obtain ⟨rfl, hmem, hvalue⟩ := he
      rw [Assoc.insert, Assoc.insert]
      by_cases hkey : key = p
      · rw [if_pos hkey, if_pos hkey]
        exact .cons ⟨rfl, hp, hfold, hv⟩ hrest
      · rw [if_neg hkey, if_neg hkey]
        exact .cons ⟨rfl, hmem, hvalue⟩ ih

theorem bindsAlike_ofPairs {args names : List Text} {given given' : List Text} (hnames : names ⊆ args)
    (hfold : given.map fold = given'.map fold) (hgiven : ∀ v ∈ given, '\\' ∉ v) :
    BindsAlike args (Assoc.ofPairs (names.zip given)) (Assoc.ofPairs (names.zip given')) := by
  have hfrom (b b' : Assoc Text Text) (hb : BindsAlike args b b') :
      BindsAlike args ((names.zip given).foldl (fun es p => Assoc.insert p.1 p.2 es) b)
        ((names.zip given').foldl (fun es p => Assoc.insert p.1 p.2 es) b') := by
    induction names generalizing given given' b b' with
    | nil => exact hb
    | cons p names ih =>
        cases given with
        | nil =>
            obtain rfl : given' = [] := List.map_eq_nil_iff.mp hfold.symm
            exact hb
        | cons v given =>
            cases given' with
            | nil => cases hfold
            | cons v' given' =>
                obtain ⟨hv, hfold⟩ := List.cons.inj hfold
                obtain ⟨hp, hnames⟩ := List.cons_subset.mp hnames
                exact ih hnames hfold (fun u hu => hgiven u (List.mem_cons_of_mem v hu)) _ _
                  (hb.insert hp hv (hgiven v List.mem_cons_self))
  exact hfrom [] [] .nil

theorem Recased.fill {args : List Text} {b b' : Assoc Text Text} {t t' : Text} (hb : BindsAlike args b b')
    (h : Recased args none t t') : Recased args none (Macro.fill b t) (Macro.fill b' t') := by
  induction hb generalizing t t' with
  | nil => exact h
  | @cons e e' b b' he _ ih =>
      obtain ⟨hkey, hmem, hfold, hv⟩ := he
      have hstep : Recased args none (Text.replace ('\\' :: e.1) e.2 t) (Text.replace ('\\' :: e'.1) e'.2 t') := by
        rw [← hkey]
        exact h.replace hmem hfold hv
      exact ih hstep

/-- Macros with the same arguments whose lines differ in case only. -/
structure Macro.Alike (m m' : Macro) : Prop where
  args_eq : m.args = m'.args
  lines : List.Forall₂ (Recased m.args none) m.lines m'.lines

def headWord (t : Text) : Text := (wordsWithoutCommas t).headD []

section Expand

variable {macros macros' : Assoc Text Macro} {t t' w : Text} {given : List Text}

theorem expand_of_none (h : macros.get? (headWord t) = none) : expand { base := 0, macros := macros } t = t := by
  unfold headWord at h
  unfold expand
  cases hwords : wordsWithoutCommas t with
  | nil => rfl
  | cons w given =>
      rw [hwords] at h
      dsimp only [List.headD_cons] at h ⊢
      rw [h]

theorem expand_call {m : Macro} (hwords : wordsWithoutCommas t = w :: given) (h : macros.get? w = some m) :
    expand { base := 0, macros := macros } t =
      Text.join ['\n'] (m.lines.map (Macro.fill (Macro.bind m given))) := by
  unfold expand
  rw [hwords]
  dsimp only
  rw [h]

theorem Macro.Alike.fold_lines {m m' : Macro} {given' : List Text} (h : Macro.Alike m m')
    (hfold : given.map fold = given'.map fold) (hgiven : ∀ v ∈ given, '\\' ∉ v) :
    (m.lines.map (Macro.fill (Macro.bind m given))).map fold =
      (m'.lines.map (Macro.fill (Macro.bind m' given'))).map fold := by
  obtain ⟨args, lines⟩ := m
  obtain ⟨args', lines'⟩ := m'
  obtain ⟨rfl, hlines⟩ := h
  have hbind : BindsAlike args (Macro.bind ⟨args, lines⟩ given) (Macro.bind ⟨args, lines'⟩ given') :=
    bindsAlike_ofPairs (List.Subset.refl args) hfold hgiven
  dsimp only at hlines ⊢
  induction hlines with
  | nil => rfl
  | cons hline _ ih =>
      simp only [List.map_cons]
      exact congrArg₂ List.cons (hline.fill hbind).fold_eq (ih hbind)

theorem fold_expand (hfold : fold t = fold t')
    (hfound : Option.Rel Macro.Alike (macros.get? (headWord t)) (macros'.get? (headWord t')))
    (hplain : '\\' ∉ t ∨ macros.get? (headWord t) = none) :
    fold (expand { base := 0, macros := macros } t) = fold (expand { base := 0, macros := macros' } t') := by
  have hwords : (wordsWithoutCommas t).map fold = (wordsWithoutCommas t').map fold := by
    rw [← wordsWithoutCommas_fold, ← wordsWithoutCommas_fold, hfold]
  cases hget : macros.get? (headWord t) with
  | none =>
      rw [hget] at hfound
      have hget' : macros'.get? (headWord t') = none := by
        generalize macros'.get? (headWord t') = found at hfound
        cases hfound
        rfl
      rw [expand_of_none hget, expand_of_none hget', hfold]
  | some m =>
      rw [hget] at hfound hplain
      obtain ⟨m', hget', hm⟩ : ∃ m', macros'.get? (headWord t') = some m' ∧ Macro.Alike m m' := by
        generalize macros'.get? (headWord t') = found at hfound
        cases hfound with
        | some hm => exact ⟨_, rfl, hm⟩
      have hplain : '\\' ∉ t := hplain.resolve_right (Option.some_ne_none m)
      unfold headWord at hget hget'
      cases hsplit : wordsWithoutCommas t with
      | nil =>
          rw [hsplit] at hwords
          have hnil : wordsWithoutCommas t' = [] := List.map_eq_nil_iff.mp hwords.symm
          unfold expand
          rw [hsplit, hnil]
          exact hfold
      | cons w given =>
          cases hsplit' : wordsWithoutCommas t' with
          | nil =>
              rw [hsplit, hsplit'] at hwords
              cases hwords
          | cons w' given' =>
              rw [hsplit, hsplit'] at hwords
              rw [hsplit] at hget
              rw [hsplit'] at hget'
              rw [expand_call hsplit hget, expand_call hsplit' hget', join_fold, join_fold,
                hm.fold_lines (List.cons.inj hwords).2]
              intro v hv hmem
              exact hplain (mem_of_mem_wordsWithoutCommas (hsplit ▸ List.mem_cons_of_mem w hv) hmem)

theorem map_fold_expansion (h : fold (expand { base := 0, macros := macros } t) =
    fold (expand { base := 0, macros := macros' } t')) :
    (expansion macros t).map fold = (expansion macros' t').map fold ∧
      instructs macros t = instructs macros' t' := by
  have hlines : ((expand { base := 0, macros := macros } t).splitOn '\n').map fold =
      ((expand { base := 0, macros := macros' } t').splitOn '\n').map fold := by
    rw [← splitOn_fold (by decide), ← splitOn_fold (by decide), h]
  have hshown (ls : List Text) : (ls.map fun l => trim (squeeze l)).map fold =
      (ls.map fold).map fun l => trim (squeeze l) := by
    rw [List.map_map, List.map_map]
    refine List.map_congr_left fun l _ => ?_
    rw [Function.comp_apply, Function.comp_apply, squeeze_fold, trim_fold]
  have htest (ls : List Text) : (ls.all fun l => (isInstruction l).toOption = some true) =
      (ls.map fold).all fun l => (isInstruction l).toOption = some true := by
    rw [List.all_map]
    refine congrArg ls.all (funext fun l => ?_)
    rw [Function.comp_apply, isInstruction_fold]
  refine ⟨?_, ?_⟩
  · rw [expansion, expansion, hshown, hshown, hlines]
  · rw [instructs, instructs, htest, hlines, ← htest]

end Expand

end Assembly

end RvToolkit
