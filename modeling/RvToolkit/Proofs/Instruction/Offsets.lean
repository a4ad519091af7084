import RvToolkit.Proofs.Expr.Scanning
import RvToolkit.Proofs.Folding
import RvToolkit.Proofs.Instruction.Halves

namespace RvToolkit

namespace Expr.Token

variable {t : Text}

def literalChars : Text := "0123456789abcdefABCDEFxXoO+-".toList

theorem IsNumber.subset_literalChars (h : IsNumber t) : t ⊆ literalChars := by
  obtain ⟨sign, hsign, ds, hds, rfl⟩ := h
  have hall : ∀ s ∈ signs, s ⊆ literalChars := by decide
  have hchars : "xXoO".toList ++ Lexeme.hexChars ⊆ literalChars := by decide
  exact List.append_subset.mpr ⟨hall sign hsign, List.Subset.trans (Lexeme.numeral_subset hds) hchars⟩

theorem Numeral.fold {ds : Text} (h : Numeral ds) : Numeral (Text.fold ds) := by
  have hdigits {digit : Char → Bool} (hdigit : ∀ c, digit c.toLower = digit c) {u : Text}
      (hu : ∀ d ∈ u, digit d = true) : ∀ d ∈ Text.fold u, digit d = true := by
    intro d hd
    obtain ⟨e, he, rfl⟩ := List.mem_map.mp hd
    rw [hdigit, hu e he]
  cases h with
  | zero => exact .zero
  | @decimal c ds hc hds =>
      have hlead (c : Char) : decide ('1' ≤ c.toLower ∧ c.toLower ≤ '9') = decide ('1' ≤ c ∧ c ≤ '9') :=
        Text.apply_toLower (f := fun c => decide ('1' ≤ c ∧ c ≤ '9')) (by decide) c
      refine .decimal ?_ (hdigits (Text.apply_toLower (by decide)) hds)
      have hc' := hlead c
      rw [decide_eq_true hc] at hc'
      exact of_decide_eq_true hc'
  | @marked m digit ds hm hne hds =>
      have hdigit (c : Char) : digit c.toLower = digit c := by
        rcases marked?_eq_some hm with ⟨-, rfl⟩ | ⟨-, rfl⟩ | ⟨-, rfl⟩ <;> exact Text.apply_toLower (by decide) c
      have hmark : marked? m.toLower = some digit := by
        rcases marked?_eq_some hm with ⟨rfl | rfl, rfl⟩ | ⟨rfl | rfl, rfl⟩ | ⟨rfl | rfl, rfl⟩ <;> rfl
      exact .marked hmark (mt Text.fold_eq_nil.mp hne) (hdigits hdigit hds)

theorem IsNumber.fold (h : IsNumber t) : IsNumber (Text.fold t) := by
  obtain ⟨sign, hsign, ds, hds, rfl⟩ := h
  have hall : ∀ s ∈ signs, Text.fold s = s := by decide
  exact ⟨sign, hsign, Text.fold ds, hds.fold, by rw [Text.fold_append, hall sign hsign]⟩

theorem IsNumber.exists_cons (h : IsNumber t) : ∃ c cs, t = c :: cs ∧ c.isLower = false := by
  obtain ⟨sign, hsign, ds, hds, rfl⟩ := h
  obtain ⟨d, ds, rfl, hd⟩ := hds.exists_cons
  have hlower : d.isLower = false := by
    simp only [Char.isDigit, Bool.and_eq_true, decide_eq_true_eq] at hd
    refine Bool.eq_false_iff.mpr fun hl => ?_
    have hlow : 'a'.val ≤ d.val := of_decide_eq_true (Bool.and_eq_true_iff.mp hl).1
    exact absurd (UInt32.le_trans hlow hd.2) (by decide)
  rcases (by simpa [signs] using hsign) with rfl | rfl | rfl
  · exact ⟨d, ds, rfl, hlower⟩
  · exact ⟨'+', d :: ds, rfl, by decide⟩
  · exact ⟨'-', d :: ds, rfl, by decide⟩

theorem IsNumber.readAll (h : IsNumber t) : Token.readAll t = some [.number t] := by
  have hleads := h.leads Lexeme.bounded_nil
  rw [List.append_nil] at hleads
  exact Reads.readAll (.token hleads (.stop []))

theorem IsNumber.isExpr (h : IsNumber t) {limit : Nat} : Expr.isExpr limit t = .ok true :=
  (isExpr_of_literal h.readAll).1

theorem IsNumber.isExpr_call (h : IsNumber t) (limit : Nat) (name : Text) :
    Expr.isExpr limit (Text.call t ('x' :: name)) = .ok false := by
  have hreads : Reads (Text.call t ('x' :: name)) [.number t, .opening] ('x' :: (name ++ [')'])) :=
    .token (h.leads (Lexeme.bounded_cons.mpr (by decide))) (.token (.opening rfl) (.stop _))
  have hstuck : Stuck ('x' :: (name ++ [')'])) := stuck_of_front rfl
  rw [Expr.isExpr, hreads.readAll_of_stuck hstuck]

theorem IsNumber.evaluate (h : IsNumber t) :
    (∃ x, Expr.evaluate t = .ok (.int x)) ∨
      Number.maxDigits < t.length ∧ ∃ e, Expr.evaluate t = .error e := by
  obtain ⟨sign, hsign, ds, hds, rfl⟩ := h
  obtain ⟨ls?, hls, hread⟩ := Lexeme.readFrom_number hsign hds
  have hall := hread [] Lexeme.bounded_nil
  rw [List.append_nil] at hall
  cases hls with
  | number s i =>
      refine .inl ⟨i, ?_⟩
      rw [Expr.evaluate, Tree.parse?, Lexeme.readAll, hall]
      rfl
  | signed s hop i =>
      rcases hop with rfl | rfl
      · refine .inl ⟨i, ?_⟩
        rw [Expr.evaluate, Tree.parse?, Lexeme.readAll, hall]
        rfl
      · refine .inl ⟨-i, ?_⟩
        rw [Expr.evaluate, Tree.parse?, Lexeme.readAll, hall]
        rfl
  | long hwithin _ hlong =>
      refine .inr ⟨Nat.lt_of_lt_of_le hlong hwithin.length_le, .malformed, ?_⟩
      rw [Expr.evaluate, Tree.parse?, Lexeme.readAll, hall]
      rfl

theorem IsNumber.lower (h : IsNumber t) : Text.lower t = Text.fold t := by
  have hall : (literalChars.all fun c => Text.isSmall c.toLower) = true := by decide
  have hsmall : Text.Small (Text.fold t) := by
    intro d hd
    obtain ⟨c, hc, rfl⟩ := List.mem_map.mp hd
    exact List.all_eq_true.mp hall c (h.subset_literalChars hc)
  rw [← Text.lower_fold, hsmall.lower]

end Expr.Token

namespace Immediate

open Expr.Token

variable {t : Text}

theorem opens_of_isNumber (h : IsNumber t) (rest : Text)
    (part : Half) : part.opens (t ++ rest) = false := by
  obtain ⟨c, cs, rfl⟩ := List.exists_cons_of_ne_nil h.ne_nil
  refine List.any_eq_false.mpr fun name hname hprefix => ?_
  obtain ⟨ns, rfl⟩ := Half.names_cons hname
  obtain ⟨rfl, -⟩ := List.cons_prefix_cons.mp (List.isPrefixOf_iff_prefix.mp hprefix)
  exact absurd (h.subset_literalChars List.mem_cons_self) (by decide)

theorem notMem_of_isNumber (h : IsNumber t) {c : Char} (hc : c ∉ literalChars) : c ∉ t :=
  fun hmem => hc (h.subset_literalChars hmem)

theorem isParen_numbered {b : Nat} (hb : b < 32) : ∀ c ∈ Register.numbered b, isParen c = false := by
  have hall : ∀ b < 32, (Register.numbered (b : Nat)).all (fun c => !isParen c) = true := by decide
  intro c hc
  simpa using List.all_eq_true.mp (hall b hb) c hc

theorem toNumbered_numbered {b : Nat} (hb : b < 32) :
    Register.toNumbered (Register.numbered b) = .ok (Register.numbered b) := by
  have hall : ∀ b < 32, Register.isNumbered (Register.numbered (b : Nat)) = true := by decide
  exact if_pos (hall b hb)

variable [Evaluator]

theorem resolve_literal (h : IsNumber t) :
    resolve (.text t) = evaluate t >>= fun n => pure n.toValue := by
  have hopens := opens_of_isNumber h []
  rw [List.append_nil] at hopens
  rw [resolve_of_plain hopens, h.isExpr]
  rfl

theorem number_literal (h : IsNumber t) : number t = evaluate t >>= fun n => pure n.toValue := by
  rw [number, h.isExpr]
  rfl

theorem withBase_literal (h : IsNumber t) {b : Nat} (hb : b < 32) :
    withBase (.text (Text.call t (Register.numbered b))) =
      evaluate t >>= fun n => pure (n.toValue, Register.numbered b) := by
  have hline : '\n' ∉ t := notMem_of_isNumber h (by decide)
  have hblank : (literalChars.all fun c => !Text.isBlank c) = true := by decide
  have htrim : Text.trim t = t := Text.trim_eq_self fun c hc => by
    simpa using List.all_eq_true.mp hblank c (h.subset_literalChars hc)
  have hopens (part : Half) : part.opens (Text.call t (Register.numbered b)) = false :=
    opens_of_isNumber h _ part
  have hresolve : resolve (.text (Text.call t (Register.numbered b))) =
      .ok (.text (Text.call t (Register.numbered b))) := by
    rw [resolve_of_plain hopens, Register.numbered, h.isExpr_call]
    rfl
  rw [withBase, hresolve]
  simp only [bind, Except.bind, cutBase_append (isParen_numbered hb) hline, toNumbered_numbered hb, htrim,
    number_literal h]
  cases evaluate t with
  | error e => rfl
  | ok n => rfl

theorem resolve_lower_of_error {name : Text} (hname : name ∈ Half.lower.names) (h : IsNumber t) {e : Fault}
    (he : Evaluator.argumentValue t = .error e) (rest : Text) :
    resolve (.text (Text.call name t ++ rest)) = .error e := by
  have hcall := Half.call?_append hname (notMem_of_isNumber h (by decide)) (notMem_of_isNumber h (by decide)) rest
  rw [resolve_of_opens (Half.opens_append hname rest), Half.resolve, hcall]
  simp only [he]
  rfl

end Immediate

end RvToolkit
