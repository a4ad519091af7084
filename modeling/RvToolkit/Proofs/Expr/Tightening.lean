import RvToolkit.Proofs.Expr.Scanning

namespace RvToolkit.Expr

open Token

/-- Some blanks and tabs have been left out. -/
inductive Tightens : Text → Text → Prop where
  | nil : Tightens [] []
  | keep (c : Char) {s t : Text} (h : Tightens s t) : Tightens (c :: s) (c :: t)
  | drop {c : Char} {s t : Text} (hc : c = ' ' ∨ c = '\t') (h : Tightens s t) : Tightens (c :: s) t

/-- Does a sign that stands behind an operand touch a digit? The first argument says whether an operand
has just ended. -/
def clings : Bool → Text → Bool
  | _, [] => false
  | ended, c :: cs =>
      if c = ' ' || c = '\t' then clings ended cs
      else ended && (c = '+' || c = '-') && cs.head?.any Char.isDigit || clings (Text.isWord c || c = ')') cs

namespace Tightens

variable {s t : Text} {ts : List Token}

theorem exists_append {u : Text} (hu : ∀ c ∈ u, c ≠ ' ' ∧ c ≠ '\t') (h : Tightens (u ++ s) t) :
    ∃ t', t = u ++ t' ∧ Tightens s t' := by
  induction u generalizing t with
  | nil => exact ⟨t, rfl, h⟩
  | cons c u ih =>
      obtain ⟨hc, hu⟩ := List.forall_mem_cons.mp hu
      cases h with
      | keep _ h =>
          obtain ⟨t', rfl, h'⟩ := ih hu h
          exact ⟨t', rfl, h'⟩
      | drop hblank _ =>
          rcases hblank with rfl | rfl
          · exact absurd rfl hc.1
          · exact absurd rfl hc.2

end Tightens

namespace Token

def solid (t : Text) : Bool := t.all fun c => c != ' ' && c != '\t'

theorem ne_of_solid {t : Text} (h : solid t = true) : ∀ c ∈ t, c ≠ ' ' ∧ c ≠ '\t' := by
  intro c hc
  simpa using List.all_eq_true.mp h c hc

theorem blank_notMem_spelling {tok : Token} (h : Proper tok) : ∀ c ∈ tok.spelling, c ≠ ' ' ∧ c ≠ '\t' := by
  cases h with
  | number hsign hds =>
      intro c hc
      rcases mem_number (.number hsign hds) hc with hword | rfl | rfl
      · constructor <;> (rintro rfl; revert hword; decide)
      · decide
      · decide
  | operator hs =>
      have hall : operators.all solid = true := by decide
      exact ne_of_solid (List.all_eq_true.mp hall _ hs)
  | unary hs =>
      have hall : unaries.all solid = true := by decide
      exact ne_of_solid (List.all_eq_true.mp hall _ hs)
  | opening => exact ne_of_solid (t := ['(']) (by decide)
  | closing => exact ne_of_solid (t := [')']) (by decide)

end Token

variable {limit : Nat} {s t : Text} {ts : List Token} {p : Place}

theorem Tightens.spelled (h : Tightens s t) (hs : Spelled s ts) : Spelled t ts := by
  induction hs generalizing t with
  | nil =>
      cases h
      exact .nil
  | blank hc _ ih =>
      cases h with
      | keep _ h => exact .blank hc (ih h)
      | drop _ h => exact ih h
  | token htok _ ih =>
      obtain ⟨t', rfl, h'⟩ := h.exists_append (blank_notMem_spelling htok)
      exact .token htok (ih h')

theorem Tightens.lexemes (h : Tightens s t) (hs : Spelled s ts) (hguard : guardFrom limit p ts = .ok true) :
    Lexeme.readFrom 0 t = Lexeme.readFrom 0 s := by
  induction hs generalizing t p with
  | nil =>
      cases h
      rfl
  | @blank c s ts hc _ ih =>
      have hskip (u : Text) : Lexeme.readFrom 0 (c :: u) = Lexeme.readFrom 0 u := by
        rcases hc with rfl | rfl <;> simp [Lexeme.readFrom]
      cases h with
      | keep _ h => rw [hskip, hskip, ih h hguard]
      | drop _ h => rw [hskip, ih h hguard]
  | token htok hs ih =>
      obtain ⟨t', rfl, h'⟩ := h.exists_append (blank_notMem_spelling htok)
      obtain ⟨p', hnext, hguard'⟩ := guardFrom_cons.mp hguard
      obtain ⟨ls?, -, hread⟩ := Lexeme.exists_lexemes htok
      rw [hread _ (ends_of_guard hs hnext hguard'), hread _ (ends_of_guard (h'.spelled hs) hnext hguard'),
        ih h' hguard']

def Accepted (limit : Nat) (p : Place) (t : Text) : Prop :=
  ∃ ts, Token.readFrom 0 t = some ts ∧ guardFrom limit p ts = .ok true

theorem isExpr_iff_accepted : isExpr limit t = .ok true ↔ Accepted limit (.before 0) t := isExpr_eq_true

namespace Place

def ended : Place → Bool
  | .before _ => false
  | .after _ => true

end Place

theorem accepted_of_leads {tok : Token} {rest : Text} (h : Leads t tok rest) :
    Accepted limit p t ↔ ∃ p', p.next? limit tok = some p' ∧ Accepted limit p' rest := by
  rw [Accepted, readFrom_of_leads h]
  constructor
  · rintro ⟨ts, hts, hguard⟩
    obtain ⟨ts', hts', rfl⟩ := Option.map_eq_some_iff.mp hts
    obtain ⟨p', hnext, hguard'⟩ := guardFrom_cons.mp hguard
    exact ⟨p', hnext, ts', hts', hguard'⟩
  · rintro ⟨p', hnext, ts', hts', hguard'⟩
    exact ⟨_, Option.map_eq_some_iff.mpr ⟨ts', hts', rfl⟩, guardFrom_cons.mpr ⟨p', hnext, hguard'⟩⟩

theorem accepted_of_blank {c : Char}
    (hc : c = ' ' ∨ c = '\t') : Accepted limit p (c :: t) ↔ Accepted limit p t := by
  rw [Accepted, Accepted, Token.readFrom, front_of_blank hc]

section Clings

variable {ended : Bool} {rest : Text}

theorem clings_cons {c : Char} (hc : c ≠ ' ' ∧ c ≠ '\t') (cs : Text) :
    clings ended (c :: cs) =
      (ended && (c = '+' || c = '-') && cs.head?.any Char.isDigit || clings (Text.isWord c || c = ')') cs) := by
  rw [clings, if_neg (by simpa using hc)]

theorem clings_word {ds : Text} (hne : ds ≠ []) (hds : ∀ d ∈ ds, Text.isWord d = true) :
    clings ended (ds ++ rest) = clings true rest := by
  induction ds generalizing ended with
  | nil => exact absurd rfl hne
  | cons d ds ih =>
      obtain ⟨hd, hds⟩ := List.forall_mem_cons.mp hds
      have hplain {c : Char} (hc : Text.isWord c = false) : d ≠ c := by
        rintro rfl
        rw [hd] at hc
        cases hc
      have hsign : (d = '+' || d = '-') = false := by
        simpa using ⟨hplain (by decide), hplain (by decide)⟩
      rw [List.cons_append, clings_cons ⟨hplain (by decide), hplain (by decide)⟩, hsign, Bool.and_false,
        Bool.false_and, Bool.false_or, hd, Bool.true_or]
      cases ds with
      | nil => rfl
      | cons e ds => exact ih (List.cons_ne_nil e ds) hds

theorem clings_number {n : Text} (h : IsNumber n) : clings false (n ++ rest) = clings true rest := by
  obtain ⟨sign, hsign, ds, hds, rfl⟩ := h
  have hne : ds ≠ [] := by
    obtain ⟨d, ds', rfl, -⟩ := hds.exists_cons
    exact List.cons_ne_nil d ds'
  have hword (e : Bool) : clings e (ds ++ rest) = clings true rest :=
    clings_word hne fun d hd => Lexeme.isWord_of_numeral hds hd
  rcases (by simpa [signs] using hsign) with rfl | rfl | rfl
  · exact hword false
  · exact hword (Text.isWord '+' || '+' = ')')
  · exact hword (Text.isWord '-' || '-' = ')')

theorem clings_operator {o : Text} (ho : o ∈ operators) :
    clings true (o ++ rest) = ((o = ['+'] || o = ['-']) && rest.head?.any Char.isDigit || clings false rest) := by
  rcases (by simpa [operators] using ho) with rfl | rfl | rfl | rfl | rfl | rfl | rfl | rfl | rfl <;> rfl

end Clings

theorem isNumber_of_sign {c d : Char} (hc : c = '+' ∨ c = '-')
    (hd : d.isDigit = true) : IsNumber [c, d] := by
  have hnumeral : Numeral [d] := by
    by_cases hzero : d = '0'
    · rw [hzero]
      exact .zero
    · simp only [Char.isDigit, Bool.and_eq_true, decide_eq_true_eq] at hd
      have hne : d.val ≠ '0'.val := fun hval => hzero (Char.ext hval)
      exact .decimal ⟨UInt32.lt_of_le_of_ne hd.1 hne.symm, hd.2⟩ (List.forall_mem_nil _)
  refine ⟨[c], ?_, [d], hnumeral, rfl⟩
  rcases hc with rfl | rfl <;> decide

theorem not_accepted_of_clinging {c d : Char} {k : Nat} {rest : Text} (hc : c = '+' ∨ c = '-')
    (hd : d.isDigit = true) : ¬ Accepted limit (.after k) (c :: d :: rest) := by
  -- A sign in front of a digit is taken with it, and there it follows an operand.
  have hlength := (isNumber_of_sign hc hd).length_le rest
  obtain ⟨n, hn⟩ : ∃ n, numberLength (c :: d :: rest) = n + 1 :=
    ⟨_, (Nat.succ_pred_eq_of_pos (Nat.lt_of_lt_of_le (Nat.succ_pos 1) hlength)).symm⟩
  rw [accepted_of_leads (leads_of_front (front_of_number hn))]
  rintro ⟨p', hnext, -⟩
  cases k <;> cases hnext

theorem leads_operator {o rest : Text} (ho : o ∈ operators)
    (h : ((o = ['+'] || o = ['-']) && rest.head?.any Char.isDigit) = false) :
    Leads (o ++ rest) (.operator o) rest := by
  refine .operator rfl ho ?_
  rintro m ⟨tail, hm⟩ ⟨sign, hsign, ds, hds, rfl⟩
  obtain ⟨d, ds, rfl, hd⟩ := hds.exists_cons
  have hdigit : ∀ o ∈ operators, o.head?.any Char.isDigit = false := by decide
  have hsigns : ∀ o ∈ operators, (o.head? = some '+' → o = ['+']) ∧ (o.head? = some '-' → o = ['-']) := by decide
  have hhead : o.head? = (o ++ rest).head? := by
    cases o with
    | nil => exact absurd ho (by decide)
    | cons c cs => rfl
  rw [← hm] at hhead
  rcases (by simpa [signs] using hsign) with rfl | rfl | rfl
  · have hnot := hdigit o ho
    rw [hhead] at hnot
    exact absurd (hd.symm.trans hnot) (by decide)
  · obtain rfl := (hsigns o ho).1 hhead
    obtain rfl : d :: ds ++ tail = rest := List.tail_eq_of_cons_eq hm
    exact absurd (hd.symm.trans h) (by decide)
  · obtain rfl := (hsigns o ho).2 hhead
    obtain rfl : d :: ds ++ tail = rest := List.tail_eq_of_cons_eq hm
    exact absurd (hd.symm.trans h) (by decide)

theorem accepted_operator {o : Text} {d : Nat} (ho : o ∈ operators)
    (ht : Accepted limit (.before d) t ↔ clings false t = false) :
    Accepted limit (.after d) (o ++ t) ↔ clings true (o ++ t) = false := by
  rw [clings_operator ho]
  cases htouch : (o = ['+'] || o = ['-']) && t.head?.any Char.isDigit with
  | false =>
      rw [accepted_of_leads (leads_operator ho htouch), Bool.false_or, ← ht]
      simp [Place.next?]
  | true =>
      obtain ⟨hsign, hdigit⟩ := Bool.and_eq_true_iff.mp htouch
      cases t with
      | nil => cases hdigit
      | cons c t =>
          rcases (by simpa using hsign : o = ['+'] ∨ o = ['-']) with rfl | rfl
          · simpa using not_accepted_of_clinging (.inl rfl) hdigit
          · simpa using not_accepted_of_clinging (.inr rfl) hdigit

theorem accepted_iff (h : Spelled t ts) (hguard : guardFrom limit p ts = .ok true) :
    Accepted limit p t ↔ clings p.ended t = false := by
  induction h generalizing p with
  | nil => exact ⟨fun _ => rfl, fun _ => ⟨[], rfl, hguard⟩⟩
  | blank hc _ ih =>
      rw [accepted_of_blank hc, ih hguard, clings, if_pos (by simpa using hc)]
  | @token tok t ts htok ht ih =>
      obtain ⟨p', hnext, hguard'⟩ := guardFrom_cons.mp hguard
      have hrest := ih hguard'
      -- where the token is read as it was written, the rest decides
      have hstep (hlead : Leads (tok.spelling ++ t) tok t)
          (hclings : clings p.ended (tok.spelling ++ t) = clings p'.ended t) :
          Accepted limit p (tok.spelling ++ t) ↔ clings p.ended (tok.spelling ++ t) = false := by
        rw [accepted_of_leads hlead, hclings, ← hrest, hnext]
        simp
      cases p with
      | before d =>
          cases htok with
          | number hsign hds =>
              cases hnext
              have hnumber : IsNumber _ := ⟨_, hsign, _, hds, rfl⟩
              exact hstep (hnumber.leads (bounded_of_guard ht hguard')) (clings_number hnumber)
          | unary hs =>
              cases hnext
              refine hstep (.unary rfl hs) ?_
              rcases (by simpa [unaries] using hs) with rfl | rfl <;> rfl
          | opening =>
              obtain ⟨-, rfl⟩ := Place.next?_opening hnext
              exact hstep (.opening rfl) rfl
          | operator | closing => cases hnext
      | after d =>
          cases htok with
          | @operator o ho =>
              cases hnext
              exact accepted_operator ho hrest
          | closing =>
              cases d with
              | zero => cases hnext
              | succ d =>
                  cases hnext
                  exact hstep (.closing rfl) rfl
          | number | unary | opening => cases d <;> cases hnext

/-- Blanks left out of an expression. It keeps its value. The guard still takes it unless a sign behind an
operand then touches the digits that follow it: these take the sign for their own. -/
theorem tightened (h : isExpr limit s = .ok true) (ht : Tightens s t) :
    evaluate t = evaluate s ∧ (isExpr limit t = .ok true ↔ clings false t = false) := by
  obtain ⟨ts, hts, hguard⟩ := isExpr_eq_true.mp h
  have hs : Spelled s ts := spelled_of_readFrom hts
  refine ⟨?_, ?_⟩
  · rw [evaluate, evaluate, Tree.parse?, Tree.parse?, Lexeme.readAll, Lexeme.readAll, ht.lexemes hs hguard]
  · rw [isExpr_iff_accepted]
    exact accepted_iff (ht.spelled hs) hguard

theorem tightened_difference :
    isExpr 0 "1 - 2".toList = .ok true ∧ Tightens "1 - 2".toList "1-2".toList ∧
      evaluate "1-2".toList = .ok (.int (-1)) ∧ isExpr 0 "1-2".toList ≠ .ok true := by
  have hexpr : isExpr 0 "1 - 2".toList = .ok true := Except.eq_ok_of_toOption (by decide +kernel)
  have htight : Tightens "1 - 2".toList "1-2".toList :=
    .keep '1' (.drop (.inl rfl) (.keep '-' (.drop (.inl rfl) (.keep '2' .nil))))
  obtain ⟨hvalue, haccepted⟩ := tightened hexpr htight
  exact ⟨hexpr, htight, hvalue, mt haccepted.mp (by decide)⟩

end RvToolkit.Expr
