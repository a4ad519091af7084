import RvToolkit.Proofs.Expr.Shifted

namespace RvToolkit.Expr.Token

variable {c : Char} {n s t u rest cs : Text} {tok : Token} {ts : List Token}

/-- A number, with its sign if one touches it. -/
def IsNumber (n : Text) : Prop := ∃ sign ∈ signs, ∃ ds, Numeral ds ∧ n = sign ++ ds

theorem length_takeWhile_append {p : Char → Bool} {ds : Text} (hds : ∀ d ∈ ds, p d = true) (rest : Text) :
    ds.length ≤ ((ds ++ rest).takeWhile p).length := by
  rw [List.takeWhile_append_of_pos hds, List.length_append]
  exact Nat.le_add_right _ _

theorem one_le_magnitude_zero (cs : Text) : 1 ≤ magnitude ('0' :: cs) := by
  cases cs with
  | nil => exact Nat.le_refl 1
  | cons m cs =>
      rw [magnitude]
      split
      · dsimp only
        split <;> omega
      · exact Nat.le_refl 1

theorem Numeral.length_le_magnitude {ds : Text} (h : Numeral ds) (rest : Text) :
    ds.length ≤ magnitude (ds ++ rest) := by
  cases h with
  | zero => exact one_le_magnitude_zero rest
  | @decimal c ds hc hds =>
      have hne : c ≠ '0' := by
        rintro rfl
        exact absurd hc.1 (by decide)
      have hlength := length_takeWhile_append hds rest
      rw [List.cons_append, magnitude_of_ne_zero hne, if_pos (by simpa using hc), List.length_cons]
      omega
  | @marked m digit ds hm hne hds =>
      have hlength := length_takeWhile_append hds rest
      have hpos : 0 < ds.length := List.length_pos_iff.mpr hne
      rw [List.cons_append, List.cons_append, magnitude, hm]
      simp only [List.length_cons]
      split <;> omega

theorem IsNumber.length_le (h : IsNumber n) (rest : Text) : n.length ≤ numberLength (n ++ rest) := by
  obtain ⟨sign, hsign, ds, hds, rfl⟩ := h
  have hle := hds.length_le_magnitude rest
  obtain ⟨d, ds', rfl, hdigit⟩ := hds.exists_cons
  have hplain : ¬ (d = '+' || d = '-') = true := by
    intro hd
    rcases (by simpa using hd : d = '+' ∨ d = '-') with rfl | rfl <;> exact absurd hdigit (by decide)
  have hsigned (c : Char) (hc : (c = '+' || c = '-') = true) :
      (c :: d :: ds').length ≤ numberLength (c :: (d :: ds' ++ rest)) := by
    rw [numberLength, if_pos hc]
    split
    · next hzero =>
        rw [hzero, List.length_cons] at hle
        omega
    · exact Nat.succ_le_succ hle
  rcases (by simpa [signs] using hsign) with rfl | rfl | rfl
  · rw [List.nil_append, List.cons_append, numberLength, if_neg hplain]
    exact hle
  · exact hsigned '+' rfl
  · exact hsigned '-' rfl

theorem IsNumber.ne_nil (h : IsNumber n) : n ≠ [] := by
  obtain ⟨sign, -, ds, hds, rfl⟩ := h
  obtain ⟨d, ds', rfl, -⟩ := hds.exists_cons
  simp

theorem isNumber_take (h : numberLength t ≠ 0) : IsNumber (t.take (numberLength t)) :=
  numeral_of_numberLength h

/-- The token with which a text begins, and what follows it. An operator sign that a number can take is
not an operator. -/
inductive Leads (t : Text) : Token → Text → Prop where
  | number {n rest : Text} (h : t = n ++ rest) (hn : IsNumber n)
      (hlongest : ∀ m, m <+: t → IsNumber m → m.length ≤ n.length) : Leads t (.number n) rest
  | operator {s rest : Text} (h : t = s ++ rest) (hs : s ∈ operators)
      (hnone : ∀ m, m <+: t → ¬ IsNumber m) : Leads t (.operator s) rest
  | unary {s rest : Text} (h : t = s ++ rest) (hs : s ∈ unaries) : Leads t (.unary s) rest
  | opening {rest : Text} (h : t = '(' :: rest) : Leads t .opening rest
  | closing {rest : Text} (h : t = ')' :: rest) : Leads t .closing rest

/-- Something is left, and neither a token nor a blank stands in front. -/
def Stuck (t : Text) : Prop :=
  t ≠ [] ∧ t.head? ≠ some ' ' ∧ t.head? ≠ some '\t' ∧ ∀ tok rest, ¬ Leads t tok rest

/-- Reading tokens from `t`, with blanks between them, leaves `u`. -/
inductive Reads : Text → List Token → Text → Prop where
  | stop (t : Text) : Reads t [] t
  | blank {c : Char} {t u : Text} {ts : List Token} (hc : c = ' ' ∨ c = '\t') (h : Reads t ts u) :
      Reads (c :: t) ts u
  | token {t rest u : Text} {tok : Token} {ts : List Token} (htok : Leads t tok rest)
      (h : Reads rest ts u) : Reads t (tok :: ts) u

theorem Leads.ne_nil (h : Leads t tok rest) : t ≠ [] := by
  cases h with
  | number h hn => simp [h, hn.ne_nil]
  | operator h hs =>
      rintro rfl
      exact absurd ((List.append_eq_nil_iff.mp h.symm).1 ▸ hs) (by decide)
  | unary h hs =>
      rintro rfl
      exact absurd ((List.append_eq_nil_iff.mp h.symm).1 ▸ hs) (by decide)
  | opening h => simp [h]
  | closing h => simp [h]

theorem numberLength_eq (hn : IsNumber n)
    (hlongest : ∀ m, m <+: n ++ rest → IsNumber m → m.length ≤ n.length) :
    numberLength (n ++ rest) = n.length := by
  have hle := hn.length_le rest
  refine Nat.le_antisymm ?_ hle
  by_cases hzero : numberLength (n ++ rest) = 0
  · omega
  · have hlength := hlongest _ (List.take_prefix _ _) (isNumber_take hzero)
    rwa [List.length_take_of_le (numberLength_le _)] at hlength

theorem numberLength_eq_zero (hnone : ∀ m, m <+: t → ¬ IsNumber m) : numberLength t = 0 := by
  by_contra hne
  exact hnone _ (List.take_prefix _ _) (isNumber_take hne)

theorem operatorLength_append_of_mem (hs : s ∈ operators) (rest : Text) :
    operatorLength (s ++ rest) = s.length := by
  rcases (by simpa [operators] using hs) with rfl | rfl | rfl | rfl | rfl | rfl | rfl | rfl | rfl <;>
    rfl

theorem front_of_number {k : Nat} (h : numberLength (c :: cs) = k + 1) :
    front c cs = .token (.number ((c :: cs).take (k + 1))) (k + 1) := by
  rw [front, h]

theorem front_of_operator {k : Nat} (hzero : numberLength (c :: cs) = 0)
    (h : operatorLength (c :: cs) = k + 1) :
    front c cs = .token (.operator ((c :: cs).take (k + 1))) (k + 1) := by
  rw [front, hzero]
  dsimp only
  rw [h]

theorem front_of_leads (h : Leads (c :: cs) tok rest) :
    ∃ k, front c cs = .token tok (k + 1) ∧ cs.drop k = rest := by
  cases h with
  | @number n _ h hn hlongest =>
      rw [h] at hlongest
      have hlength := numberLength_eq hn hlongest
      cases n with
      | nil => exact absurd rfl hn.ne_nil
      | cons d n =>
          obtain ⟨rfl, rfl⟩ := List.cons_eq_cons.mp h
          have htake : (c :: n ++ rest).take (n.length + 1) = c :: n := List.take_left' rfl
          refine ⟨n.length, ?_, List.drop_left⟩
          rw [front_of_number hlength]
          exact congrArg (fun num => Front.token (.number num) (n.length + 1)) htake
  | @operator s _ h hs hnone =>
      have hzero := numberLength_eq_zero hnone
      have hlength := operatorLength_append_of_mem hs rest
      cases s with
      | nil => exact absurd hs (by decide)
      | cons d s =>
          obtain ⟨rfl, rfl⟩ := List.cons_eq_cons.mp h
          have htake : (c :: s ++ rest).take (s.length + 1) = c :: s := List.take_left' rfl
          refine ⟨s.length, ?_, List.drop_left⟩
          rw [front_of_operator hzero hlength]
          exact congrArg (fun op => Front.token (.operator op) (s.length + 1)) htake
  | unary h hs =>
      rcases (by simpa [unaries] using hs) with rfl | rfl <;>
        obtain ⟨rfl, rfl⟩ := List.cons_eq_cons.mp h <;> exact ⟨0, rfl, rfl⟩
  | opening h =>
      obtain ⟨rfl, rfl⟩ := List.cons_eq_cons.mp h
      exact ⟨0, rfl, rfl⟩
  | closing h =>
      obtain ⟨rfl, rfl⟩ := List.cons_eq_cons.mp h
      exact ⟨0, rfl, rfl⟩

theorem front_of_blank (hc : c = ' ' ∨ c = '\t') (cs : Text) : front c cs = .skip := by
  rcases hc with rfl | rfl <;> rfl

/-- What the reader finds in front of a text that is not empty. -/
inductive Front.Finds (c : Char) (cs : Text) : Front → Prop where
  | token {tok : Token} {k : Nat} (h : Leads (c :: cs) tok (cs.drop k)) : Finds c cs (.token tok (k + 1))
  | skip (hc : c = ' ' ∨ c = '\t') : Finds c cs .skip
  | unreadable (hblank : c ≠ ' ' ∧ c ≠ '\t') : Finds c cs .unreadable

theorem front_finds (c : Char) (cs : Text) : (front c cs).Finds c cs := by
  fun_cases front c cs with
  | case1 k hk =>
      refine .token (.number (List.take_append_drop (k + 1) (c :: cs)).symm ?_ ?_)
      · have hnumber := isNumber_take (t := c :: cs) (by omega)
        rwa [hk] at hnumber
      · rintro m ⟨rest, hm⟩ hnumber
        have hle := hnumber.length_le rest
        have htotal := numberLength_le (c :: cs)
        rw [hm, hk] at hle
        rwa [List.length_take_of_le (by omega)]
  | case2 hzero k hk =>
      refine .token (.operator (List.take_append_drop (k + 1) (c :: cs)).symm ?_ ?_)
      · have hoperator := operator_of_operatorLength (t := c :: cs) (by omega)
        rwa [hk] at hoperator
      · rintro m ⟨rest, hm⟩ hnumber
        have hle := hnumber.length_le rest
        rw [hm, hzero] at hle
        exact hnumber.ne_nil (List.eq_nil_of_length_eq_zero (Nat.le_zero.mp hle))
  | case3 _ _ hc =>
      refine .token (.unary (s := [c]) rfl ?_)
      rcases (by simpa using hc : c = '~' ∨ c = '!') with rfl | rfl <;> decide
  | case4 _ _ _ hc => exact .token (.opening (by rw [hc, List.drop_zero]))
  | case5 _ _ _ _ hc => exact .token (.closing (by rw [hc, List.drop_zero]))
  | case6 _ _ _ _ _ hc => exact .skip (by simpa using hc)
  | case7 _ _ _ _ _ hc => exact .unreadable (by simpa using hc)

theorem leads_of_front {k : Nat}
    (h : front c cs = .token tok (k + 1)) : Leads (c :: cs) tok (cs.drop k) := by
  have hfinds := front_finds c cs
  rw [h] at hfinds
  cases hfinds with
  | token hlead => exact hlead

theorem front_of_stuck (h : Stuck (c :: cs)) : front c cs = .unreadable := by
  have hfinds := front_finds c cs
  cases hfront : front c cs with
  | token tok k =>
      rw [hfront] at hfinds
      cases hfinds with
      | token hlead => exact absurd hlead (h.2.2.2 _ _)
  | skip =>
      rw [hfront] at hfinds
      cases hfinds with
      | skip hc =>
          rcases hc with rfl | rfl
          · exact absurd rfl h.2.1
          · exact absurd rfl h.2.2.1
  | unreadable => rfl

theorem stuck_of_front (h : front c cs = .unreadable) : Stuck (c :: cs) := by
  have hfinds := front_finds c cs
  rw [h] at hfinds
  cases hfinds with
  | unreadable hblank =>
      refine ⟨by simp, by simpa using hblank.1, by simpa using hblank.2, fun tok rest hlead => ?_⟩
      obtain ⟨k, hfront, -⟩ := front_of_leads hlead
      rw [h] at hfront
      cases hfront

theorem readFrom_eq_drop (k : Nat) (t : Text) : readFrom k t = readFrom 0 (t.drop k) := by
  fun_induction List.drop k t with
  | case1 => rfl
  | case2 k => simp [readFrom]
  | case3 k c cs ih => exact ih

theorem readFrom_of_leads (h : Leads t tok rest) : readFrom 0 t = (readFrom 0 rest).map (tok :: ·) := by
  cases t with
  | nil => exact absurd rfl h.ne_nil
  | cons c cs =>
      obtain ⟨k, hfront, rfl⟩ := front_of_leads h
      rw [readFrom, hfront]
      dsimp only
      rw [Nat.add_sub_cancel, readFrom_eq_drop]

theorem Reads.readFrom (h : Reads t ts u) : Token.readFrom 0 t = (Token.readFrom 0 u).map (ts ++ ·) := by
  induction h with
  | stop t => simp
  | blank hc _ ih =>
      rw [Token.readFrom, front_of_blank hc]
      exact ih
  | token hlead _ ih =>
      rw [readFrom_of_leads hlead, ih, Option.map_map]
      rfl

theorem Reads.readAll (h : Reads t ts []) : Token.readAll t = some ts := by
  rw [Token.readAll, h.readFrom]
  simp [Token.readFrom]

theorem Reads.readAll_of_stuck (h : Reads t ts u) (hu : Stuck u) : Token.readAll t = none := by
  cases u with
  | nil => exact absurd rfl hu.1
  | cons c cs => rw [Token.readAll, h.readFrom, Token.readFrom, front_of_stuck hu, Option.map_none]

theorem exists_reads (t : Text) : ∃ ts u, Reads t ts u ∧ (u = [] ∨ Stuck u) := by
  induction h : t.length using Nat.strong_induction_on generalizing t with
  | _ k ih =>
      cases t with
      | nil => exact ⟨[], [], .stop [], .inl rfl⟩
      | cons c cs =>
          have hfinds := front_finds c cs
          cases hfront : front c cs with
          | token tok n =>
              rw [hfront] at hfinds
              cases hfinds with
              | @token _ n hlead =>
                  have hlt : (cs.drop n).length < k := by
                    rw [← h, List.length_drop, List.length_cons]
                    omega
                  obtain ⟨ts, u, hreads, hu⟩ := ih (cs.drop n).length hlt _ rfl
                  exact ⟨tok :: ts, u, .token hlead hreads, hu⟩
          | skip =>
              rw [hfront] at hfinds
              cases hfinds with
              | skip hc =>
                  obtain ⟨ts, u, hreads, hu⟩ := ih cs.length (by simp [← h]) _ rfl
                  exact ⟨ts, u, .blank hc hreads, hu⟩
          | unreadable => exact ⟨[], c :: cs, .stop _, .inr (stuck_of_front hfront)⟩

theorem reads_iff_readAll : Reads t ts [] ↔ readAll t = some ts := by
  refine ⟨Reads.readAll, fun h => ?_⟩
  obtain ⟨us, u, hreads, rfl | hu⟩ := exists_reads t
  · rw [hreads.readAll] at h
    exact Option.some.inj h ▸ hreads
  · rw [hreads.readAll_of_stuck hu] at h
    cases h

theorem IsNumber.isWord_of_mem_tail (h : IsNumber n) (hc : c ∈ n.tail) : Text.isWord c = true := by
  obtain ⟨sign, hsign, ds, hds, rfl⟩ := h
  rcases (by simpa [signs] using hsign) with rfl | rfl | rfl
  · exact Lexeme.isWord_of_numeral hds (List.mem_of_mem_tail hc)
  · exact Lexeme.isWord_of_numeral hds hc
  · exact Lexeme.isWord_of_numeral hds hc

theorem IsNumber.leads (h : IsNumber n) (hrest : Lexeme.Bounded rest) : Leads (n ++ rest) (.number n) rest := by
  -- A number is read to its end where nothing follows that could be taken for more of it.
  refine .number rfl h ?_
  rintro m ⟨tail, hm⟩ hnumber
  by_contra hlonger
  have hlt : n.length < m.length := Nat.lt_of_not_le hlonger
  obtain ⟨u, rfl⟩ : n <+: m := List.prefix_of_prefix_length_le ⟨rest, rfl⟩ ⟨tail, hm⟩ (Nat.le_of_lt hlt)
  rw [List.append_assoc] at hm
  have hu : u ++ tail = rest := List.append_cancel_left hm
  cases u with
  | nil => simp at hlt
  | cons c u =>
      have hc : c ∈ (n ++ c :: u).tail := by
        obtain ⟨d, ds, rfl⟩ := List.exists_cons_of_ne_nil h.ne_nil
        simp
      rw [← hu] at hrest
      have hword := hnumber.isWord_of_mem_tail hc
      rw [(hrest c rfl).1] at hword
      cases hword

end RvToolkit.Expr.Token
