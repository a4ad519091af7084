import RvToolkit.Evaluator.Standard
import RvToolkit.Proofs.Expr.Adequacy
import RvToolkit.Proofs.Expr.Scanning

namespace RvToolkit.Expr

open Token

inductive Nonterminal where
  | expression
  | operand

/-- An expression is operands with operators between them; an operand is a number or an expression in
parentheses, behind any number of unary signs. -/
inductive Derives : Nonterminal → List Token → Prop where
  | single {ts : List Token} (h : Derives .operand ts) : Derives .expression ts
  | joined {ts us : List Token} (s : Text) (h : Derives .operand ts) (hrest : Derives .expression us) :
      Derives .expression (ts ++ .operator s :: us)
  | number (s : Text) : Derives .operand [.number s]
  | group {ts : List Token} (h : Derives .expression ts) : Derives .operand (.opening :: (ts ++ [.closing]))
  | unary {ts : List Token} (s : Text) (h : Derives .operand ts) : Derives .operand (.unary s :: ts)

/-- A complete expression is followed by something that cannot continue it. -/
def Overruns (ts : List Token) : Prop :=
  ∃ p tok rest, ts = p ++ tok :: rest ∧ Derives .expression p ∧ ∀ s, tok ≠ .operator s

/-- The list begins as an expression can begin, and there more parentheses are open than the limit
allows. -/
def Exceeds (limit : Nat) (ts : List Token) : Prop :=
  ∃ p rest us, ts = p ++ rest ∧ Derives .expression (p ++ us) ∧ p.count .closing + limit < p.count .opening

variable {limit d : Nat} {k : Nonterminal} {b : Bool} {p : Place} {t : Text} {ts : List Token}

/-- Whatever is derived takes the guard from before an operand to after it, at the same depth, or too
deep. -/
theorem Derives.guardFrom (h : Derives k ts) (limit d : Nat) (rest : List Token) :
    Expr.guardFrom limit (.before d) (ts ++ rest) = Expr.guardFrom limit (.after d) rest ∨
      Expr.guardFrom limit (.before d) (ts ++ rest) = .error .tooDeep := by
  induction h generalizing d rest with
  | single _ ih => exact ih d rest
  | joined s _ _ ih ih' =>
      rw [List.append_assoc]
      rcases ih d (.operator s :: _ ++ rest) with h | h
      · rw [h, List.cons_append, Expr.guardFrom]
        exact ih' d rest
      · exact .inr h
  | number s => exact .inl rfl
  | group _ ih =>
      rw [List.cons_append, List.append_assoc, Expr.guardFrom]
      split
      · exact ih (d + 1) ([.closing] ++ rest)
      · exact .inr rfl
  | unary s _ ih => exact ih d rest

/-- The list begins with a phrase, after which the guard comes to its answer. An expression is as long
as its operators allow. -/
def Splits (limit : Nat) (k : Nonterminal) (d : Nat) (ts : List Token) (b : Bool) : Prop :=
  ∃ e rest, ts = e ++ rest ∧ Derives k e ∧ guardFrom limit (.after d) rest = .ok b ∧
    (k = .expression → ∀ s us, rest ≠ .operator s :: us)

theorem splits_operand (h : guardFrom limit (.before d) ts = .ok b)
    (hexpr : ∀ us d, us.length < ts.length → guardFrom limit (.before d) us = .ok b →
      Splits limit .expression d us b) :
    Splits limit .operand d ts b := by
  induction ts with
  | nil => cases h
  | cons tok ts ih =>
      cases tok with
      | number s => exact ⟨[.number s], ts, rfl, .number s, h, fun hk => by cases hk⟩
      | operator s => cases h
      | unary s =>
          obtain ⟨e, rest, rfl, he, hrest, hop⟩ := ih h fun us d hus => hexpr us d (Nat.lt_succ_of_lt hus)
          exact ⟨.unary s :: e, rest, rfl, .unary s he, hrest, hop⟩
      | opening =>
          rw [guardFrom] at h
          split at h
          · obtain ⟨e, rest, rfl, he, hrest, hop⟩ := hexpr ts (d + 1) (Nat.lt_succ_self _) h
            -- Inside parentheses only the closing one ends the expression.
            cases rest with
            | nil => cases hrest
            | cons tok rest =>
                cases tok with
                | closing =>
                    exact ⟨.opening :: (e ++ [.closing]), rest, by simp, .group he, hrest,
                      fun hk => by cases hk⟩
                | operator s => exact absurd rfl (hop rfl s rest)
                | number | unary | opening => cases hrest
          · cases h
      | closing => cases h

theorem splits_expression (h : guardFrom limit (.before d) ts = .ok b) :
    Splits limit .expression d ts b := by
  induction hn : ts.length using Nat.strong_induction_on generalizing d ts with
  | _ n ih =>
      obtain ⟨e, rest, rfl, he, hrest, -⟩ :=
        splits_operand h fun us d hus h' => ih us.length (hn ▸ hus) h' rfl
      by_cases hop : ∃ s us, rest = .operator s :: us
      · obtain ⟨s, us, rfl⟩ := hop
        have hlt : us.length < n := by
          rw [← hn, List.length_append, List.length_cons]
          omega
        obtain ⟨e', rest', rfl, he', hrest', hop'⟩ := ih us.length hlt hrest rfl
        exact ⟨e ++ .operator s :: e', rest', by simp, .joined s he he', hrest', hop'⟩
      · exact ⟨e, rest, rfl, .single he, hrest, fun _ s us hs => hop ⟨s, us, hs⟩⟩

theorem derives_of_guardFrom (h : guardFrom limit (.before 0) ts = .ok true) : Derives .expression ts := by
  obtain ⟨e, rest, rfl, he, hrest, hop⟩ := splits_expression h
  cases rest with
  | nil => rwa [List.append_nil]
  | cons tok rest =>
      cases tok with
      | operator s => exact absurd rfl (hop rfl s rest)
      | number | unary | opening | closing => cases hrest

theorem overruns_of_guardFrom (h : guardFrom limit (.before 0) ts = .ok false) : Overruns ts := by
  obtain ⟨e, rest, rfl, he, hrest, hop⟩ := splits_expression h
  cases rest with
  | nil => cases hrest
  | cons tok rest => exact ⟨e, tok, rest, rfl, he, fun s hs => hop rfl s rest (by rw [hs])⟩

theorem guardFrom_of_derives (h : Derives .expression ts) :
    guardFrom limit (.before 0) ts = .ok true ∨ guardFrom limit (.before 0) ts = .error .tooDeep := by
  have hrun := h.guardFrom limit 0 []
  rwa [List.append_nil] at hrun

theorem guardFrom_of_overruns (h : Overruns ts) :
    guardFrom limit (.before 0) ts = .ok false ∨ guardFrom limit (.before 0) ts = .error .tooDeep := by
  obtain ⟨e, tok, rest, rfl, he, hop⟩ := h
  refine (he.guardFrom limit 0 (tok :: rest)).imp_left fun hrun => ?_
  rw [hrun]
  cases tok with
  | operator s => exact absurd rfl (hop s)
  | number | unary | opening | closing => rfl

namespace Place

def depth : Place → Nat
  | .before d | .after d => d

theorem depth_next? {tok : Token} {p' : Place} (h : p.next? limit tok = some p') (hp : p.depth ≤ limit) :
    p'.depth ≤ limit ∧ p'.depth + [tok].count .closing = p.depth + [tok].count .opening := by
  cases p with
  | before d =>
      cases tok with
      | opening =>
          obtain ⟨hd, rfl⟩ := next?_opening h
          exact ⟨hd, rfl⟩
      | number | unary =>
          cases h
          exact ⟨hp, rfl⟩
      | operator | closing => cases h
  | after d =>
      cases tok with
      | operator =>
          cases h
          exact ⟨hp, rfl⟩
      | closing =>
          cases d with
          | zero => cases h
          | succ d =>
              cases h
              exact ⟨Nat.le_of_succ_le hp, rfl⟩
      | number | unary | opening => cases d <;> cases h

end Place

/-- What becomes of the guard on the beginning of a list, whatever follows. -/
inductive Walk (limit : Nat) (p : Place) (us : List Token) : Prop where
  | passed {p' : Place} (hrest : ∀ rest, guardFrom limit p (us ++ rest) = guardFrom limit p' rest)
      (hdepth : p'.depth ≤ limit) (hcount : p'.depth + us.count .closing = p.depth + us.count .opening)
  | tooDeep (hrest : ∀ rest, guardFrom limit p (us ++ rest) = .error .tooDeep)
  | ended {x : Except Fault Bool} (hrest : ∀ rest, guardFrom limit p (us ++ rest) = x) (htrue : x ≠ .ok true)
      (hdeep : x ≠ .error .tooDeep)

theorem walk_singleton (tok : Token) (hp : p.depth ≤ limit) :
    (∃ p', p.next? limit tok = some p' ∧ ∀ rest, guardFrom limit p (tok :: rest) = guardFrom limit p' rest) ∨
      (p = .before limit ∧ tok = .opening) ∨
      ∃ x, (∀ rest, guardFrom limit p (tok :: rest) = x) ∧ x ≠ .ok true ∧ x ≠ .error .tooDeep := by
  -- Only an opening parenthesis can be too deep, and then the limit is reached.
  cases p with
  | before d =>
      cases tok with
      | opening =>
          by_cases hd : d < limit
          · exact .inl ⟨.before (d + 1), by simp [Place.next?, hd], fun rest => by rw [guardFrom, if_pos hd]⟩
          · exact .inr (.inl ⟨congrArg Place.before (Nat.le_antisymm hp (Nat.not_lt.mp hd)), rfl⟩)
      | number | unary => exact .inl ⟨_, rfl, fun rest => rfl⟩
      | operator | closing =>
          exact .inr (.inr ⟨.error (.parse .operandExpected), fun rest => rfl, by simp, by simp⟩)
  | after d =>
      cases d with
      | zero =>
          cases tok with
          | operator => exact .inl ⟨_, rfl, fun rest => rfl⟩
          | number | unary | opening | closing =>
              exact .inr (.inr ⟨.ok false, fun rest => rfl, by simp, by simp⟩)
      | succ d =>
          cases tok with
          | operator | closing => exact .inl ⟨_, rfl, fun rest => rfl⟩
          | number | unary | opening =>
              exact .inr (.inr ⟨.error (.parse (.closingExpected _)), fun rest => rfl, by simp, by simp⟩)

theorem guardFrom_opening (limit : Nat) (rest : List Token) :
    guardFrom limit (.before limit) (.opening :: rest) = .error .tooDeep := by
  rw [guardFrom, if_neg (Nat.lt_irrefl limit)]

theorem walk (us : List Token) (hp : p.depth ≤ limit) : Walk limit p us := by
  induction us generalizing p with
  | nil => exact .passed (fun rest => rfl) hp rfl
  | cons tok us ih =>
      rcases walk_singleton tok hp with ⟨p', hnext, hstep⟩ | ⟨rfl, rfl⟩ | ⟨x, hrest, htrue, hdeep⟩
      · obtain ⟨hp', hcount⟩ := Place.depth_next? hnext hp
        cases ih hp' with
        | passed hrest hdepth hcounts =>
            refine .passed (fun rest => (hstep _).trans (hrest rest)) hdepth ?_
            rw [← List.singleton_append, List.count_append, List.count_append]
            omega
        | tooDeep hrest => exact .tooDeep fun rest => (hstep _).trans (hrest rest)
        | ended hrest htrue hdeep => exact .ended (fun rest => (hstep _).trans (hrest rest)) htrue hdeep
      · exact .tooDeep fun rest => guardFrom_opening limit (us ++ rest)
      · exact .ended (fun rest => hrest (us ++ rest)) htrue hdeep

theorem guardFrom_replicate_closing (limit d : Nat) :
    guardFrom limit (.after d) (List.replicate d .closing) = .ok true := by
  induction d with
  | zero => rfl
  | succ d ih => exact ih

/-- One more parenthesis than the limit allows is open where the guard gives up, and what it has read by
then can still be completed. -/
theorem exists_of_tooDeep (h : guardFrom limit p ts = .error .tooDeep) (hp : p.depth ≤ limit) :
    ∃ us rest vs, ts = us ++ rest ∧ guardFrom (limit + 1) p (us ++ vs) = .ok true ∧
      p.depth + us.count .opening = limit + 1 + us.count .closing := by
  induction ts generalizing p with
  | nil => rcases p with d | (_ | d) <;> cases h
  | cons tok ts ih =>
      rcases walk_singleton tok hp with ⟨p', hnext, hstep⟩ | ⟨rfl, rfl⟩ | ⟨x, hrest, -, hne⟩
      · obtain ⟨hp', hcount⟩ := Place.depth_next? hnext hp
        obtain ⟨us, rest, vs, rfl, hguard, hcounts⟩ := ih ((hstep ts).symm.trans h) hp'
        refine ⟨tok :: us, rest, vs, rfl, ?_, ?_⟩
        · refine guardFrom_cons.mpr ⟨p', ?_, hguard⟩
          cases p with
          | before d =>
              cases tok with
              | opening =>
                  obtain ⟨hd, rfl⟩ := Place.next?_opening hnext
                  simp [Place.next?, Nat.lt_succ_of_lt hd]
              | _ => exact hnext
          | after d => cases d <;> cases tok <;> exact hnext
        · rw [← List.singleton_append, List.count_append, List.count_append]
          omega
      · refine ⟨[.opening], ts, .number [] :: List.replicate (limit + 1) .closing, rfl, ?_, rfl⟩
        rw [List.singleton_append, guardFrom, if_pos (Nat.lt_succ_self limit)]
        exact guardFrom_replicate_closing (limit + 1) (limit + 1)
      · exact absurd ((hrest ts).symm.trans h) hne

theorem guardFrom_tooDeep_iff : guardFrom limit (.before 0) ts = .error .tooDeep ↔ Exceeds limit ts := by
  constructor
  · intro h
    obtain ⟨us, rest, vs, rfl, hguard, hcount⟩ := exists_of_tooDeep h (Nat.zero_le limit)
    refine ⟨us, rest, vs, rfl, derives_of_guardFrom hguard, ?_⟩
    simp only [Place.depth] at hcount
    omega
  · rintro ⟨us, rest, vs, rfl, hderives, hcount⟩
    have hwalk : Walk limit (.before 0) us := walk us (Nat.zero_le limit)
    cases hwalk with
    | passed _ hdepth hcounts =>
        simp only [Place.depth] at hdepth hcounts
        omega
    | tooDeep hrest => exact hrest rest
    | ended hrest htrue hdeep =>
        have hanswer : guardFrom limit (.before 0) (us ++ vs) = .ok true ∨
            guardFrom limit (.before 0) (us ++ vs) = .error .tooDeep := guardFrom_of_derives hderives
        rw [hrest vs] at hanswer
        exact (hanswer.elim htrue hdeep).elim

theorem guardFrom_true_iff (h : ¬ Exceeds limit ts) :
    guardFrom limit (.before 0) ts = .ok true ↔ Derives .expression ts :=
  ⟨derives_of_guardFrom, fun hts => (guardFrom_of_derives hts).resolve_right (mt guardFrom_tooDeep_iff.mp h)⟩

theorem guardFrom_false_iff (h : ¬ Exceeds limit ts) :
    guardFrom limit (.before 0) ts = .ok false ↔ Overruns ts :=
  ⟨overruns_of_guardFrom, fun hts => (guardFrom_of_overruns hts).resolve_right (mt guardFrom_tooDeep_iff.mp h)⟩

theorem guardFrom_parse_iff (h : ¬ Exceeds limit ts) :
    (∃ c, guardFrom limit (.before 0) ts = .error (.parse c)) ↔
      ¬ Derives .expression ts ∧ ¬ Overruns ts := by
  rw [← guardFrom_true_iff h, ← guardFrom_false_iff h]
  constructor
  · rintro ⟨c, hc⟩
    simp [hc]
  · rintro ⟨htrue, hfalse⟩
    cases hguard : guardFrom limit (.before 0) ts with
    | error f =>
        rcases guardFrom_error hguard with rfl | ⟨c, rfl⟩
        · exact absurd (guardFrom_tooDeep_iff.mp hguard) h
        · exact ⟨c, rfl⟩
    | ok b => cases b <;> contradiction

theorem recover_guardFrom (h : guardFrom limit p ts ≠ .error .tooDeep) :
    Fault.recover false (guardFrom limit p ts) = guardFrom limit p ts := by
  -- The handler stops the depth and nothing else.
  cases hguard : guardFrom limit p ts with
  | ok b => rfl
  | error f =>
      rcases guardFrom_error hguard with rfl | ⟨c, rfl⟩
      · exact absurd hguard h
      · rfl

/-- Every text can be read to its end or to a character that begins no token. In the second case the
answer is negative, and so it is where parentheses lie too deep in one another. In all other cases the
grammar decides between yes, no and a report. -/
theorem isExpr_outcomes (limit : Nat) (t : Text) :
    (∃ ts u, Reads t ts u ∧ (u = [] ∨ Stuck u)) ∧
    (∀ ts u, Reads t ts u → Stuck u → isExpr limit t = .ok false) ∧
    ∀ ts, Reads t ts [] →
      (Exceeds limit ts → isExpr limit t = .ok false) ∧
      (¬ Exceeds limit ts →
        (isExpr limit t = .ok true ↔ Derives .expression ts) ∧
        (isExpr limit t = .ok false ↔ Overruns ts) ∧
        ((∃ c, isExpr limit t = .error (.parse c)) ↔ ¬ Derives .expression ts ∧ ¬ Overruns ts)) := by
  refine ⟨exists_reads t, fun ts u hreads hu => ?_, fun ts hreads => ⟨fun hdeep => ?_, fun hdeep => ?_⟩⟩
  · rw [isExpr, hreads.readAll_of_stuck hu]
  · rw [isExpr, hreads.readAll]
    exact congrArg (Fault.recover false) (guardFrom_tooDeep_iff.mpr hdeep)
  · have hanswer : isExpr limit t = guardFrom limit (.before 0) ts := by
      rw [isExpr, hreads.readAll]
      exact recover_guardFrom (mt guardFrom_tooDeep_iff.mp hdeep)
    rw [hanswer]
    exact ⟨guardFrom_true_iff hdeep, guardFrom_false_iff hdeep, guardFrom_parse_iff hdeep⟩

theorem not_exceeds_of_count (h : ts.count .opening ≤ limit) : ¬ Exceeds limit ts := by
  rintro ⟨us, rest, vs, rfl, -, hcount⟩
  rw [List.count_append] at h
  omega

theorem isExpr_sign_beside_digits :
    isExpr 1 "1 -1".toList = .ok false ∧ isExpr 1 "!(1 - 1)".toList = .ok true ∧
      isExpr 0 "!(1 - 1)".toList = .ok false ∧ isExpr 1 "1 $".toList = .ok false := by
  have hone : Derives .operand [.number "1".toList] := .number _
  have hgroup : Derives .expression [.unary "!".toList, .opening, .number "1".toList, .operator "-".toList,
      .number "1".toList, .closing] := .single (.unary _ (.group (.joined _ hone (.single hone))))
  have hread : Reads "!(1 - 1)".toList [.unary "!".toList, .opening, .number "1".toList,
      .operator "-".toList, .number "1".toList, .closing] [] := reads_iff_readAll.mpr (by decide)
  refine ⟨?_, ?_, ?_, ?_⟩
  · refine (((isExpr_outcomes 1 _).2.2 [.number "1".toList, .number "-1".toList] ?_).2
      (not_exceeds_of_count (by decide))).2.1.mpr ?_
    · exact reads_iff_readAll.mpr (by decide)
    · exact ⟨[.number "1".toList], _, [], rfl, .single hone, by simp⟩
  · exact (((isExpr_outcomes 1 _).2.2 _ hread).2 (not_exceeds_of_count (by decide))).1.mpr hgroup
  · exact ((isExpr_outcomes 0 _).2.2 _ hread).1
      ⟨[.unary "!".toList, .opening], _, _, rfl, hgroup, by decide⟩
  · have hlead : Leads "1 $".toList (.number "1".toList) " $".toList := leads_of_front (k := 0) rfl
    have hreads : Reads "1 $".toList [.number "1".toList] "$".toList := .token hlead (.blank (.inl rfl) (.stop _))
    exact (isExpr_outcomes 1 _).2.1 _ _ hreads (stuck_of_front rfl)

def nested (n : Nat) : Text := List.replicate n '(' ++ '1' :: List.replicate n ')'

theorem derives_nested (n : Nat) :
    Derives .operand (List.replicate n .opening ++ .number ['1'] :: List.replicate n .closing) := by
  induction n with
  | zero => exact .number _
  | succ n ih =>
      have hgroup := Derives.group (.single ih)
      rwa [List.append_assoc, List.cons_append, ← List.replicate_succ'] at hgroup

theorem isExpr_nested :
    (∃ ts, Reads (nested 400) ts [] ∧ Derives .expression ts) ∧
      isExpr Evaluator.standardDepth (nested 400) = .ok false := by
  refine ⟨⟨_, reads_iff_readAll.mpr ?_, .single (derives_nested 400)⟩, ?_⟩
  · decide +kernel
  · exact Except.eq_ok_of_toOption (by decide +kernel)

end RvToolkit.Expr
