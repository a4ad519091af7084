import RvToolkit.Proofs.Expr.Adequacy

namespace RvToolkit.Expr

open Token

variable {limit : Nat}

namespace Token

theorem takeWhile_append_of_not {p : Char → Bool} {c : Char} (hc : p c = false) (cs rest : Text) :
    (cs ++ c :: rest).takeWhile p = cs.takeWhile p := by
  induction cs with
  | nil => simp [hc]
  | cons d ds ih => simp only [List.cons_append, List.takeWhile_cons, ih]

theorem magnitude_of_ne_zero {c : Char} (hc : c ≠ '0') (cs : Text) :
    magnitude (c :: cs) = if '1' ≤ c && c ≤ '9' then 1 + (cs.takeWhile Char.isDigit).length else 0 := by
  unfold magnitude
  split <;> simp_all

theorem marked_of_greater {m : Char} {digit : Char → Bool} (hm : marked? m = some digit) :
    digit '>' = false := by
  rcases marked?_eq_some hm with ⟨-, rfl⟩ | ⟨-, rfl⟩ | ⟨-, rfl⟩ <;> rfl

variable (rest : Text)

theorem magnitude_append (t : Text) : magnitude (t ++ '>' :: rest) = magnitude t := by
  cases t with
  | nil => exact magnitude_of_ne_zero (by decide) rest
  | cons c cs =>
      by_cases hc : c = '0'
      · subst hc
        cases cs with
        | nil => rfl
        | cons m cs =>
            rw [List.cons_append, List.cons_append, magnitude, magnitude]
            cases hm : marked? m with
            | none => rfl
            | some digit => simp only [takeWhile_append_of_not (marked_of_greater hm)]
      · rw [List.cons_append, magnitude_of_ne_zero hc, magnitude_of_ne_zero hc,
          takeWhile_append_of_not (by rfl)]

theorem numberLength_append (t : Text) : numberLength (t ++ '>' :: rest) = numberLength t := by
  cases t with
  | nil => exact magnitude_append rest []
  | cons c cs =>
      rw [List.cons_append, numberLength, numberLength, magnitude_append, ← List.cons_append,
        magnitude_append]

theorem operatorLength_cons (c d : Char) (cs : Text) :
    operatorLength (c :: d :: cs) =
      if c = '<' ∧ d = '<' ∨ c = '>' ∧ d = '>' then 2
      else if "+-*/&|^".toList.contains c then 1 else 0 := by
  by_cases hdouble : c = '<' ∧ d = '<' ∨ c = '>' ∧ d = '>'
  · rw [if_pos hdouble]
    obtain ⟨rfl, rfl⟩ | ⟨rfl, rfl⟩ := hdouble <;> rfl
  · rw [if_neg hdouble]
    unfold operatorLength
    split
    · next heq =>
      obtain ⟨rfl, rfl, -⟩ : c = '<' ∧ d = '<' ∧ _ := by simpa using heq
      exact absurd (.inl ⟨rfl, rfl⟩) hdouble
    · next heq =>
      obtain ⟨rfl, rfl, -⟩ : c = '>' ∧ d = '>' ∧ _ := by simpa using heq
      exact absurd (.inr ⟨rfl, rfl⟩) hdouble
    · next heq =>
      obtain ⟨rfl, -⟩ := List.cons.inj heq
      rfl
    · next heq => cases heq

theorem operatorLength_append {c : Char} {cs : Text} (h : c :: cs ≠ ['>']) :
    operatorLength (c :: (cs ++ '>' :: rest)) = operatorLength (c :: cs) := by
  cases cs with
  | nil =>
      have hc : c ≠ '>' := fun hc => h (by rw [hc])
      rw [List.nil_append, operatorLength_cons]
      unfold operatorLength
      split <;> simp_all
  | cons d ds => rw [List.cons_append, operatorLength_cons, operatorLength_cons]

theorem magnitude_le (t : Text) : magnitude t ≤ t.length := by
  fun_cases magnitude t with
  | case1 | case3 | case4 | case6 | case7 => simp
  | case2 m cs digit hm n hn =>
      have hlength : n ≤ cs.length := (List.takeWhile_prefix digit).length_le
      simp only [List.length_cons]
      omega
  | case5 c cs =>
      have hlength := (List.takeWhile_prefix Char.isDigit (l := cs)).length_le
      simp only [List.length_cons]
      omega

theorem numberLength_le (t : Text) : numberLength t ≤ t.length := by
  fun_cases numberLength t with
  | case1 | case4 => simp
  | case2 c cs => exact Nat.succ_le_succ (magnitude_le cs)
  | case3 c cs => exact magnitude_le (c :: cs)

theorem operatorLength_le (t : Text) : operatorLength t ≤ t.length := by
  fun_cases operatorLength t <;> simp

theorem front_append {c : Char} {cs : Text} (h : front c cs ≠ .unreadable) :
    front c (cs ++ '>' :: rest) = front c cs := by
  have hhalf : c :: cs ≠ ['>'] := by
    intro heq
    obtain ⟨rfl, rfl⟩ := List.cons.inj heq
    exact h rfl
  have hnumber : numberLength (c :: (cs ++ '>' :: rest)) = numberLength (c :: cs) :=
    numberLength_append rest (c :: cs)
  have htake {n : Nat} (hn : n ≤ (c :: cs).length) :
      (c :: (cs ++ '>' :: rest)).take n = (c :: cs).take n := List.take_append_of_le_length hn
  rw [front, front, hnumber, operatorLength_append rest hhalf]
  cases hlength : numberLength (c :: cs) with
  | succ n =>
      have hle := numberLength_le (c :: cs)
      rw [hlength] at hle
      dsimp only
      rw [htake hle]
  | zero =>
      cases hoperator : operatorLength (c :: cs) with
      | succ n =>
          have hle := operatorLength_le (c :: cs)
          rw [hoperator] at hle
          dsimp only
          rw [htake hle]
      | zero => rfl

theorem front_le {c : Char} {cs : Text} {tok : Token} {n : Nat} (h : front c cs = .token tok n) :
    n ≤ cs.length + 1 := by
  have hnumber : numberLength (c :: cs) ≤ cs.length + 1 := numberLength_le (c :: cs)
  have hoperator : operatorLength (c :: cs) ≤ cs.length + 1 := operatorLength_le (c :: cs)
  rw [front] at h
  cases hlength : numberLength (c :: cs) with
  | succ k =>
      rw [hlength] at h hnumber
      cases h
      exact hnumber
  | zero =>
      rw [hlength] at h
      cases hlength' : operatorLength (c :: cs) with
      | succ k =>
          rw [hlength'] at h hoperator
          cases h
          exact hoperator
      | zero =>
          rw [hlength'] at h
          dsimp only at h
          have hone : n = 1 := by
            split at h
            · cases h
              rfl
            · split at h
              · cases h
                rfl
              · split at h
                · cases h
                  rfl
                · split at h <;> cases h
          omega

theorem readFrom_append {k : Nat} {t : Text} {ts : List Token} (h : readFrom k t = some ts)
    (hk : k ≤ t.length) :
    readFrom k (t ++ '>' :: rest) = (readFrom 0 ('>' :: rest)).map (ts ++ ·) := by
  induction t generalizing k ts with
  | nil =>
      obtain rfl : k = 0 := Nat.le_zero.mp hk
      obtain rfl : [] = ts := by simpa [readFrom] using h
      simp
  | cons c cs ih =>
      cases k with
      | succ k => exact ih h (Nat.le_of_succ_le_succ hk)
      | zero =>
          have hfront : front c cs ≠ .unreadable := by
            intro hunreadable
            simp [readFrom, hunreadable] at h
          rw [List.cons_append, readFrom, front_append rest hfront]
          rw [readFrom] at h
          cases hcase : front c cs with
          | token tok n =>
              rw [hcase] at h
              obtain ⟨ts', hrest, rfl⟩ := Option.map_eq_some_iff.mp h
              have hle := front_le hcase
              dsimp only
              rw [ih hrest (by omega), Option.map_map]
              rfl
          | skip =>
              rw [hcase] at h
              exact ih h (Nat.zero_le _)
          | unreadable => exact absurd hcase hfront

theorem Spelled.append {t u : Text} {ts us : List Token} (h : Spelled t ts) (hu : Spelled u us) :
    Spelled (t ++ u) (ts ++ us) := by
  induction h with
  | nil => exact hu
  | blank hc _ ih => exact .blank hc ih
  | token htok _ ih =>
      rw [List.append_assoc]
      exact .token htok ih

end Token

def shiftText : Text := ">> 12".toList

def shiftTokens : List Token := [.operator ">>".toList, .number "12".toList]

def shiftLexemes : List Lexeme := [.binary .shiftRight, .int 12]

theorem spelled_shiftText : Spelled shiftText shiftTokens :=
  spelled_of_readFrom (k := 0) (by decide)

theorem guardFrom_append {p : Place} {ts : List Token} (h : guardFrom limit p ts = .ok true)
    (us : List Token) :
    guardFrom limit p (ts ++ us) = .ok true ↔ guardFrom limit (.after 0) us = .ok true := by
  induction ts generalizing p with
  | nil =>
      obtain rfl := guardFrom_nil.mp h
      rfl
  | cons tok ts ih =>
      obtain ⟨p', hnext, h'⟩ := guardFrom_cons.mp h
      rw [List.cons_append, guardFrom_cons]
      constructor
      · rintro ⟨p'', hnext', h''⟩
        obtain rfl : p' = p'' := Option.some.inj (hnext.symm.trans hnext')
        exact (ih h').mp h''
      · intro hus
        exact ⟨p', hnext, (ih h').mpr hus⟩

theorem isExpr_append {t : Text}
    (h : isExpr limit t = .ok true) : isExpr limit (t ++ shiftText) = .ok true := by
  obtain ⟨ts, hts, hguard⟩ := isExpr_eq_true.mp h
  have hread : readAll (t ++ shiftText) = some (ts ++ shiftTokens) :=
    readFrom_append "> 12".toList hts (Nat.zero_le _)
  exact isExpr_eq_true.mpr ⟨_, hread, (guardFrom_append hguard shiftTokens).mpr rfl⟩

namespace Lexeme

theorem readFrom_append {p : Place} {t : Text} {ts : List Token} (h : Spelled t ts)
    (hguard : guardFrom limit p ts = .ok true) :
    readFrom 0 (t ++ shiftText) = (readFrom 0 t).map (· ++ shiftLexemes) := by
  induction h generalizing p with
  | nil => rfl
  | @blank c t ts hc _ ih =>
      have hskip (u : Text) : readFrom 0 (c :: u) = readFrom 0 u := by
        rcases hc with rfl | rfl <;> simp [readFrom]
      rw [List.cons_append, hskip, hskip, ih hguard]
  | @token tok t ts htok ht ih =>
      obtain ⟨p', hnext, hguard'⟩ := guardFrom_cons.mp hguard
      obtain ⟨ls?, -, hread⟩ := exists_lexemes htok
      have hends : Ends tok (t ++ shiftText) :=
        ends_of_guard (ht.append spelled_shiftText) hnext
          ((guardFrom_append hguard' shiftTokens).mpr rfl)
      rw [List.append_assoc, hread _ hends, hread t (ends_of_guard ht hnext hguard'), ih hguard']
      cases ls? with
      | none => rfl
      | some ls =>
          cases readFrom 0 t with
          | none => rfl
          | some ls' => exact congrArg some (List.append_assoc ..).symm

end Lexeme

namespace BinaryOp

def isBitwise : BinaryOp → Bool
  | .and | .xor | .or => true
  | _ => false

theorem rank_of_isBitwise {op : BinaryOp} (h : op.isBitwise = true) : op.rank < 4 ∧ op.barrier < 4 := by
  cases op with
  | and | xor | or => decide
  | _ => cases h

theorem rank_of_not_isBitwise {op : BinaryOp} (h : op.isBitwise = false) : 4 ≤ op.rank := by
  cases op with
  | and | xor | or => cases h
  | _ => decide

end BinaryOp

namespace Tree

def isBitwise : Tree → Bool
  | .binary op _ _ => op.isBitwise
  | _ => false

/-- The shift takes what stands to the right of the outermost bit operators. -/
def shiftLast : Tree → Tree
  | .binary op l r =>
      if op.isBitwise then .binary op l r.shiftLast
      else .binary .shiftRight (.binary op l r) (.int 12)
  | t => .binary .shiftRight t (.int 12)

theorem shiftLast_of_isBitwise {op : BinaryOp} (h : op.isBitwise = true) (l r : Tree) :
    (Tree.binary op l r).shiftLast = .binary op l r.shiftLast := if_pos h

theorem shiftLast_of_not_isBitwise {t : Tree} (h : t.isBitwise = false) :
    t.shiftLast = .binary .shiftRight t (.int 12) := by
  cases t with
  | binary op l r =>
      have hop : op.isBitwise = false := h
      exact if_neg (by rw [hop]; exact Bool.false_ne_true)
  | _ => rfl

theorem eval_binary_eq_ok {op : BinaryOp} {l r : Tree} {n : Num} :
    (Tree.binary op l r).eval = .ok n ↔
      ∃ a b, l.eval = .ok a ∧ r.eval = .ok b ∧ op.apply a b = .ok n := by
  rw [eval]
  simp only [Except.bind_eq_ok]
  constructor
  · rintro ⟨a, ha, b, hb, h⟩
    exact ⟨a, b, ha, hb, h⟩
  · rintro ⟨a, b, ha, hb, h⟩
    exact ⟨a, ha, b, hb, h⟩

theorem apply_of_isBitwise {op : BinaryOp} (h : op.isBitwise = true) {a b n : Num}
    (hn : op.apply a b = .ok n) : ∃ i j, a = .int i ∧ b = .int j := by
  cases op with
  | and | xor | or =>
      cases a with
      | real x => cases hn
      | int i =>
          cases b with
          | real y => cases hn
          | int j => exact ⟨i, j, rfl, rfl⟩
  | _ => cases h

theorem exists_apply_of_isBitwise {op : BinaryOp} (h : op.isBitwise = true) (i j : Int) :
    ∃ k, op.apply (.int i) (.int j) = .ok (.int k) := by
  cases op with
  | and | xor | or => exact ⟨_, rfl⟩
  | _ => cases h

theorem eval_shiftRight {t : Tree} {n : Int} (h : t.eval = .ok (.int n)) :
    (Tree.binary .shiftRight t (.int 12)).eval = .ok (.int (Bits.shiftRight n 12)) :=
  eval_binary_eq_ok.mpr ⟨_, _, h, rfl, rfl⟩

theorem exists_eval_shiftLast {t : Tree} {n : Int} (h : t.eval = .ok (.int n)) :
    ∃ v, t.shiftLast.eval = .ok (.int v) := by
  induction t generalizing n with
  | binary op l r _ ih =>
      cases hop : op.isBitwise with
      | false =>
          have htree : (Tree.binary op l r).isBitwise = false := hop
          rw [shiftLast_of_not_isBitwise htree]
          exact ⟨_, eval_shiftRight h⟩
      | true =>
          obtain ⟨a, b, hl, hr, happly⟩ := eval_binary_eq_ok.mp h
          obtain ⟨i, j, rfl, rfl⟩ := apply_of_isBitwise hop happly
          obtain ⟨v, hv⟩ := ih hr
          obtain ⟨k, hk⟩ := exists_apply_of_isBitwise hop i v
          rw [shiftLast_of_isBitwise hop]
          exact ⟨k, eval_binary_eq_ok.mpr ⟨_, _, hl, hv, hk⟩⟩
  | _ => exact ⟨_, eval_shiftRight h⟩

end Tree

namespace Pending

variable {text : Text}

def Loose (text : Text) : Pending → Prop
  | .binary op _ => op.isBitwise = true ∧ op.spelling ⊆ text
  | _ => False

def Tight : Pending → Prop
  | .unary _ => True
  | .binary op _ => op.isBitwise = false
  | _ => False

/-- Tight operators wait on top of bit operators, and nothing else waits. -/
inductive Layered (text : Text) : List Pending → Prop where
  | loose {ps : List Pending} (h : ∀ p ∈ ps, p.Loose text) : Layered text ps
  | tight {p : Pending} {ps : List Pending} (hp : p.Tight) (h : Layered text ps) : Layered text (p :: ps)

theorem Layered.tail {p : Pending} {ps : List Pending} (h : Layered text (p :: ps)) : Layered text ps := by
  cases h with
  | loose h => exact .loose fun q hq => h q (List.mem_cons_of_mem p hq)
  | tight _ h => exact h

theorem Layered.of_suffix {ps qs : List Pending} (h : Layered text ps) (hqs : qs <:+ ps) :
    Layered text qs := by
  obtain ⟨rs, rfl⟩ := hqs
  induction rs with
  | nil => exact h
  | cons r rs ih => exact ih h.tail

theorem settle_suffix (barrier : Nat) (ps : List Pending) (t : Tree) :
    (settle barrier ps t).1 <:+ ps := by
  induction ps generalizing t with
  | nil => exact List.suffix_rfl
  | cons p ps ih =>
      cases p with
      | unary op | binary op l =>
          rw [settle]
          split
          · exact (ih _).trans (List.suffix_cons _ ps)
          · exact List.suffix_rfl
      | group | call f => exact List.suffix_rfl

theorem settle_tight {barrier : Nat} (hb : barrier ≤ 4) {p : Pending} (hp : p.Tight)
    (ps : List Pending) (t : Tree) :
    ∃ t', settle barrier (p :: ps) t = settle barrier ps t' ∧ t'.isBitwise = false := by
  cases p with
  | unary op => exact ⟨.unary op t, if_pos (hb.trans (by decide)), rfl⟩
  | binary op l =>
      exact ⟨.binary op l t, if_pos (hb.trans (BinaryOp.rank_of_not_isBitwise hp)), hp⟩
  | group | call f => exact hp.elim

theorem loose_settle {barrier : Nat} (hb : barrier ≤ 4) {ps : List Pending} (h : Layered text ps)
    (t : Tree) : ∀ p ∈ (settle barrier ps t).1, p.Loose text := by
  induction h generalizing t with
  | @loose ps h => exact fun p hp => h p ((settle_suffix barrier ps t).subset hp)
  | @tight p ps hp _ ih =>
      obtain ⟨t', hsettle, -⟩ := settle_tight hb hp ps t
      rw [hsettle]
      exact ih t'

theorem settle_shift {ps : List Pending} (h : Layered text ps) {t : Tree} (ht : t.isBitwise = false) :
    (settle 4 ps t).2.isBitwise = false := by
  induction h generalizing t with
  | @loose ps h =>
      cases ps with
      | nil => exact ht
      | cons p ps =>
          have hp := h p List.mem_cons_self
          cases p with
          | binary op l =>
              have hrank := (BinaryOp.rank_of_isBitwise hp.1).1
              rw [settle, if_neg (by omega)]
              exact ht
          | unary op | group | call f => exact hp.elim
  | @tight p ps hp _ ih =>
      obtain ⟨t', hsettle, ht'⟩ := settle_tight (Nat.le_refl 4) hp ps t
      rw [hsettle]
      exact ih ht'

theorem settle_settle {b b' : Nat} (hb : b ≤ b') (ps : List Pending) (t : Tree) :
    settle b (settle b' ps t).1 (settle b' ps t).2 = settle b ps t := by
  induction ps generalizing t with
  | nil => rfl
  | cons p ps ih =>
      cases p with
      | unary op =>
          by_cases hrank : b' ≤ unaryRank
          · rw [settle.eq_def b', settle.eq_def b (.unary op :: ps)]
            simp only [if_pos hrank, if_pos (hb.trans hrank)]
            exact ih _
          · rw [settle.eq_def b']
            simp only [if_neg hrank]
      | binary op l =>
          by_cases hrank : b' ≤ op.rank
          · rw [settle.eq_def b', settle.eq_def b (.binary op l :: ps)]
            simp only [if_pos hrank, if_pos (hb.trans hrank)]
            exact ih _
          · rw [settle.eq_def b']
            simp only [if_neg hrank]
      | group | call f => rfl

theorem settle_loose {ps : List Pending} (h : ∀ p ∈ ps, p.Loose text) (t : Tree) :
    settle 0 ps t.shiftLast = ((settle 0 ps t).1, (settle 0 ps t).2.shiftLast) := by
  induction ps generalizing t with
  | nil => rfl
  | cons p ps ih =>
      have hp := h p List.mem_cons_self
      cases p with
      | binary op l =>
          have hshift := Tree.shiftLast_of_isBitwise hp.1 l t
          have hrest := ih (fun q hq => h q (List.mem_cons_of_mem _ hq)) (.binary op l t)
          rw [hshift] at hrest
          exact hrest
      | unary op | group | call f => exact hp.elim

end Pending

namespace Lexeme

/-- What is read from a text: the bit operators and the parentheses stand in it. -/
inductive Within (text : Text) : Lexeme → Prop where
  | int (i : Int) : Within text (.int i)
  | invert : Within text .invert
  | binary {op : BinaryOp} (h : op.isBitwise = true → op.spelling ⊆ text) : Within text (.binary op)
  | opening (h : '(' ∈ text) : Within text .opening
  | closing (h : ')' ∈ text) : Within text .closing

theorem Within.mono {t u : Text} {l : Lexeme} (h : Within t l) (hsub : t ⊆ u) : Within u l := by
  cases h with
  | int i => exact .int i
  | invert => exact .invert
  | binary h => exact .binary fun hop => List.Subset.trans (h hop) hsub
  | opening h => exact .opening (hsub h)
  | closing h => exact .closing (hsub h)

theorem within_of_lexemesOf {tok : Token} {ls : List Lexeme} (h : LexemesOf tok (some ls)) :
    ∀ l ∈ ls, Within tok.spelling l := by
  cases h with
  | number s i => exact List.forall_mem_singleton.mpr (.int i)
  | signed s hop i =>
      refine List.forall_mem_cons.mpr ⟨.binary ?_, List.forall_mem_singleton.mpr (.int i)⟩
      rintro hbitwise
      rcases hop with rfl | rfl <;> cases hbitwise
  | operator hs =>
      refine List.forall_mem_singleton.mpr (.binary fun _ => ?_)
      rw [hs]
      exact List.Subset.refl _
  | invert => exact List.forall_mem_singleton.mpr .invert
  | opening => exact List.forall_mem_singleton.mpr (.opening List.mem_cons_self)
  | closing => exact List.forall_mem_singleton.mpr (.closing List.mem_cons_self)

theorem within_of_guard {p : Place} {t : Text} {ts : List Token} {ls : List Lexeme} (h : Spelled t ts)
    (hguard : guardFrom limit p ts = .ok true) (hread : readFrom 0 t = some ls) : ∀ l ∈ ls, Within t l := by
  induction h generalizing p ls with
  | nil =>
      cases hread
      exact List.forall_mem_nil _
  | @blank c t ts hc _ ih =>
      have hskip : readFrom 0 (c :: t) = readFrom 0 t := by
        rcases hc with rfl | rfl <;> simp [readFrom]
      rw [hskip] at hread
      exact fun l hl => (ih hguard hread l hl).mono (List.subset_cons_self c t)
  | @token tok t ts htok ht ih =>
      obtain ⟨p', hnext, hguard'⟩ := guardFrom_cons.mp hguard
      obtain ⟨ls?, hls, hfront⟩ := exists_lexemes htok
      rw [hfront t (ends_of_guard ht hnext hguard')] at hread
      obtain ⟨ls₁, rfl, hread⟩ := Option.bind_eq_some_iff.mp hread
      obtain ⟨ls₂, hrest, rfl⟩ := Option.map_eq_some_iff.mp hread
      intro l hl
      rcases List.mem_append.mp hl with hl | hl
      · exact (within_of_lexemesOf hls l hl).mono (List.subset_append_left _ t)
      · exact (ih hguard' hrest l hl).mono (List.subset_append_right _ t)

end Lexeme

open Pending

section Flat

variable {text : Text}

/-- A reader outside parentheses: what it holds after an operand is a number. -/
inductive Flat (text : Text) : Reading → Prop where
  | before {ps : List Pending} (h : Layered text ps) : Flat text (.before ps)
  | after {ps : List Pending} (h : Layered text ps) (i : Int) : Flat text (.after ps (.int i))

theorem Flat.step {r r' : Reading} {l : Lexeme} (hr : Flat text r) (hl : l.Within text)
    (hparen : '(' ∉ text ∧ ')' ∉ text) (h : r.step l = some r') : Flat text r' := by
  cases hl with
  | opening hmem => exact absurd hmem hparen.1
  | closing hmem => exact absurd hmem hparen.2
  | int i =>
      cases hr with
      | before hps =>
          cases h
          exact .after hps i
      | after hps j => cases h
  | invert =>
      cases hr with
      | before hps =>
          cases h
          exact .before (.tight trivial hps)
      | after hps j => cases h
  | @binary op hop =>
      cases hr with
      | @before ps hps =>
          have hunary : (unary? (.binary op)).map (fun op => Reading.before (.unary op :: ps)) = some r' := h
          obtain ⟨sign, -, rfl⟩ := Option.map_eq_some_iff.mp hunary
          exact .before (.tight trivial hps)
      | @after ps hps j =>
          cases h
          cases hbitwise : op.isBitwise with
          | true =>
              have hbarrier := (BinaryOp.rank_of_isBitwise hbitwise).2
              have hlower := loose_settle (Nat.le_of_lt hbarrier) hps (.int j)
              exact .before (.loose (List.forall_mem_cons.mpr ⟨⟨hbitwise, hop hbitwise⟩, hlower⟩))
          | false =>
              have hlower := hps.of_suffix (settle_suffix op.barrier ps (.int j))
              exact .before (.tight hbitwise hlower)

theorem Flat.run {r r' : Reading} {ls : List Lexeme} (hr : Flat text r) (hls : ∀ l ∈ ls, l.Within text)
    (hparen : '(' ∉ text ∧ ')' ∉ text) (h : ls.foldlM Reading.step r = some r') : Flat text r' := by
  induction ls generalizing r with
  | nil =>
      cases h
      exact hr
  | cons l ls ih =>
      obtain ⟨hl, hls⟩ := List.forall_mem_cons.mp hls
      rw [List.foldlM_cons] at h
      obtain ⟨r₁, hstep, h⟩ := Option.bind_eq_some_iff.mp h
      exact ih (hr.step hl hparen hstep) hls h

theorem Flat.finish {r : Reading} {tree : Tree} (hr : Flat text r) (h : r.finish = some tree) :
    (shiftLexemes.foldlM Reading.step r).bind Reading.finish = some tree.shiftLast ∧
      (tree.isBitwise = true → ∃ op : BinaryOp, op.isBitwise = true ∧ op.spelling ⊆ text) := by
  -- Bit operators are outermost only if the text has one.
  cases hr with
  | before hps => cases h
  | @after ps hps i =>
      -- the stack is settled in two stages: down to the bit operators, and then to its end
      have hloose := loose_settle (Nat.le_refl 4) hps (.int i)
      have htight := settle_shift hps (t := .int i) rfl
      have hstages := settle_settle (Nat.zero_le 4) ps (.int i)
      obtain ⟨lower, u, hlower⟩ : ∃ lower u, settle 4 ps (.int i) = (lower, u) := ⟨_, _, rfl⟩
      rw [hlower] at hloose htight hstages
      have hsettled : settle 0 ps (.int i) = ([], tree) := by
        rw [Reading.finish] at h
        split at h
        · next t' heq =>
          rw [heq, Option.some.inj h]
        · cases h
      rw [hsettled] at hstages
      constructor
      · have hshifted := settle_loose hloose u
        rw [hstages, Tree.shiftLast_of_not_isBitwise htight] at hshifted
        have hfold : shiftLexemes.foldlM Reading.step (.after ps (.int i)) =
            some (.after (.binary .shiftRight u :: lower) (.int 12)) := by
          simp [shiftLexemes, Reading.step, BinaryOp.barrier, BinaryOp.rank, hlower]
        rw [hfold, Option.bind_some, Reading.finish]
        have hsettle : settle 0 (.binary .shiftRight u :: lower) (.int 12) = ([], tree.shiftLast) := hshifted
        rw [hsettle]
      · intro hbitwise
        cases lower with
        | nil =>
            obtain ⟨-, rfl⟩ := Prod.mk.inj hstages
            rw [htight] at hbitwise
            cases hbitwise
        | cons p lower =>
            have hp := hloose p List.mem_cons_self
            cases p with
            | binary op l => exact ⟨op, hp.1, hp.2⟩
            | unary op | group | call f => exact hp.elim

end Flat

/-- Outside parentheses a shift behind the text shifts the last operand of the outermost bit operators,
and if the text has none, the whole expression. -/
theorem parse?_append {t : Text} {tree : Tree} (h : isExpr limit t = .ok true) (hparen : '(' ∉ t ∧ ')' ∉ t)
    (htree : Tree.parse? t = some tree) :
    Tree.parse? (t ++ shiftText) = some tree.shiftLast ∧
      (tree.isBitwise = true → ∃ op : BinaryOp, op.isBitwise = true ∧ op.spelling ⊆ t) := by
  obtain ⟨ts, hts, hguard⟩ := isExpr_eq_true.mp h
  have hspelled : Spelled t ts := spelled_of_readFrom hts
  obtain ⟨ls, hread, htree⟩ := Option.bind_eq_some_iff.mp htree
  obtain ⟨r, hfold, hfinish⟩ := Option.bind_eq_some_iff.mp htree
  have hflat : Flat t (.before []) := .before (.loose (List.forall_mem_nil _))
  have hr := hflat.run (Lexeme.within_of_guard hspelled hguard hread) hparen hfold
  obtain ⟨hshifted, hbitwise⟩ := hr.finish hfinish
  refine ⟨?_, hbitwise⟩
  have hread' : Lexeme.readAll (t ++ shiftText) = some (ls ++ shiftLexemes) := by
    rw [Lexeme.readAll, Lexeme.readFrom_append hspelled hguard]
    exact congrArg (Option.map (· ++ shiftLexemes)) hread
  simp only [Tree.parse?, hread', Option.bind_eq_bind, Option.bind_some, List.foldlM_append, hfold]
  exact hshifted

theorem evaluate_eq_ok {t : Text} {n : Num} :
    evaluate t = .ok n ↔ ∃ tree, Tree.parse? t = some tree ∧ tree.eval = .ok n := by
  unfold evaluate
  cases Tree.parse? t with
  | none => simp
  | some tree => simp

theorem evaluate_append {t : Text} {n : Int} (h : isExpr limit t = .ok true) (hparen : '(' ∉ t ∧ ')' ∉ t)
    (hn : evaluate t = .ok (.int n)) :
    ∃ tree v, Tree.parse? t = some tree ∧ tree.shiftLast.eval = .ok (.int v) ∧
      evaluate (t ++ shiftText) = .ok (.int v) ∧
      ((∀ c ∈ t, c ≠ '&' ∧ c ≠ '^' ∧ c ≠ '|') → v = Bits.shiftRight n 12) := by
  obtain ⟨tree, htree, heval⟩ := evaluate_eq_ok.mp hn
  obtain ⟨hparse, hbitwise⟩ := parse?_append h hparen htree
  obtain ⟨v, hv⟩ := Tree.exists_eval_shiftLast heval
  refine ⟨tree, v, htree, hv, evaluate_eq_ok.mpr ⟨_, hparse, hv⟩, fun hplain => ?_⟩
  have hwhole : tree.isBitwise = false := by
    cases hcase : tree.isBitwise with
    | false => rfl
    | true =>
        obtain ⟨op, hop, hspelling⟩ := hbitwise hcase
        cases op with
        | and => exact absurd rfl (hplain '&' (hspelling List.mem_cons_self)).1
        | xor => exact absurd rfl (hplain '^' (hspelling List.mem_cons_self)).2.1
        | or => exact absurd rfl (hplain '|' (hspelling List.mem_cons_self)).2.2
        | _ => cases hop
  rw [Tree.shiftLast_of_not_isBitwise hwhole, Tree.eval_shiftRight heval] at hv
  cases hv
  rfl

namespace Token

theorem mem_number {s : Text} (h : Proper (.number s)) {c : Char} (hc : c ∈ s) :
    Text.isWord c = true ∨ c = '+' ∨ c = '-' := by
  cases h with
  | @number sign ds hsign hds =>
      rcases List.mem_append.mp hc with hc | hc
      · rcases (by simpa [signs] using hsign) with rfl | rfl | rfl
        · cases hc
        · exact .inr (.inl (List.mem_singleton.mp hc))
        · exact .inr (.inr (List.mem_singleton.mp hc))
      · exact .inl (Lexeme.isWord_of_numeral hds hc)

theorem newline_notMem_spelling {tok : Token} (h : Proper tok) : '\n' ∉ tok.spelling := by
  cases h with
  | number hsign hds =>
      intro hc
      rcases mem_number (.number hsign hds) hc with hword | hsign' | hsign'
      · exact absurd hword (by decide)
      · cases hsign'
      · cases hsign'
  | operator hs =>
      have hall : (operators.all fun s => !s.contains '\n') = true := by decide
      simpa [spelling] using List.all_eq_true.mp hall _ hs
  | unary hs =>
      have hall : (unaries.all fun s => !s.contains '\n') = true := by decide
      simpa [spelling] using List.all_eq_true.mp hall _ hs
  | opening | closing => decide

theorem newline_notMem_of_spelled {t : Text} {ts : List Token} (h : Spelled t ts) : '\n' ∉ t := by
  induction h with
  | nil => exact List.not_mem_nil
  | blank hc _ ih =>
      rw [List.mem_cons, not_or]
      refine ⟨?_, ih⟩
      rcases hc with rfl | rfl <;> decide
  | token htok _ ih =>
      rw [List.mem_append, not_or]
      exact ⟨newline_notMem_spelling htok, ih⟩

end Token

theorem Token.proper_of_spelled {t : Text} {ts : List Token}
    (h : Spelled t ts) : ∀ tok ∈ ts, Proper tok := by
  induction h with
  | nil => exact List.forall_mem_nil _
  | blank _ _ ih => exact ih
  | token htok _ ih => exact List.forall_mem_cons.mpr ⟨htok, ih⟩

theorem isExpr_of_literal {t : Text} (h : readAll t = some [.number t]) :
    isExpr limit t = .ok true ∧ ∀ c ∈ t, Text.isWord c = true ∨ c = '+' ∨ c = '-' := by
  have hproper := proper_of_spelled (spelled_of_readFrom h) (.number t) List.mem_cons_self
  refine ⟨?_, fun c hc => mem_number hproper hc⟩
  rw [isExpr, h]
  rfl

theorem newline_notMem_of_isExpr {t : Text} (h : isExpr limit t = .ok true) : '\n' ∉ t := by
  obtain ⟨ts, hts, -⟩ := isExpr_eq_true.mp h
  exact newline_notMem_of_spelled (spelled_of_readFrom hts)

end RvToolkit.Expr
