import RvToolkit.Proofs.Effect
import RvToolkit.Proofs.Expr.Lexing

namespace RvToolkit.Expr

open Token

namespace Tree

def names : Tree → List Text
  | .int _ | .real _ => []
  | .name n => [n]
  | .unary _ t => t.names
  | .binary _ l r => l.names ++ r.names
  | .call f => f.names
  | .apply f arg => f.names ++ arg.names

end Tree

namespace Place

def next? (limit : Nat) : Place → Token → Option Place
  | .before d, .unary _ => some (.before d)
  | .before d, .number _ => some (.after d)
  | .before d, .opening => if d < limit then some (.before (d + 1)) else none
  | .after d, .operator _ => some (.before d)
  | .after (d + 1), .closing => some (.after d)
  | _, _ => none

theorem next?_opening {limit d : Nat} {p : Place} (h : (before d).next? limit .opening = some p) :
    d < limit ∧ p = .before (d + 1) := by
  rw [next?] at h
  split at h
  · cases h
    exact ⟨‹_›, rfl⟩
  · cases h

end Place

variable {limit : Nat}

theorem guardFrom_nil {p : Place} : guardFrom limit p [] = .ok true ↔ p = .after 0 := by
  cases p with
  | before d => simp [guardFrom]
  | after d => cases d <;> simp [guardFrom]

theorem guardFrom_cons {p : Place} {tok : Token} {ts : List Token} :
    guardFrom limit p (tok :: ts) = .ok true ↔ ∃ p', p.next? limit tok = some p' ∧ guardFrom limit p' ts = .ok true := by
  cases p with
  | before d =>
      cases tok with
      | opening =>
          rw [guardFrom, Place.next?]
          split <;> simp
      | _ => simp [guardFrom, Place.next?]
  | after d => cases d <;> cases tok <;> simp [guardFrom, Place.next?]

theorem guardFrom_error {p : Place} {ts : List Token} {f : Fault} (h : guardFrom limit p ts = .error f) :
    f = .tooDeep ∨ ∃ c, f = .parse c := by
  fun_induction guardFrom limit p ts <;> simp_all
  all_goals exact .inr ⟨_, h.symm⟩

theorem recover_eq_true {x : Except Fault Bool} : Fault.recover false x = .ok true ↔ x = .ok true := by
  cases x with
  | ok b => rfl
  | error e =>
      rw [Fault.recover]
      split <;> simp

theorem isExpr_eq_true {t : Text} :
    isExpr limit t = .ok true ↔ ∃ ts, readAll t = some ts ∧ guardFrom limit (.before 0) ts = .ok true := by
  unfold isExpr
  cases readAll t with
  | none => simp
  | some ts => simp [recover_eq_true]

section Ends

variable {d : Nat} {t : Text} {ts : List Token}

theorem bounded_of_guard (h : Spelled t ts) (hguard : guardFrom limit (.after d) ts = .ok true) :
    Lexeme.Bounded t := by
  cases h with
  | nil => exact Lexeme.bounded_nil
  | blank hc _ =>
      apply Lexeme.bounded_cons.mpr
      rcases hc with rfl | rfl <;> decide
  | @token tok t ts htok _ =>
      obtain ⟨p', hnext, -⟩ := guardFrom_cons.mp hguard
      cases htok with
      | number | unary | opening => cases d <;> cases hnext
      | operator hs =>
          have hall : ∀ s ∈ operators, ∃ c cs, s = c :: cs ∧ Text.isWord c = false ∧ c ≠ '.' := by
            simp [operators]
            decide
          obtain ⟨c, cs, rfl, hc⟩ := hall _ hs
          exact Lexeme.bounded_cons.mpr hc
      | closing => exact Lexeme.bounded_cons.mpr (by decide)

theorem head?_of_guard (h : Spelled t ts) (hguard : guardFrom limit (.before d) ts = .ok true) :
    t.head? ≠ some '*' ∧ t.head? ≠ some '/' := by
  cases h with
  | nil => cases hguard
  | blank hc _ => rcases hc with rfl | rfl <;> simp
  | @token tok t ts htok _ =>
      obtain ⟨p', hnext, -⟩ := guardFrom_cons.mp hguard
      cases htok with
      | operator | closing => cases hnext
      | @number sign ds hsign hds =>
          obtain ⟨c, ds', rfl, hdigit⟩ := hds.exists_cons
          have hc : c ≠ '*' ∧ c ≠ '/' := by
            constructor <;> (rintro rfl; revert hdigit; decide)
          rcases (by simpa [signs] using hsign) with rfl | rfl | rfl <;> simp [spelling, hc]
      | unary hs => rcases (by simpa [unaries] using hs) with rfl | rfl <;> simp [spelling]
      | opening => simp [spelling]

theorem ends_of_guard {p p' : Place} {tok : Token} (h : Spelled t ts) (hnext : p.next? limit tok = some p')
    (hguard : guardFrom limit p' ts = .ok true) : Lexeme.Ends tok t := by
  cases tok with
  | number s =>
      cases p with
      | before d =>
          cases hnext
          exact bounded_of_guard h hguard
      | after d => cases d <;> cases hnext
  | operator s =>
      cases p with
      | before d => cases hnext
      | after d =>
          cases hnext
          exact head?_of_guard h hguard
  | unary | opening | closing => trivial

end Ends

namespace Pending

/-- No name and no call waits. -/
def Plain : Pending → Prop
  | .unary _ | .group => True
  | .binary _ l => l.names = []
  | .call _ => False

def isGroup : Pending → Bool
  | .group => true
  | _ => false

def depth (ps : List Pending) : Nat := ps.countP isGroup

@[simp]
theorem depth_group (ps : List Pending) : depth (.group :: ps) = depth ps + 1 :=
  List.countP_cons_of_pos rfl

theorem settle_plain (barrier : Nat) {ps : List Pending} {t : Tree} (hps : ∀ p ∈ ps, p.Plain)
    (ht : t.names = []) :
    (∀ p ∈ (settle barrier ps t).1, p.Plain) ∧ (settle barrier ps t).2.names = [] ∧
      depth (settle barrier ps t).1 = depth ps := by
  induction ps generalizing t with
  | nil => exact ⟨hps, ht, rfl⟩
  | cons p ps ih =>
      have hrest : ∀ q ∈ ps, q.Plain := fun q hq => hps q (by simp [hq])
      cases p with
      | unary op =>
          rw [settle]
          split
          · exact ih hrest ht
          · exact ⟨hps, ht, rfl⟩
      | binary op l =>
          have hl : l.names = [] := hps (.binary op l) (by simp)
          rw [settle]
          split
          · have hnames : (Tree.binary op l t).names = [] := by rw [Tree.names, hl, ht, List.append_nil]
            exact ih hrest hnames
          · exact ⟨hps, ht, rfl⟩
      | group | call f => exact ⟨hps, ht, rfl⟩

theorem settle_zero {ps : List Pending} (hps : ∀ p ∈ ps, p.Plain) (t : Tree) :
    (settle 0 ps t).1 = [] ∨ ∃ ps', (settle 0 ps t).1 = .group :: ps' := by
  induction ps generalizing t with
  | nil => exact .inl rfl
  | cons p ps ih =>
      have hrest : ∀ q ∈ ps, q.Plain := fun q hq => hps q (by simp [hq])
      cases p with
      | unary op => exact ih hrest (.unary op t)
      | binary op l => exact ih hrest (.binary op l t)
      | group => exact .inr ⟨ps, rfl⟩
      | call f => exact (hps (.call f) (by simp)).elim

end Pending

open Pending

/-- The guard and the reader stand at the same place, under as many open parentheses. -/
inductive Stands : Place → Reading → Prop where
  | before {d : Nat} {ps : List Pending} (hps : ∀ p ∈ ps, p.Plain) (hd : depth ps = d) :
      Stands (.before d) (.before ps)
  | after {d : Nat} {ps : List Pending} {t : Tree} (hps : ∀ p ∈ ps, p.Plain) (ht : t.names = [])
      (hd : depth ps = d) : Stands (.after d) (.after ps t)

theorem stands_step {p p' : Place} {tok : Token} {ls : List Lexeme} {r : Reading}
    (hnext : p.next? limit tok = some p') (hls : Lexeme.LexemesOf tok (some ls)) (hr : Stands p r) :
    ∃ r', ls.foldlM Reading.step r = some r' ∧ Stands p' r' := by
  cases hr with
  | @before d ps hps hd =>
      have hcons {q : Pending} (hq : q.Plain) : ∀ p ∈ q :: ps, p.Plain :=
        List.forall_mem_cons.mpr ⟨hq, hps⟩
      cases hls with
      | number s i =>
          cases hnext
          exact ⟨.after ps (.int i), rfl, .after hps rfl hd⟩
      | signed s hop i =>
          cases hnext
          rcases hop with rfl | rfl
          · exact ⟨.after (.unary .plus :: ps) (.int i), rfl, .after (hcons trivial) rfl hd⟩
          · exact ⟨.after (.unary .minus :: ps) (.int i), rfl, .after (hcons trivial) rfl hd⟩
      | invert =>
          cases hnext
          exact ⟨.before (.unary .invert :: ps), rfl, .before (hcons trivial) hd⟩
      | opening =>
          obtain ⟨-, rfl⟩ := Place.next?_opening hnext
          exact ⟨.before (.group :: ps), rfl, .before (hcons trivial) (by rw [depth_group, hd])⟩
      | operator | closing => cases hnext
  | @after d ps t hps ht hd =>
      cases hls with
      | @operator op s _ =>
          cases hnext
          obtain ⟨hps', ht', hdepth⟩ := settle_plain op.barrier hps ht
          refine ⟨_, rfl, .before (List.forall_mem_cons.mpr ⟨ht', hps'⟩) ?_⟩
          exact hdepth.trans hd
      | closing =>
          cases d with
          | zero => cases hnext
          | succ d =>
              cases hnext
              obtain ⟨hps', ht', hdepth⟩ := settle_plain 0 hps ht
              -- Some parenthesis is open, so the reader's stack does not run out before a group.
              rcases settle_zero hps t with hnil | ⟨rest, hrest⟩
              · rw [hnil, hd] at hdepth
                cases hdepth
              · obtain ⟨q, t', hsettle⟩ : ∃ q t', settle 0 ps t = (q, t') := ⟨_, _, rfl⟩
                rw [hsettle] at hrest hps' ht' hdepth
                obtain rfl : q = .group :: rest := hrest
                refine ⟨.after rest t', by simp [Reading.step, hsettle], ?_⟩
                refine .after (List.forall_mem_cons.mp hps').2 ht' ?_
                rw [depth_group, hd] at hdepth
                exact Nat.succ.inj hdepth
      | number | signed | invert | opening => cases d <;> cases hnext

theorem finish_of_stands {r : Reading} (hr : Stands (.after 0) r) :
    ∃ tree, r.finish = some tree ∧ tree.names = [] := by
  cases hr with
  | @after _ ps t hps ht hd =>
      obtain ⟨-, ht', hdepth⟩ := settle_plain 0 hps ht
      obtain ⟨q, t', hsettle⟩ : ∃ q t', settle 0 ps t = (q, t') := ⟨_, _, rfl⟩
      rcases settle_zero hps t with hnil | ⟨rest, hrest⟩
      · rw [hsettle] at hnil ht'
        obtain rfl : q = [] := hnil
        exact ⟨t', by simp [Reading.finish, hsettle], ht'⟩
      · rw [hrest, depth_group, hd] at hdepth
        cases hdepth

theorem readFrom_of_guard {t : Text} {ts : List Token} {p : Place} {r : Reading} (h : Spelled t ts)
    (hguard : guardFrom limit p ts = .ok true) (hr : Stands p r) :
    (Token.unary ['!'] ∉ ts ∧ ∃ ls r', Lexeme.readFrom 0 t = some ls ∧
        ls.foldlM Reading.step r = some r' ∧ Stands (.after 0) r') ∨
      (Lexeme.readFrom 0 t = none ∧ (Token.unary ['!'] ∈ ts ∨
        ∃ ds, ds <:+: t ∧ (∀ d ∈ ds, d.isDigit = true) ∧ Number.maxDigits < ds.length)) := by
  induction h generalizing p r with
  | nil =>
      obtain rfl := guardFrom_nil.mp hguard
      exact .inl ⟨List.not_mem_nil, [], r, rfl, rfl, hr⟩
  | @blank c t ts hc _ ih =>
      have hskip : Lexeme.readFrom 0 (c :: t) = Lexeme.readFrom 0 t := by
        rcases hc with rfl | rfl <;> simp [Lexeme.readFrom]
      rw [hskip]
      refine (ih hguard hr).imp_right (And.imp_right (Or.imp_right ?_))
      rintro ⟨ds, hwithin, hds⟩
      exact ⟨ds, hwithin.trans (List.suffix_cons c t).isInfix, hds⟩
  | @token tok t ts htok ht ih =>
      obtain ⟨p', hnext, hguard'⟩ := guardFrom_cons.mp hguard
      obtain ⟨ls?, hls, hread⟩ := Lexeme.exists_lexemes htok
      rw [hread t (ends_of_guard ht hnext hguard')]
      cases ls? with
      | none =>
          refine .inr ⟨rfl, ?_⟩
          cases hls with
          | long hwithin hds hlong =>
              exact .inr ⟨_, hwithin.trans (List.prefix_append _ t).isInfix, hds, hlong⟩
          | unknown => exact .inl List.mem_cons_self
      | some ls =>
          have htilde : Token.unary ['!'] ≠ tok := by
            rintro rfl
            cases hls
          obtain ⟨r₁, hstep, hr₁⟩ := stands_step hnext hls hr
          rcases ih hguard' hr₁ with ⟨hmem, ls', r₂, hread', hfold, hr₂⟩ | ⟨hnone, hcause⟩
          · refine .inl ⟨by simp [htilde, hmem], ls ++ ls', r₂, by simp [hread'], ?_, hr₂⟩
            rw [List.foldlM_append, hstep]
            exact hfold
          · refine .inr ⟨by simp [hnone], hcause.imp (List.mem_cons_of_mem tok) ?_⟩
            rintro ⟨ds, hwithin, hds⟩
            exact ⟨ds, hwithin.trans (List.suffix_append tok.spelling t).isInfix, hds⟩

theorem mem_spelling_iff {tok : Token} (htok : Proper tok) : '!' ∈ tok.spelling ↔ tok = .unary ['!'] := by
  cases htok with
  | @number sign ds hsign hds =>
      have hword : '!' ∉ ds := fun h => absurd (Lexeme.isWord_of_numeral hds h) (by decide)
      rcases (by simpa [signs] using hsign) with rfl | rfl | rfl <;> simp [spelling, hword]
  | operator hs =>
      rcases (by simpa [operators] using hs) with rfl | rfl | rfl | rfl | rfl | rfl | rfl | rfl | rfl <;>
        simp [spelling]
  | unary hs => rcases (by simpa [unaries] using hs) with rfl | rfl <;> simp [spelling]
  | opening => simp [spelling]
  | closing => simp [spelling]

theorem mem_iff_of_spelled {t : Text} {ts : List Token} (h : Spelled t ts) :
    '!' ∈ t ↔ Token.unary ['!'] ∈ ts := by
  induction h with
  | nil => simp
  | blank hc _ ih => rcases hc with rfl | rfl <;> simpa using ih
  | token htok _ ih => rw [List.mem_append, mem_spelling_iff htok, ih, List.mem_cons, eq_comm]

/-- If it fails, then by the arithmetic and not by the text. -/
def Arithmetic {α : Type} (x : Except EvalError α) : Prop :=
  x ≠ .error .malformed ∧ ∀ name, x ≠ .error (.undefined name)

section Arithmetic

variable {α β : Type}

@[simp]
theorem arithmetic_ok (a : α) : Arithmetic (.ok a : Except EvalError α) := by
  simp [Arithmetic]

@[simp]
theorem arithmetic_error {e : EvalError} :
    Arithmetic (.error e : Except EvalError α) ↔ e ≠ .malformed ∧ ∀ name, e ≠ .undefined name := by
  simp [Arithmetic]

@[simp]
theorem arithmetic_ite {p : Prop} [Decidable p] {x y : Except EvalError α} (hx : Arithmetic x)
    (hy : Arithmetic y) : Arithmetic (if p then x else y) := by
  split <;> assumption

theorem Arithmetic.bind {x : Except EvalError α} {f : α → Except EvalError β} (hx : Arithmetic x)
    (hf : ∀ a, Arithmetic (f a)) : Arithmetic (x >>= f) := by
  cases x with
  | error e => exact arithmetic_error.mpr (arithmetic_error.mp hx)
  | ok a => exact hf a

@[simp]
theorem arithmetic_toDouble (n : Num) : Arithmetic n.toDouble := by
  fun_cases Num.toDouble n <;> simp

@[simp]
theorem arithmetic_onDoubles {f : Float → Float → Except EvalError Float} (hf : ∀ x y, Arithmetic (f x y))
    (l r : Num) : Arithmetic (onDoubles f l r) :=
  (arithmetic_toDouble l).bind fun x => (arithmetic_toDouble r).bind fun y =>
    (hf x y).bind fun z => arithmetic_ok (Num.real z)

@[simp]
theorem arithmetic_power (x y : Float) : Arithmetic (power x y) := by
  simp [power]

@[simp]
theorem arithmetic_shiftLeftInt (a : Int) (k : Nat) : Arithmetic (shiftLeftInt a k) := by
  simp [shiftLeftInt]

theorem BinaryOp.arithmetic_apply (op : BinaryOp) (l r : Num) : Arithmetic (op.apply l r) := by
  fun_cases BinaryOp.apply op l r <;> simp +zetaDelta

theorem UnaryOp.arithmetic_apply (op : UnaryOp) (n : Num) : Arithmetic (op.apply n) := by
  fun_cases UnaryOp.apply op n <;> simp

theorem Tree.arithmetic_eval {t : Tree} (ht : t.names = []) : Arithmetic t.eval := by
  induction t with
  | int | real => exact arithmetic_ok _
  | name n => cases ht
  | unary op t ih => exact (ih ht).bind op.arithmetic_apply
  | binary op l r ihl ihr =>
      obtain ⟨hl, hr⟩ := List.append_eq_nil_iff.mp ht
      exact (ihl hl).bind fun a => (ihr hr).bind (op.arithmetic_apply a)
  | call f ih => exact (ih ht).bind fun a => by simp
  | apply f arg ihf iharg =>
      obtain ⟨hf, harg⟩ := List.append_eq_nil_iff.mp ht
      exact (ihf hf).bind fun a => (iharg harg).bind fun b => by simp

end Arithmetic

/-- What the guard accepts has no name in it, and it can be read if and only if it has no exclamation
mark. Numbers with more digits than a literal may have are left aside. -/
theorem evaluate_of_isExpr {s : Text} (h : isExpr limit s = .ok true) :
    (∀ name, evaluate s ≠ .error (.undefined name)) ∧
      ((∀ ds, ds <:+: s → (∀ d ∈ ds, d.isDigit = true) → ds.length ≤ Number.maxDigits) →
        (evaluate s = .error .malformed ↔ '!' ∈ s)) := by
  obtain ⟨ts, hts, hguard⟩ := isExpr_eq_true.mp h
  have hspelled : Spelled s ts := spelled_of_readFrom hts
  rw [mem_iff_of_spelled hspelled]
  rcases readFrom_of_guard hspelled hguard (.before (List.forall_mem_nil _) rfl) with
    ⟨hmem, ls, r, hread, hfold, hr⟩ | ⟨hnone, hcause⟩
  · obtain ⟨tree, hfinish, hnames⟩ := finish_of_stands hr
    have heval : evaluate s = tree.eval := by
      simp [evaluate, Tree.parse?, Lexeme.readAll, hread, hfold, hfinish]
    obtain ⟨hreadable, hdefined⟩ := Tree.arithmetic_eval hnames
    rw [heval]
    exact ⟨hdefined, fun _ => iff_of_false hreadable hmem⟩
  · have heval : evaluate s = .error .malformed := by
      simp [evaluate, Tree.parse?, Lexeme.readAll, hnone]
    rw [heval]
    refine ⟨by simp, fun hshort => iff_of_true rfl (hcause.resolve_right ?_)⟩
    rintro ⟨ds, hwithin, hds, hlong⟩
    exact absurd (hshort ds hwithin hds) (Nat.not_le.mpr hlong)

theorem evaluate_tilde_bang :
    (isExpr 1 "~(0x1F << 2) - -3".toList = .ok true ∧
      evaluate "~(0x1F << 2) - -3".toList ≠ .error .malformed) ∧
    isExpr 1 "!(5)".toList = .ok true ∧ evaluate "!(5)".toList = .error .malformed := by
  have hshort {s ds : Text} (hs : s.length ≤ Number.maxDigits) (hwithin : ds <:+: s) :
      ds.length ≤ Number.maxDigits := hwithin.length_le.trans hs
  have htilde : isExpr 1 "~(0x1F << 2) - -3".toList = .ok true :=
    Except.eq_ok_of_toOption (by decide)
  have hbang : isExpr 1 "!(5)".toList = .ok true := Except.eq_ok_of_toOption (by decide)
  refine ⟨⟨htilde, ?_⟩, hbang, ?_⟩
  · exact mt ((evaluate_of_isExpr htilde).2 fun ds hwithin _ => hshort (by decide) hwithin).mp (by decide)
  · exact ((evaluate_of_isExpr hbang).2 fun ds hwithin _ => hshort (by decide) hwithin).mpr (by decide)

end RvToolkit.Expr
