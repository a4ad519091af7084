import Mathlib.Data.List.TakeWhile
import RvToolkit.Expr.Eval
import RvToolkit.Expr.Guard

namespace RvToolkit.Expr

namespace Token

def spelling : Token → Text
  | .number s | .operator s | .unary s => s
  | .opening => ['(']
  | .closing => [')']

inductive Numeral : Text → Prop where
  | zero : Numeral ['0']
  | decimal {c : Char} {ds : Text} (hc : '1' ≤ c ∧ c ≤ '9') (hds : ∀ d ∈ ds, d.isDigit = true) :
      Numeral (c :: ds)
  | marked {m : Char} {digit : Char → Bool} {ds : Text} (hm : marked? m = some digit) (hne : ds ≠ [])
      (hds : ∀ d ∈ ds, digit d = true) : Numeral ('0' :: m :: ds)

theorem isDigit_of_le {c : Char} (h : '1' ≤ c ∧ c ≤ '9') : c.isDigit = true := by
  simp only [Char.isDigit, Bool.and_eq_true, decide_eq_true_eq]
  exact ⟨Char.le_trans (by decide) h.1, h.2⟩

theorem Numeral.exists_cons {ds : Text} (h : Numeral ds) : ∃ d ds', ds = d :: ds' ∧ d.isDigit = true := by
  cases h with
  | zero => exact ⟨_, _, rfl, rfl⟩
  | decimal hc hds => exact ⟨_, _, rfl, isDigit_of_le hc⟩
  | marked hm hne hds => exact ⟨_, _, rfl, rfl⟩

def signs : List Text := [[], ['+'], ['-']]

def operators : List Text :=
  [['+'], ['-'], ['*'], ['/'], ['&'], ['|'], ['^'], ['<', '<'], ['>', '>']]

def unaries : List Text := [['~'], ['!']]

theorem marked?_eq_some {m : Char} {digit : Char → Bool} (h : marked? m = some digit) :
    (m = 'b' ∨ m = 'B') ∧ digit = Text.isBinDigit ∨ (m = 'x' ∨ m = 'X') ∧ digit = Text.isHexDigit ∨
      (m = 'o' ∨ m = 'O') ∧ digit = Text.isOctDigit := by
  unfold marked? at h
  split at h
  · rename_i hm
    exact .inl ⟨by simpa using hm, (Option.some.inj h).symm⟩
  · split at h
    · rename_i hm
      exact .inr (.inl ⟨by simpa using hm, (Option.some.inj h).symm⟩)
    · split at h
      · rename_i hm
        exact .inr (.inr ⟨by simpa using hm, (Option.some.inj h).symm⟩)
      · cases h

/-- The tokens that can be read from a text. -/
inductive Proper : Token → Prop where
  | number {sign ds : Text} (hsign : sign ∈ signs) (hds : Numeral ds) : Proper (.number (sign ++ ds))
  | operator {s : Text} (hs : s ∈ operators) : Proper (.operator s)
  | unary {s : Text} (hs : s ∈ unaries) : Proper (.unary s)
  | opening : Proper .opening
  | closing : Proper .closing

theorem take_length_takeWhile (p : Char → Bool) (cs : Text) :
    cs.take (cs.takeWhile p).length = cs.takeWhile p :=
  (List.prefix_iff_eq_take.mp (List.takeWhile_prefix p)).symm

theorem numeral_of_magnitude {t : Text} (h : magnitude t ≠ 0) : Numeral (t.take (magnitude t)) := by
  fun_cases magnitude t with
  | case1 m cs digit hm n hn => exact .zero
  | case2 m cs digit hm n hn =>
      have htake : ('0' :: m :: cs).take (n + 2) = '0' :: m :: cs.takeWhile digit := by
        rw [List.take_succ_cons, List.take_succ_cons, take_length_takeWhile]
      rw [htake]
      refine .marked hm ?_ ?_
      · exact fun hempty => hn (by simp [n, hempty])
      · exact fun d hd => List.mem_takeWhile_imp hd
  | case3 => exact .zero
  | case4 => exact .zero
  | case5 c cs _ _ hc =>
      rw [Nat.add_comm, List.take_succ_cons, take_length_takeWhile]
      exact .decimal (by simpa using hc) fun d hd => List.mem_takeWhile_imp hd
  | case6 c cs _ _ hc => simp_all [magnitude]
  | case7 => simp [magnitude] at h

theorem numeral_of_numberLength {t : Text} (h : numberLength t ≠ 0) :
    ∃ sign ∈ signs, ∃ ds, Numeral ds ∧ t.take (numberLength t) = sign ++ ds := by
  fun_cases numberLength t with
  | case1 c cs hc hzero => simp [numberLength, hc, hzero] at h
  | case2 c cs hc hn =>
      refine ⟨[c], ?_, cs.take (magnitude cs), numeral_of_magnitude hn, rfl⟩
      rcases (by simpa using hc : c = '+' ∨ c = '-') with rfl | rfl <;> decide
  | case3 c cs hc =>
      refine ⟨[], by decide, (c :: cs).take (magnitude (c :: cs)), numeral_of_magnitude ?_, rfl⟩
      simpa [numberLength, hc] using h
  | case4 => simp [numberLength] at h

theorem operator_of_operatorLength {t : Text} (h : operatorLength t ≠ 0) :
    t.take (operatorLength t) ∈ operators := by
  fun_cases operatorLength t with
  | case1 => exact (by decide : ['<', '<'] ∈ operators)
  | case2 => exact (by decide : ['>', '>'] ∈ operators)
  | case3 c cs _ _ hc =>
      have hall : ("+-*/&|^".toList.all fun c => operators.contains [c]) = true := by decide
      exact List.contains_iff_mem.mp (List.all_eq_true.mp hall c (by simpa using hc))
  | case4 => simp_all [operatorLength]
  | case5 => simp [operatorLength] at h

def Front.Stands (t : Text) : Front → Prop
  | .token tok n => Proper tok ∧ t.take n = tok.spelling ∧ 0 < n
  | .skip => t.head? = some ' ' ∨ t.head? = some '\t'
  | .unreadable => True

theorem front_stands (c : Char) (cs : Text) : (front c cs).Stands (c :: cs) := by
  fun_cases front c cs with
  | case1 n hn =>
      obtain ⟨sign, hsign, ds, hds, htake⟩ := numeral_of_numberLength (t := c :: cs) (by omega)
      rw [hn] at htake
      refine ⟨?_, rfl, Nat.succ_pos n⟩
      rw [htake]
      exact .number hsign hds
  | case2 _ n hn =>
      have hop := operator_of_operatorLength (t := c :: cs) (by omega)
      rw [hn] at hop
      exact ⟨.operator hop, rfl, Nat.succ_pos n⟩
  | case3 _ _ hc =>
      refine ⟨.unary ?_, rfl, Nat.one_pos⟩
      rcases (by simpa using hc : c = '~' ∨ c = '!') with rfl | rfl <;> decide
  | case4 _ _ _ hc => exact ⟨.opening, by rw [hc]; rfl, Nat.one_pos⟩
  | case5 _ _ _ _ hc => exact ⟨.closing, by rw [hc]; rfl, Nat.one_pos⟩
  | case6 _ _ _ _ _ hc => simpa [Front.Stands] using hc
  | case7 => trivial

/-- A text made of tokens, with blanks before and after each of them. -/
inductive Spelled : Text → List Token → Prop where
  | nil : Spelled [] []
  | blank {c : Char} {t : Text} {ts : List Token} (hc : c = ' ' ∨ c = '\t') (h : Spelled t ts) :
      Spelled (c :: t) ts
  | token {tok : Token} {t : Text} {ts : List Token} (htok : Proper tok) (h : Spelled t ts) :
      Spelled (tok.spelling ++ t) (tok :: ts)

theorem spelled_of_readFrom {k : Nat} {t : Text} {ts : List Token} (h : readFrom k t = some ts) :
    Spelled (t.drop k) ts := by
  induction t generalizing k ts with
  | nil =>
      obtain rfl : [] = ts := by simpa [readFrom] using h
      rw [List.drop_nil]
      exact .nil
  | cons c cs ih =>
      cases k with
      | succ k => exact ih h
      | zero =>
          have hstands := front_stands c cs
          rw [readFrom] at h
          cases hfront : front c cs with
          | token tok n =>
              rw [hfront] at h hstands
              obtain ⟨ts', hrest, rfl⟩ := Option.map_eq_some_iff.mp h
              obtain ⟨hproper, htake, hn⟩ := hstands
              obtain ⟨m, rfl⟩ : ∃ m, n = m + 1 := ⟨n - 1, by omega⟩
              have hsplit : c :: cs = tok.spelling ++ cs.drop m := by
                rw [← htake]
                exact (List.take_append_drop (m + 1) (c :: cs)).symm
              rw [List.drop_zero, hsplit]
              exact .token hproper (ih hrest)
          | skip =>
              rw [hfront] at h hstands
              exact .blank (by simpa [Front.Stands] using hstands) (ih h)
          | unreadable => simp [hfront] at h

end Token

namespace Lexeme

open Token

/-- Nothing that could be taken for more of a number follows. -/
def Bounded (rest : Text) : Prop := ∀ c ∈ rest.head?, Text.isWord c = false ∧ c ≠ '.'

theorem bounded_nil : Bounded [] := by
  intro c hc
  cases hc

theorem bounded_cons {c : Char} {rest : Text} :
    Bounded (c :: rest) ↔ Text.isWord c = false ∧ c ≠ '.' := by
  simp [Bounded]

theorem readFrom_eq_drop (k : Nat) (t : Text) : readFrom k t = readFrom 0 (t.drop k) := by
  induction t generalizing k with
  | nil => rw [List.drop_nil, readFrom, readFrom]
  | cons c cs ih =>
      cases k with
      | zero => rfl
      | succ k => exact ih k

theorem runFrom_append {digit : Char → Bool} (needed : Bool) {ds rest : Text}
    (hds : ∀ d ∈ ds, digit d = true ∧ d ≠ '_') (hrest : ∀ c ∈ rest.head?, digit c = false ∧ c ≠ '_') :
    runFrom digit needed (ds ++ rest) = ds.length := by
  induction ds generalizing needed with
  | nil =>
      cases rest with
      | nil => simp [runFrom]
      | cons c cs =>
          obtain ⟨hdigit, hline⟩ := hrest c rfl
          unfold runFrom
          split <;> simp_all
  | cons d ds ih =>
      obtain ⟨hdigit, hline⟩ := hds d (by simp)
      have htail := ih false fun e he => hds e (by simp [he])
      rw [List.cons_append]
      unfold runFrom
      split <;> simp_all [Nat.add_comm]

def hexChars : Text := "0123456789abcdefABCDEF".toList

theorem mem_hexChars {c : Char} (h : Text.isHexDigit c = true) : c ∈ hexChars := by
  have hascii : c.toNat < 128 := by
    simp only [Text.isHexDigit, Char.isDigit, Bool.or_eq_true, Bool.and_eq_true, decide_eq_true_eq] at h
    rcases h with (h | h) | h <;> exact Nat.lt_of_le_of_lt h.2 (by decide)
  have hall : ∀ n < 128, Text.isHexDigit (Char.ofNat n) = true → Char.ofNat n ∈ hexChars := by decide
  have hc := hall c.toNat hascii
  rw [Char.ofNat_toNat] at hc
  exact hc h

theorem isWord_of_isHexDigit {c : Char}
    (h : Text.isHexDigit c = true) : Text.isWord c = true ∧ c ≠ '_' := by
  have hall : (hexChars.all fun c => Text.isWord c && c != '_') = true := by decide
  simpa using List.all_eq_true.mp hall c (mem_hexChars h)

theorem isHexDigit_of_marked {m c : Char} {digit : Char → Bool} (hm : Token.marked? m = some digit)
    (hc : digit c = true) : Text.isHexDigit c = true := by
  rcases marked?_eq_some hm with ⟨-, rfl⟩ | ⟨-, rfl⟩ | ⟨-, rfl⟩
  · rcases (by simpa [Text.isBinDigit] using hc : c = '0' ∨ c = '1') with rfl | rfl <;> rfl
  · exact hc
  · have hrange : '0' ≤ c ∧ c ≤ '7' := by simpa [Text.isOctDigit] using hc
    have hdigit : c.isDigit = true := by
      simp only [Char.isDigit, Bool.and_eq_true, decide_eq_true_eq]
      exact ⟨hrange.1, Char.le_trans hrange.2 (by decide)⟩
    simp [Text.isHexDigit, hdigit]

theorem numeral_subset {ds : Text} (h : Numeral ds) : ds ⊆ "xXoO".toList ++ hexChars := by
  have hhex {c : Char} (hc : Text.isHexDigit c = true) : c ∈ "xXoO".toList ++ hexChars :=
    List.mem_append_right _ (mem_hexChars hc)
  have hdigit {c : Char} (hc : c.isDigit = true) : c ∈ "xXoO".toList ++ hexChars :=
    hhex (by simp [Text.isHexDigit, hc])
  intro c hc
  cases h with
  | zero =>
      obtain rfl := List.mem_singleton.mp hc
      decide
  | decimal hlead hds =>
      rcases List.mem_cons.mp hc with rfl | hc
      · exact hdigit (isDigit_of_le hlead)
      · exact hdigit (hds c hc)
  | marked hm _ hds =>
      rcases List.mem_cons.mp hc with rfl | hc
      · decide
      · rcases List.mem_cons.mp hc with rfl | hc
        · rcases marked?_eq_some hm with ⟨rfl | rfl, -⟩ | ⟨rfl | rfl, -⟩ | ⟨rfl | rfl, -⟩ <;> decide
        · exact hhex (isHexDigit_of_marked hm (hds c hc))

theorem isWord_of_numeral {ds : Text} (h : Numeral ds) {c : Char} (hc : c ∈ ds) : Text.isWord c = true := by
  have hall : (("xXoO".toList ++ hexChars).all Text.isWord) = true := by decide
  exact List.all_eq_true.mp hall c (numeral_subset h hc)

theorem marked?_of_not_isWord {m : Char} (h : Text.isWord m = false) : Token.marked? m = none := by
  cases hm : Token.marked? m with
  | none => rfl
  | some digit =>
      rcases marked?_eq_some hm with ⟨rfl | rfl, -⟩ | ⟨rfl | rfl, -⟩ | ⟨rfl | rfl, -⟩ <;>
        exact absurd h (by decide)

section Numbers

variable {ds rest : Text}

theorem marked?_append {base : Nat} {digit : Char → Bool} (hne : ds ≠ [])
    (hds : ∀ d ∈ ds, digit d = true ∧ d ≠ '_') (hrest : ∀ c ∈ rest.head?, digit c = false ∧ c ≠ '_') :
    marked? base digit (ds ++ rest) =
      some (.int (Number.ofDigits base (plainDigits ds)), 2 + ds.length) := by
  have hrun : runLength digit (ds ++ rest) = ds.length := runFrom_append true hds hrest
  obtain ⟨d, ds', rfl⟩ := List.exists_cons_of_ne_nil hne
  have hlead : d ≠ '_' := (hds d (by simp)).2
  unfold marked?
  split
  · simp_all
  · simp_all

theorem exponentLength_of_bounded (hrest : Bounded rest) : exponentLength rest = 0 := by
  cases rest with
  | nil => rfl
  | cons c cs =>
      have hword := (hrest c rfl).1
      have hletter : ¬ (c = 'e' || c = 'E') = true := by
        intro hc
        rcases (by simpa using hc : c = 'e' ∨ c = 'E') with rfl | rfl <;> revert hword <;> decide
      exact if_neg hletter

theorem decimal?_append (hne : ds ≠ []) (hds : ∀ d ∈ ds, d.isDigit = true) (hrest : Bounded rest) :
    decimal? (ds ++ rest) = (integer? (plainDigits ds)).map fun i => (.int i, ds.length) := by
  have hrun : runLength Char.isDigit (ds ++ rest) = ds.length := by
    refine runFrom_append true ?_ ?_
    · intro d hd
      refine ⟨hds d hd, ?_⟩
      rintro rfl
      exact absurd (hds '_' hd) (by decide)
    · intro c hc
      have hword := (hrest c hc).1
      refine ⟨?_, by rintro rfl; revert hword; decide⟩
      cases hdigit : c.isDigit with
      | false => rfl
      | true =>
          rw [(isWord_of_isHexDigit (by simp [Text.isHexDigit, hdigit])).1] at hword
          exact hword
  have hpos : ds.length ≠ 0 := by simpa using hne
  have hpoint : ∀ cs, rest ≠ '.' :: cs := by
    rintro cs rfl
    exact (hrest '.' rfl).2 rfl
  simp only [decimal?, hrun, List.drop_left, List.take_left]
  simp [hpos, exponentLength_of_bounded hrest]

theorem digitIn?_of_isDigit {c : Char} (h : c.isDigit = true) :
    ∃ d, Number.digitIn? 16 c = some d ∧ (d = 0 → c = '0') := by
  have hascii : c.toNat < 128 := by
    simp only [Char.isDigit, Bool.and_eq_true, decide_eq_true_eq] at h
    exact Nat.lt_of_le_of_lt h.2 (by decide)
  have hall : ∀ n < 128, (Char.ofNat n).isDigit = true →
      (Number.digitIn? 16 (Char.ofNat n)).isSome = true ∧
      (Number.digitIn? 16 (Char.ofNat n) = some 0 → Char.ofNat n = '0') := by decide
  have hc := hall c.toNat hascii
  rw [Char.ofNat_toNat] at hc
  obtain ⟨hsome, hzero⟩ := hc h
  obtain ⟨d, hd⟩ := Option.isSome_iff_exists.mp hsome
  refine ⟨d, hd, ?_⟩
  rintro rfl
  exact hzero hd

theorem plainDigits_cons {c : Char} {d : Nat} (h : c.isDigit = true) (hd : Number.digitIn? 16 c = some d)
    (cs : Text) : plainDigits (c :: cs) = d :: plainDigits cs := by
  have hline : c ≠ '_' := by
    rintro rfl
    revert h
    decide
  unfold plainDigits
  rw [List.filter_cons_of_pos (by simpa using hline), List.filterMap_cons_some hd]

theorem length_plainDigits (hds : ∀ d ∈ ds, d.isDigit = true) : (plainDigits ds).length = ds.length := by
  induction ds with
  | nil => rfl
  | cons c cs ih =>
      have hc := hds c (by simp)
      obtain ⟨d, hd, -⟩ := digitIn?_of_isDigit hc
      rw [plainDigits_cons hc hd, List.length_cons, List.length_cons, ih fun e he => hds e (by simp [he])]

def longest? : Text → Option (Lexeme × Nat)
  | '0' :: m :: cs =>
      if m = 'x' || m = 'X' then marked? 16 Text.isHexDigit cs
      else if m = 'o' || m = 'O' then marked? 8 Text.isOctDigit cs
      else if m = 'b' || m = 'B' then marked? 2 Text.isBinDigit cs
      else decimal? ('0' :: m :: cs)
  | t => decimal? t

def ended? (t : Text) : Option (Lexeme × Nat) → Option (Lexeme × Nat)
  | some (l, n) =>
      match t.drop n with
      | c :: _ => if Text.isWord c then none else some (l, n)
      | [] => some (l, n)
  | none => none

theorem number?_eq_ended? (t : Text) : number? t = ended? t (longest? t) := by
  fun_cases longest? t <;> simp_all only [number?, ended?] <;> rfl

theorem ended?_append (l : Lexeme) (hrest : Bounded rest) :
    ended? (ds ++ rest) (some (l, ds.length)) = some (l, ds.length) := by
  rw [ended?, List.drop_left]
  cases rest with
  | nil => rfl
  | cons c cs => exact if_neg (by rw [(hrest c rfl).1]; decide)

theorem longest?_of_unmarked {t : Text} (h : ∀ m cs, t = '0' :: m :: cs → Token.marked? m = none) :
    longest? t = decimal? t := by
  fun_cases longest? t with
  | case1 m cs hm | case2 m cs _ hm | case3 m cs _ _ hm =>
      have hnone := h m cs rfl
      simp [Token.marked?] at hm hnone
      grind
  | case4 | case5 => rfl

theorem longest?_marked {m : Char} {digit : Char → Bool} (hm : Token.marked? m = some digit) :
    ∃ base, ∀ cs, longest? ('0' :: m :: cs) = marked? base digit cs := by
  rcases marked?_eq_some hm with ⟨rfl | rfl, rfl⟩ | ⟨rfl | rfl, rfl⟩ | ⟨rfl | rfl, rfl⟩
  · exact ⟨2, fun _ => rfl⟩
  · exact ⟨2, fun _ => rfl⟩
  · exact ⟨16, fun _ => rfl⟩
  · exact ⟨16, fun _ => rfl⟩
  · exact ⟨8, fun _ => rfl⟩
  · exact ⟨8, fun _ => rfl⟩

theorem number?_decimal (hunmarked : ∀ m cs, ds ++ rest = '0' :: m :: cs → Token.marked? m = none)
    (hne : ds ≠ []) (hds : ∀ d ∈ ds, d.isDigit = true) (hrest : Bounded rest) :
    number? (ds ++ rest) = (integer? (plainDigits ds)).map fun i => (.int i, ds.length) := by
  rw [number?_eq_ended?, longest?_of_unmarked hunmarked, decimal?_append hne hds hrest]
  cases integer? (plainDigits ds) with
  | none => rfl
  | some i => exact ended?_append _ hrest

theorem number?_numeral (hnumeral : Numeral ds) :
    ∃ i? : Option Int, (i? = none → (∀ d ∈ ds, d.isDigit = true) ∧ Number.maxDigits < ds.length) ∧
      ∀ rest, Bounded rest → number? (ds ++ rest) = i?.map fun i => (.int i, ds.length) := by
  cases hnumeral with
  | zero =>
      refine ⟨some 0, by simp, fun rest hrest => ?_⟩
      refine number?_decimal ?_ (by simp) (by simp) hrest
      intro m cs heq
      obtain rfl : rest = m :: cs := by simpa using heq
      exact marked?_of_not_isWord (hrest m rfl).1
  | @decimal c ds hc hds =>
      have hdigit := isDigit_of_le hc
      have hzero : c ≠ '0' := by
        rintro rfl
        exact absurd hc.1 (by decide)
      have hall : ∀ d ∈ c :: ds, d.isDigit = true := by simpa [hdigit] using hds
      refine ⟨integer? (plainDigits (c :: ds)), fun hnone => ⟨hall, ?_⟩, fun rest hrest => ?_⟩
      · obtain ⟨d, hd, hd0⟩ := digitIn?_of_isDigit hdigit
        have hlength := length_plainDigits hall
        rw [plainDigits_cons hdigit hd] at hnone hlength
        unfold integer? at hnone
        split at hnone
        · simp_all
        · simp_all
      · refine number?_decimal ?_ (by simp) hall hrest
        intro m cs heq
        exact absurd (by simpa using congrArg List.head? heq) hzero
  | @marked m digit ds hm hne hds =>
      obtain ⟨base, hlongest⟩ := longest?_marked hm
      refine ⟨some (Number.ofDigits base (plainDigits ds)), by simp, fun rest hrest => ?_⟩
      have hword (c : Char) (hc : digit c = true) := isWord_of_isHexDigit (isHexDigit_of_marked hm hc)
      have hread : marked? base digit (ds ++ rest) =
          some (.int (Number.ofDigits base (plainDigits ds)), 2 + ds.length) := by
        refine marked?_append hne (fun d hd => ⟨hds d hd, (hword d (hds d hd)).2⟩) fun c hc => ?_
        have hnot := (hrest c hc).1
        refine ⟨?_, by rintro rfl; revert hnot; decide⟩
        cases hdigit : digit c with
        | false => rfl
        | true => rw [← hnot, (hword c hdigit).1]
      rw [number?_eq_ended?, List.cons_append, List.cons_append, hlongest, hread, Nat.add_comm]
      exact @ended?_append ('0' :: m :: ds) rest _ hrest

theorem readFrom_of_front? {c : Char} {cs : Text} {l : Lexeme} {n : Nat}
    (hc : c ≠ ' ' ∧ c ≠ '\t' ∧ c ≠ '\x0c' ∧ c ≠ '#') (h : front? c cs = some (l, n + 1)) :
    readFrom 0 (c :: cs) = (readFrom 0 (cs.drop n)).map (l :: ·) := by
  rw [← readFrom_eq_drop]
  simp [readFrom, hc, h]

theorem readFrom_numeral (hnumeral : Numeral ds) :
    ∃ i? : Option Int, (i? = none → (∀ d ∈ ds, d.isDigit = true) ∧ Number.maxDigits < ds.length) ∧
      ∀ rest, Bounded rest →
        readFrom 0 (ds ++ rest) = i?.bind fun i => (readFrom 0 rest).map (.int i :: ·) := by
  obtain ⟨i?, hnone, hread⟩ := number?_numeral hnumeral
  refine ⟨i?, hnone, fun rest hrest => ?_⟩
  have hnumber := hread rest hrest
  obtain ⟨d, ds', rfl, hdigit⟩ := hnumeral.exists_cons
  have hplain : d ≠ ' ' ∧ d ≠ '\t' ∧ d ≠ '\x0c' ∧ d ≠ '#' := by
    refine ⟨?_, ?_, ?_, ?_⟩ <;> (rintro rfl; revert hdigit; decide)
  have hfront : front? d (ds' ++ rest) = i?.map fun i => (.int i, ds'.length + 1) := by
    simpa [front?, hdigit] using hnumber
  cases i? with
  | none => simp [readFrom, hplain, hfront]
  | some i =>
      rw [List.cons_append, readFrom_of_front? hplain hfront, List.drop_left]
      rfl

end Numbers

/-- What the evaluator reads of a token: nothing if it is no number sign that it knows, or a decimal
number with too many digits. -/
inductive LexemesOf : Token → Option (List Lexeme) → Prop where
  | number (s : Text) (i : Int) : LexemesOf (.number s) (some [.int i])
  | signed (s : Text) {op : BinaryOp} (hop : op = .add ∨ op = .sub) (i : Int) :
      LexemesOf (.number s) (some [.binary op, .int i])
  | long {s ds : Text} (hwithin : ds <:+: s) (hds : ∀ d ∈ ds, d.isDigit = true)
      (hlong : Number.maxDigits < ds.length) : LexemesOf (.number s) none
  | operator {op : BinaryOp} {s : Text} (hs : op.spelling = s) : LexemesOf (.operator s) (some [.binary op])
  | invert : LexemesOf (.unary ['~']) (some [.invert])
  | unknown : LexemesOf (.unary ['!']) none
  | opening : LexemesOf .opening (some [.opening])
  | closing : LexemesOf .closing (some [.closing])

def Ends : Token → Text → Prop
  | .number _, rest => Bounded rest
  | .operator _, rest => rest.head? ≠ some '*' ∧ rest.head? ≠ some '/'
  | _, _ => True

theorem readFrom_number {sign ds : Text} (hsign : sign ∈ signs) (hds : Numeral ds) :
    ∃ ls?, LexemesOf (.number (sign ++ ds)) ls? ∧ ∀ rest, Bounded rest →
      readFrom 0 (sign ++ ds ++ rest) = ls?.bind fun ls => (readFrom 0 rest).map (ls ++ ·) := by
  obtain ⟨i?, hnone, hread⟩ := readFrom_numeral hds
  cases i? with
  | none =>
      obtain ⟨hdigits, hlong⟩ := hnone rfl
      refine ⟨none, .long (List.suffix_append sign ds).isInfix hdigits hlong, fun rest hrest => ?_⟩
      have hnumeral := hread rest hrest
      rcases (by simpa [signs] using hsign) with rfl | rfl | rfl
      · exact hnumeral
      · exact congrArg (Option.map (.binary .add :: ·)) hnumeral
      · exact congrArg (Option.map (.binary .sub :: ·)) hnumeral
  | some i =>
      rcases (by simpa [signs] using hsign) with rfl | rfl | rfl
      · exact ⟨_, .number _ i, hread⟩
      · refine ⟨_, .signed _ (.inl rfl) i, fun rest hrest => ?_⟩
        exact (congrArg (Option.map (.binary .add :: ·)) (hread rest hrest)).trans (Option.map_map ..)
      · refine ⟨_, .signed _ (.inr rfl) i, fun rest hrest => ?_⟩
        exact (congrArg (Option.map (.binary .sub :: ·)) (hread rest hrest)).trans (Option.map_map ..)

theorem readFrom_operator {s : Text} (hs : s ∈ operators) :
    ∃ op, op.spelling = s ∧ ∀ rest, rest.head? ≠ some '*' ∧ rest.head? ≠ some '/' →
      readFrom 0 (s ++ rest) = (readFrom 0 rest).map (.binary op :: ·) := by
  rcases (by simpa [operators] using hs) with rfl | rfl | rfl | rfl | rfl | rfl | rfl | rfl | rfl
  · exact ⟨.add, rfl, fun rest _ => rfl⟩
  · exact ⟨.sub, rfl, fun rest _ => rfl⟩
  · refine ⟨.mul, rfl, fun rest hrest => ?_⟩
    have hsymbol : front? '*' rest = some (.binary .mul, 0 + 1) := by
      change symbol? ('*' :: rest) = _
      unfold symbol?
      split <;> simp_all
    exact readFrom_of_front? (by decide) hsymbol
  · refine ⟨.div, rfl, fun rest hrest => ?_⟩
    have hsymbol : front? '/' rest = some (.binary .div, 0 + 1) := by
      change symbol? ('/' :: rest) = _
      unfold symbol?
      split <;> simp_all
    exact readFrom_of_front? (by decide) hsymbol
  · exact ⟨.and, rfl, fun rest _ => rfl⟩
  · exact ⟨.or, rfl, fun rest _ => rfl⟩
  · exact ⟨.xor, rfl, fun rest _ => rfl⟩
  · exact ⟨.shiftLeft, rfl, fun rest _ => rfl⟩
  · exact ⟨.shiftRight, rfl, fun rest _ => rfl⟩

theorem exists_lexemes {tok : Token} (htok : Proper tok) :
    ∃ ls?, LexemesOf tok ls? ∧ ∀ rest, Ends tok rest →
      readFrom 0 (tok.spelling ++ rest) = ls?.bind fun ls => (readFrom 0 rest).map (ls ++ ·) := by
  cases htok with
  | number hsign hds => exact readFrom_number hsign hds
  | @operator s hs =>
      obtain ⟨op, hspelling, hread⟩ := readFrom_operator hs
      exact ⟨_, .operator hspelling, hread⟩
  | unary hs =>
      rcases (by simpa [unaries] using hs) with rfl | rfl
      · exact ⟨_, .invert, fun rest _ => rfl⟩
      · exact ⟨_, .unknown, fun rest _ => rfl⟩
  | opening => exact ⟨_, .opening, fun rest _ => rfl⟩
  | closing => exact ⟨_, .closing, fun rest _ => rfl⟩

end Lexeme

end RvToolkit.Expr
