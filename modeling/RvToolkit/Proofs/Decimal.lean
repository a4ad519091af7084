import RvToolkit.Immediate
import RvToolkit.Instruction.Encode
import RvToolkit.Proofs.Effect
import RvToolkit.Proofs.Numeral

namespace RvToolkit.Expr

theorem isDigit_digitChar {d : Nat} (hd : d < 10) : d.digitChar.isDigit = true := by
  have h : ∀ d < 10, d.digitChar.isDigit = true := by decide
  exact h d hd

theorem digitValue?_digitChar {d : Nat} (hd : d < 10) : Text.digitValue? d.digitChar = some d := by
  have h : ∀ d < 10, Text.digitValue? d.digitChar = some d := by decide
  exact h d hd

theorem digitChar_leading {d : Nat} (hd : d < 10) (h0 : d ≠ 0) :
    d.digitChar ≠ '0' ∧ '1' ≤ d.digitChar ∧ d.digitChar ≤ '9' := by
  have h : ∀ d < 10, d ≠ 0 → d.digitChar ≠ '0' ∧ '1' ≤ d.digitChar ∧ d.digitChar ≤ '9' := by decide
  exact h d hd h0

variable {ds : List Nat}

namespace Token

theorem readFrom_length (cs : Text) : readFrom cs.length cs = some [] := by
  induction cs with
  | nil => rfl
  | cons c cs ih => exact ih

theorem magnitude_digits (hne : ds ≠ []) (hds : ∀ d ∈ ds, d < 10)
    (hlead : ds = [0] ∨ ds.head? ≠ some 0) : magnitude (ds.map Nat.digitChar) = ds.length := by
  rcases hlead with rfl | hlead
  · rfl
  · obtain ⟨d, ds', rfl⟩ := List.exists_cons_of_ne_nil hne
    have hd : d ≠ 0 := by simpa using hlead
    have hrange := digitChar_leading (hds d (by simp)) hd
    have hall : (ds'.map Nat.digitChar).takeWhile Char.isDigit = ds'.map Nat.digitChar := by
      have hdigit : ∀ c ∈ ds'.map Nat.digitChar, c.isDigit = true := by
        intro c hc
        obtain ⟨e, he, rfl⟩ := List.mem_map.mp hc
        exact isDigit_digitChar (hds e (by simp [he]))
      have h : (ds'.map Nat.digitChar ++ []).takeWhile Char.isDigit = _ :=
        List.takeWhile_append_of_pos hdigit
      simpa using h
    simp only [List.map_cons]
    unfold magnitude
    split
    · simp_all
    · simp_all
    · rename_i c cs _ _ heq
      obtain ⟨rfl, rfl⟩ : d.digitChar = c ∧ ds'.map Nat.digitChar = cs := by simpa using heq
      simp [hrange, hall, Nat.add_comm]
    · simp_all

theorem readAll_decimal (negative : Bool) (hne : ds ≠ []) (hds : ∀ d ∈ ds, d < 10)
    (hlead : ds = [0] ∨ ds.head? ≠ some 0) :
    readAll ((if negative then ['-'] else []) ++ ds.map Nat.digitChar) =
      some [.number ((if negative then ['-'] else []) ++ ds.map Nat.digitChar)] := by
  have hlength := magnitude_digits hne hds hlead
  obtain ⟨d, ds', rfl⟩ := List.exists_cons_of_ne_nil hne
  have hrest := readFrom_length (ds'.map Nat.digitChar)
  have htake : (ds'.map Nat.digitChar).take ds'.length = ds'.map Nat.digitChar :=
    List.take_of_length_le (by simp)
  rw [List.length_map] at hrest
  rw [List.map_cons] at hlength ⊢
  cases negative with
  | true =>
      have hnumber : numberLength ('-' :: d.digitChar :: ds'.map Nat.digitChar) =
          ds'.length + 1 + 1 := by simp [numberLength, hlength]
      simp only [readAll, ↓reduceIte, List.cons_append, List.nil_append, readFrom, front, hnumber]
      simp [readFrom, hrest, htake]
  | false =>
      have hnumber : numberLength (d.digitChar :: ds'.map Nat.digitChar) = ds'.length + 1 := by
        simp [numberLength, hlength]
      simp only [readAll, Bool.false_eq_true, ↓reduceIte, List.nil_append, readFrom, front, hnumber]
      simp [hrest, htake]

end Token

theorem isExpr_ofInt (limit : Nat) (i : Int) : isExpr limit (Text.ofInt i) = .ok true := by
  obtain ⟨ds, htext, hne, hds, -, hlead, -⟩ := Number.exists_ofInt i
  rw [htext, isExpr, Token.readAll_decimal _ hne hds hlead]
  rfl

namespace Lexeme

theorem runFrom_digits (hds : ∀ d ∈ ds, d < 10) (needed : Bool) :
    runFrom Char.isDigit needed (ds.map Nat.digitChar) = ds.length := by
  induction ds generalizing needed with
  | nil => simp [runFrom]
  | cons d ds ih =>
      have hdigit := isDigit_digitChar (hds d (by simp))
      have hrest := ih (fun e he => hds e (by simp [he])) false
      simp only [List.map_cons]
      unfold runFrom
      split
      · simp_all
      · simp_all
      · rename_i c cs _ heq
        obtain ⟨rfl, rfl⟩ : d.digitChar = c ∧ ds.map Nat.digitChar = cs := by simpa using heq
        simp [hdigit, hrest, Nat.add_comm]

theorem plainDigits_digits (hds : ∀ d ∈ ds, d < 10) : plainDigits (ds.map Nat.digitChar) = ds := by
  induction ds with
  | nil => rfl
  | cons d ds ih =>
      have hd := hds d (by simp)
      have hrest := ih (fun e he => hds e (by simp [he]))
      have hvalue : Number.digitIn? 16 d.digitChar = some d :=
        Number.digitIn?_digitChar (by decide) (by omega)
      unfold plainDigits at hrest ⊢
      rw [List.map_cons, List.filter_cons_of_pos (by simp),
        List.filterMap_cons_some hvalue, hrest]

theorem number?_digits (hne : ds ≠ []) (hds : ∀ d ∈ ds, d < 10)
    (hlead : ds = [0] ∨ ds.head? ≠ some 0) (hlength : ds.length ≤ Number.maxDigits) :
    number? (ds.map Nat.digitChar) = some (.int (Number.ofDigits 10 ds), ds.length) := by
  have hrun : runLength Char.isDigit (ds.map Nat.digitChar) = ds.length := runFrom_digits hds true
  have htake : (ds.map Nat.digitChar).take ds.length = ds.map Nat.digitChar :=
    List.take_of_length_le (by simp)
  have hdrop : (ds.map Nat.digitChar).drop ds.length = [] := List.drop_of_length_le (by simp)
  have hpos : ds.length ≠ 0 := by simpa using hne
  have hint : integer? ds = some (Number.ofDigits 10 ds : Int) := by
    rcases hlead with rfl | hlead
    · rfl
    · obtain ⟨d, ds', rfl⟩ := List.exists_cons_of_ne_nil hne
      unfold integer?
      split
      · simp_all
      · exact if_neg (by omega)
  have hdecimal : decimal? (ds.map Nat.digitChar) =
      some (.int (Number.ofDigits 10 ds), ds.length) := by
    simp [decimal?, hrun, hdrop, htake, hpos, exponentLength, plainDigits_digits hds, hint]
  unfold number?
  split
  · -- Two digits or more do not begin with a zero.
    rename_i m cs heq
    rcases hlead with rfl | hlead
    · simp at heq
    · obtain ⟨d, ds', rfl⟩ := List.exists_cons_of_ne_nil hne
      have hd : d ≠ 0 := by simpa using hlead
      have hzero := (digitChar_leading (hds d (by simp)) hd).1
      simp_all
  · simp [hdecimal, hdrop]

theorem readFrom_length (cs : Text) : readFrom cs.length cs = some [] := by
  induction cs with
  | nil => rfl
  | cons c cs ih => exact ih

theorem readAll_digits (hne : ds ≠ []) (hds : ∀ d ∈ ds, d < 10)
    (hlead : ds = [0] ∨ ds.head? ≠ some 0) (hlength : ds.length ≤ Number.maxDigits) :
    readAll (ds.map Nat.digitChar) = some [.int (Number.ofDigits 10 ds)] := by
  have hnumber := number?_digits hne hds hlead hlength
  obtain ⟨d, ds', rfl⟩ := List.exists_cons_of_ne_nil hne
  have hdigit := isDigit_digitChar (hds d (by simp))
  have hrest := readFrom_length (ds'.map Nat.digitChar)
  rw [List.length_map] at hrest
  rw [List.map_cons] at hnumber
  simp [readAll, readFrom, front?, hdigit, hnumber, hrest]

end Lexeme

theorem evaluate_ofInt {i : Int} (h : (Nat.toDigits 10 i.natAbs).length ≤ Number.maxDigits) :
    evaluate (Text.ofInt i) = .ok (.int i) := by
  obtain ⟨ds, htext, hne, hds, hvalue, hlead, hlength⟩ := Number.exists_ofInt i
  have hread := Lexeme.readAll_digits hne hds hlead (by omega)
  rw [hvalue] at hread
  rw [htext]
  by_cases hi : i < 0
  · -- The sign is read as an operator on the digits.
    have hsigned : Lexeme.readAll ('-' :: ds.map Nat.digitChar) =
        some [.binary .sub, .int i.natAbs] := by
      have hminus : Lexeme.front? '-' (ds.map Nat.digitChar) = some (.binary .sub, 1) := rfl
      unfold Lexeme.readAll at hread ⊢
      simp [Lexeme.readFrom, hminus, hread]
    have habs : -(i.natAbs : Int) = i := by omega
    simp only [hi, decide_true, ↓reduceIte, List.cons_append, List.nil_append, evaluate, Tree.parse?,
      hsigned]
    change Except.ok (Num.int (-(i.natAbs : Int))) = _
    rw [habs]
  · have habs : (i.natAbs : Int) = i := by omega
    simp only [hi, decide_false, Bool.false_eq_true, ↓reduceIte, List.nil_append, evaluate,
      Tree.parse?, hread]
    change Except.ok (Num.int (i.natAbs : Int)) = _
    rw [habs]

end RvToolkit.Expr

namespace RvToolkit

variable {i : Int}

namespace Immediate

theorem toInteger_ofInt (h : (Nat.toDigits 10 i.natAbs).length ≤ Number.maxDigits) :
    toInteger (.text (Text.ofInt i)) = .ok i := by
  simp [toInteger, ofLiteral, Number.readInt_ofInt h]

theorem number_ofInt [Evaluator] (h : (Nat.toDigits 10 i.natAbs).length ≤ Number.maxDigits) :
    number (Text.ofInt i) = .ok (.int i) := by
  simp only [number, Expr.isExpr_ofInt, evaluate, Expr.evaluate_ofInt h]
  rfl

theorem ofInt_eq_cons (i : Int) : ∃ c cs, Text.ofInt i = c :: cs ∧ c ≠ '%' := by
  obtain ⟨ds, htext, hne, hds, -⟩ := Number.exists_ofInt i
  obtain ⟨d, ds', rfl⟩ := List.exists_cons_of_ne_nil hne
  rw [htext]
  by_cases hi : i < 0
  · exact ⟨'-', (d :: ds').map Nat.digitChar, by simp [hi], by decide⟩
  · exact ⟨d.digitChar, ds'.map Nat.digitChar, by simp [hi], by simp⟩

theorem resolve_ofInt [Evaluator] (h : (Nat.toDigits 10 i.natAbs).length ≤ Number.maxDigits) :
    resolve (.text (Text.ofInt i)) = .ok (.int i) := by
  -- Every relocation begins with a percent sign.
  have hopens (half : Half) : half.opens (Text.ofInt i) = false := by
    obtain ⟨c, cs, htext, hc⟩ := ofInt_eq_cons i
    rw [htext]
    cases half <;> simp [Half.opens, Half.names, List.isPrefixOf, Ne.symm hc]
  simp only [resolve, hopens, Expr.isExpr_ofInt, evaluate, Expr.evaluate_ofInt h]
  rfl

end Immediate

namespace Instruction

theorem upperOperand_ofInt [Evaluator] (h : (Nat.toDigits 10 i.natAbs).length ≤ Number.maxDigits) :
    upperOperand (.text (Text.ofInt i)) = .ok (.int i) := by
  obtain ⟨c, cs, htext, hc⟩ := Immediate.ofInt_eq_cons i
  have hhead : (Text.ofInt i).head? ≠ some '%' := by simp [htext, hc]
  simp only [upperOperand, hhead, ↓reduceIte, Immediate.number_ofInt h]

theorem jumpOperand_ofInt [Evaluator] (h : (Nat.toDigits 10 i.natAbs).length ≤ Number.maxDigits) :
    jumpOperand (.text (Text.ofInt i)) = .ok (.int i) := Immediate.number_ofInt h

theorem chomp_eq_self {t : Text} (h : '\n' ∉ t) : Text.chomp t = t := by
  refine if_neg fun hlast => h ?_
  exact List.mem_of_getLast? hlast

theorem filterMap_digitValue? {ds : List Nat} (hds : ∀ d ∈ ds, d < 10) :
    (ds.map Nat.digitChar).filterMap Text.digitValue? = ds := by
  induction ds with
  | nil => rfl
  | cons d ds ih =>
      have hd := Expr.digitValue?_digitChar (hds d (by simp))
      rw [List.map_cons, List.filterMap_cons_some hd, ih fun e he => hds e (by simp [he])]

theorem registerOf_numbered {r : Nat} (hr : r < 32) :
    registerOf (.text (Register.numbered r)) = .ok r := by
  obtain ⟨ds, htext, hne, hds, hvalue, -, hlength⟩ := Number.exists_ofInt r
  have hsign : ¬ (r : Int) < 0 := by omega
  simp only [hsign, decide_false, Bool.false_eq_true, ↓reduceIte, List.nil_append,
    Int.natAbs_natCast] at htext hvalue hlength
  have hshort : ∀ r < 32, (Nat.toDigits 10 r).length ≤ Number.maxDigits := by decide
  have hlimit : ¬ Number.maxDigits < (ds.map Nat.digitChar).length := by
    have := hshort r hr
    rw [List.length_map]
    omega
  have hdigit (d : Nat) (hd : d ∈ ds) : Text.digitValue? d.digitChar = some d :=
    Expr.digitValue?_digitChar (hds d hd)
  have hall : (ds.map Nat.digitChar).all Text.isDigit = true := by
    simp only [List.all_map, List.all_eq_true]
    intro d hd
    simp [Text.isDigit, hdigit d hd]
  have hchomp : Text.chomp ('x' :: ds.map Nat.digitChar) = 'x' :: ds.map Nat.digitChar :=
    chomp_eq_self (by simp)
  rw [registerOf, Register.numbered, htext, Register.number, hchomp]
  simp only [List.isEmpty_map, List.isEmpty_eq_false_iff.mpr hne, hall, hlimit,
    filterMap_digitValue? hds, hvalue, Bool.not_true, Bool.or_false, Bool.false_eq_true, ↓reduceIte]

end Instruction

end RvToolkit
