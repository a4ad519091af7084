import RvToolkit.Number.Literal
import RvToolkit.Number.Radix

namespace RvToolkit.Number

theorem digitIn?_digitChar {base d : Nat} (hb : base ≤ 16) (hd : d < base) :
    digitIn? base d.digitChar = some d := by
  have hv : ∀ d < 16, digitIn? 16 d.digitChar = some d := by decide
  have h := hv d (by omega)
  unfold digitIn? at h ⊢
  rw [Option.filter_eq_some_iff] at h ⊢
  exact ⟨h.1, by simpa using hd⟩

theorem digitChar_plain {d : Nat} (hd : d < 16) :
    isMargin d.digitChar = false ∧ d.digitChar ≠ '-' ∧ d.digitChar ≠ '+' ∧ d.digitChar ≠ '_' ∧
      d.digitChar ≠ 'x' ∧ d.digitChar ≠ 'X' ∧ d.digitChar ≠ 'o' ∧ d.digitChar ≠ 'O' ∧
      d.digitChar ≠ 'B' := by
  have h : ∀ d < 16, isMargin d.digitChar = false ∧ d.digitChar ≠ '-' ∧ d.digitChar ≠ '+' ∧
      d.digitChar ≠ '_' ∧ d.digitChar ≠ 'x' ∧ d.digitChar ≠ 'X' ∧ d.digitChar ≠ 'o' ∧
      d.digitChar ≠ 'O' ∧ d.digitChar ≠ 'B' := by decide
  exact h d hd

theorem digitValues?_map {base : Nat} (hb : base ≤ 16) (needed : Bool) {ds : List Nat}
    (hds : ∀ d ∈ ds, d < base) (hne : ds ≠ [] ∨ needed = false) :
    digitValues? base needed (ds.map Nat.digitChar) = some ds := by
  induction ds generalizing needed with
  | nil =>
      have h : needed = false := by simpa using hne
      simp [digitValues?, h]
  | cons d ds ih =>
      have hd : d < base := hds d (by simp)
      have hmark : d.digitChar ≠ '_' := (digitChar_plain (by omega)).2.2.2.1
      have hrest := ih false (fun e he => hds e (by simp [he])) (.inr rfl)
      simp [digitValues?, hmark, digitIn?_digitChar hb hd, hrest]

theorem ofDigits_append_singleton (base : Nat) (ds : List Nat) (d : Nat) :
    ofDigits base (ds ++ [d]) = ofDigits base ds * base + d := by
  simp [ofDigits]

theorem ofDigits_replicate_zero (base k : Nat) (ds : List Nat) :
    ofDigits base (List.replicate k 0 ++ ds) = ofDigits base ds := by
  induction k with
  | zero => rfl
  | succ k ih => simpa [ofDigits, List.replicate_succ] using ih

theorem exists_toDigits {base : Nat} (hb : 1 < base) (n : Nat) :
    ∃ ds, Nat.toDigits base n = ds.map Nat.digitChar ∧ ds ≠ [] ∧ (∀ d ∈ ds, d < base) ∧
      ofDigits base ds = n ∧ (ds = [0] ∨ ds.head? ≠ some 0) := by
  induction n using Nat.strongRecOn with
  | ind n ih =>
      by_cases hn : n < base
      · refine ⟨[n], ?_, by simp, by simpa using hn, by simp [ofDigits], ?_⟩
        · simpa using Nat.toDigits_of_lt_base hn
        · by_cases h0 : n = 0 <;> simp [h0]
      · obtain ⟨ds, htext, hne, hds, hvalue, hlead⟩ := ih (n / base) (Nat.div_lt_self (by omega) hb)
        have hquotient : 0 < n / base := Nat.div_pos (by omega) (by omega)
        refine ⟨ds ++ [n % base], ?_, by simp, ?_, ?_, ?_⟩
        · rw [Nat.toDigits_of_base_le hb (by omega), htext, List.map_append]
          rfl
        · intro d hd
          rcases List.mem_append.mp hd with h | h
          · exact hds d h
          · have : d = n % base := by simpa using h
            exact this ▸ Nat.mod_lt n (by omega)
        · rw [ofDigits_append_singleton, hvalue]
          exact Nat.div_add_mod' n base
        · rcases hlead with rfl | hlead
          · simp [ofDigits] at hvalue
            omega
          · obtain ⟨d, ds', rfl⟩ := List.exists_cons_of_ne_nil hne
            exact .inr hlead

theorem withoutMargins_eq_self {t : Text} (ht : ∀ c ∈ t, isMargin c = false) :
    withoutMargins t = t := by
  have keep (u : Text) (hu : ∀ c ∈ u, isMargin c = false) : u.dropWhile isMargin = u := by
    cases u with
    | nil => rfl
    | cons c cs => simp [hu c (by simp)]
  rw [withoutMargins, keep t ht, keep t.reverse (by simpa using ht), List.reverse_reverse]

theorem dropMark_digits {base : Nat} (hb : base ≤ 16) {ds : List Nat} (hds : ∀ d ∈ ds, d < base) :
    dropMark base (ds.map Nat.digitChar) = ds.map Nat.digitChar := by
  match ds, hds with
  | [], _ => rfl
  | [d], _ =>
      simp only [List.map_cons, List.map_nil]
      unfold dropMark
      split <;> simp_all
  | d :: e :: ds, hds =>
      have he : e < base := hds e (by simp)
      have hplain := digitChar_plain (d := e) (by omega)
      simp only [List.map_cons]
      unfold dropMark
      split
      · rename_i m cs heq
        obtain ⟨hd, rfl, rfl⟩ : d.digitChar = '0' ∧ e.digitChar = m ∧
            ds.map Nat.digitChar = cs := by simpa using heq
        have hb : base = 2 → e.digitChar ≠ 'b' := by
          intro h hc
          have := Nat.digitChar_eq_b.mp hc
          omega
        split
        · simp [hplain, hd]
        · simp [hplain, hd]
        · simp [hplain, hd, hb]
        · simp [hd]
      · rfl

theorem readInt_digits {base : Nat} (hb : base ≤ 16) (negative : Bool) {ds : List Nat} (hne : ds ≠ [])
    (hds : ∀ d ∈ ds, d < base) (hlength : base = 10 → ds.length ≤ maxDigits) :
    readInt base ((if negative then ['-'] else []) ++ ds.map Nat.digitChar) =
      .ok (if negative then -(ofDigits base ds : Int) else ofDigits base ds) := by
  have hdigit : ∀ c ∈ ds.map Nat.digitChar, isMargin c = false := by
    intro c hc
    obtain ⟨d, hd, rfl⟩ := List.mem_map.mp hc
    have := hds d hd
    exact (digitChar_plain (by omega)).1
  have hvalues := digitValues?_map hb true hds (.inl hne)
  have hlimit : ¬ (base = 10 ∧ maxDigits < ds.length) := by
    rintro ⟨h, hlong⟩
    have := hlength h
    omega
  have hmargins : withoutMargins ((if negative then ['-'] else []) ++ ds.map Nat.digitChar) =
      (if negative then ['-'] else []) ++ ds.map Nat.digitChar := by
    apply withoutMargins_eq_self
    intro c hc
    rcases List.mem_append.mp hc with h | h
    · have : c = '-' := by cases negative <;> simp_all
      exact this ▸ rfl
    · exact hdigit c h
  -- The first digit is no sign, so the sign is the one that was written.
  have hsign : splitSign ((if negative then ['-'] else []) ++ ds.map Nat.digitChar) =
      (negative, ds.map Nat.digitChar) := by
    obtain ⟨d, ds', rfl⟩ := List.exists_cons_of_ne_nil hne
    have hplain := digitChar_plain (d := d) (by have := hds d (by simp); omega)
    cases negative with
    | true => rfl
    | false =>
        simp only [Bool.false_eq_true, ↓reduceIte, List.nil_append, List.map_cons]
        unfold splitSign
        split <;> simp_all
  simp only [readInt, hmargins, hsign, dropMark_digits hb hds, hvalues, hlimit, ↓reduceIte]

theorem exists_ofInt (i : Int) :
    ∃ ds, Text.ofInt i = (if decide (i < 0) then ['-'] else []) ++ ds.map Nat.digitChar ∧ ds ≠ [] ∧
      (∀ d ∈ ds, d < 10) ∧ ofDigits 10 ds = i.natAbs ∧ (ds = [0] ∨ ds.head? ≠ some 0) ∧
      ds.length = (Nat.toDigits 10 i.natAbs).length := by
  obtain ⟨ds, htext, hne, hds, hvalue, hlead⟩ := exists_toDigits (by decide : 1 < 10) i.natAbs
  refine ⟨ds, ?_, hne, hds, hvalue, hlead, by rw [htext, List.length_map]⟩
  rw [← htext]
  cases i with
  | ofNat n => simp [Text.ofInt]
  | negSucc n => simp [Text.ofInt]

theorem signed_natAbs (i : Int) : (if decide (i < 0) then -(i.natAbs : Int) else i.natAbs) = i := by
  by_cases hi : i < 0
  · rw [decide_eq_true hi, if_pos rfl]
    omega
  · rw [decide_eq_false hi, if_neg Bool.false_ne_true]
    omega

theorem readInt_ofInt {i : Int} (h : (Nat.toDigits 10 i.natAbs).length ≤ maxDigits) :
    readInt 10 (Text.ofInt i) = .ok i := by
  obtain ⟨ds, htext, hne, hds, hvalue, -, hlength⟩ := exists_ofInt i
  rw [htext, readInt_digits (by decide) _ hne hds (fun _ => hlength ▸ h), hvalue, signed_natAbs]

theorem exists_write {base : Nat} (hb : 1 < base) (width : Nat) (i : Int) :
    ∃ ds, Layout.write ⟨base, .lower, width, true⟩ i =
        (if decide (i < 0) then ['-'] else []) ++ ds.map Nat.digitChar ∧ ds ≠ [] ∧
      (∀ d ∈ ds, d < base) ∧ ofDigits base ds = i.natAbs := by
  obtain ⟨ds, htext, hne, hds, hvalue, -⟩ := exists_toDigits hb i.natAbs
  let sign : Text := if decide (i < 0) then ['-'] else []
  refine ⟨List.replicate (width - sign.length - ds.length) 0 ++ ds, ?_, by simp [hne], ?_, ?_⟩
  · simp only [Layout.write, digits, htext, Text.padLeft, List.length_map, List.map_append,
      List.map_replicate, decide_eq_true_eq, sign, ↓reduceIte]
    rfl
  · intro d hd
    rcases List.mem_append.mp hd with h | h
    · have : d = 0 := (List.mem_replicate.mp h).2
      omega
    · exact hds d h
  · rw [ofDigits_replicate_zero, hvalue]

theorem readInt_bin32 (i : Int) : readInt 2 (bin32 i) = .ok i := by
  obtain ⟨ds, htext, hne, hds, hvalue⟩ := exists_write (by decide : 1 < 2) 32 i
  rw [bin32, htext, readInt_digits (by decide) _ hne hds (by simp), hvalue, signed_natAbs]

theorem readInt_hexMark (width n : Nat) :
    readInt 16 ('0' :: 'x' :: Layout.write ⟨16, .lower, width, true⟩ n) = .ok n := by
  obtain ⟨ds, htext, hne, hds, hvalue⟩ := exists_write (by decide : 1 < 16) width n
  have hsign : ¬ (n : Int) < 0 := by omega
  simp only [hsign, decide_false, Bool.false_eq_true, ↓reduceIte, List.nil_append,
    Int.natAbs_natCast] at htext hvalue
  have hmargins : withoutMargins ('0' :: 'x' :: ds.map Nat.digitChar) =
      '0' :: 'x' :: ds.map Nat.digitChar := by
    apply withoutMargins_eq_self
    intro c hc
    simp only [List.mem_cons, List.mem_map] at hc
    rcases hc with rfl | rfl | ⟨d, hd, rfl⟩
    · rfl
    · rfl
    · exact (digitChar_plain (hds d hd)).1
  have hmark : dropMark 16 ('0' :: 'x' :: ds.map Nat.digitChar) = ds.map Nat.digitChar := by
    obtain ⟨d, ds', rfl⟩ := List.exists_cons_of_ne_nil hne
    have hplain := digitChar_plain (hds d (by simp))
    simp only [dropMark, List.map_cons]
    split <;> simp_all
  have hvalues := digitValues?_map (by decide : 16 ≤ 16) true hds (.inl hne)
  have hplus : splitSign ('0' :: 'x' :: ds.map Nat.digitChar) =
      (false, '0' :: 'x' :: ds.map Nat.digitChar) := rfl
  rw [htext]
  simp [readInt, hmargins, hplus, hmark, hvalues, hvalue]

end RvToolkit.Number
