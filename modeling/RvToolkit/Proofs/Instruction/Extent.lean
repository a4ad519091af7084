import RvToolkit.Proofs.Bits
import RvToolkit.Proofs.Instruction.RoundTrip

namespace RvToolkit

namespace Bits

theorem or_extent {a b : Int} {k : Nat} (ha : 0 ≤ a ∧ a < 2 ^ k) (hb : 0 ≤ b ∧ b < 2 ^ k) :
    0 ≤ Bits.or a b ∧ Bits.or a b < 2 ^ k := by
  obtain ⟨m, rfl⟩ := Int.eq_ofNat_of_zero_le ha.1
  obtain ⟨n, rfl⟩ := Int.eq_ofNat_of_zero_le hb.1
  rw [← Bits.natCast_two_pow] at ha hb ⊢
  have hor : m ||| n < 2 ^ k := Nat.or_lt_two_pow (by omega) (by omega)
  change 0 ≤ ((m ||| n : Nat) : Int) ∧ ((m ||| n : Nat) : Int) < _
  omega

theorem or_negative {a b : Int} (ha : a < 0) (hb : 0 ≤ b) : a ≤ Bits.or a b ∧ Bits.or a b < 0 := by
  obtain ⟨m, rfl⟩ := Int.eq_negSucc_of_lt_zero ha
  obtain ⟨n, rfl⟩ := Int.eq_ofNat_of_zero_le hb
  have hclear : m ^^^ (m &&& n) = m &&& (m ^^^ n) := by
    apply Nat.eq_of_testBit_eq
    intro i
    simp only [Nat.testBit_xor, Nat.testBit_and]
    cases m.testBit i <;> cases n.testBit i <;> rfl
  have hle : m ^^^ (m &&& n) ≤ m := by
    rw [hclear]
    exact Nat.and_le_left
  change Int.negSucc m ≤ Int.negSucc (m ^^^ (m &&& n)) ∧ Int.negSucc (m ^^^ (m &&& n)) < 0
  omega

end Bits

namespace Instruction

def Below (k : Nat) : List (Int × Nat) → Prop
  | [] => True
  | (v, low) :: fields => 0 ≤ v ∧ v * 2 ^ low < 2 ^ k ∧ Below k fields

theorem pack_extent {k : Nat} {fields : List (Int × Nat)} (h : Below k fields) :
    0 ≤ pack fields ∧ pack fields < 2 ^ k := by
  induction fields with
  | nil => exact ⟨Int.le_refl 0, Int.pow_pos (by decide)⟩
  | cons p fields ih =>
      obtain ⟨v, low⟩ := p
      obtain ⟨hv, hlt, hrest⟩ := h
      have hshift : 0 ≤ Bits.shiftLeft v low := Int.mul_nonneg hv (Int.pow_nonneg (by decide))
      exact Bits.or_extent ⟨hshift, hlt⟩ (ih hrest)

theorem pack_negative {v : Int} {low : Nat} {fields : List (Int × Nat)} (hv : v < 0)
    (h : 0 ≤ pack fields) :
    v * 2 ^ low ≤ pack ((v, low) :: fields) ∧ pack ((v, low) :: fields) < 0 := by
  have hshift : Bits.shiftLeft v low < 0 := Int.mul_neg_of_neg_of_pos hv (Int.pow_pos (by decide))
  exact Bits.or_negative hshift h

theorem field_extent (v : Int) (low width : Nat) :
    0 ≤ field v low width ∧ field v low width < 2 ^ width := by
  have hpos : (0 : Int) < 2 ^ width := Int.pow_pos (by decide)
  rw [field, Bits.and_mask]
  exact ⟨Int.emod_nonneg _ (by omega), Int.emod_lt_of_pos _ hpos⟩

theorem pair_extent (v : Int) (bit low : Nat) {width : Nat} (hwidth : width ≤ 6) :
    0 ≤ pack [(field v bit 1, 6), (field v low width, 0)] ∧
      pack [(field v bit 1, 6), (field v low width, 0)] < 128 := by
  have hbit := field_extent v bit 1
  have hlow := field_extent v low width
  have hcast := Bits.natCast_two_pow width
  have hpow : 2 ^ width ≤ 2 ^ 6 := Nat.pow_le_pow_right (by decide) hwidth
  refine pack_extent (k := 7) ?_
  simp only [Below, Int.reducePow, and_true]
  omega

theorem code_extent {f : Format} {op : Text} {c : Code} (hc : Code.find? f op = some c) :
    c.opcode < 128 ∧ c.funct3 < 8 ∧ c.funct7 < 128 := by
  have hall (f : Format) :
      ∀ p ∈ Code.table f, p.2.opcode < 128 ∧ p.2.funct3 < 8 ∧ p.2.funct7 < 128 := by
    cases f <;> decide
  exact hall f (op, c) (mem_table_of_find? hc)

theorem encodeI_system [Evaluator] {op : Text} {n : Int} {args : List Value} {e : Encoded}
    (hsystem : systemNumber? op = some n) (h : encodeI op args = .ok e) :
    ∃ c, Code.find? .I op = some c ∧ (n = 0 ∨ n = 1) ∧
      e = ⟨pack [(n, 20), (c.funct3, 12), (c.opcode, 0)], ⟨none, none⟩⟩ := by
  simp only [encodeI, Except.bind_eq_ok, codeOf_eq_ok] at h
  obtain ⟨c, hc, operands, -, h⟩ := h
  rw [hsystem] at h
  cases h
  refine ⟨c, hc, ?_, rfl⟩
  unfold systemNumber? at hsystem
  split at hsystem
  · exact .inl (Option.some.inj hsystem).symm
  · split at hsystem
    · exact .inr (Option.some.inj hsystem).symm
    · cases hsystem

/-- A negative immediate that stands at the top of the word with its sign. -/
def NegativeTop (f : Format) (op : Text) (operands : Operands) : Prop :=
  (f = .U ∨ f = .I ∧ isShift op = false) ∧ ∃ i ∈ operands.imm, i < 0

/-- The encoding is a word, or it is negative and short. -/
def Extent (negative : Prop) (bits : Int) : Prop :=
  (negative ∧ -2 ^ 31 ≤ bits ∧ bits < 0) ∨ (¬ negative ∧ 0 ≤ bits ∧ bits < 2 ^ 32)

theorem Extent.bounds {negative : Prop} {bits : Int} (h : Extent negative bits) :
    -2 ^ 31 ≤ bits ∧ bits < 2 ^ 32 := by
  rcases h with ⟨-, hlow, hlt⟩ | ⟨-, hle, hhigh⟩
  · exact ⟨hlow, by omega⟩
  · exact ⟨by omega, hhigh⟩

theorem Extent.nonneg_iff {negative : Prop} {bits : Int} (h : Extent negative bits) :
    0 ≤ bits ↔ ¬ negative := by
  rcases h with ⟨hneg, -, hlt⟩ | ⟨hneg, hle, -⟩
  · exact iff_of_false (by omega) (not_not_intro hneg)
  · exact iff_of_true hle hneg

theorem extent_top {fields : List (Int × Nat)} {f : Format} {op : Text} {regs : List Nat} {i : Int}
    {low : Nat} (hf : f = .U ∨ f = .I ∧ isShift op = false)
    (hi : -2 ^ 31 ≤ i * 2 ^ low ∧ i * 2 ^ low < 2 ^ 32)
    (h : Below 32 fields) :
    Extent (NegativeTop f op ⟨some regs, some i⟩) (pack ((i, low) :: fields)) := by
  by_cases hsign : i < 0
  · obtain ⟨hle, hlt⟩ := pack_negative hsign (pack_extent h).1
    exact .inl ⟨⟨hf, i, rfl, hsign⟩, hi.1.trans hle, hlt⟩
  · refine .inr ⟨?_, pack_extent ⟨by omega, hi.2, h⟩⟩
    rintro ⟨-, j, hj, hneg⟩
    cases hj
    exact hsign hneg

theorem encodeI_extent [Evaluator] {op : Text} {args : List Value} {e : Encoded}
    (h : encodeI op args = .ok e) (hregs : ∀ regs ∈ e.operands.regs, ∀ r ∈ regs, r < 32) :
    Extent (NegativeTop .I op e.operands) e.bits := by
  cases hsystem : systemNumber? op with
  | some n =>
      obtain ⟨c, hc, hn, rfl⟩ := encodeI_system hsystem h
      have hcode := code_extent hc
      refine .inr ⟨by simp [NegativeTop], pack_extent ?_⟩
      simp only [Below, Int.reducePow, and_true]
      omega
  | none =>
      obtain ⟨c, a, b, x, rd, rs1, hc, -, -, -, hcase⟩ := encodeI_eq_ok hsystem h
      have hcode := code_extent hc
      rcases hcase with ⟨hshift, v, -, rfl⟩ | ⟨hshift, v, -, rfl⟩
      · have hrd := hregs _ rfl rd (by simp)
        have hrs1 := hregs _ rfl rs1 (by simp)
        have hmask : Bits.and v 0x3f = v % 64 := Bits.and_mask v 6
        refine .inr ⟨by simp [NegativeTop, hshift], pack_extent ?_⟩
        simp only [Below, Int.reducePow, and_true, hmask]
        omega
      · have hrd := hregs _ rfl rd (by simp)
        have hrs1 := hregs _ rfl rs1 (by simp)
        obtain ⟨-, hlow, hhigh⟩ := representative_wrap (by decide : 0 < 12) v
        refine extent_top (.inr ⟨rfl, hshift⟩) ?_ ?_
        · omega
        · simp only [Below, Int.reducePow, and_true]
          omega

theorem encodeWith_extent [Evaluator] {f : Format} {op : Text} {args : List Value} {e : Encoded}
    (h : encodeWith f op args = .ok e)
    (hregs : ∀ regs ∈ e.operands.regs, ∀ r ∈ regs, r < 32) :
    Extent (NegativeTop f op e.operands) e.bits := by
  cases f with
  | R =>
      obtain ⟨c, a, b, d, rd, rs1, rs2, hc, -, -, -, -, rfl⟩ := encodeR_eq_ok h
      have hcode := code_extent hc
      have hrd := hregs _ rfl rd (by simp)
      have hrs1 := hregs _ rfl rs1 (by simp)
      have hrs2 := hregs _ rfl rs2 (by simp)
      refine .inr ⟨by simp [NegativeTop], pack_extent ?_⟩
      simp only [Below, Int.reducePow, and_true]
      omega
  | I => exact encodeI_extent h hregs
  | S =>
      obtain ⟨c, b, a, x, rs1, rs2, v, hc, -, -, -, -, rfl⟩ := encodeS_eq_ok h
      have hcode := code_extent hc
      have hrs1 := hregs _ rfl rs1 (by simp)
      have hrs2 := hregs _ rfl rs2 (by simp)
      have hhigh := field_extent (Immediate.wrap 12 v) 5 7
      have hlow := field_extent (Immediate.wrap 12 v) 0 5
      refine .inr ⟨by simp [NegativeTop], pack_extent ?_⟩
      simp only [Below, Int.reducePow, and_true]
      omega
  | B =>
      obtain ⟨c, a, b, x, rs1, rs2, v, hc, -, -, -, -, rfl⟩ := encodeB_eq_ok h
      have hcode := code_extent hc
      have hrs1 := hregs _ rfl rs1 (by simp)
      have hrs2 := hregs _ rfl rs2 (by simp)
      have hhigh := pair_extent (Immediate.wrap 13 v) 12 5 (by decide : 6 ≤ 6)
      have hlow := pair_extent (Immediate.wrap 13 v) 11 1 (by decide : 4 ≤ 6)
      refine .inr ⟨by simp [NegativeTop], pack_extent ?_⟩
      simp only [Below, Int.reducePow, and_true]
      omega
  | U =>
      obtain ⟨c, a, imm, x, rd, v, hc, -, -, -, -, rfl⟩ := encodeU_eq_ok h
      have hcode := code_extent hc
      have hrd := hregs _ rfl rd (by simp)
      obtain ⟨-, hlow, hhigh⟩ := representative_wrap (by decide : 0 < 20) v
      refine extent_top (.inl rfl) ?_ ?_
      · omega
      · simp only [Below, Int.reducePow, and_true]
        omega
  | J =>
      obtain ⟨c, a, imm, x, rd, v, hc, -, -, -, -, rfl⟩ := encodeJ_eq_ok h
      have hcode := code_extent hc
      have hrd := hregs _ rfl rd (by simp)
      have h20 := field_extent (Immediate.wrap 21 v) 20 1
      have h12 := field_extent (Immediate.wrap 21 v) 12 8
      have h11 := field_extent (Immediate.wrap 21 v) 11 1
      have h1 := field_extent (Immediate.wrap 21 v) 1 10
      refine .inr ⟨by simp [NegativeTop], pack_extent ?_⟩
      simp only [Below, Int.reducePow, and_true]
      omega

end Instruction

end RvToolkit
