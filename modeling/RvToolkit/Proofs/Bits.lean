import RvToolkit.Number.Bits

namespace RvToolkit.Bits

variable {w : Nat}

theorem xor_and_eq (x y : BitVec w) : x ^^^ x &&& y = x &&& ~~~y := by
  ext i hi
  simp only [BitVec.getElem_xor, BitVec.getElem_and, BitVec.getElem_not]
  cases x[i] <;> cases y[i] <;> rfl

theorem ofInt_and (a b : Int) :
    BitVec.ofInt w (Bits.and a b) = BitVec.ofInt w a &&& BitVec.ofInt w b := by
  cases a with
  | ofNat m =>
      cases b with
      | ofNat n => simp [Bits.and]
      | negSucc n => simp [Bits.and, xor_and_eq]
  | negSucc m =>
      cases b with
      | ofNat n =>
          simp only [Bits.and, Int.ofNat_eq_natCast, BitVec.ofInt_natCast, BitVec.ofNat_xor,
            BitVec.ofNat_and, xor_and_eq, BitVec.ofInt_negSucc_eq_not_ofNat]
          exact BitVec.and_comm _ _
      | negSucc n => simp [Bits.and, BitVec.not_or]

theorem ofInt_or (a b : Int) :
    BitVec.ofInt w (Bits.or a b) = BitVec.ofInt w a ||| BitVec.ofInt w b := by
  cases a with
  | ofNat m =>
      cases b with
      | ofNat n => simp [Bits.or]
      | negSucc n => simp [Bits.or, xor_and_eq, BitVec.not_and, BitVec.or_comm]
  | negSucc m =>
      cases b with
      | ofNat n => simp [Bits.or, xor_and_eq, BitVec.not_and]
      | negSucc n => simp [Bits.or, BitVec.not_and]

theorem ofInt_xor (a b : Int) :
    BitVec.ofInt w (Bits.xor a b) = BitVec.ofInt w a ^^^ BitVec.ofInt w b := by
  cases a with
  | ofNat m =>
      cases b with
      | ofNat n => simp [Bits.xor]
      | negSucc n => simp [Bits.xor, BitVec.not_xor_right]
  | negSucc m =>
      cases b with
      | ofNat n => simp [Bits.xor, BitVec.not_xor_left]
      | negSucc n =>
          simp only [Bits.xor, BitVec.ofInt_natCast, BitVec.ofNat_xor, BitVec.ofInt_negSucc_eq_not_ofNat]
          rw [← BitVec.not_xor_left, ← BitVec.not_xor_right, BitVec.not_not]

theorem ofInt_shiftLeft (a : Int) (k : Nat) :
    BitVec.ofInt w (Bits.shiftLeft a k) = BitVec.ofInt w a <<< k := by
  have hpow : BitVec.ofInt w (2 ^ k) = BitVec.twoPow w k := by
    apply BitVec.eq_of_toNat_eq
    rw [BitVec.toNat_twoPow, BitVec.toNat_ofInt]
    rfl
  rw [Bits.shiftLeft, BitVec.ofInt_mul, hpow, BitVec.shiftLeft_eq_mul_twoPow]

theorem natCast_two_pow (k : Nat) : ((2 ^ k : Nat) : Int) = 2 ^ k := Int.natCast_pow 2 k

theorem two_pow_sub_mul {k n : Nat} (hk : k ≤ n) : (2 ^ (n - k) * 2 ^ k : Int) = 2 ^ n := by
  rw [← Int.pow_add, Nat.sub_add_cancel hk]

theorem bmod_emod_two_pow (v : Int) (n : Nat) : v.bmod (2 ^ n) % 2 ^ n = v % 2 ^ n := by
  rw [← natCast_two_pow]
  exact Int.bmod_emod

theorem emod_bmod_two_pow (v : Int) (n : Nat) : (v % 2 ^ n).bmod (2 ^ n) = v.bmod (2 ^ n) := by
  rw [← natCast_two_pow]
  exact Int.emod_bmod v (2 ^ n)

theorem and_mask (a : Int) (k : Nat) : Bits.and a (2 ^ k - 1) = a % 2 ^ k := by
  have hpos : 0 < 2 ^ k := Nat.two_pow_pos k
  have hcast : (2 ^ k : Int) = (2 ^ k : Nat) := (natCast_two_pow k).symm
  have hmask : (2 ^ k - 1 : Int) = Int.ofNat (2 ^ k - 1) := by
    rw [hcast, Int.ofNat_eq_natCast]
    omega
  rw [hmask, hcast]
  cases a with
  | ofNat m =>
      simp only [Bits.and, Nat.and_two_pow_sub_one_eq_mod]
      rfl
  | negSucc m =>
      have hlt : m % 2 ^ k < 2 ^ k := Nat.mod_lt m hpos
      have hxor : (2 ^ k - 1) ^^^ ((2 ^ k - 1) &&& m) = 2 ^ k - 1 - m % 2 ^ k := by
        have h : (BitVec.allOnes k ^^^ BitVec.ofNat k m).toNat = (~~~BitVec.ofNat k m).toNat := by
          rw [BitVec.allOnes_xor]
        rw [BitVec.toNat_xor, BitVec.toNat_not, BitVec.toNat_allOnes, BitVec.toNat_ofNat] at h
        rw [Nat.and_comm, Nat.and_two_pow_sub_one_eq_mod, h]
      simp only [Bits.and, hxor]
      rw [Int.negSucc_emod m (by omega)]
      omega

theorem or_shiftLeft_of_lt {a b : Int} {k : Nat} (ha : 0 ≤ a) (hb : 0 ≤ b) (hlt : b < 2 ^ k) :
    Bits.or (Bits.shiftLeft a k) b = a * 2 ^ k + b := by
  obtain ⟨m, rfl⟩ := Int.eq_ofNat_of_zero_le ha
  obtain ⟨n, rfl⟩ := Int.eq_ofNat_of_zero_le hb
  rw [← natCast_two_pow] at hlt
  have hadd : 2 ^ k * m + n = 2 ^ k * m ||| n := Nat.two_pow_add_eq_or_of_lt (by omega) m
  have hshift : Bits.shiftLeft m k = ((2 ^ k * m : Nat) : Int) := by
    rw [Bits.shiftLeft, Int.natCast_mul, natCast_two_pow, Int.mul_comm]
  rw [hshift, ← natCast_two_pow, Int.mul_comm]
  change ((2 ^ k * m ||| n : Nat) : Int) = _
  rw [← hadd, Int.natCast_add, Int.natCast_mul]

theorem emod_two_pow_split {k n : Nat} (hk : k ≤ n) (v : Int) :
    v / 2 ^ k % 2 ^ (n - k) * 2 ^ k + v % 2 ^ k = v % 2 ^ n := by
  have hnonneg : (0 : Int) ≤ 2 ^ k := Int.pow_nonneg (by decide)
  have hquot : v / 2 ^ n = v / 2 ^ k / 2 ^ (n - k) := by
    rw [Int.ediv_ediv_of_nonneg hnonneg, Int.mul_comm, two_pow_sub_mul hk]
  rw [Int.emod_def v (2 ^ n), hquot, ← two_pow_sub_mul hk, Int.emod_def (v / 2 ^ k), Int.emod_def v (2 ^ k)]
  grind

end RvToolkit.Bits
