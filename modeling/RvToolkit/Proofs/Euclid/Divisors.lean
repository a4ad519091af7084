import RvToolkit.Proofs.Euclid.Solving

namespace RvToolkit.Euclid

variable {a b g h l m : Int}

section Divisors

structure IsGcd (a b g : Int) : Prop where
  nonneg : 0 ≤ g
  dvd_left : g ∣ a
  dvd_right : g ∣ b
  greatest : ∀ d, d ∣ a → d ∣ b → d ∣ g

theorem IsGcd.unique (hg : IsGcd a b g) (hh : IsGcd a b h) : g = h := by
  have hgh : g ∣ h := hh.greatest g hg.dvd_left hg.dvd_right
  have hhg : h ∣ g := hg.greatest h hh.dvd_left hh.dvd_right
  exact Int.dvd_antisymm hg.nonneg hh.nonneg hgh hhg

theorem gcd_eq (a b : Int) : gcd a b = a.gcd b := compute_gcd a b

theorem isGcd_gcd (a b : Int) : IsGcd a b (gcd a b) := by
  rw [gcd_eq]
  exact ⟨Int.natCast_nonneg _, Int.gcd_dvd_left a b, Int.gcd_dvd_right a b,
    fun _ ha hb => Int.dvd_coe_gcd ha hb⟩

theorem isGcd_iff : IsGcd a b g ↔ g = gcd a b := by
  constructor
  · intro hg
    exact hg.unique (isGcd_gcd a b)
  · rintro rfl
    exact isGcd_gcd a b

theorem gcd_comm (a b : Int) : gcd a b = gcd b a := by
  rw [gcd_eq, gcd_eq, Int.gcd_comm]

theorem coprime_iff : coprime a b = true ↔ Solvable a b 1 := by
  rw [coprime, decide_eq_true_iff, gcd_eq, solvable_iff]
  constructor
  · intro h
    rw [h]
  · exact Int.eq_one_of_dvd_one (Int.natCast_nonneg _)

end Divisors

section Multiples

structure IsLcm (a b l : Int) : Prop where
  nonneg : 0 ≤ l
  left_dvd : a ∣ l
  right_dvd : b ∣ l
  least : ∀ m, a ∣ m → b ∣ m → l ∣ m

theorem IsLcm.unique (hl : IsLcm a b l) (hm : IsLcm a b m) : l = m := by
  have hlm : l ∣ m := hl.least m hm.left_dvd hm.right_dvd
  have hml : m ∣ l := hm.least l hl.left_dvd hl.right_dvd
  exact Int.dvd_antisymm hl.nonneg hm.nonneg hlm hml

theorem gcd_mul_natCast_lcm (a b : Int) : gcd a b * a.lcm b = (a * b).natAbs := by
  rw [gcd_eq, Int.natAbs_mul, ← Int.gcd_mul_lcm, Int.natCast_mul]

theorem lcm_eq (a b : Int) : lcm a b = a.lcm b := by
  -- The product is a multiple of the divisor, so that the division leaves nothing.
  unfold lcm
  dsimp only
  split
  · next h =>
      rw [gcd_eq, natCast_gcd_eq_zero_iff] at h
      rw [h.1, Int.lcm_zero_left]
      rfl
  · next h => rw [← gcd_mul_natCast_lcm, Int.mul_fdiv_cancel_left _ h]

theorem isLcm_lcm (a b : Int) : IsLcm a b (lcm a b) := by
  rw [lcm_eq]
  exact ⟨Int.natCast_nonneg _, Int.dvd_lcm_left a b, Int.dvd_lcm_right a b,
    fun _ ha hb => Int.coe_lcm_dvd ha hb⟩

theorem isLcm_iff : IsLcm a b l ↔ l = lcm a b := by
  constructor
  · intro hl
    exact hl.unique (isLcm_lcm a b)
  · rintro rfl
    exact isLcm_lcm a b

theorem lcm_comm (a b : Int) : lcm a b = lcm b a := by
  rw [lcm_eq, lcm_eq, Int.lcm_comm]

theorem lcm_eq_zero_iff : lcm a b = 0 ↔ a = 0 ∨ b = 0 := by
  rw [lcm_eq, Int.natCast_eq_zero, Int.lcm_eq_zero_iff]

theorem gcd_mul_lcm (a b : Int) : gcd a b * lcm a b = (a * b).natAbs := by
  rw [lcm_eq, gcd_mul_natCast_lcm]

end Multiples

/-- Both are the only numbers with their properties, for numbers of either sign and for zeros. -/
theorem gcd_lcm_universal (a b : Int) :
    (∀ g, IsGcd a b g ↔ g = gcd a b) ∧
      (∀ l, IsLcm a b l ↔ l = lcm a b) ∧
      (lcm a b = 0 ↔ a = 0 ∨ b = 0) ∧
      gcd a b * lcm a b = (a * b).natAbs ∧
      gcd a b = gcd b a ∧ lcm a b = lcm b a ∧
      (coprime a b = true ↔ ∃ x y, a * x + b * y = 1) :=
  ⟨fun _ => isGcd_iff, fun _ => isLcm_iff, lcm_eq_zero_iff, gcd_mul_lcm a b, gcd_comm a b, lcm_comm a b,
    coprime_iff⟩

end RvToolkit.Euclid
