import RvToolkit.Euclid

namespace RvToolkit.Euclid

variable {a b : Int} {r t : Remainders} {n : Nat}

/-- A run of the loop from one pair of remainders to the last, with the number of its rounds. -/
inductive Rounds : Nat → Remainders → Remainders → Prop where
  | stop {r : Remainders} (hb : r.b = 0) : Rounds 0 r r
  | next {n : Nat} {r t : Remainders} (hb : r.b ≠ 0) (h : Rounds n r.next t) : Rounds (n + 1) r t

theorem exists_rounds (r : Remainders) : ∃ n, Rounds n r (reduce r) := by
  fun_induction reduce r with
  | case1 r hb => exact ⟨0, .stop hb⟩
  | case2 r hb ih =>
      obtain ⟨n, h⟩ := ih
      exact ⟨n + 1, .next hb h⟩

theorem Rounds.b_eq_zero (h : Rounds n r t) : t.b = 0 := by
  induction h with
  | stop hb => exact hb
  | next _ _ ih => exact ih

section Invariant

/-- Sign of the last remainder. Every remainder has the sign of `b`; without a division it is `a`. -/
def heading (a b : Int) : Int := if b = 0 then a.sign else b.sign

theorem sign_fmod (h : a.fmod b ≠ 0) (hb : b ≠ 0) : (a.fmod b).sign = b.sign := by
  rcases Int.lt_or_gt_of_ne hb with hneg | hpos
  · have hle := Int.fmod_nonneg_of_pos (-a) (b := -b) (by omega)
    rw [Int.neg_fmod_neg] at hle
    rw [Int.sign_eq_neg_one_of_neg hneg, Int.sign_eq_neg_one_of_neg (by omega)]
  · have hle := Int.fmod_nonneg_of_pos a hpos
    rw [Int.sign_eq_one_of_pos hpos, Int.sign_eq_one_of_pos (by omega)]

theorem heading_fmod (hb : b ≠ 0) : heading b (a.fmod b) = heading a b := by
  unfold heading
  rw [if_neg hb]
  split
  · rfl
  · next h => exact sign_fmod h hb

theorem gcd_fmod (a b : Int) : b.gcd (a.fmod b) = a.gcd b := by
  rw [Int.fmod_def, Int.gcd_sub_mul_left_right, Int.gcd_comm]

/-- What every round keeps: both remainders are combinations of `a` and `b` with the coefficients beside
them, and neither the greatest common divisor nor the sign of the last remainder changes. -/
structure Tracks (a b : Int) (r : Remainders) : Prop where
  left : a * r.x0 + b * r.y0 = r.a
  right : a * r.x1 + b * r.y1 = r.b
  gcd_eq : r.a.gcd r.b = a.gcd b
  heading_eq : heading r.a r.b = heading a b

theorem tracks_start (a b : Int) : Tracks a b { a, b } where
  left := by simp
  right := by simp
  gcd_eq := rfl
  heading_eq := rfl

theorem Tracks.next (h : Tracks a b r) (hb : r.b ≠ 0) : Tracks a b r.next where
  left := h.right
  right := by
    let q := r.a.fdiv r.b
    calc a * (r.x0 - q * r.x1) + b * (r.y0 - q * r.y1)
      _ = (a * r.x0 + b * r.y0) - (a * r.x1 + b * r.y1) * q := by grind
      _ = r.a - r.b * q := by rw [h.left, h.right]
      _ = r.a.fmod r.b := (Int.fmod_def r.a r.b).symm
  gcd_eq := (gcd_fmod r.a r.b).trans h.gcd_eq
  heading_eq := (heading_fmod hb).trans h.heading_eq

theorem Rounds.tracks (h : Rounds n r t) (hr : Tracks a b r) : Tracks a b t := by
  induction h with
  | stop _ => exact hr
  | next hb _ ih => exact ih (hr.next hb)

end Invariant

section Length

theorem natAbs_fmod_of_nonneg (ha : 0 ≤ a) (hb : 0 ≤ b) : (a.fmod b).natAbs = a.natAbs % b.natAbs := by
  rw [Int.fmod_eq_emod_of_nonneg a hb, Int.natAbs_emod_of_nonneg ha]

theorem natAbs_fmod_of_sign_eq (h : a.sign = b.sign) : (a.fmod b).natAbs = a.natAbs % b.natAbs := by
  by_cases ha : 0 ≤ a
  · have hb : 0 ≤ b := by rwa [← Int.sign_nonneg_iff, ← h, Int.sign_nonneg_iff]
    exact natAbs_fmod_of_nonneg ha hb
  · have hb : b < 0 := by
      rw [← Int.sign_eq_neg_one_iff_neg, ← h, Int.sign_eq_neg_one_iff_neg]
      omega
    have hneg := natAbs_fmod_of_nonneg (a := -a) (b := -b) (by omega) (by omega)
    rwa [Int.neg_fmod_neg, Int.natAbs_neg, Int.natAbs_neg, Int.natAbs_neg] at hneg

theorem two_mul_natAbs_fmod_lt (hb : b ≠ 0) (hc : a.fmod b ≠ 0) :
    2 * (b.fmod (a.fmod b)).natAbs < b.natAbs := by
  have hlt := natAbs_fmod_lt a hb
  have hmod := natAbs_fmod_of_sign_eq (sign_fmod hc hb).symm
  -- the first remainder goes into the divisor at least once, so the second is at most what is left
  rw [Nat.mod_eq_sub_mod (Nat.le_of_lt hlt)] at hmod
  have hle := Nat.mod_le (b.natAbs - (a.fmod b).natAbs) (a.fmod b).natAbs
  have hrest := natAbs_fmod_lt b hc
  omega

theorem Rounds.two_pow_le (h : Rounds n r t) : 2 ^ (n / 2) ≤ r.b.natAbs + 1 := by
  -- by two rounds at a time: one alone need not halve the divisor
  induction n using Nat.strongRecOn generalizing r with
  | ind n ih =>
      cases h with
      | stop _ => exact Nat.le_add_left 1 _
      | next hb h =>
          cases h with
          | stop _ => exact Nat.le_add_left 1 _
          | @next k _ _ hc h =>
              have hhalf : 2 * r.next.next.b.natAbs < r.b.natAbs := two_mul_natAbs_fmod_lt hb hc
              have hk := ih k (by omega) h
              change 2 ^ ((k + 2) / 2) ≤ r.b.natAbs + 1
              rw [Nat.add_div_right k (by decide), Nat.pow_succ]
              omega

theorem Rounds.le_log2 (h : Rounds n r t) : n ≤ 2 * (r.b.natAbs + 1).log2 + 1 := by
  have hle : n / 2 ≤ (r.b.natAbs + 1).log2 := (Nat.le_log2 (Nat.succ_ne_zero _)).mpr h.two_pow_le
  omega

end Length

theorem compute_gcd (a b : Int) : (compute a b).gcd = a.gcd b := by
  obtain ⟨n, h⟩ := exists_rounds { a, b }
  have ht := (h.tracks (tracks_start a b)).gcd_eq
  rw [h.b_eq_zero, Int.gcd_zero_right] at ht
  exact congrArg Int.ofNat ht

theorem compute_combination (a b : Int) :
    a * (compute a b).x + b * (compute a b).y = heading a b * a.gcd b := by
  obtain ⟨n, h⟩ := exists_rounds { a, b }
  have ht := h.tracks (tracks_start a b)
  have hlast : (reduce { a, b }).a.sign = heading a b := by
    rw [← ht.heading_eq, heading, if_pos h.b_eq_zero]
  have hgcd : ((reduce { a, b }).a.natAbs : Int) = a.gcd b := compute_gcd a b
  calc a * (compute a b).x + b * (compute a b).y
    _ = (reduce { a, b }).a := ht.left
    _ = (reduce { a, b }).a.sign * (reduce { a, b }).a.natAbs := (Int.sign_mul_natAbs _).symm
    _ = heading a b * a.gcd b := by rw [hlast, hgcd]

theorem heading_eq_one_iff : heading a b = 1 ↔ 0 < b ∨ b = 0 ∧ 0 < a := by
  unfold heading
  split <;> rw [Int.sign_eq_one_iff_pos] <;> omega

theorem heading_mul_eq_iff {c : Int} : heading a b * c = c ↔ c = 0 ∨ heading a b = 1 := by
  constructor
  · intro h
    by_cases hc : c = 0
    · exact .inl hc
    · exact .inr (Int.eq_one_of_mul_eq_self_left hc h)
  · rintro (rfl | h)
    · exact Int.mul_zero _
    · rw [h, Int.one_mul]

theorem natCast_gcd_eq_zero_iff : (a.gcd b : Int) = 0 ↔ a = 0 ∧ b = 0 := by
  rw [Int.natCast_eq_zero, Int.gcd_eq_zero_iff]

/-- The loop ends; the divisor is right for all numbers, and the coefficients give it up to the sign of the
last remainder. -/
theorem compute_bezout_iff (a b : Int) :
    (∃ n t, Rounds n { a, b } t ∧ n ≤ 2 * (b.natAbs + 1).log2 + 1 ∧
        compute a b = ⟨t.a.natAbs, t.x0, t.y0⟩) ∧
      (compute a b).gcd = a.gcd b ∧
      a * (compute a b).x + b * (compute a b).y = heading a b * (compute a b).gcd ∧
      (a * (compute a b).x + b * (compute a b).y = (compute a b).gcd ↔ 0 < b ∨ b = 0 ∧ 0 ≤ a) := by
  obtain ⟨n, h⟩ := exists_rounds { a, b }
  rw [compute_combination, compute_gcd]
  refine ⟨⟨n, _, h, h.le_log2, rfl⟩, rfl, rfl, ?_⟩
  rw [heading_mul_eq_iff, heading_eq_one_iff, natCast_gcd_eq_zero_iff]
  omega

end RvToolkit.Euclid
