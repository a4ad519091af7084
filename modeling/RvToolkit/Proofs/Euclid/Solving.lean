import Mathlib.Data.Int.GCD
import Mathlib.Data.Int.ModEq
import Mathlib.RingTheory.Coprime.Lemmas
import RvToolkit.Proofs.Euclid.Bezout

namespace RvToolkit.Euclid

section Equations

variable {a b c : Int}

def Solvable (a b c : Int) : Prop := ∃ x y, a * x + b * y = c

theorem solvable_iff : Solvable a b c ↔ (a.gcd b : Int) ∣ c := by
  constructor
  · rintro ⟨x, y, rfl⟩
    exact Int.dvd_add (Int.dvd_mul_of_dvd_left (Int.gcd_dvd_left a b))
      (Int.dvd_mul_of_dvd_left (Int.gcd_dvd_right a b))
  · rintro ⟨k, rfl⟩
    refine ⟨a.gcdA b * k, a.gcdB b * k, ?_⟩
    rw [Int.gcd_eq_gcd_ab, Int.add_mul, Int.mul_assoc, Int.mul_assoc]

/-- What comes of an equation. Two zeros have no divisor to divide by, whatever stands on the right; a
solution is one for `c` or for `-c`, as the last remainder is positive or negative. -/
inductive Resolves (a b c : Int) : Except Fault (Int × Int) → Prop where
  | undefined (h : a = 0 ∧ b = 0) : Resolves a b c (.error (.eval (.moduloByZero .integer)))
  | unsolvable (h : ¬(a = 0 ∧ b = 0)) (hc : ¬Solvable a b c) :
      Resolves a b c (.error (.value (.noSolution a b c (a.gcd b))))
  | solved {x y : Int} (h : ¬(a = 0 ∧ b = 0)) (hc : Solvable a b c)
      (hxy : a * x + b * y = heading a b * c) : Resolves a b c (.ok (x, y))

theorem resolves_solve (a b c : Int) : Resolves a b c (solve a b c) := by
  unfold solve
  simp only [compute_gcd]
  split
  · next h => exact .undefined (natCast_gcd_eq_zero_iff.mp h)
  · next h =>
      split
      · next hc =>
          refine .unsolvable (mt natCast_gcd_eq_zero_iff.mpr h) ?_
          rwa [solvable_iff, Int.dvd_iff_fmod_eq_zero]
      · next hc =>
          have hdvd : (a.gcd b : Int) ∣ c := Int.dvd_of_fmod_eq_zero (not_not.mp hc)
          refine .solved (mt natCast_gcd_eq_zero_iff.mpr h) (solvable_iff.mpr hdvd) ?_
          let k := c.fdiv (a.gcd b)
          calc a * ((compute a b).x * k) + b * ((compute a b).y * k)
            _ = (a * (compute a b).x + b * (compute a b).y) * k := by grind
            _ = heading a b * (a.gcd b * k) := by rw [compute_combination, Int.mul_assoc]
            _ = heading a b * c := by rw [Int.mul_fdiv_cancel' hdvd]

/-- The answers that an equation asks for: a solution, or where there is none the fault that says so. -/
inductive Answers (a b c : Int) : Except Fault (Int × Int) → Prop where
  | solution {x y : Int} (h : a * x + b * y = c) : Answers a b c (.ok (x, y))
  | refusal {cause : ValueCause} (h : ¬Solvable a b c) : Answers a b c (.error (.value cause))

theorem Resolves.answers_iff {r : Except Fault (Int × Int)} (hr : Resolves a b c r) :
    Answers a b c r ↔ ¬(a = 0 ∧ b = 0) ∧ (Solvable a b c → c = 0 ∨ 0 < b ∨ b = 0 ∧ 0 < a) := by
  cases hr with
  | undefined h =>
      refine ⟨?_, fun h' => absurd h h'.1⟩
      rintro ⟨⟩
  | unsolvable h hc => exact ⟨fun _ => ⟨h, fun hs => absurd hs hc⟩, fun _ => .refusal hc⟩
  | @solved x y h hc hxy =>
      have hsolution : Answers a b c (.ok (x, y)) ↔ heading a b * c = c := by
        rw [← hxy]
        constructor
        · rintro ⟨h⟩
          exact h
        · exact .solution
      rw [hsolution, heading_mul_eq_iff, heading_eq_one_iff]
      exact ⟨fun h' => ⟨h, fun _ => h'⟩, fun h' => h'.2 hc⟩

/-- Unless both coefficients are zero, an unsolvable equation is refused, and a solvable one is answered
exactly when the last remainder is positive or `c` is zero. -/
theorem solve_answers_iff (a b c : Int) :
    Resolves a b c (solve a b c) ∧
      (Answers a b c (solve a b c) ↔
        ¬(a = 0 ∧ b = 0) ∧ (Solvable a b c → c = 0 ∨ 0 < b ∨ b = 0 ∧ 0 < a)) :=
  ⟨resolves_solve a b c, (resolves_solve a b c).answers_iff⟩

end Equations

section Inverses

variable {a m r s : Int}

/-- The inverse of `a` modulo `m`, least among those that are not negative. -/
structure IsInverse (a m r : Int) : Prop where
  nonneg : 0 ≤ r
  lt : r < m
  mul_modEq : a * r ≡ 1 [ZMOD m]

theorem IsInverse.unique (hr : IsInverse a m r) (hs : IsInverse a m s) : r = s := by
  have h : r ≡ s [ZMOD m] :=
    calc r
      _ = r * 1 := (Int.mul_one r).symm
      _ ≡ r * (a * s) [ZMOD m] := hs.mul_modEq.symm.mul_left r
      _ = a * r * s := by grind
      _ ≡ 1 * s [ZMOD m] := hr.mul_modEq.mul_right s
      _ = s := Int.one_mul s
  rwa [Int.ModEq, Int.emod_eq_of_lt hr.nonneg hr.lt, Int.emod_eq_of_lt hs.nonneg hs.lt] at h

theorem isInverse_coefficient (hm : 0 < m) (h : a.gcd m = 1) : IsInverse a m ((compute a m).x.fmod m) where
  nonneg := Int.fmod_nonneg_of_pos _ hm
  lt := Int.fmod_lt_of_pos _ hm
  mul_modEq := by
    have hcomb := compute_combination a m
    rw [heading_eq_one_iff.mpr (.inl hm), h] at hcomb
    rw [Int.fmod_eq_emod_of_nonneg _ (Int.le_of_lt hm)]
    calc a * ((compute a m).x % m)
      _ ≡ a * (compute a m).x [ZMOD m] := (Int.mod_modEq _ _).mul_left a
      _ ≡ a * (compute a m).x + m * (compute a m).y [ZMOD m] := (Int.modEq_add_fac_self ..).symm
      _ = 1 := hcomb

theorem inverse_of_gcd_eq_one (hm : 0 < m) (h : a.gcd m = 1) :
    inverse a m = .ok ((compute a m).x.fmod m) := by
  unfold inverse
  simp only [compute_gcd]
  rw [if_neg (by simp [h]), if_neg (Int.ne_of_gt hm)]

theorem inverse_of_gcd_ne_one (h : a.gcd m ≠ 1) :
    inverse a m = .error (.value (.noInverse a m (a.gcd m))) := by
  unfold inverse
  simp only [compute_gcd]
  exact if_pos (by simpa using h)

theorem inverse_iff_coprime (hm : 1 ≤ m) :
    ((∃ cause, inverse a m = .error (.value cause)) ↔ ¬IsCoprime a m) ∧
      (IsCoprime a m → ∃ r, inverse a m = .ok r ∧ IsInverse a m r ∧ ∀ s, IsInverse a m s → s = r) := by
  rw [Int.isCoprime_iff_gcd_eq_one]
  refine ⟨⟨?_, fun h => ⟨_, inverse_of_gcd_ne_one h⟩⟩, ?_⟩
  · rintro ⟨cause, herror⟩ h
    rw [inverse_of_gcd_eq_one hm h] at herror
    cases herror
  · intro h
    have hr := isInverse_coefficient hm h
    exact ⟨_, inverse_of_gcd_eq_one hm h, hr, fun s hs => hs.unique hr⟩

theorem inverse_neg_three :
    ((1 : Int) ≤ 11 ∧ IsCoprime (-3 : Int) 11 ∧ inverse (-3) 11 = .ok 7) ∧
      ((1 : Int) ≤ 1 ∧ inverse 0 1 = .ok 0) ∧
      ((1 : Int) ≤ 9 ∧ ∃ cause, inverse (-6) 9 = .error (.value cause)) := by
  have hcop : IsCoprime (-3 : Int) 11 := ⟨7, 2, by decide⟩
  obtain ⟨r, hr, -, hunique⟩ := (inverse_iff_coprime (a := -3) (m := 11) (by decide)).2 hcop
  obtain ⟨r', hr', -, hunique'⟩ := (inverse_iff_coprime (a := 0) (m := 1) (by decide)).2 isCoprime_one_right
  have h7 : 7 = r := hunique 7 ⟨by decide, by decide, by decide⟩
  have h0 : 0 = r' := hunique' 0 ⟨by decide, by decide, by decide⟩
  refine ⟨⟨by decide, hcop, h7 ▸ hr⟩, ⟨by decide, h0 ▸ hr'⟩, by decide, ?_⟩
  refine (inverse_iff_coprime (a := -6) (m := 9) (by decide)).1.mpr ?_
  rw [Int.isCoprime_iff_gcd_eq_one]
  decide

end Inverses

end RvToolkit.Euclid
