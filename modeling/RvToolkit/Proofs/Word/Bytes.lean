import RvToolkit.Proofs.Instruction.SignedFields
import RvToolkit.Proofs.Word.Residue

namespace RvToolkit.Word

open Instruction (Fits Representative representative_bmod signed wrap_eq_bmod wrap_eq_signed_emod)

variable {s : Signedness} {n k : Nat} {d : Int}

section Extension

theorem signExtend_of_lt (hn : 0 < n) (h0 : 0 ≤ d) (hd : d < 2 ^ n) :
    signExtend s d n = (ofInt s (d.bmod (2 ^ n)), false) := by
  -- Below `2 ^ n` the highest bit is the only one that can be a sign.
  obtain ⟨k, rfl⟩ : ∃ k, n = k + 1 := ⟨n - 1, by omega⟩
  have hpos : (0 : Int) < 2 ^ k := Int.pow_pos (by decide)
  have hdouble : (2 ^ (k + 1) : Int) = 2 ^ k * 2 := Int.pow_succ 2 k
  have hhigh : Bits.shiftRight d k = d / 2 ^ k := Int.shiftRight_eq_div_pow d k
  have hsigned : d.bmod (2 ^ (k + 1)) = signed (k + 1) d := by
    have h := wrap_eq_signed_emod (k + 1) d
    rwa [wrap_eq_bmod, Int.emod_eq_of_lt h0 hd] at h
  simp only [signExtend, Nat.add_sub_cancel, hhigh, Bits.and_mask, hsigned, signed]
  by_cases hsmall : d < 2 ^ k
  · rw [Int.ediv_eq_zero_of_lt h0 hsmall, if_pos rfl, if_neg (by omega)]
    rfl
  · obtain ⟨hquot, hrem⟩ : d / 2 ^ k = 1 ∧ d % 2 ^ k = d - 2 ^ k :=
      (Int.ediv_emod_unique hpos).mpr ⟨by omega, by omega, by omega⟩
    -- the sign bit is taken out and then counted negative: half the modulus twice
    have htwice : d - 2 ^ k - 2 ^ k = d - 2 ^ (k + 1) := by omega
    rw [hquot, hrem, if_neg (by decide), if_pos (by omega), htwice]
    rfl

theorem extendFrom_of_lt (hn : 0 < n) (h0 : 0 ≤ d) (hd : d < 2 ^ n) :
    extendFrom s (.int d) n = .ok (ofInt s (d.bmod (2 ^ n)), false) := by
  have hbits : ¬(n : Int) < 1 := by omega
  simp only [extendFrom, if_neg hbits, Int.toNat_natCast, signExtend_of_lt hn h0 hd]

theorem extendFrom_bytes {frozen : Bool} {bs : List UInt8} :
    extendFrom s (.bytes frozen bs) n = extendFrom s (.int (littleEndian bs)) n := rfl

theorem value_bmod (hn : 0 < n) (h32 : n ≤ 32) (v : Int) :
    (ofInt .signed (v.bmod (2 ^ n))).value = v.bmod (2 ^ n) := by
  have hfits : Fits n (v.bmod (2 ^ n)) := (representative_bmod hn v).2
  rw [value_signed]
  exact (hfits.mono h32).bmod_eq (by decide)

end Extension

section Bytes

theorem littleEndian_range (n k : Nat) :
    littleEndian ((List.range k).map fun j => (n / 256 ^ j).toUInt8) = n % 256 ^ k := by
  induction k generalizing n with
  | zero => simp [littleEndian, Nat.mod_one]
  | succ k ih =>
      have hrest : (List.range k).map (fun j => (n / 256 ^ (j + 1)).toUInt8) =
          (List.range k).map fun j => (n / 256 / 256 ^ j).toUInt8 := by
        simp only [Nat.div_div_eq_div_mul, Nat.pow_succ']
      calc littleEndian ((List.range (k + 1)).map fun j => (n / 256 ^ j).toUInt8)
        _ = (n / 256 ^ 0).toUInt8.toNat +
            256 * littleEndian ((List.range k).map fun j => (n / 256 ^ (j + 1)).toUInt8) := by
          rw [List.range_succ_eq_map, List.map_cons, List.map_map]
          rfl
        _ = n % 256 + 256 * (n / 256 % 256 ^ k) := by
          rw [hrest, ih, Nat.pow_zero, Nat.div_one]
          rfl
        _ = n % 256 ^ (k + 1) := by rw [Nat.pow_succ', Nat.mod_mul]

theorem lowBytes_eq (w : Word) (hk : k ≤ 4) :
    w.lowBytes (.int k) = .ok ((List.range k).map fun j => (w.bits.toNat / 256 ^ j).toUInt8) := by
  have hsign : ¬(k : Int) < 0 := by omega
  simp only [lowBytes, toBytes, if_neg hsign, Int.toNat_natCast, ← List.map_take, List.take_range,
    Nat.min_eq_left hk]

theorem littleEndian_toBytes (w : Word) : littleEndian w.toBytes = w.bits.toNat :=
  (littleEndian_range w.bits.toNat 4).trans (Nat.mod_eq_of_lt w.bits.isLt)

theorem reading_toBytes (w : Word) : reading w.sign w.toBytes = w.value := by
  obtain ⟨s, x⟩ := w
  cases s with
  | signed =>
      change (BitVec.ofNat 32 (littleEndian (toBytes ⟨.signed, x⟩))).toInt = x.toInt
      rw [littleEndian_toBytes, BitVec.ofNat_toNat, BitVec.setWidth_eq]
  | unsigned => exact congrArg Int.ofNat (littleEndian_toBytes ⟨.unsigned, x⟩)

theorem ofBytes_toBytes (s : Signedness) (v : Int) : ofBytes s (ofInt s v).toBytes = ofInt s v := by
  have hvalue : reading s (ofInt s v).toBytes = (ofInt s v).value := reading_toBytes (ofInt s v)
  rw [ofBytes, hvalue]
  exact ofInt_congr (ofInt_value_ofInt s v)

theorem bits_mod_pow (s : Signedness) (v : Int) (hk : k ≤ 4) :
    (((ofInt s v).bits.toNat % 256 ^ k : Nat) : Int) = v % 2 ^ (8 * k) := by
  have hdvd : (2 ^ (8 * k) : Int) ∣ 0x100000000 := by
    rw [← Bits.natCast_two_pow]
    exact Int.natCast_dvd_natCast.mpr (Nat.pow_dvd_pow 2 (show 8 * k ≤ 32 by omega))
  have hpow : ((256 ^ k : Nat) : Int) = 2 ^ (8 * k) := by
    rw [← Bits.natCast_two_pow, Nat.pow_mul]
  have hbits : ((ofInt s v).bits.toNat : Int) = v % 0x100000000 := unsignedValue_ofInt s v
  rw [Int.natCast_emod, hpow, hbits, Int.emod_emod_of_dvd v hdvd]

theorem extendFrom_lowBytes (v : Int) (hk0 : 0 < k) (hk : k ≤ 4) :
    ∃ bs, (ofInt .signed v).lowBytes (.int k) = .ok bs ∧
      extendFrom .signed (.bytes false bs) (8 * k : Nat) =
        .ok (ofInt .signed (v.bmod (2 ^ (8 * k))), false) := by
  have hpos : (0 : Int) < 2 ^ (8 * k) := Int.pow_pos (by decide)
  refine ⟨_, lowBytes_eq _ hk, ?_⟩
  rw [extendFrom_bytes, littleEndian_range, bits_mod_pow .signed v hk,
    extendFrom_of_lt (by omega) (Int.emod_nonneg v (Int.ne_of_gt hpos)) (Int.emod_lt_of_pos v hpos),
    Bits.emod_bmod_two_pow]

end Bytes

/-- The bytes of a word spell it in either reading, its low bytes extend to the signed residue, and the
extension of a number is the word of its reading with a sign. Nothing is reported to overflow. -/
theorem bytes_consistent (v : Int) :
    (∀ s, ∃ bs, (ofInt s v).lowBytes (.int 4) = .ok bs ∧ reading s bs = (ofInt s v).value ∧
        ofValue s (.bytes false bs) = .ok (ofInt s v)) ∧
      (∀ k : Nat, 1 ≤ k → k ≤ 4 → ∃ bs w, (ofInt .signed v).lowBytes (.int k) = .ok bs ∧
        extendFrom .signed (.bytes false bs) (8 * k : Nat) = .ok (w, false) ∧ w.sign = .signed ∧
        Representative (8 * k) v w.value ∧ ∀ i, Representative (8 * k) v i → i = w.value) ∧
      ∀ s (n : Nat), 1 ≤ n → ∀ d : Int, 0 ≤ d → d < 2 ^ n →
        extendFrom s (.int d) n = .ok (ofInt s (BitVec.ofInt n d).toInt, false) := by
  refine ⟨fun s => ?_, fun k hk0 hk => ?_, fun s n hn d h0 hd => ?_⟩
  · exact ⟨_, rfl, reading_toBytes (ofInt s v), congrArg Except.ok (ofBytes_toBytes s v)⟩
  · obtain ⟨bs, hbs, hextend⟩ := extendFrom_lowBytes v hk0 hk
    have hvalue := value_bmod (n := 8 * k) (by omega) (by omega) v
    refine ⟨bs, _, hbs, hextend, rfl, ?_, fun i hi => ?_⟩
    · rw [hvalue]
      exact representative_bmod (by omega) v
    · rw [hvalue]
      exact hi.eq_bmod (by omega)
  · rw [extendFrom_of_lt hn h0 hd, BitVec.toInt_ofInt]

theorem bytes_consistent_sign_bit :
    (∃ w, (ofInt .signed 384).lowBytes (.int 1) = .ok [0x80] ∧
        extendFrom .signed (.bytes false [0x80]) 8 = .ok (w, false) ∧ w.value = -128) ∧
      extendFrom .unsigned (.int 1) 1 = .ok (ofInt .unsigned (-1), false) := by
  obtain ⟨-, hlow, hextend⟩ := bytes_consistent 384
  obtain ⟨bs, w, hbs, hw, -, -, hunique⟩ := hlow 1 (by decide) (by decide)
  have h128 : -128 = w.value := hunique (-128) ⟨by decide, by decide, by decide⟩
  cases hbs
  exact ⟨⟨w, rfl, hw, h128.symm⟩, hextend .unsigned 1 (by decide) 1 (by decide) (by decide)⟩

end RvToolkit.Word
