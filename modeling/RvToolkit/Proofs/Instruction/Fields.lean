import Mathlib.Tactic.Linarith
import Mathlib.Tactic.Zify
import RvToolkit.Proofs.Instruction.Layout

namespace RvToolkit.Instruction

def packedWord (fields : List (Int × Nat)) : BitVec 32 := BitVec.ofInt 32 (pack fields)

theorem packedWord_nil : packedWord [] = 0#32 := rfl

theorem packedWord_cons (v : Int) (low : Nat) (fields : List (Int × Nat)) :
    packedWord ((v, low) :: fields) = BitVec.ofInt 32 v <<< low ||| packedWord fields := by
  rw [packedWord, packedWord, ← Bits.ofInt_shiftLeft, ← Bits.ofInt_or]
  rfl

theorem packedWord_perm {fields fields' : List (Int × Nat)} (h : fields.Perm fields') :
    packedWord fields = packedWord fields' := by
  induction h with
  | nil => rfl
  | cons f _ ih =>
      obtain ⟨v, low⟩ := f
      rw [packedWord_cons, packedWord_cons, ih]
  | swap f g fields =>
      obtain ⟨v, low⟩ := f
      obtain ⟨u, low'⟩ := g
      simp only [packedWord_cons, ← BitVec.or_assoc]
      rw [BitVec.or_comm (BitVec.ofInt 32 u <<< low')]
  | trans _ _ ih ih' => exact ih.trans ih'

theorem toNat_ofInt_shiftLeft (v : Int) {low : Nat} (hlow : low ≤ 32) :
    ((BitVec.ofInt 32 v <<< low).toNat : Int) = v % 2 ^ (32 - low) * 2 ^ low := by
  have hpow : (2 ^ 32 : Int) = 2 ^ (32 - low) * 2 ^ low := (Bits.two_pow_sub_mul hlow).symm
  have hpos : (0 : Int) < 2 ^ low := Int.pow_pos (by decide)
  have hdvd : (2 ^ (32 - low) : Int) ∣ 2 ^ 32 := ⟨2 ^ low, hpow⟩
  have hnonneg : 0 ≤ v % 2 ^ 32 := Int.emod_nonneg v (by decide)
  rw [BitVec.toNat_shiftLeft, Nat.shiftLeft_eq, BitVec.toNat_ofInt, Int.natCast_emod, Int.natCast_mul,
    Bits.natCast_two_pow, Bits.natCast_two_pow, Int.toNat_of_nonneg hnonneg]
  calc v % 2 ^ 32 * 2 ^ low % 2 ^ 32
      = 2 ^ low * (v % 2 ^ 32) % (2 ^ low * 2 ^ (32 - low)) := by
        rw [Int.mul_comm, Int.mul_comm (2 ^ low) (2 ^ (32 - low)), ← hpow]
    _ = 2 ^ low * (v % 2 ^ (32 - low)) := by
        rw [Int.mul_emod_mul_of_pos _ _ hpos, Int.emod_emod_of_dvd v hdvd]
    _ = v % 2 ^ (32 - low) * 2 ^ low := Int.mul_comm _ _

theorem toNat_packedWord_cons (v : Int) {low : Nat} {fields : List (Int × Nat)} (hlow : low ≤ 32)
    (h : (packedWord fields).toNat < 2 ^ low) :
    ((packedWord ((v, low) :: fields)).toNat : Int) =
      v % 2 ^ (32 - low) * 2 ^ low + (packedWord fields).toNat := by
  have hhigh := toNat_ofInt_shiftLeft v hlow
  obtain ⟨a, ha⟩ : ∃ a : Nat, (BitVec.ofInt 32 v <<< low).toNat = 2 ^ low * a := by
    refine ⟨(v % 2 ^ (32 - low)).toNat, ?_⟩
    have hnonneg : 0 ≤ v % 2 ^ (32 - low) := Int.emod_nonneg v (Int.pow_ne_zero (by decide))
    zify
    rw [hhigh, Int.toNat_of_nonneg hnonneg, Int.mul_comm]
  rw [← hhigh, packedWord_cons, BitVec.toNat_or, ha, ← Nat.two_pow_add_eq_or_of_lt h]
  push_cast
  rfl

def Apart : Nat → List (Int × Nat) → Prop
  | _, [] => True
  | top, (v, low) :: fields =>
      low ≤ top ∧ 0 ≤ v ∧ v < 2 ^ (top - low) ∧ Apart low fields

def total : List (Int × Nat) → Int
  | [] => 0
  | (v, low) :: fields => v * 2 ^ low + total fields

theorem pack_eq_total {top : Nat} {fields : List (Int × Nat)} (h : Apart top fields) :
    pack fields = total fields ∧ 0 ≤ total fields ∧ total fields < 2 ^ top := by
  induction fields generalizing top with
  | nil => exact ⟨rfl, Int.le_refl 0, Int.pow_pos (by decide)⟩
  | cons f fields ih =>
      obtain ⟨v, low⟩ := f
      obtain ⟨hlow, hnonneg, hlt, hrest⟩ := h
      obtain ⟨hpack, hrest_nonneg, hrest_lt⟩ := ih hrest
      have hpos : (0 : Int) < 2 ^ low := Int.pow_pos (by decide)
      refine ⟨?_, ?_, ?_⟩
      · change Bits.or (Bits.shiftLeft v low) (pack fields) = _
        rw [hpack, Bits.or_shiftLeft_of_lt hnonneg hrest_nonneg hrest_lt, total]
      · exact Int.add_nonneg (Int.mul_nonneg hnonneg (Int.le_of_lt hpos)) hrest_nonneg
      · rw [total, ← Bits.two_pow_sub_mul hlow]
        nlinarith

theorem toNat_packedWord {top : Nat} {fields : List (Int × Nat)} (htop : top ≤ 32)
    (h : Apart top fields) :
    ((packedWord fields).toNat : Int) = total fields ∧ (packedWord fields).toNat < 2 ^ top := by
  obtain ⟨hpack, hnonneg, hlt⟩ := pack_eq_total h
  have hle : (2 ^ top : Int) ≤ 2 ^ 32 := pow_le_pow_right₀ (by decide) htop
  have hvalue : ((packedWord fields).toNat : Int) = total fields := by
    rw [packedWord, hpack, BitVec.toNat_ofInt, Bits.natCast_two_pow,
      Int.emod_eq_of_lt hnonneg (by omega), Int.toNat_of_nonneg hnonneg]
  refine ⟨hvalue, ?_⟩
  zify
  rwa [hvalue]

end RvToolkit.Instruction

namespace RvToolkit.Layout

open Instruction

theorem toNat_extract (w : BitVec 32) (low width : Nat) :
    (w.extractLsb' low width).toNat = w.toNat / 2 ^ low % 2 ^ width := by
  rw [BitVec.extractLsb'_toNat, Nat.shiftRight_eq_div_pow]

theorem toNat_append {m n : Nat} (a : BitVec m) (b : BitVec n) :
    (a ++ b).toNat = a.toNat * 2 ^ n + b.toNat := by
  rw [BitVec.toNat_append, ← Nat.shiftLeft_add_eq_or_of_lt b.isLt, Nat.shiftLeft_eq]

theorem toInt_eq_of_emod {n : Nat} {x : BitVec n} {v : Int} (hx : (x.toNat : Int) = v % 2 ^ n)
    (hv : v.bmod (2 ^ n) = v) : x.toInt = v := by
  rw [BitVec.toInt_eq_toNat_bmod, hx, Bits.emod_bmod_two_pow, hv]

theorem fields_of_toNat {w : BitVec 32} {high b f a c : Int}
    (hn : (w.toNat : Int) = high * 2 ^ 20 + b * 2 ^ 15 + f * 2 ^ 12 + a * 2 ^ 7 + c)
    (hb : 0 ≤ b ∧ b < 32) (hf : 0 ≤ f ∧ f < 8) (ha : 0 ≤ a ∧ a < 32) (hc : 0 ≤ c ∧ c < 128) :
    (opcode w : Int) = c ∧ (rd w : Int) = a ∧ (funct3 w : Int) = f ∧ (rs1 w : Int) = b ∧
      (rs2 w : Int) = high % 32 ∧ (funct7 w : Int) = high / 32 ∧
      ((w.extractLsb' 20 12).toNat : Int) = high := by
  have hlt := w.isLt
  simp only [opcode, rd, funct3, rs1, rs2, funct7, toNat_extract]
  omega

theorem wide_fields_of_toNat {w : BitVec 32} {high a c : Int}
    (hn : (w.toNat : Int) = high * 2 ^ 12 + a * 2 ^ 7 + c)
    (ha : 0 ≤ a ∧ a < 32) (hc : 0 ≤ c ∧ c < 128) :
    (opcode w : Int) = c ∧ (rd w : Int) = a ∧ ((w.extractLsb' 12 20).toNat : Int) = high := by
  have hlt := w.isLt
  simp only [opcode, rd, toNat_extract]
  omega

theorem toNat_six {h s b f a c : Int} (hh : 0 ≤ h ∧ h < 128) (hs : 0 ≤ s ∧ s < 32)
    (hb : 0 ≤ b ∧ b < 32) (hf : 0 ≤ f ∧ f < 8) (ha : 0 ≤ a ∧ a < 32) (hc : 0 ≤ c ∧ c < 128) :
    ((packedWord [(h, 25), (s, 20), (b, 15), (f, 12), (a, 7), (c, 0)]).toNat : Int) =
      (h * 32 + s) * 2 ^ 20 + b * 2 ^ 15 + f * 2 ^ 12 + a * 2 ^ 7 + c := by
  have hapart : Apart 32 [(h, 25), (s, 20), (b, 15), (f, 12), (a, 7), (c, 0)] := by
    simp only [Apart, Nat.reduceSub, Int.reducePow, and_true]
    omega
  rw [(toNat_packedWord (by decide) hapart).1]
  simp only [total]
  omega

theorem toNat_five (v : Int) {b f a c : Int} (hb : 0 ≤ b ∧ b < 32) (hf : 0 ≤ f ∧ f < 8)
    (ha : 0 ≤ a ∧ a < 32) (hc : 0 ≤ c ∧ c < 128) :
    ((packedWord [(v, 20), (b, 15), (f, 12), (a, 7), (c, 0)]).toNat : Int) =
      v % 2 ^ 12 * 2 ^ 20 + b * 2 ^ 15 + f * 2 ^ 12 + a * 2 ^ 7 + c := by
  -- The field at the top may be negative: it then stands for its remainder.
  have hapart : Apart 20 [(b, 15), (f, 12), (a, 7), (c, 0)] := by
    simp only [Apart, Nat.reduceSub, Int.reducePow, and_true]
    omega
  obtain ⟨hsum, hlt⟩ := toNat_packedWord (by decide) hapart
  rw [toNat_packedWord_cons v (by decide) hlt, hsum]
  simp only [total, Nat.reduceSub]
  omega

theorem toNat_three (v : Int) {a c : Int} (ha : 0 ≤ a ∧ a < 32) (hc : 0 ≤ c ∧ c < 128) :
    ((packedWord [(v, 12), (a, 7), (c, 0)]).toNat : Int) =
      v % 2 ^ 20 * 2 ^ 12 + a * 2 ^ 7 + c := by
  have hapart : Apart 12 [(a, 7), (c, 0)] := by
    simp only [Apart, Nat.reduceSub, Int.reducePow, and_true]
    omega
  obtain ⟨hsum, hlt⟩ := toNat_packedWord (by decide) hapart
  rw [toNat_packedWord_cons v (by decide) hlt, hsum]
  simp only [total, Nat.reduceSub]
  omega

end RvToolkit.Layout
