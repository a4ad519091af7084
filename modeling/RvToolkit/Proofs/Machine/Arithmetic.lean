import RvToolkit.Machine.Execute
import RvToolkit.Proofs.Bits
import RvToolkit.Proofs.Machine.Reference

namespace RvToolkit

namespace Word

theorem ofInt_value (w : Word) : BitVec.ofInt 32 w.value = w.bits := by
  obtain ⟨s, x⟩ := w
  cases s with
  | signed => exact BitVec.ofInt_toInt
  | unsigned =>
      change BitVec.ofInt 32 (x.toNat : Int) = x
      rw [BitVec.ofInt_natCast, BitVec.ofNat_toNat, BitVec.setWidth_eq]

variable (w : Word) (y : BitVec 32)

theorem add_bits : (w.add y.toInt).bits = w.bits + y := by
  change BitVec.ofInt 32 (w.value + y.toInt) = _
  rw [BitVec.ofInt_add, ofInt_value, BitVec.ofInt_toInt]

theorem sub_bits : (w.sub y.toInt).bits = w.bits - y := by
  change BitVec.ofInt 32 (w.value - y.toInt) = _
  rw [Int.sub_eq_add_neg, BitVec.ofInt_add, BitVec.ofInt_neg, ofInt_value, BitVec.ofInt_toInt,
    BitVec.sub_eq_add_neg]

theorem xor_bits : (w.xor y.toInt).bits = w.bits ^^^ y := by
  change BitVec.ofInt 32 (Bits.xor w.value y.toInt) = _
  rw [Bits.ofInt_xor, ofInt_value, BitVec.ofInt_toInt]

theorem or_bits : (w.or y.toInt).bits = w.bits ||| y := by
  change BitVec.ofInt 32 (Bits.or w.value y.toInt) = _
  rw [Bits.ofInt_or, ofInt_value, BitVec.ofInt_toInt]

theorem and_bits : (w.and y.toInt).bits = w.bits &&& y := by
  change BitVec.ofInt 32 (Bits.and w.value y.toInt) = _
  rw [Bits.ofInt_and, ofInt_value, BitVec.ofInt_toInt]

theorem shiftLeft_bits (k : Nat) : (w.shiftLeft k).bits = w.bits <<< k := by
  change BitVec.ofInt 32 (Bits.shiftLeft w.value k) = _
  rw [Bits.ofInt_shiftLeft, ofInt_value]

theorem shiftRightLogical_bits (k : Nat) : (w.shiftRightLogical k).bits = w.bits >>> k := by
  change BitVec.ofInt 32 ((w.bits.toNat >>> k : Nat) : Int) = _
  rw [BitVec.ofInt_natCast]
  apply BitVec.eq_of_toNat_eq
  rw [BitVec.toNat_ofNat, BitVec.toNat_ushiftRight]
  exact Nat.mod_eq_of_lt (Nat.lt_of_le_of_lt (Nat.shiftRight_le _ _) w.bits.isLt)

theorem shiftRight_bits (k : Nat) (hw : w.value = w.bits.toInt) :
    (w.shiftRight k).bits = w.bits.sshiftRight k := by
  change BitVec.ofInt 32 (w.value >>> k) = _
  rw [hw]
  rfl

end Word

theorem Address.ofInt_value_add (a : Address) (k : Int) :
    BitVec.ofInt 32 (a.add k).value = BitVec.ofInt 32 (a.value + k) := by
  cases a with
  | word w => exact Word.ofInt_value (w.add k)
  | plain i => rfl

namespace Machine

theorem shiftAmount_eq (w : Word) : shiftAmount w = w.bits.toNat % 32 := by
  have hmask : Bits.and w.value 31 = w.value % 32 := Bits.and_mask w.value 5
  have hvalue : w.value % 32 = (w.bits.toNat : Int) % 32 := by
    obtain ⟨s, x⟩ := w
    cases s with
    | signed =>
        change x.toInt % 32 = (x.toNat : Int) % 32
        rw [BitVec.toInt_eq_toNat_cond]
        split <;> omega
    | unsigned => rfl
  rw [shiftAmount, hmask, hvalue]
  omega

theorem truth_bits (b : Bool) : (truth b).bits = if b then 1 else 0 := by cases b <;> rfl

theorem truth_slt (x y : BitVec 32) : (truth (x.toInt < y.toInt)).bits = Reference.Alu.eval .slt x y := by
  rw [truth_bits, Reference.Alu.eval, BitVec.slt_eq_decide]

theorem truth_ult (x y : BitVec 32) : (truth (x.toNat < y.toNat)).bits = Reference.Alu.eval .sltu x y := by
  rw [truth_bits, Reference.Alu.eval, BitVec.ult_eq_decide]

end Machine

end RvToolkit
