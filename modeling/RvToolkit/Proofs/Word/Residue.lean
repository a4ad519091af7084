import RvToolkit.Word.Operator
import RvToolkit.Proofs.Machine.Arithmetic

namespace RvToolkit.Word

variable {s : Signedness} {a b k : Int} {v : Value}

theorem value_signed (a : Int) : (ofInt .signed a).value = a.bmod 0x100000000 := BitVec.toInt_ofInt a

theorem value_unsigned (a : Int) : (ofInt .unsigned a).value = a % 0x100000000 := by
  change ((BitVec.ofInt 32 a).toNat : Int) = _
  rw [BitVec.toNat_ofInt]
  omega

theorem value_emod (s : Signedness) (a : Int) : (ofInt s a).value % 0x100000000 = a % 0x100000000 := by
  cases s with
  | signed =>
      rw [value_signed]
      exact Int.bmod_emod
  | unsigned => rw [value_unsigned, Int.emod_emod]

theorem value_bounds (s : Signedness) (a : Int) :
    least s ≤ (ofInt s a).value ∧ (ofInt s a).value ≤ greatest s := by
  cases s with
  | signed =>
      have hle := Int.le_bmod (x := a) (m := 0x100000000) (by decide)
      have hlt := Int.bmod_lt (x := a) (m := 0x100000000) (by decide)
      rw [value_signed]
      simp only [least, greatest]
      omega
  | unsigned =>
      rw [value_unsigned]
      simp only [least, greatest]
      omega

theorem ofInt_eq_ofInt_iff : ofInt s a = ofInt s b ↔ a % 0x100000000 = b % 0x100000000 := by
  constructor
  · intro h
    rw [← value_emod s a, h, value_emod]
  · intro h
    apply congrArg (Word.mk s)
    apply BitVec.eq_of_toNat_eq
    rw [BitVec.toNat_ofInt, BitVec.toNat_ofInt]
    exact congrArg Int.toNat h

theorem ofInt_congr (h : BitVec.ofInt 32 a = BitVec.ofInt 32 b) : ofInt s a = ofInt s b :=
  congrArg (Word.mk s) h

theorem ofInt_value_ofInt (s : Signedness)
    (a : Int) : BitVec.ofInt 32 (ofInt s a).value = BitVec.ofInt 32 a :=
  ofInt_value (ofInt s a)

/-- The residues of the operands decide on the residue of the result. -/
def Descends (f : Int → Int → Int) : Prop :=
  ∃ g : BitVec 32 → BitVec 32 → BitVec 32, ∀ a b, BitVec.ofInt 32 (f a b) = g (.ofInt 32 a) (.ofInt 32 b)

theorem Descends.ofInt_left {f : Int → Int → Int} (hf : Descends f) (a b : Int) :
    BitVec.ofInt 32 (f (ofInt s a).value b) = BitVec.ofInt 32 (f a b) := by
  obtain ⟨g, hg⟩ := hf
  rw [hg, hg, ofInt_value_ofInt]

theorem Descends.ofInt_right {f : Int → Int → Int} (hf : Descends f) (a b : Int) :
    BitVec.ofInt 32 (f a (ofInt s b).value) = BitVec.ofInt 32 (f a b) := by
  obtain ⟨g, hg⟩ := hf
  rw [hg, hg, ofInt_value_ofInt]

theorem descends_add : Descends (· + ·) := ⟨(· + ·), BitVec.ofInt_add⟩

theorem descends_sub : Descends (· - ·) := by
  refine ⟨(· - ·), fun a b => ?_⟩
  change BitVec.ofInt 32 (a - b) = BitVec.ofInt 32 a - BitVec.ofInt 32 b
  rw [Int.sub_eq_add_neg, BitVec.ofInt_add, BitVec.ofInt_neg, BitVec.sub_eq_add_neg]

theorem descends_mul : Descends (· * ·) := ⟨(· * ·), BitVec.ofInt_mul⟩

theorem descends_and : Descends Bits.and := ⟨(· &&& ·), Bits.ofInt_and⟩

theorem descends_or : Descends Bits.or := ⟨(· ||| ·), Bits.ofInt_or⟩

theorem descends_xor : Descends Bits.xor := ⟨(· ^^^ ·), Bits.ofInt_xor⟩

/-- The operation on integers of an operator under which words are a ring or a Boolean algebra. -/
def Operator.onInts? : Operator → Option (Int → Int → Int)
  | .add => some (· + ·)
  | .sub => some (· - ·)
  | .mul => some (· * ·)
  | .and => some Bits.and
  | .or => some Bits.or
  | .xor => some Bits.xor
  | .div | .mod | .shiftLeft | .shiftRight => none

/-- The operands that are integers: plain ones, and words, which stand for their values. -/
inductive Integral : Value → Int → Prop where
  | plain (b : Int) : Integral (.int b) b
  | word (w : Word) : Integral (.word w) w.value

theorem Integral.number? (h : Integral v b) : number? v = some (.int b) := by
  cases h <;> rfl

theorem apply_of_ok {op : Operator} {w : Word} {r : Int} (hv : Integral v b)
    (h : op.toBinaryOp.apply (.int w.value) (.int b) = .ok (.int r)) :
    apply op w v = .ok (ofInt w.sign r) := by
  unfold apply
  simp only [hv.number?, h]
  rfl

theorem apply_of_error {op : Operator} {w : Word} {e : EvalError} (hv : Integral v b)
    (h : op.toBinaryOp.apply (.int w.value) (.int b) = .error e) : apply op w v = .error (.eval e) := by
  unfold apply
  simp only [hv.number?, h]

section Operators

variable {op : Operator} {f : Int → Int → Int}

theorem Operator.descends (h : op.onInts? = some f) : Descends f := by
  cases op with
  | add => cases h; exact descends_add
  | sub => cases h; exact descends_sub
  | mul => cases h; exact descends_mul
  | and => cases h; exact descends_and
  | or => cases h; exact descends_or
  | xor => cases h; exact descends_xor
  | div | mod | shiftLeft | shiftRight => cases h

theorem Operator.apply_ints (h : op.onInts? = some f) (a b : Int) :
    op.toBinaryOp.apply (.int a) (.int b) = .ok (.int (f a b)) := by
  cases op with
  | add | sub | mul | and | or | xor => cases h; rfl
  | div | mod | shiftLeft | shiftRight => cases h

theorem apply_ofInt (h : op.onInts? = some f) (hv : Integral v b) :
    apply op (ofInt s a) v = .ok (ofInt s (f a b)) := by
  rw [apply_of_ok hv (Operator.apply_ints h _ b)]
  exact congrArg Except.ok (ofInt_congr ((Operator.descends h).ofInt_left a b))

theorem applyRight_ofInt (h : op.onInts? = some f) :
    applyRight op (ofInt s a) (.int b) = .ok (ofInt s (f b a)) := by
  have hword : apply op (ofInt s b) (.word (ofInt s a)) = .ok (ofInt s (f b a)) := by
    rw [apply_ofInt h (.word _)]
    exact congrArg Except.ok (ofInt_congr ((Operator.descends h).ofInt_right b a))
  cases op with
  | add =>
      cases h
      change apply .add (ofInt s a) (.int b) = .ok (ofInt s (b + a))
      rw [Int.add_comm]
      exact apply_ofInt rfl (.plain b)
  | mul =>
      cases h
      change apply .mul (ofInt s a) (.int b) = .ok (ofInt s (b * a))
      rw [Int.mul_comm]
      exact apply_ofInt rfl (.plain b)
  | sub | and | or | xor => exact hword
  | div | mod | shiftLeft | shiftRight => cases h

end Operators

theorem neg_ofInt (s : Signedness) (a : Int) : (ofInt s a).neg = ofInt s (-a) := by
  apply ofInt_congr
  rw [BitVec.ofInt_neg, BitVec.ofInt_neg, ofInt_value_ofInt]

theorem not_ofInt (s : Signedness) (a : Int) : (ofInt s a).not = ofInt s (Bits.not a) := by
  have hnot (i : Int) : Bits.not i = -1 - i := by
    unfold Bits.not
    omega
  apply ofInt_congr
  rw [hnot, hnot]
  exact descends_sub.ofInt_right (-1) a

section Shifts

theorem ofInt_shiftLeft_value (s : Signedness) (a : Int) (k : Nat) :
    ofInt s (Bits.shiftLeft (ofInt s a).value k) = ofInt s (Bits.shiftLeft a k) := by
  apply ofInt_congr
  rw [Bits.ofInt_shiftLeft, Bits.ofInt_shiftLeft, ofInt_value_ofInt]

theorem shiftLeft_ofInt (s : Signedness) (a : Int) (k : Nat) :
    (ofInt s a).shiftLeft k = ofInt s (Bits.shiftLeft a k) :=
  ofInt_shiftLeft_value s a k

/-- A shift to the left goes through an integer that may be too large to be written down. It is then too
large as well when the word has not been wrapped before. -/
theorem apply_shiftLeft (s : Signedness) (a : Int) (hv : Integral v k) (hk : 0 ≤ k) :
    apply .shiftLeft (ofInt s a) v = .ok (ofInt s (Bits.shiftLeft a k.toNat)) ∨
      apply .shiftLeft (ofInt s a) v = .error (.eval .shiftTooLarge) ∧
        Expr.BinaryOp.apply .shiftLeft (.int a) (.int k) = .error .shiftTooLarge := by
  have hshift (i : Int) :
      Expr.BinaryOp.apply .shiftLeft (.int i) (.int k) = Expr.shiftLeftInt i k.toNat :=
    if_neg (by omega)
  by_cases h0 : (ofInt s a).value = 0
  · left
    rw [← ofInt_shiftLeft_value, apply_of_ok (r := 0) hv, h0]
    · simp [Bits.shiftLeft, ofInt]
    · rw [h0]
      exact (hshift 0).trans rfl
  · have ha : a ≠ 0 := by
      rintro rfl
      cases s <;> exact h0 rfl
    by_cases hmax : Expr.maxShift ≤ k.toNat
    · right
      have hlarge {i : Int} (hi : i ≠ 0) : Expr.shiftLeftInt i k.toNat = .error .shiftTooLarge := by
        rw [Expr.shiftLeftInt, if_neg hi, if_pos hmax]
      refine ⟨apply_of_error hv ?_, ?_⟩
      · exact (hshift _).trans (hlarge h0)
      · exact (hshift a).trans (hlarge ha)
    · left
      rw [← ofInt_shiftLeft_value]
      apply apply_of_ok hv
      refine (hshift _).trans ?_
      rw [Expr.shiftLeftInt, if_neg h0, if_neg hmax]

theorem apply_shiftRight (w : Word) (hv : Integral v k) (hk : 0 ≤ k) :
    apply .shiftRight w v = .ok (w.shiftRight k.toNat) := by
  apply apply_of_ok hv
  exact if_neg (by omega)

theorem shiftLogicalBy_eq (w : Word) (hv : Integral v k) (hk : 0 ≤ k) :
    shiftLogicalBy w v = .ok (w.shiftRightLogical k.toNat) := by
  unfold shiftLogicalBy
  simp only [hv.number?]
  exact if_neg (by omega)

theorem unsignedValue_ofInt (s : Signedness) (a : Int) :
    ((ofInt s a).unsignedValue : Int) = a % 0x100000000 := value_unsigned a

theorem shiftRightLogical_ofInt (s : Signedness) (a : Int) (k : Nat) :
    (ofInt s a).shiftRightLogical k = ofInt s (Bits.shiftRight (a % 0x100000000) k) := by
  rw [← unsignedValue_ofInt s a]
  rfl

theorem shiftRight_unsigned (a : Int) (k : Nat) :
    (ofInt .unsigned a).shiftRight k = ofInt .unsigned (Bits.shiftRight (a % 0x100000000) k) := by
  rw [← value_unsigned a]
  rfl

theorem value_shiftRight_signed (a : Int) (k : Nat) :
    ((ofInt .signed a).shiftRight k).value = Bits.shiftRight (a.bmod 0x100000000) k := by
  -- The value of a signed word moves toward zero or minus one, so that nothing wraps.
  change ((BitVec.ofInt 32 a).sshiftRight k).toInt = _
  rw [BitVec.toInt_sshiftRight, BitVec.toInt_ofInt]
  rfl

end Shifts

/-- Arithmetic modulo `2 ^ 32`, at the word of an integer: a word is a residue in the range of its reading,
the operators and shifts give the residue of what they give on integers, and changing the reading keeps
it. -/
structure Modular (s : Signedness) (a : Int) : Prop where
  value_bounds : least s ≤ (ofInt s a).value ∧ (ofInt s a).value ≤ greatest s
  eq_iff : ∀ b, ofInt s a = ofInt s b ↔ a % 0x100000000 = b % 0x100000000
  value_eq : ofInt s (ofInt s a).value = ofInt s a
  apply : ∀ op f, op.onInts? = some f → ∀ v b, Integral v b →
    apply op (ofInt s a) v = .ok (ofInt s (f a b))
  applyRight : ∀ op f, op.onInts? = some f → ∀ b,
    applyRight op (ofInt s a) (.int b) = .ok (ofInt s (f b a))
  neg : (ofInt s a).neg = ofInt s (-a)
  not : (ofInt s a).not = ofInt s (Bits.not a)
  shiftLeft : ∀ k, (ofInt s a).shiftLeft k = ofInt s (Bits.shiftLeft a k)
  -- too large an integer is too large whether or not the word was wrapped first
  apply_shiftLeft : ∀ v k, Integral v k → 0 ≤ k →
    Word.apply .shiftLeft (ofInt s a) v = .ok (ofInt s (Bits.shiftLeft a k.toNat)) ∨
      Word.apply .shiftLeft (ofInt s a) v = .error (.eval .shiftTooLarge) ∧
        Expr.BinaryOp.apply .shiftLeft (.int a) (.int k) = .error .shiftTooLarge
  shiftLogicalBy : ∀ v k, Integral v k → 0 ≤ k →
    shiftLogicalBy (ofInt s a) v = .ok (ofInt s (Bits.shiftRight (a % 0x100000000) k.toNat))
  apply_shiftRight : ∀ v k, Integral v k → 0 ≤ k → ∃ w, Word.apply .shiftRight (ofInt s a) v = .ok w ∧
    (s = .unsigned → w = ofInt .unsigned (Bits.shiftRight (a % 0x100000000) k.toNat)) ∧
    (s = .signed → w.sign = .signed ∧ w.value = Bits.shiftRight (a.bmod 0x100000000) k.toNat)
  asSigned : (ofInt s a).asSigned = ofInt .signed a
  asUnsigned : (ofInt s a).asUnsigned = ofInt .unsigned a
  asSigned_asUnsigned : s = .signed → (ofInt s a).asUnsigned.asSigned = ofInt s a
  asUnsigned_asSigned : s = .unsigned → (ofInt s a).asSigned.asUnsigned = ofInt s a

theorem modular_ofInt (s : Signedness) (a : Int) : Modular s a where
  value_bounds := value_bounds s a
  eq_iff b := ofInt_eq_ofInt_iff
  value_eq := ofInt_congr (ofInt_value_ofInt s a)
  apply op f h v b hv := apply_ofInt h hv
  applyRight op f h b := applyRight_ofInt h
  neg := neg_ofInt s a
  not := not_ofInt s a
  shiftLeft := shiftLeft_ofInt s a
  apply_shiftLeft v k := apply_shiftLeft s a
  shiftLogicalBy v k hv hk := by rw [shiftLogicalBy_eq _ hv hk, shiftRightLogical_ofInt]
  apply_shiftRight v k hv hk := by
    refine ⟨_, apply_shiftRight _ hv hk, ?_, ?_⟩
    · rintro rfl
      exact shiftRight_unsigned a k.toNat
    · rintro rfl
      exact ⟨rfl, value_shiftRight_signed a k.toNat⟩
  asSigned := rfl
  asUnsigned := rfl
  asSigned_asUnsigned := by
    rintro rfl
    rfl
  asUnsigned_asSigned := by
    rintro rfl
    rfl

end RvToolkit.Word
