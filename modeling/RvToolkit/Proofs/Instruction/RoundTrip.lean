import Mathlib.Data.List.Basic
import RvToolkit.Assembly.Encoding
import RvToolkit.Evaluator.Standard
import RvToolkit.Proofs.Decimal
import RvToolkit.Proofs.Instruction.Decode
import RvToolkit.Proofs.Instruction.Operands

namespace RvToolkit

/-- Width of the immediate of a format. -/
def Format.immediateBits : Format → Nat
  | .R => 0
  | .I | .S => 12
  | .B => 13
  | .U => 20
  | .J => 21

/-- Number of register operands of a format. -/
def Format.registerCount : Format → Nat
  | .R => 3
  | .I | .S | .B => 2
  | .U | .J => 1

/-- The immediate of a format, for an integer that is given for it. -/
def Format.immediate? : Format → Int → Option Int
  | .R, _ => none
  | _, v => some v

/-- What a word of a format keeps of an immediate: a jump has no place for the lowest bit. -/
def Format.kept : Format → Int → Int
  | .J, i => i - i % 2
  | _, i => i

namespace Instruction

/-- The forms in which operands are given: the registers in the order in which they are listed, and
the integer that is given for the immediate. -/
inductive Given [Evaluator] : Format → List Value → List Nat → Option Int → Prop where
  | registers {a b d : Value} {rd rs1 rs2 : Nat} (ha : registerOf a = .ok rd)
      (hb : registerOf b = .ok rs1) (hd : registerOf d = .ok rs2) :
      Given .R [a, b, d] [rd, rs1, rs2] none
  | immediate {a b imm x : Value} {rd rs1 : Nat} {v : Int} (ha : registerOf a = .ok rd)
      (hb : registerOf b = .ok rs1) (hx : Immediate.resolve imm = .ok x)
      (hv : Immediate.toInteger x = .ok v) : Given .I [a, b, imm] [rd, rs1] (some v)
  | based {a place x : Value} {base : Text} {rd rs1 : Nat} {v : Int} (ha : registerOf a = .ok rd)
      (hplace : Immediate.withBase place = .ok (x, base)) (hb : registerOf (.text base) = .ok rs1)
      (hv : Immediate.toInteger x = .ok v) : Given .I [a, place] [rd, rs1] (some v)
  | store {b a imm : Value} {rs2 rs1 : Nat} {v : Int} (hb : registerOf b = .ok rs2)
      (ha : registerOf a = .ok rs1) (hv : Immediate.toInteger imm = .ok v) :
      Given .S [b, a, imm] [rs2, rs1] (some v)
  | storeBased {b place x : Value} {base : Text} {rs2 rs1 : Nat} {v : Int}
      (hb : registerOf b = .ok rs2) (hplace : Immediate.withBase place = .ok (x, base))
      (ha : registerOf (.text base) = .ok rs1) (hv : Immediate.toInteger x = .ok v) :
      Given .S [b, place] [rs2, rs1] (some v)
  | branch {a b imm : Value} {rs1 rs2 : Nat} {v : Int} (ha : registerOf a = .ok rs1)
      (hb : registerOf b = .ok rs2) (hv : Immediate.toInteger imm = .ok v) :
      Given .B [a, b, imm] [rs1, rs2] (some v)
  | upper {a imm x : Value} {rd : Nat} {v : Int} (ha : registerOf a = .ok rd)
      (hx : upperOperand imm = .ok x) (hv : Immediate.toInteger x = .ok v) :
      Given .U [a, imm] [rd] (some v)
  | jump {a imm x : Value} {rd : Nat} {v : Int} (ha : registerOf a = .ok rd)
      (hx : jumpOperand imm = .ok x) (hv : Immediate.toInteger x = .ok v) :
      Given .J [a, imm] [rd] (some v)

theorem Given.unique [Evaluator] {f : Format} {args : List Value} {regs regs' : List Nat}
    {imm imm' : Option Int}
    (h : Given f args regs imm) (h' : Given f args regs' imm') : regs = regs' ∧ imm = imm' := by
  cases h <;> cases h' <;> simp_all

/-- Operands in their plain spelling: numbered registers, then the integer in decimal. A store takes
the integer itself. -/
def written (f : Format) (regs : List Nat) (v : Int) : List Value :=
  regs.map (fun r => .text (Register.numbered r)) ++
    match f with
    | .R => []
    | .S => [.int v]
    | _ => [.text (Text.ofInt v)]

/-- `i` is the signed number of `n` bits that `v` leaves modulo `2 ^ n`. -/
def Representative (n : Nat) (v i : Int) : Prop :=
  i % 2 ^ n = v % 2 ^ n ∧ -2 ^ (n - 1) ≤ i ∧ i < 2 ^ (n - 1)

/-- An encoding from which the given instruction can be recovered: it has the given operands, and the
layout reads mnemonic and operands back from the word that is printed in hexadecimal. -/
structure Recoverable (f : Format) (op : Text) (regs : List Nat) (imm : Option Int) (e : Encoded) :
    Prop where
  regs_eq : e.operands.regs = some regs
  imm_rel : Option.Rel (Representative f.immediateBits) imm e.operands.imm
  word : ∃ (t : Text) (w : BitVec 32) (d : Decoded), Assembly.render .hex [e.binary] = .ok [t] ∧
    Number.readInt 16 t = .ok (w.toNat : Int) ∧ Layout.decode w = some d ∧ d.op = op ∧
    d.operands = ⟨e.operands.regs, e.operands.imm.map f.kept⟩

theorem wrap_eq_bmod (n : Nat) (v : Int) : Immediate.wrap n v = v.bmod (2 ^ n) := by
  cases n with
  | zero =>
      have hlow : Bits.and v (2 ^ 0 - 1) = 0 := (Bits.and_mask v 0).trans (Int.emod_one v)
      rw [Immediate.wrap, hlow, Nat.pow_zero, Int.bmod_one]
      rfl
  | succ k =>
      have hdouble : (2 ^ (k + 1) : Int) = 2 ^ k * 2 := Int.pow_succ 2 k
      have hhalf : (2 ^ (k + 1) + 1 : Int) / 2 = 2 ^ k := by omega
      simp only [Immediate.wrap, Bits.and_mask, Int.bmod_def, Bits.natCast_two_pow, Nat.add_sub_cancel,
        hhalf, ite_not, ← Int.not_lt]

theorem wrap_bmod (n : Nat) (v : Int) : (Immediate.wrap n v).bmod (2 ^ n) = Immediate.wrap n v := by
  rw [wrap_eq_bmod, Int.bmod_bmod]

theorem wrap_wrap (n : Nat) (v : Int) : Immediate.wrap n (Immediate.wrap n v) = Immediate.wrap n v := by
  rw [wrap_eq_bmod n (Immediate.wrap n v), wrap_bmod]

theorem representative_bmod {n : Nat} (hn : 0 < n) (v : Int) : Representative n v (v.bmod (2 ^ n)) := by
  obtain ⟨k, rfl⟩ : ∃ k, n = k + 1 := ⟨n - 1, by omega⟩
  have hdouble : (2 ^ (k + 1) : Int) = 2 ^ k * 2 := Int.pow_succ 2 k
  have hle := Int.le_bmod (x := v) (m := 2 ^ (k + 1)) (Nat.two_pow_pos _)
  have hlt := Int.bmod_lt (x := v) (m := 2 ^ (k + 1)) (Nat.two_pow_pos _)
  rw [Bits.natCast_two_pow] at hle hlt
  rw [Representative, Nat.add_sub_cancel]
  exact ⟨Bits.bmod_emod_two_pow v (k + 1), by omega, by omega⟩

theorem representative_wrap {n : Nat} (hn : 0 < n) (v : Int) :
    Representative n v (Immediate.wrap n v) := by
  rw [wrap_eq_bmod]
  exact representative_bmod hn v

theorem render_hex (e : Encoded) :
    ∃ t, Assembly.render .hex [e.binary] = .ok [t] ∧
      Number.readInt 16 t = .ok ((BitVec.ofInt 32 e.bits).toNat : Int) := by
  have hmask : Bits.and e.bits 0xffffffff = ((BitVec.ofInt 32 e.bits).toNat : Int) := by
    have hcast : ((2 ^ 32 : Nat) : Int) = 2 ^ 32 := Int.natCast_pow 2 32
    have hnonneg : 0 ≤ e.bits % 2 ^ 32 := Int.emod_nonneg _ (by decide)
    rw [BitVec.toNat_ofInt, hcast, Int.toNat_of_nonneg hnonneg]
    exact Bits.and_mask e.bits 32
  refine ⟨_, ?_, Number.readInt_hexMark 8 _⟩
  simp only [Assembly.render, Assembly.hexWord, Encoded.binary, List.mapM_cons, List.mapM_nil,
    Number.readInt_bin32, hmask]
  rfl

theorem recoverable_of_decode {f : Format} {op : Text} {regs : List Nat} {imm : Option Int}
    {fields : List (Int × Nat)} {operands : Operands} {d : Decoded}
    (hregs : operands.regs = some regs)
    (himm : Option.Rel (Representative f.immediateBits) imm operands.imm)
    (hd : Layout.decode (packedWord fields) = some d) (hop : d.op = op)
    (hoperands : d.operands = ⟨operands.regs, operands.imm.map f.kept⟩) :
    Recoverable f op regs imm ⟨pack fields, operands⟩ := by
  obtain ⟨t, ht, hread⟩ := render_hex ⟨pack fields, operands⟩
  exact ⟨hregs, himm, t, packedWord fields, d, ht, hread, hd, hop, hoperands⟩

theorem recoverable_registers [Evaluator] {op : Text} {args : List Value} {e : Encoded}
    (h : encodeR op args = .ok e) :
    ∃ regs imm, Given .R args regs imm ∧ ((∀ r ∈ regs, r < 32) → Recoverable .R op regs imm e) := by
  obtain ⟨c, a, b, d, rd, rs1, rs2, hc, rfl, ha, hb, hd, rfl⟩ := encodeR_eq_ok h
  refine ⟨_, _, .registers ha hb hd, fun hr => ?_⟩
  have hword := Layout.decode_registers (mem_table_of_find? hc) (hr rd (by simp)) (hr rs1 (by simp))
    (hr rs2 (by simp))
  exact recoverable_of_decode rfl .none hword rfl rfl

theorem given_of_operandsI [Evaluator] {args : List Value} {a b x : Value} {rd rs1 : Nat} {v : Int}
    (h : operandsI args = .ok (some (a, b, x))) (ha : registerOf a = .ok rd)
    (hb : registerOf b = .ok rs1) (hv : Immediate.toInteger x = .ok v) :
    Given .I args [rd, rs1] (some v) := by
  rcases operandsI_eq_some h with ⟨imm, rfl, hx⟩ | ⟨place, base, rfl, rfl, hplace⟩
  · exact .immediate ha hb hx hv
  · exact .based ha hplace hb hv

theorem recoverable_immediate [Evaluator] {op : Text} {args : List Value} {e : Encoded}
    (hsystem : systemNumber? op = none) (h : encodeI op args = .ok e) :
    ∃ regs imm, Given .I args regs imm ∧ ((∀ r ∈ regs, r < 32) →
      (isShift op = true → ∀ v ∈ imm, 0 ≤ v ∧ v < 32) → Recoverable .I op regs imm e) := by
  obtain ⟨c, a, b, x, rd, rs1, hc, hargs, ha, hb, hcase⟩ := encodeI_eq_ok hsystem h
  rcases hcase with ⟨hshift, v, hv, rfl⟩ | ⟨hshift, v, hv, rfl⟩
  · refine ⟨_, _, given_of_operandsI hargs ha hb hv, fun hr hamount => ?_⟩
    obtain ⟨hnonneg, hlt⟩ := hamount hshift v rfl
    -- The amount keeps six bits, of which the sixth is clear.
    have hkept : Bits.and v 0x3f = v := by
      have hmask := Bits.and_mask v 6
      rw [Int.emod_eq_of_lt hnonneg (by omega)] at hmask
      exact hmask
    rw [hkept]
    have hword := Layout.decode_shift (mem_table_of_find? hc) hshift (hr rd (by simp))
      (hr rs1 (by simp)) ⟨hnonneg, hlt⟩
    have hrep : Representative 12 v v := ⟨rfl, by omega, by omega⟩
    exact recoverable_of_decode rfl (.some hrep) hword rfl rfl
  · refine ⟨_, _, given_of_operandsI hargs ha hb (toInteger_of_plain? hv), fun hr _ => ?_⟩
    have hword := Layout.decode_immediate (mem_table_of_find? hc) hshift hsystem (hr rd (by simp))
      (hr rs1 (by simp)) (wrap_bmod 12 v)
    exact recoverable_of_decode rfl (.some (representative_wrap (by decide) v)) hword rfl rfl

theorem recoverable_store [Evaluator] {op : Text} {args : List Value} {e : Encoded}
    (h : encodeS op args = .ok e) :
    ∃ regs imm, Given .S args regs imm ∧ ((∀ r ∈ regs, r < 32) → Recoverable .S op regs imm e) := by
  obtain ⟨c, b, a, x, rs1, rs2, v, hc, hargs, ha, hb, hv, rfl⟩ := encodeS_eq_ok h
  have hgiven : Given .S args [rs2, rs1] (some v) := by
    rcases operandsS_eq_ok hargs with rfl | ⟨place, base, rfl, rfl, hplace⟩
    · exact .store hb ha (toInteger_of_plain? hv)
    · exact .storeBased hb hplace ha (toInteger_of_plain? hv)
  refine ⟨_, _, hgiven, fun hr => ?_⟩
  have hword := Layout.decode_store (mem_table_of_find? hc) (hr rs1 (by simp)) (hr rs2 (by simp))
    (wrap_bmod 12 v)
  exact recoverable_of_decode rfl (.some (representative_wrap (by decide) v)) hword rfl rfl

theorem recoverable_upper [Evaluator] {op : Text} {args : List Value} {e : Encoded}
    (h : encodeU op args = .ok e) :
    ∃ regs imm, Given .U args regs imm ∧ ((∀ r ∈ regs, r < 32) → Recoverable .U op regs imm e) := by
  obtain ⟨c, a, imm, x, rd, v, hc, rfl, hx, ha, hv, rfl⟩ := encodeU_eq_ok h
  refine ⟨_, _, .upper ha hx (toInteger_of_plain? hv), fun hr => ?_⟩
  have hword := Layout.decode_upper (mem_table_of_find? hc) (hr rd (by simp)) (wrap_bmod 20 v)
  exact recoverable_of_decode rfl (.some (representative_wrap (by decide) v)) hword rfl rfl

theorem recoverable_jump [Evaluator] {op : Text} {args : List Value} {e : Encoded}
    (h : encodeJ op args = .ok e) :
    ∃ regs imm, Given .J args regs imm ∧ ((∀ r ∈ regs, r < 32) → Recoverable .J op regs imm e) := by
  obtain ⟨c, a, imm, x, rd, v, hc, rfl, hx, ha, hv, rfl⟩ := encodeJ_eq_ok h
  refine ⟨_, _, .jump ha hx (toInteger_of_plain? hv), fun hr => ?_⟩
  have hword := Layout.decode_jump (mem_table_of_find? hc) (hr rd (by simp)) (wrap_bmod 21 v)
  exact recoverable_of_decode rfl (.some (representative_wrap (by decide) v)) hword rfl rfl

theorem exists_code {op : Text} {f : Format} (hf : Isa.base.format? op = some f) :
    ∃ c, Code.find? f op = some c := by
  have hall : ∀ p ∈ Isa.base, (Code.find? p.2 p.1).isSome = true := by decide
  have hmem : (op, f) ∈ Isa.base := List.mem_reverse.mp (mem_of_lookup hf)
  exact Option.isSome_iff_exists.mp (hall _ hmem)

theorem systemNumber?_of_format {op : Text} {f : Format} (hf : Isa.base.format? op = some f)
    (hne : f ≠ .I) : systemNumber? op = none := by
  have hnot {t : Text} (ht : Isa.base.format? t = some .I) : op ≠ t := by
    rintro rfl
    exact hne (Option.some.inj (hf.symm.trans ht))
  rw [systemNumber?, if_neg (hnot (by decide)), if_neg (hnot (by decide))]

section Written

variable {f : Format} {regs : List Nat} {v : Int} (hcount : regs.length = f.registerCount)
  (hregs : ∀ r ∈ regs, r < 32) (hv : (Nat.toDigits 10 v.natAbs).length ≤ Number.maxDigits)

include hcount hregs hv

theorem given_written [Evaluator] : Given f (written f regs v) regs (f.immediate? v) := by
  have hreg (r : Nat) (hr : r ∈ regs) := registerOf_numbered (hregs r hr)
  cases f with
  | R =>
      obtain ⟨a, b, d, rfl⟩ := List.length_eq_three.mp hcount
      exact .registers (hreg a (by simp)) (hreg b (by simp)) (hreg d (by simp))
  | I =>
      obtain ⟨a, b, rfl⟩ := List.length_eq_two.mp hcount
      exact .immediate (hreg a (by simp)) (hreg b (by simp)) (Immediate.resolve_ofInt hv) rfl
  | S =>
      obtain ⟨b, a, rfl⟩ := List.length_eq_two.mp hcount
      exact .store (hreg b (by simp)) (hreg a (by simp)) rfl
  | B =>
      obtain ⟨a, b, rfl⟩ := List.length_eq_two.mp hcount
      exact .branch (hreg a (by simp)) (hreg b (by simp)) (Immediate.toInteger_ofInt hv)
  | U =>
      obtain ⟨a, rfl⟩ := List.length_eq_one_iff.mp hcount
      exact .upper (hreg a (by simp)) (upperOperand_ofInt hv) rfl
  | J =>
      obtain ⟨a, rfl⟩ := List.length_eq_one_iff.mp hcount
      exact .jump (hreg a (by simp)) (jumpOperand_ofInt hv) rfl

theorem exists_encodeWith_written [Evaluator] {op : Text} {c : Code} (hc : Code.find? f op = some c)
    (hsystem : systemNumber? op = none) : ∃ e, encodeWith f op (written f regs v) = .ok e := by
  have hreg (r : Nat) (hr : r ∈ regs) := registerOf_numbered (hregs r hr)
  have hcode := codeOf_eq_ok.mpr hc
  cases f with
  | R =>
      obtain ⟨a, b, d, rfl⟩ := List.length_eq_three.mp hcount
      simp [encodeWith, encodeR, written, hcode, hreg, bind, Except.bind, pure, Except.pure]
  | I =>
      obtain ⟨a, b, rfl⟩ := List.length_eq_two.mp hcount
      cases hshift : isShift op <;>
        simp [encodeWith, encodeI, operandsI, written, hcode, hreg, hsystem, hshift,
          Immediate.resolve_ofInt hv, Immediate.toInteger, Immediate.wrapOperand,
          Immediate.plain?, bind, Except.bind, pure, Except.pure]
  | S =>
      obtain ⟨b, a, rfl⟩ := List.length_eq_two.mp hcount
      simp [encodeWith, encodeS, operandsS, written, hcode, hreg, Immediate.wrapOperand,
        Immediate.plain?, bind, Except.bind, pure, Except.pure]
  | B =>
      obtain ⟨a, b, rfl⟩ := List.length_eq_two.mp hcount
      simp [encodeWith, encodeB, written, hcode, hreg, Immediate.toInteger_ofInt hv, bind,
        Except.bind, pure, Except.pure]
  | U =>
      obtain ⟨a, rfl⟩ := List.length_eq_one_iff.mp hcount
      simp [encodeWith, encodeU, written, hcode, hreg, upperOperand_ofInt hv,
        Immediate.wrapOperand, Immediate.plain?, bind, Except.bind, pure, Except.pure]
  | J =>
      obtain ⟨a, rfl⟩ := List.length_eq_one_iff.mp hcount
      simp [encodeWith, encodeJ, written, hcode, hreg, jumpOperand_ofInt hv,
        Immediate.wrapOperand, Immediate.plain?, bind, Except.bind, pure, Except.pure]

end Written

theorem exists_given_recoverable [Evaluator] {op : Text} {f : Format} {args : List Value} {e : Encoded}
    (hbranch : f ≠ .B) (hsystem : systemNumber? op = none) (he : encodeWith f op args = .ok e) :
    ∃ regs imm, Given f args regs imm ∧ ((∀ r ∈ regs, r < 32) →
      (isShift op = true → ∀ v ∈ imm, 0 ≤ v ∧ v < 32) → Recoverable f op regs imm e) := by
  cases f with
  | R =>
      obtain ⟨regs, imm, hgiven, h⟩ := recoverable_registers he
      exact ⟨regs, imm, hgiven, fun hr _ => h hr⟩
  | I => exact recoverable_immediate hsystem he
  | S =>
      obtain ⟨regs, imm, hgiven, h⟩ := recoverable_store he
      exact ⟨regs, imm, hgiven, fun hr _ => h hr⟩
  | B => exact absurd rfl hbranch
  | U =>
      obtain ⟨regs, imm, hgiven, h⟩ := recoverable_upper he
      exact ⟨regs, imm, hgiven, fun hr _ => h hr⟩
  | J =>
      obtain ⟨regs, imm, hgiven, h⟩ := recoverable_jump he
      exact ⟨regs, imm, hgiven, fun hr _ => h hr⟩

/-- Whatever operands an instruction other than a branch or an environment call is accepted with, they
give registers and an immediate; if the registers are below 32, and a shift amount too, the instruction
can be recovered. Every choice of registers and immediate is accepted in its plain spelling. -/
theorem recoverable_encode [Evaluator] {σ : Type} (s : σ) {op : Text} {f : Format}
    (hf : Isa.base.format? op = some f) (hbranch : f ≠ .B) (hsystem : systemNumber? op = none) :
    (∀ args e s', (encode Isa.base op args : Action σ Encoded).effect s = (.ok e, s') →
      (∃ regs imm, Given f args regs imm) ∧
      ∀ regs imm, Given f args regs imm → (∀ r ∈ regs, r < 32) →
        (isShift op = true → ∀ v ∈ imm, 0 ≤ v ∧ v < 32) → Recoverable f op regs imm e) ∧
    ∀ regs v, regs.length = f.registerCount → (∀ r ∈ regs, r < 32) →
      (Nat.toDigits 10 v.natAbs).length ≤ Number.maxDigits →
      Given f (written f regs v) regs (f.immediate? v) ∧
      ∃ e, (encode Isa.base op (written f regs v) : Action σ Encoded).effect s = (.ok e, s) := by
  constructor
  · intro args e s' he
    obtain ⟨-, f', hf', he⟩ := encode_eq_ok.mp he
    obtain rfl : f = f' := Option.some.inj (hf.symm.trans hf')
    obtain ⟨regs, imm, hgiven, h⟩ := exists_given_recoverable hbranch hsystem he
    refine ⟨⟨regs, imm, hgiven⟩, fun regs' imm' hgiven' => ?_⟩
    obtain ⟨rfl, rfl⟩ := hgiven.unique hgiven'
    exact h
  · intro regs v hcount hregs hv
    obtain ⟨c, hc⟩ := exists_code hf
    obtain ⟨e, he⟩ := exists_encodeWith_written hcount hregs hv hc hsystem
    exact ⟨given_written hcount hregs hv, e, encode_eq_ok.mpr ⟨rfl, f, hf, he⟩⟩

section Jump

open scoped Evaluator.Arithmetic

theorem recoverable_encode_jal :
    ∃ e, (encode Isa.base "jal".toList [.ofText "x1", .ofText "-3"] : Action Unit Encoded).effect () =
      (.ok e, ()) ∧ Recoverable .J "jal".toList [1] (some (-3)) e := by
  have hf : Isa.base.format? "jal".toList = some .J := by decide
  obtain ⟨h, hwritten⟩ := recoverable_encode () hf (by decide) (by decide)
  obtain ⟨hgiven, e, he⟩ := hwritten [1] (-3) rfl (by decide) (by decide)
  exact ⟨e, he, (h _ e () he).2 [1] (some (-3)) hgiven (by decide) (by decide)⟩

end Jump

end Instruction

end RvToolkit
