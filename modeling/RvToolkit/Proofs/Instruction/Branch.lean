import RvToolkit.Evaluator.Standard
import RvToolkit.Proofs.Instruction.RoundTrip

namespace RvToolkit

namespace Instruction

theorem packedWord_append (fields fields' : List (Int × Nat)) :
    packedWord (fields ++ fields') = packedWord fields ||| packedWord fields' := by
  induction fields with
  | nil => rw [List.nil_append, packedWord_nil, BitVec.zero_or]
  | cons f fields ih =>
      obtain ⟨v, low⟩ := f
      rw [List.cons_append, packedWord_cons, packedWord_cons, ih, BitVec.or_assoc]

theorem packedWord_shiftLeft (fields : List (Int × Nat)) (k : Nat) :
    packedWord fields <<< k = packedWord (fields.map fun f => (f.1, f.2 + k)) := by
  induction fields with
  | nil => rw [List.map_nil, packedWord_nil, BitVec.zero_shiftLeft]
  | cons f fields ih =>
      obtain ⟨v, low⟩ := f
      rw [List.map_cons, packedWord_cons, packedWord_cons, BitVec.shiftLeft_or_distrib, ih,
        BitVec.shiftLeft_add]

theorem packedWord_congr (f : Int × Nat) {fields fields' : List (Int × Nat)}
    (h : packedWord fields = packedWord fields') :
    packedWord (f :: fields) = packedWord (f :: fields') := by
  obtain ⟨v, low⟩ := f
  rw [packedWord_cons, packedWord_cons, h]

theorem packedWord_nested (inner : List (Int × Nat)) (k : Nat) (fields : List (Int × Nat)) :
    packedWord ((pack inner, k) :: fields) =
      packedWord (inner.map (fun f => (f.1, f.2 + k)) ++ fields) := by
  rw [packedWord_cons, packedWord_append, ← packedWord_shiftLeft]
  rfl

/-- The code of the comparison with bit 11 of the offset laid over its middle bit. -/
def overlaid (f b : Nat) : Nat := if b = 1 ∧ (f / 2) % 2 = 0 then f + 2 else f

theorem packedWord_overlaid {f b : Nat} (hf : f < 8) (hb : b < 2) (fields : List (Int × Nat)) :
    packedWord ((f, 12) :: (b, 13) :: fields) = packedWord ((overlaid f b, 12) :: fields) := by
  have h : ∀ f < 8, ∀ b < 2, BitVec.ofInt 32 (f : Nat) <<< 12 ||| BitVec.ofInt 32 (b : Nat) <<< 13 =
      BitVec.ofInt 32 (overlaid f b) <<< 12 := by decide
  rw [packedWord_cons, packedWord_cons, packedWord_cons, ← BitVec.or_assoc, h f hf b hb]

theorem packedWord_branch {f p12 p11 p5 p1 a b code : Nat} (hf : f < 8) (h11 : p11 < 2) :
    packedWord [(pack [((p12 : Int), 6), ((p5 : Int), 0)], 25), (b, 20), (a, 15), (f, 12),
      (pack [((p11 : Int), 6), ((p1 : Int), 0)], 7), (code, 0)] =
    packedWord [(p12, 31), (p5, 25), (b, 20), (a, 15), (overlaid f p11, 12), (p1, 7), (code, 0)] := by
  have hlow : packedWord [(f, 12), (pack [((p11 : Int), 6), ((p1 : Int), 0)], 7), (code, 0)] =
      packedWord [(overlaid f p11, 12), (p1, 7), (code, 0)] := by
    rw [packedWord_cons, packedWord_nested, ← packedWord_cons]
    exact packedWord_overlaid hf h11 _
  rw [packedWord_nested]
  exact packedWord_congr _ (packedWord_congr _ (packedWord_congr _ (packedWord_congr _ hlow)))

end Instruction

namespace Layout

open Instruction

theorem code_branch {op : Text} {c : Code} (hc : (op, c) ∈ Code.table .B) :
    c.opcode = 0b1100011 ∧ c.funct3 < 8 ∧ branchOp? c.funct3 = some op := by
  have h : ∀ p ∈ Code.table .B, p.2.opcode = 0b1100011 ∧ p.2.funct3 < 8 ∧
      branchOp? p.2.funct3 = some p.1 := by decide
  exact h _ hc

theorem branch_pieces {v : Int} (heven : v % 2 = 0) :
    ∃ (q : Int) (p12 p11 p5 p1 : Nat), v = q * 8192 + p12 * 4096 + p11 * 2048 + p5 * 32 + p1 * 2 ∧
      p12 < 2 ∧ p11 < 2 ∧ p5 < 64 ∧ p1 < 16 ∧ field v 12 1 = p12 ∧ field v 11 1 = p11 ∧
      field v 5 6 = p5 ∧ field v 1 4 = p1 := by
  have h5 : v / 2 ^ 5 = v / 2 / 16 := by
    rw [Int.ediv_ediv_of_nonneg (by decide)]
    rfl
  have h11 : v / 2 ^ 11 = v / 2 / 16 / 64 := by
    rw [← h5, Int.ediv_ediv_of_nonneg (by decide)]
    rfl
  have h12 : v / 2 ^ 12 = v / 2 / 16 / 64 / 2 := by
    rw [← h11, Int.ediv_ediv_of_nonneg (by decide)]
    rfl
  simp only [field_eq, h5, h11, h12]
  exact ⟨v / 2 / 16 / 64 / 2 / 2, (v / 2 / 16 / 64 / 2 % 2).toNat, (v / 2 / 16 / 64 % 2).toNat,
    (v / 2 / 16 % 64).toNat, (v / 2 % 16).toNat, by omega, by omega, by omega, by omega, by omega,
    by omega, by omega, by omega, by omega⟩

/-- The pieces as the layout reads them make up the offset only if those that it finds elsewhere are
zero. -/
theorem misplaced_pieces (q : Int) {p12 p11 p5 p1 : Nat} (h12 : p12 < 2) (h11 : p11 < 2) (h5 : p5 < 64)
    (h1 : p1 < 16) :
    (((p12 * 64 + p5) / 64 * 4096 + p1 % 2 * 2048 + (p12 * 64 + p5) % 64 * 32 + p1 / 2 * 2 : Nat) : Int) =
      (q * 8192 + p12 * 4096 + p11 * 2048 + p5 * 32 + p1 * 2) % 2 ^ 13 ↔ p1 = 0 ∧ p11 = 0 := by
  have hdiv : (p12 * 64 + p5) / 64 = p12 := by omega
  have hmod : (p12 * 64 + p5) % 64 = p5 := by omega
  have hrem : (q * 8192 + p12 * 4096 + p11 * 2048 + p5 * 32 + p1 * 2) % 2 ^ 13 =
      ((p12 * 4096 + p11 * 2048 + p5 * 32 + p1 * 2 : Nat) : Int) := by omega
  have hlow : p1 % 2 = 0 ∨ p1 % 2 = 1 := Nat.mod_two_eq_zero_or_one p1
  rw [hdiv, hmod, hrem, Int.natCast_inj]
  rcases hlow with h | h <;> rw [h] <;> omega

theorem toNat_immB (w : BitVec 32) :
    (w.extractLsb' 31 1 ++ w.extractLsb' 7 1 ++ w.extractLsb' 25 6 ++ w.extractLsb' 8 4 ++ 0#1).toNat =
      funct7 w / 64 * 4096 + rd w % 2 * 2048 + funct7 w % 64 * 32 + rd w / 2 * 2 := by
  have h31 : w.toNat / 2 ^ 31 % 2 ^ 1 = w.toNat / 2 ^ 25 % 2 ^ 7 / 64 := by omega
  have h25 : w.toNat / 2 ^ 25 % 2 ^ 6 = w.toNat / 2 ^ 25 % 2 ^ 7 % 64 := by omega
  have h8 : w.toNat / 2 ^ 8 % 2 ^ 4 = w.toNat / 2 ^ 7 % 2 ^ 5 / 2 := by omega
  have h7 : w.toNat / 2 ^ 7 % 2 ^ 1 = w.toNat / 2 ^ 7 % 2 ^ 5 % 2 := by omega
  simp only [toNat_append, toNat_extract, BitVec.toNat_ofNat, funct7, rd, h31, h25, h8, h7]
  omega

theorem toInt_eq_iff {n : Nat} {x : BitVec n} {v : Int} (hv : v.bmod (2 ^ n) = v) :
    x.toInt = v ↔ (x.toNat : Int) = v % 2 ^ n := by
  have hcast := Bits.natCast_two_pow n
  constructor
  · rintro rfl
    rw [BitVec.toInt_eq_toNat_bmod, Bits.bmod_emod_two_pow]
    exact (Int.emod_eq_of_lt (by omega) (by have := x.isLt; omega)).symm
  · intro h
    exact toInt_eq_of_emod h hv

theorem branch_fields {g p12 p5 p1 a b code : Nat} (hg : g < 8) (h12 : p12 < 2) (h5 : p5 < 64)
    (h1 : p1 < 16) (ha : a < 32) (hb : b < 32) (hcode : code < 128) {w : BitVec 32}
    (hw : packedWord [(p12, 31), (p5, 25), (b, 20), (a, 15), (g, 12), (p1, 7), (code, 0)] = w) :
    opcode w = code ∧ rd w = p1 ∧ funct3 w = g ∧ rs1 w = a ∧ rs2 w = b ∧ funct7 w = p12 * 64 + p5 := by
  have hapart : Apart 32 [((p12 : Int), 31), (p5, 25), (b, 20), (a, 15), (g, 12), (p1, 7), (code, 0)] := by
    simp only [Apart, Nat.reduceSub, Int.reducePow, and_true]
    omega
  have hn := (toNat_packedWord (by decide) hapart).1
  rw [hw] at hn
  have hsum : (w.toNat : Int) = ((p12 * 64 + p5) * 32 + b) * 2 ^ 20 + a * 2 ^ 15 + g * 2 ^ 12 +
      p1 * 2 ^ 7 + code := by
    rw [hn]
    simp only [total]
    omega
  obtain ⟨hopcode, hrd, hfunct3, hrs1, hrs2, hfunct7, -⟩ :=
    fields_of_toNat hsum (by omega) (by omega) (by omega) (by omega)
  exact ⟨by omega, by omega, by omega, by omega, by omega, by omega⟩

theorem decode_branch {op : Text} {c : Code} (hc : (op, c) ∈ Code.table .B) {a b : Nat} {v : Int}
    (ha : a < 32) (hb : b < 32) (heven : v % 2 = 0) (hv : v.bmod (2 ^ 13) = v) :
    decode (packedWord [(pack [(field v 12 1, 6), (field v 5 6, 0)], 25), (b, 20), (a, 15),
      (c.funct3, 12), (pack [(field v 11 1, 6), (field v 1 4, 0)], 7), (c.opcode, 0)]) =
        some (.b op a b v) ↔ v % 32 = 0 ∧ v % 4096 < 2048 := by
  obtain ⟨hcode, hf3, hop⟩ := code_branch hc
  obtain ⟨q, p12, p11, p5, p1, hsplit, hp12, hp11, hp5, hp1, h12, h11, h5, h1⟩ := branch_pieces heven
  have hover : overlaid c.funct3 p11 < 8 := by
    unfold overlaid
    split <;> omega
  rw [h12, h11, h5, h1, packedWord_branch hf3 hp11]
  generalize hw : packedWord _ = w
  obtain ⟨hopcode, hrd, hfunct3, hrs1, hrs2, hfunct7⟩ :=
    branch_fields hover hp12 hp5 hp1 ha hb (by omega) hw
  have himm : immB w = v ↔ p1 = 0 ∧ p11 = 0 := by
    rw [immB, toInt_eq_iff hv, toNat_immB, hrd, hfunct7, hsplit]
    exact misplaced_pieces q hp12 hp11 hp5 hp1
  have hbits : p1 = 0 ∧ p11 = 0 ↔ v % 32 = 0 ∧ v % 4096 < 2048 := by omega
  rw [← hbits, ← himm, decode, hopcode, hcode]
  simp only [hfunct3, hrs1, hrs2]
  constructor
  · intro h
    obtain ⟨op', -, h⟩ := Option.map_eq_some_iff.mp h
    exact (Decoded.b.inj h).2.2.2
  · intro h
    -- bit 11 is clear, so nothing was laid over the comparison
    have hclear : overlaid c.funct3 p11 = c.funct3 := by simp [overlaid, (himm.mp h).2]
    rw [hclear, hop, h]
    rfl

end Layout

namespace Instruction

theorem encodeB_given [Evaluator] {op : Text} {c : Code} {args : List Value} {rs1 rs2 : Nat} {v : Int}
    (hc : Code.find? .B op = some c) (h : Given .B args [rs1, rs2] (some v)) :
    ∃ e, encodeB op args = .ok e := by
  cases h with
  | branch ha hb hv =>
      simp [encodeB, codeOf_eq_ok.mpr hc, ha, hb, hv, bind, Except.bind, pure, Except.pure]

/-- The layout reads a branch back from its word exactly when bits 4 to 1 and bit 11 of the offset are
clear. -/
theorem decode_branch_iff [Evaluator] {σ : Type} (s : σ) {op : Text} {args : List Value} {rs1 rs2 : Nat}
    {v : Int} (hf : Isa.base.format? op = some .B) (hgiven : Given .B args [rs1, rs2] (some v))
    (hrs1 : rs1 < 32) (hrs2 : rs2 < 32) (heven : v % 2 = 0) (hrange : -4096 ≤ v ∧ v ≤ 4094) :
    ∃ (e : Encoded) (t : Text) (w : BitVec 32),
      (encode Isa.base op args : Action σ Encoded).effect s = (.ok e, s) ∧
      e.operands = ⟨some [rs1, rs2], some v⟩ ∧
      Assembly.render .hex [e.binary] = .ok [t] ∧ Number.readInt 16 t = .ok (w.toNat : Int) ∧
      (Layout.decode w = some (.b op rs1 rs2 v) ↔ v % 32 = 0 ∧ v % 4096 < 2048) := by
  obtain ⟨c, hc⟩ := exists_code hf
  obtain ⟨e, he⟩ := encodeB_given hc hgiven
  obtain ⟨c', a, b, x, r1, r2, u, hc', rfl, ha, hb, hu, rfl⟩ := encodeB_eq_ok he
  obtain rfl : c = c' := Option.some.inj (hc.symm.trans hc')
  obtain ⟨hregs, himm⟩ := hgiven.unique (.branch ha hb hu)
  obtain ⟨rfl, rfl⟩ : rs1 = r1 ∧ rs2 = r2 := by simpa using hregs
  obtain rfl : v = u := Option.some.inj himm
  have hbmod : v.bmod (2 ^ 13) = v := by apply Int.bmod_eq_of_le <;> omega
  have hwrap : Immediate.wrap 13 v = v := (wrap_eq_bmod 13 v).trans hbmod
  rw [hwrap] at he
  obtain ⟨t, ht, hread⟩ := render_hex _
  exact ⟨_, t, _, encode_eq_ok.mpr ⟨rfl, .B, hf, he⟩, rfl, ht, hread,
    Layout.decode_branch (mem_table_of_find? hc) hrs1 hrs2 heven hbmod⟩

section DecodeBranchEight

open scoped Evaluator.Arithmetic

theorem decode_branch_eight :
    ∃ (e : Encoded) (t : Text) (w : BitVec 32),
      (encode Isa.base "beq".toList [.ofText "x1", .ofText "x2", .ofText "8"] :
        Action Unit Encoded).effect () = (.ok e, ()) ∧
      Assembly.render .hex [e.binary] = .ok [t] ∧ Number.readInt 16 t = .ok (w.toNat : Int) ∧
      Layout.decode w ≠ some (.b "beq".toList 1 2 8) := by
  have hgiven : Given .B [.ofText "x1", .ofText "x2", .ofText "8"] [1, 2] (some 8) :=
    .branch rfl rfl rfl
  have hf : Isa.base.format? "beq".toList = some .B := by decide
  obtain ⟨e, t, w, he, -, ht, hw, hiff⟩ :=
    decode_branch_iff () hf hgiven (by decide) (by decide) (by decide) (by decide)
  exact ⟨e, t, w, he, ht, hw, fun h => absurd (hiff.mp h).1 (by decide)⟩

end DecodeBranchEight

end Instruction

end RvToolkit
