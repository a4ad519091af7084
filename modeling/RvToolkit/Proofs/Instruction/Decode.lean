import RvToolkit.Proofs.Instruction.Fields

namespace RvToolkit.Layout

open Instruction

theorem field_eq (v : Int) (low width : Nat) : field v low width = v / 2 ^ low % 2 ^ width := by
  rw [field, Bits.and_mask, Bits.shiftRight, Int.shiftRight_eq_div_pow, Int.natCast_pow]
  rfl

theorem code_registers {op : Text} {c : Code} (hc : (op, c) ∈ Code.table .R) :
    c.opcode = 0b0110011 ∧ c.funct3 < 8 ∧ c.funct7 < 128 ∧
      registerOp? c.funct3 c.funct7 = some op := by
  have h : ∀ p ∈ Code.table .R, p.2.opcode = 0b0110011 ∧ p.2.funct3 < 8 ∧ p.2.funct7 < 128 ∧
      registerOp? p.2.funct3 p.2.funct7 = some p.1 := by decide
  exact h _ hc

theorem decode_registers {op : Text} {c : Code} (hc : (op, c) ∈ Code.table .R) {a b d : Nat}
    (ha : a < 32) (hb : b < 32) (hd : d < 32) :
    decode (packedWord [(c.funct7, 25), (d, 20), (b, 15), (c.funct3, 12), (a, 7), (c.opcode, 0)]) =
      some (.r op a b d) := by
  obtain ⟨hcode, hf3, hf7, hop⟩ := code_registers hc
  have hn := toNat_six (h := c.funct7) (s := d) (b := b) (f := c.funct3) (a := a) (c := c.opcode)
    (by omega) (by omega) (by omega) (by omega) (by omega) (by omega)
  generalize packedWord _ = w at hn ⊢
  obtain ⟨h1, h2, h3, h4, h5, h6, -⟩ := fields_of_toNat hn (by omega) (by omega) (by omega) (by omega)
  have hopcode : opcode w = 0b0110011 := by omega
  have hrd : rd w = a := by omega
  have hfunct3 : funct3 w = c.funct3 := by omega
  have hrs1 : rs1 w = b := by omega
  have hrs2 : rs2 w = d := by omega
  have hfunct7 : funct7 w = c.funct7 := by omega
  rw [decode, hopcode]
  simp only [hrd, hfunct3, hrs1, hrs2, hfunct7, hop, Option.map_some]

theorem code_shift {op : Text} {c : Code} (hc : (op, c) ∈ Code.table .I) (hop : isShift op = true) :
    c.opcode = 0b0010011 ∧ c.funct3 < 8 ∧ c.funct7 < 128 ∧ immediateOp? c.funct3 = none ∧
      shiftOp? c.funct3 c.funct7 = some op := by
  have h : ∀ p ∈ Code.table .I, isShift p.1 = true → p.2.opcode = 0b0010011 ∧ p.2.funct3 < 8 ∧
      p.2.funct7 < 128 ∧ immediateOp? p.2.funct3 = none ∧
      shiftOp? p.2.funct3 p.2.funct7 = some p.1 := by decide
  exact h _ hc hop

theorem decode_shift {op : Text} {c : Code} (hc : (op, c) ∈ Code.table .I) (hop : isShift op = true)
    {a b : Nat} {v : Int} (ha : a < 32) (hb : b < 32) (hv : 0 ≤ v ∧ v < 32) :
    decode (packedWord [(c.funct7, 25), (v, 20), (b, 15), (c.funct3, 12), (a, 7), (c.opcode, 0)]) =
      some (.i op a b v) := by
  obtain ⟨hcode, hf3, hf7, hother, hop⟩ := code_shift hc hop
  have hn := toNat_six (h := c.funct7) (s := v) (b := b) (f := c.funct3) (a := a) (c := c.opcode)
    (by omega) (by omega) (by omega) (by omega) (by omega) (by omega)
  generalize packedWord _ = w at hn ⊢
  obtain ⟨h1, h2, h3, h4, h5, h6, -⟩ := fields_of_toNat hn (by omega) (by omega) (by omega) (by omega)
  have hopcode : opcode w = 0b0010011 := by omega
  have hrd : rd w = a := by omega
  have hfunct3 : funct3 w = c.funct3 := by omega
  have hrs1 : rs1 w = b := by omega
  have hrs2 : (rs2 w : Int) = v := by omega
  have hfunct7 : funct7 w = c.funct7 := by omega
  rw [decode, hopcode]
  simp only [hrd, hfunct3, hrs1, hrs2, hfunct7, hother, hop, Option.map_some]

theorem code_immediate {op : Text} {c : Code} (hc : (op, c) ∈ Code.table .I)
    (hshift : isShift op = false) (hsystem : systemNumber? op = none) :
    c.funct3 < 8 ∧ (c.opcode = 0b0010011 ∧ immediateOp? c.funct3 = some op ∨
      c.opcode = 0b0000011 ∧ loadOp? c.funct3 = some op ∨
      c.opcode = 0b1100111 ∧ jumpOp? c.funct3 = some op) := by
  have h : ∀ p ∈ Code.table .I, isShift p.1 = false → systemNumber? p.1 = none →
      p.2.funct3 < 8 ∧ (p.2.opcode = 0b0010011 ∧ immediateOp? p.2.funct3 = some p.1 ∨
        p.2.opcode = 0b0000011 ∧ loadOp? p.2.funct3 = some p.1 ∨
        p.2.opcode = 0b1100111 ∧ jumpOp? p.2.funct3 = some p.1) := by decide
  exact h _ hc hshift hsystem

theorem decode_immediate {op : Text} {c : Code} (hc : (op, c) ∈ Code.table .I)
    (hshift : isShift op = false) (hsystem : systemNumber? op = none) {a b : Nat} {v : Int}
    (ha : a < 32) (hb : b < 32) (hv : v.bmod (2 ^ 12) = v) :
    decode (packedWord [(v, 20), (b, 15), (c.funct3, 12), (a, 7), (c.opcode, 0)]) =
      some (.i op a b v) := by
  obtain ⟨hf3, hop⟩ := code_immediate hc hshift hsystem
  have hn := toNat_five v (b := b) (f := c.funct3) (a := a) (c := c.opcode)
    (by omega) (by omega) (by omega) (by omega)
  generalize packedWord _ = w at hn ⊢
  obtain ⟨h1, h2, h3, h4, -, -, h7⟩ := fields_of_toNat hn (by omega) (by omega) (by omega) (by omega)
  have hopcode : opcode w = c.opcode := by omega
  have hrd : rd w = a := by omega
  have hfunct3 : funct3 w = c.funct3 := by omega
  have hrs1 : rs1 w = b := by omega
  have himm : immI w = v := toInt_eq_of_emod h7 hv
  rw [decode, hopcode]
  rcases hop with ⟨hcode, hop⟩ | ⟨hcode, hop⟩ | ⟨hcode, hop⟩
  · simp only [hcode, hrd, hfunct3, hrs1, himm, hop]
  · simp only [hcode, hrd, hfunct3, hrs1, himm, hop, Option.map_some]
  · simp only [hcode, hrd, hfunct3, hrs1, himm, hop, Option.map_some]

theorem code_store {op : Text} {c : Code} (hc : (op, c) ∈ Code.table .S) :
    c.opcode = 0b0100011 ∧ c.funct3 < 8 ∧ storeOp? c.funct3 = some op := by
  have h : ∀ p ∈ Code.table .S, p.2.opcode = 0b0100011 ∧ p.2.funct3 < 8 ∧
      storeOp? p.2.funct3 = some p.1 := by decide
  exact h _ hc

theorem decode_store {op : Text} {c : Code} (hc : (op, c) ∈ Code.table .S) {b d : Nat} {v : Int}
    (hb : b < 32) (hd : d < 32) (hv : v.bmod (2 ^ 12) = v) :
    decode (packedWord [(field v 5 7, 25), (d, 20), (b, 15), (c.funct3, 12), (field v 0 5, 7),
      (c.opcode, 0)]) = some (.s op b d v) := by
  obtain ⟨hcode, hf3, hop⟩ := code_store hc
  rw [field_eq, field_eq]
  have hn := toNat_six (h := v / 2 ^ 5 % 2 ^ 7) (s := d) (b := b) (f := c.funct3)
    (a := v / 2 ^ 0 % 2 ^ 5) (c := c.opcode)
    (by omega) (by omega) (by omega) (by omega) (by omega) (by omega)
  generalize packedWord _ = w at hn ⊢
  obtain ⟨h1, h2, h3, h4, h5, h6, -⟩ := fields_of_toNat hn (by omega) (by omega) (by omega) (by omega)
  have hopcode : opcode w = 0b0100011 := by omega
  have hfunct3 : funct3 w = c.funct3 := by omega
  have hrs1 : rs1 w = b := by omega
  have hrs2 : rs2 w = d := by omega
  have himm : immS w = v := by
    refine toInt_eq_of_emod ?_ hv
    rw [toNat_append]
    simp only [rd, funct7] at h2 h6
    push_cast
    omega
  rw [decode, hopcode]
  simp only [hfunct3, hrs1, hrs2, himm, hop, Option.map_some]

theorem code_upper {op : Text} {c : Code} (hc : (op, c) ∈ Code.table .U) :
    c.opcode = 0b0110111 ∧ op = "lui".toList ∨ c.opcode = 0b0010111 ∧ op = "auipc".toList := by
  have h : ∀ p ∈ Code.table .U, p.2.opcode = 0b0110111 ∧ p.1 = "lui".toList ∨
      p.2.opcode = 0b0010111 ∧ p.1 = "auipc".toList := by decide
  exact h _ hc

theorem decode_upper {op : Text} {c : Code} (hc : (op, c) ∈ Code.table .U) {a : Nat} {v : Int}
    (ha : a < 32) (hv : v.bmod (2 ^ 20) = v) :
    decode (packedWord [(v, 12), (a, 7), (c.opcode, 0)]) = some (.u op a v) := by
  have hop := code_upper hc
  have hn := toNat_three v (a := a) (c := c.opcode) (by omega) (by omega)
  generalize packedWord _ = w at hn ⊢
  obtain ⟨h1, h2, h3⟩ := wide_fields_of_toNat hn (by omega) (by omega)
  have hopcode : opcode w = c.opcode := by omega
  have hrd : rd w = a := by omega
  have himm : immU w = v := toInt_eq_of_emod h3 hv
  rw [decode, hopcode]
  rcases hop with ⟨hcode, rfl⟩ | ⟨hcode, rfl⟩
  · simp only [hcode, hrd, himm]
  · simp only [hcode, hrd, himm]

theorem code_jump {op : Text} {c : Code} (hc : (op, c) ∈ Code.table .J) :
    c.opcode = 0b1101111 ∧ op = "jal".toList := by
  have h : ∀ p ∈ Code.table .J, p.2.opcode = 0b1101111 ∧ p.1 = "jal".toList := by decide
  exact h _ hc

theorem jump_pieces (v : Int) :
    ∃ q p20 p12 p11 p1 p0 : Int, v = q * 2 ^ 21 + p20 * 2 ^ 20 + p12 * 2 ^ 12 + p11 * 2 ^ 11 + p1 * 2 + p0 ∧
      (0 ≤ p20 ∧ p20 < 2) ∧ (0 ≤ p12 ∧ p12 < 256) ∧ (0 ≤ p11 ∧ p11 < 2) ∧ (0 ≤ p1 ∧ p1 < 1024) ∧
      (0 ≤ p0 ∧ p0 < 2) ∧ field v 20 1 = p20 ∧ field v 12 8 = p12 ∧ field v 11 1 = p11 ∧
      field v 1 10 = p1 ∧ v % 2 = p0 := by
  have h11 : v / 2 ^ 11 = v / 2 / 1024 := by
    rw [Int.ediv_ediv_of_nonneg (by decide)]
    rfl
  have h12 : v / 2 ^ 12 = v / 2 / 1024 / 2 := by
    rw [← h11, Int.ediv_ediv_of_nonneg (by decide)]
    rfl
  have h20 : v / 2 ^ 20 = v / 2 / 1024 / 2 / 256 := by
    rw [← h12, Int.ediv_ediv_of_nonneg (by decide)]
    rfl
  simp only [field_eq, h11, h12, h20]
  exact ⟨v / 2 / 1024 / 2 / 256 / 2, v / 2 / 1024 / 2 / 256 % 2, v / 2 / 1024 / 2 % 256,
    v / 2 / 1024 % 2, v / 2 % 1024, v % 2, by omega, by omega, by omega, by omega, by omega, by omega,
    rfl, rfl, rfl, rfl, rfl⟩

theorem jump_fields_of_toNat {w : BitVec 32} {p20 p1 p11 p12 a c : Int}
    (hn : (w.toNat : Int) = p20 * 2 ^ 31 + (p1 * 2 ^ 21 + (p11 * 2 ^ 20 + (p12 * 2 ^ 12 +
      (a * 2 ^ 7 + c)))))
    (h1 : 0 ≤ p1 ∧ p1 < 1024) (h11 : 0 ≤ p11 ∧ p11 < 2)
    (h12 : 0 ≤ p12 ∧ p12 < 256) (ha : 0 ≤ a ∧ a < 32) (hc : 0 ≤ c ∧ c < 128) :
    (opcode w : Int) = c ∧ (rd w : Int) = a ∧
      ((w.extractLsb' 31 1 ++ w.extractLsb' 12 8 ++ w.extractLsb' 20 1 ++ w.extractLsb' 21 10 ++
        0#1).toNat : Int) = p20 * 2 ^ 20 + p12 * 2 ^ 12 + p11 * 2 ^ 11 + p1 * 2 := by
  have hb31 : (w.toNat : Int) / 2147483648 % 2 = p20 := by omega
  have hb21 : (w.toNat : Int) / 2097152 % 1024 = p1 := by omega
  have hb20 : (w.toNat : Int) / 1048576 % 2 = p11 := by omega
  have hb12 : (w.toNat : Int) / 4096 % 256 = p12 := by omega
  refine ⟨?_, ?_, ?_⟩
  · rw [opcode, toNat_extract]
    omega
  · rw [rd, toNat_extract]
    omega
  · simp only [toNat_append, toNat_extract, BitVec.toNat_ofNat]
    push_cast
    rw [hb31, hb21, hb20, hb12]
    omega

theorem decode_jump {op : Text} {c : Code} (hc : (op, c) ∈ Code.table .J) {a : Nat} {v : Int}
    (ha : a < 32) (hv : v.bmod (2 ^ 21) = v) :
    decode (packedWord [(field v 20 1, 31), (field v 12 8, 12), (field v 11 1, 20),
      (field v 1 10, 21), (a, 7), (c.opcode, 0)]) = some (.j op a (v - v % 2)) := by
  -- The lowest bit of a jump offset has no place in the word.
  obtain ⟨hcode, rfl⟩ := code_jump hc
  obtain ⟨q, p20, p12, p11, p1, p0, hsplit, hp20, hp12, hp11, hp1, hp0, h20, h12, h11, h1, h0⟩ :=
    jump_pieces v
  rw [h20, h12, h11, h1, h0]
  -- The pieces are packed out of order.
  have hperm : [(p20, 31), (p12, 12), (p11, 20), (p1, 21), ((a : Int), 7), ((c.opcode : Int), 0)].Perm
      [(p20, 31), (p1, 21), (p11, 20), (p12, 12), ((a : Int), 7), ((c.opcode : Int), 0)] := by
    refine .cons _ ?_
    exact (List.Perm.swap ..).trans (.trans (.cons _ (.swap ..)) (.swap ..))
  have hapart : Apart 32
      [(p20, 31), (p1, 21), (p11, 20), (p12, 12), ((a : Int), 7), ((c.opcode : Int), 0)] := by
    simp only [Apart, Nat.reduceSub, Int.reducePow, and_true]
    omega
  have hn := (toNat_packedWord (by decide) hapart).1
  rw [packedWord_perm hperm]
  generalize packedWord _ = w at hn ⊢
  obtain ⟨h1, h2, h3⟩ := jump_fields_of_toNat (a := a) (c := c.opcode)
    (by simpa only [total, Int.pow_zero, Int.mul_one, Int.add_zero] using hn) hp1 hp11 hp12
    (by omega) (by omega)
  have hopcode : opcode w = 0b1101111 := by omega
  have hrd : rd w = a := by omega
  have himm : immJ w = v - p0 := by
    refine toInt_eq_of_emod ?_ ?_
    · rw [h3, hsplit]
      omega
    · have hle := Int.le_bmod (x := v) (m := 2 ^ 21) (by decide)
      have hlt := Int.bmod_lt (x := v) (m := 2 ^ 21) (by decide)
      rw [hv] at hle hlt
      apply Int.bmod_eq_of_le <;> omega
  rw [decode, hopcode]
  simp only [hrd, himm]

end RvToolkit.Layout
