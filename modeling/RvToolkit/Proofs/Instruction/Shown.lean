import RvToolkit.Proofs.Instruction.Branch
import RvToolkit.Proofs.Instruction.Extent

namespace RvToolkit

namespace Immediate

theorem wrap_inj {n : Nat} {v w : Int} : wrap n v = wrap n w ↔ v % 2 ^ n = w % 2 ^ n := by
  rw [Instruction.wrap_eq_bmod, Instruction.wrap_eq_bmod]
  constructor
  · intro h
    rw [← Bits.bmod_emod_two_pow v, ← Bits.bmod_emod_two_pow w]
    exact congrArg (· % 2 ^ n) h
  · intro h
    rw [← Bits.emod_bmod_two_pow, h, Bits.emod_bmod_two_pow]

end Immediate

theorem Encoded.binary_inj {e e' : Encoded} : e.binary = e'.binary ↔ e.bits = e'.bits := by
  refine ⟨fun h => ?_, fun h => by rw [Encoded.binary, Encoded.binary, h]⟩
  have hread : Number.readInt 2 e.binary = Number.readInt 2 e'.binary := by rw [h]
  rw [Encoded.binary, Encoded.binary, Number.readInt_bin32, Number.readInt_bin32] at hread
  exact Except.ok.inj hread

namespace Instruction

/-- The comparisons whose code covers bit 11 of the offset. -/
def covers (op : Text) : Bool := op = "bltu".toList || op = "bgeu".toList

/-- Environment calls show nothing of an immediate. Branches and jumps have no place for the lowest
bit. -/
def shown : Format → Text → Int → Int
  | .R, _, _ => 0
  | .I, op, v =>
      if (systemNumber? op).isSome then 0 else if isShift op then v % 2 ^ 6 else v % 2 ^ 12
  | .S, _, v => v % 2 ^ 12
  | .B, op, v => if covers op then v / 2 % 2 ^ 10 + v / 2 ^ 12 % 2 * 2 ^ 10 else v / 2 % 2 ^ 12
  | .U, _, v => v % 2 ^ 20
  | .J, _, v => v / 2 % 2 ^ 20

theorem packedWord_eq_of_pack {fields fields' : List (Int × Nat)} (h : pack fields = pack fields') :
    packedWord fields = packedWord fields' := congrArg (BitVec.ofInt 32) h

theorem pack_inj_of_below {fields fields' : List (Int × Nat)} (h : Below 32 fields)
    (h' : Below 32 fields') :
    pack fields = pack fields' ↔ packedWord fields = packedWord fields' := by
  refine ⟨packedWord_eq_of_pack, fun hword => ?_⟩
  obtain ⟨hlow, hhigh⟩ := pack_extent h
  obtain ⟨hlow', hhigh'⟩ := pack_extent h'
  have hvalue := congrArg BitVec.toNat hword
  rw [packedWord, packedWord, BitVec.toNat_ofInt, BitVec.toNat_ofInt] at hvalue
  omega

theorem field_congr {v w : Int} (h : v / 2 = w / 2) (low width : Nat) :
    field v (low + 1) width = field w (low + 1) width := by
  have hhalf (u : Int) : u / 2 ^ (low + 1) = u / 2 / 2 ^ low := by
    rw [Int.ediv_ediv_of_nonneg (by decide), Int.pow_succ, Int.mul_comm]
  rw [Layout.field_eq, Layout.field_eq, hhalf, hhalf, h]

theorem pack_even (v : Int) (low : Nat) (fields : List (Int × Nat)) :
    pack ((2 * v, low) :: fields) = pack ((v, low + 1) :: fields) := by
  have hshift : Bits.shiftLeft (2 * v) low = Bits.shiftLeft v (low + 1) := by
    rw [Bits.shiftLeft, Bits.shiftLeft, Int.pow_succ, Int.mul_comm 2 v, Int.mul_assoc,
      Int.mul_comm (2 ^ low)]
  rw [pack, List.foldr_cons, hshift]
  rfl

section Words

variable {op : Text} {c : Code} {a b : Nat}

theorem exists_branch_pieces (hc : Code.find? .B op = some c) (v : Int) :
    ∃ p12 p11 p5 p1 : Nat, p12 < 2 ∧ p11 < 2 ∧ p5 < 64 ∧ p1 < 16 ∧
      v / 2 % 2 ^ 12 = p12 * 2 ^ 11 + p11 * 2 ^ 10 + p5 * 2 ^ 4 + p1 ∧
      packedWord [(pack [(field (Immediate.wrap 13 v) 12 1, 6), (field (Immediate.wrap 13 v) 5 6, 0)], 25),
        ((b : Int), 20), (a, 15), (c.funct3, 12),
        (pack [(field (Immediate.wrap 13 v) 11 1, 6), (field (Immediate.wrap 13 v) 1 4, 0)], 7),
        (c.opcode, 0)] =
      packedWord [(p12, 31), (p5, 25), (b, 20), (a, 15), (overlaid c.funct3 p11, 12), (p1, 7),
        (c.opcode, 0)] := by
  obtain ⟨hmod, -, -⟩ := representative_wrap (by decide : 0 < 13) v
  generalize Immediate.wrap 13 v = u at hmod ⊢
  have heven : (u - u % 2) % 2 = 0 := by omega
  have hhalf : u / 2 = (u - u % 2) / 2 := by omega
  obtain ⟨q, p12, p11, p5, p1, hsplit, hp12, hp11, hp5, hp1, h12, h11, h5, h1⟩ :=
    Layout.branch_pieces heven
  refine ⟨p12, p11, p5, p1, hp12, hp11, hp5, hp1, by omega, ?_⟩
  rw [field_congr hhalf 11, field_congr hhalf 4, field_congr hhalf 10, field_congr hhalf 0, h12, h11, h5, h1,
    packedWord_branch (code_extent hc).2.1 hp11]

variable (ha : a < 32) (hb : b < 32)

include ha

theorem pack_upper_inj (hc : Code.find? .U op = some c) (v w : Int) :
    pack [(Immediate.wrap 20 v, 12), ((a : Int), 7), (c.opcode, 0)] =
      pack [(Immediate.wrap 20 w, 12), ((a : Int), 7), (c.opcode, 0)] ↔ v % 2 ^ 20 = w % 2 ^ 20 := by
  rw [← Immediate.wrap_inj]
  refine ⟨fun h => ?_, fun h => by rw [h]⟩
  have hword := packedWord_eq_of_pack h
  have hv := Layout.decode_upper (mem_table_of_find? hc) ha (wrap_bmod 20 v)
  rw [hword, Layout.decode_upper (mem_table_of_find? hc) ha (wrap_bmod 20 w)] at hv
  exact (Decoded.u.inj (Option.some.inj hv)).2.2.symm

theorem pack_jump_inj (hc : Code.find? .J op = some c) (v w : Int) :
    pack [(field (Immediate.wrap 21 v) 20 1, 31), (field (Immediate.wrap 21 v) 12 8, 12),
        (field (Immediate.wrap 21 v) 11 1, 20), (field (Immediate.wrap 21 v) 1 10, 21), ((a : Int), 7),
        (c.opcode, 0)] =
      pack [(field (Immediate.wrap 21 w) 20 1, 31), (field (Immediate.wrap 21 w) 12 8, 12),
        (field (Immediate.wrap 21 w) 11 1, 20), (field (Immediate.wrap 21 w) 1 10, 21), ((a : Int), 7),
        (c.opcode, 0)] ↔ v / 2 % 2 ^ 20 = w / 2 % 2 ^ 20 := by
  obtain ⟨hv, hvlow, hvhigh⟩ := representative_wrap (by decide : 0 < 21) v
  obtain ⟨hw, hwlow, hwhigh⟩ := representative_wrap (by decide : 0 < 21) w
  have hhalf : Immediate.wrap 21 v / 2 = Immediate.wrap 21 w / 2 ↔ v / 2 % 2 ^ 20 = w / 2 % 2 ^ 20 := by
    omega
  rw [← hhalf]
  constructor
  · intro h
    have hword := packedWord_eq_of_pack h
    have hdecode := Layout.decode_jump (mem_table_of_find? hc) ha (wrap_bmod 21 v)
    rw [hword, Layout.decode_jump (mem_table_of_find? hc) ha (wrap_bmod 21 w)] at hdecode
    have himm := (Decoded.j.inj (Option.some.inj hdecode)).2.2
    omega
  · intro h
    rw [field_congr h 19, field_congr h 11, field_congr h 10, field_congr h 0]

include hb

theorem pack_immediate_inj (hc : Code.find? .I op = some c) (hshift : isShift op = false)
    (hsystem : systemNumber? op = none) (v w : Int) :
    pack [(Immediate.wrap 12 v, 20), ((b : Int), 15), (c.funct3, 12), (a, 7), (c.opcode, 0)] =
      pack [(Immediate.wrap 12 w, 20), ((b : Int), 15), (c.funct3, 12), (a, 7), (c.opcode, 0)] ↔
      v % 2 ^ 12 = w % 2 ^ 12 := by
  rw [← Immediate.wrap_inj]
  refine ⟨fun h => ?_, fun h => by rw [h]⟩
  have hword := packedWord_eq_of_pack h
  have hv := Layout.decode_immediate (mem_table_of_find? hc) hshift hsystem ha hb (wrap_bmod 12 v)
  rw [hword, Layout.decode_immediate (mem_table_of_find? hc) hshift hsystem ha hb (wrap_bmod 12 w)] at hv
  exact (Decoded.i.inj (Option.some.inj hv)).2.2.2.symm

theorem pack_shift_inj (hc : Code.find? .I op = some c) (hshift : isShift op = true) (v w : Int) :
    pack [((c.funct7 : Int), 25), (Bits.and v 0x3f, 20), (b, 15), (c.funct3, 12), (a, 7), (c.opcode, 0)] =
      pack [((c.funct7 : Int), 25), (Bits.and w 0x3f, 20), (b, 15), (c.funct3, 12), (a, 7), (c.opcode, 0)] ↔
      v % 2 ^ 6 = w % 2 ^ 6 := by
  -- The sixth bit of an amount falls on the lowest bit of `funct7`, which is clear in all
  -- shifts.
  have hv : Bits.and v 0x3f = v % 2 ^ 6 := Bits.and_mask v 6
  have hw : Bits.and w 0x3f = w % 2 ^ 6 := Bits.and_mask w 6
  have hclear : ∀ p ∈ Code.table .I, isShift p.1 = true → p.2.funct7 = 2 * (p.2.funct7 / 2) := by decide
  have hfunct7 : (c.funct7 : Int) = 2 * ((c.funct7 / 2 : Nat) : Int) := by
    have hdouble : c.funct7 = 2 * (c.funct7 / 2) := hclear _ (mem_table_of_find? hc) hshift
    omega
  have hcode := code_extent hc
  have hvalue (x : Int) (hx : 0 ≤ x ∧ x < 2 ^ 6) :
      ((packedWord [(((c.funct7 / 2 : Nat) : Int), 26), (x, 20), (b, 15), (c.funct3, 12), (a, 7),
        (c.opcode, 0)]).toNat : Int) = ((c.funct7 / 2 : Nat) : Int) * 2 ^ 26 + x * 2 ^ 20 + b * 2 ^ 15 +
          c.funct3 * 2 ^ 12 + a * 2 ^ 7 + c.opcode := by
    have hapart : Apart 32 [(((c.funct7 / 2 : Nat) : Int), 26), (x, 20), (b, 15), (c.funct3, 12), (a, 7),
        (c.opcode, 0)] := by
      simp only [Apart, Nat.reduceSub, Int.reducePow, and_true]
      omega
    rw [(toNat_packedWord (by decide) hapart).1]
    simp only [total]
    omega
  rw [hv, hw, hfunct7, pack_even, pack_even]
  refine ⟨fun h => ?_, fun h => by rw [h]⟩
  have hword := congrArg (fun w => (w.toNat : Int)) (packedWord_eq_of_pack h)
  rw [hvalue _ (by omega), hvalue _ (by omega)] at hword
  omega

theorem below_branch (hc : Code.find? .B op = some c) (v : Int) :
    Below 32 [(pack [(field v 12 1, 6), (field v 5 6, 0)], 25), ((b : Int), 20), (a, 15), (c.funct3, 12),
      (pack [(field v 11 1, 6), (field v 1 4, 0)], 7), (c.opcode, 0)] := by
  have hcode := code_extent hc
  have hhigh := pair_extent v 12 5 (by decide : 6 ≤ 6)
  have hlow := pair_extent v 11 1 (by decide : 4 ≤ 6)
  simp only [Below, Int.reducePow, and_true]
  omega

theorem pack_branch_inj (hc : Code.find? .B op = some c) (v w : Int) :
    pack [(pack [(field (Immediate.wrap 13 v) 12 1, 6), (field (Immediate.wrap 13 v) 5 6, 0)], 25),
        ((b : Int), 20), (a, 15), (c.funct3, 12),
        (pack [(field (Immediate.wrap 13 v) 11 1, 6), (field (Immediate.wrap 13 v) 1 4, 0)], 7),
        (c.opcode, 0)] =
      pack [(pack [(field (Immediate.wrap 13 w) 12 1, 6), (field (Immediate.wrap 13 w) 5 6, 0)], 25),
        ((b : Int), 20), (a, 15), (c.funct3, 12),
        (pack [(field (Immediate.wrap 13 w) 11 1, 6), (field (Immediate.wrap 13 w) 1 4, 0)], 7),
        (c.opcode, 0)] ↔ shown .B op v = shown .B op w := by
  have hcode := code_extent hc
  have hcovers : covers op = true ↔ c.funct3 / 2 % 2 = 1 := by
    have hall : ∀ p ∈ Code.table .B, covers p.1 = true ↔ p.2.funct3 / 2 % 2 = 1 := by decide
    exact hall _ (mem_table_of_find? hc)
  obtain ⟨p12, p11, p5, p1, hp12, hp11, hp5, hp1, hv, hvword⟩ := exists_branch_pieces hc v
  obtain ⟨q12, q11, q5, q1, hq12, hq11, hq5, hq1, hw, hwword⟩ := exists_branch_pieces hc w
  have hover (x : Nat) : overlaid c.funct3 x < 8 := by
    unfold overlaid
    split <;> omega
  have hshown : shown .B op v = shown .B op w ↔ p12 = q12 ∧ p5 = q5 ∧ p1 = q1 ∧
      overlaid c.funct3 p11 = overlaid c.funct3 q11 := by
    cases hcov : covers op with
    | true =>
        have hbit := hcovers.mp hcov
        have hsame (x : Nat) : overlaid c.funct3 x = c.funct3 := if_neg (by omega)
        have hhalf (u : Int) : u / 2 ^ 12 = u / 2 / 2 ^ 11 := by
          rw [Int.ediv_ediv_of_nonneg (by decide)]
          rfl
        have hvlow : v / 2 % 2 ^ 10 = p5 * 2 ^ 4 + p1 := by omega
        have hvhigh : v / 2 / 2 ^ 11 % 2 = p12 := by omega
        have hwlow : w / 2 % 2 ^ 10 = q5 * 2 ^ 4 + q1 := by omega
        have hwhigh : w / 2 / 2 ^ 11 % 2 = q12 := by omega
        simp only [shown, hcov, if_true, hsame, hhalf, hvlow, hvhigh, hwlow, hwhigh, and_true]
        omega
    | false =>
        have hbit : c.funct3 / 2 % 2 = 0 := by
          have := mt hcovers.mpr (by simp [hcov])
          omega
        have hadd {x : Nat} (hx : x < 2) : overlaid c.funct3 x = c.funct3 + 2 * x := by
          unfold overlaid
          split <;> omega
        simp only [shown, hcov, Bool.false_eq_true, if_false, hadd hp11, hadd hq11]
        omega
  rw [pack_inj_of_below (below_branch ha hb hc _) (below_branch ha hb hc _), hvword, hwword, hshown]
  constructor
  · intro h
    obtain ⟨-, hrd, hfunct3, -, -, hfunct7⟩ :=
      Layout.branch_fields (hover p11) hp12 hp5 hp1 ha hb hcode.1 h
    obtain ⟨-, hrd', hfunct3', -, -, hfunct7'⟩ :=
      Layout.branch_fields (hover q11) hq12 hq5 hq1 ha hb hcode.1 rfl
    omega
  · rintro ⟨rfl, rfl, rfl, h⟩
    rw [h]

end Words

section Number

variable {op : Text} {front : List Value} {n : Int} {e : Encoded}

theorem registerOf_ofInt (n : Int) (r : Nat) : registerOf (.text (Text.ofInt n)) ≠ .ok r := by
  obtain ⟨ds, htext, hne, hds, -⟩ := Number.exists_ofInt n
  obtain ⟨d, ds', rfl⟩ := List.exists_cons_of_ne_nil hne
  have hdigit := Expr.isDigit_digitChar (hds d (by simp))
  have hx : d.digitChar ≠ 'x' := by
    intro h
    rw [h] at hdigit
    cases hdigit
  have hchomp : Text.chomp (Text.ofInt n) = Text.ofInt n := by
    apply chomp_eq_self
    rw [htext]
    by_cases hn : n < 0 <;> simp [hn]
  intro h
  rw [registerOf, Register.number, hchomp, htext] at h
  by_cases hn : n < 0 <;> simp [hn, hx] at h

variable (hn : (Nat.toDigits 10 n.natAbs).length ≤ Number.maxDigits)

include hn

theorem withBase_ofInt [Evaluator] : Immediate.withBase (.text (Text.ofInt n)) = .error (.type .other) := by
  rw [Immediate.withBase, Immediate.resolve_ofInt hn]
  rfl

theorem operandsI_ofInt [Evaluator] {o : Option (Value × Value × Value)}
    (h : operandsI (front ++ [.text (Text.ofInt n)]) = .ok o) :
    (∃ a b, front = [a, b] ∧ o = some (a, b, .int n)) ∨
      o = none ∧ ∀ x, operandsI (front ++ [x]) = .ok none := by
  rcases front with _ | ⟨a, _ | ⟨b, _ | ⟨d, rest⟩⟩⟩
  · exact .inr ⟨(Except.ok.inj h).symm, fun _ => rfl⟩
  · simp only [List.cons_append, List.nil_append, operandsI, withBase_ofInt hn] at h
    cases h
  · simp only [List.cons_append, List.nil_append, operandsI, Immediate.resolve_ofInt hn] at h
    exact .inl ⟨a, b, rfl, (Except.ok.inj h).symm⟩
  · have hnone (x : Value) : operandsI (a :: b :: d :: rest ++ [x]) = .ok none := by
      cases rest <;> rfl
    exact .inr ⟨Except.ok.inj (h.symm.trans (hnone _)), hnone⟩

/-- The encodings of an instruction with each integer in the place of its last operand. -/
structure TakesNumber [Evaluator] (f : Format) (op : Text) (front : List Value)
    (g : Int → Encoded) : Prop where
  encode_eq : ∀ n : Int, (Nat.toDigits 10 n.natAbs).length ≤ Number.maxDigits →
    encodeWith f op (front ++ [.text (Text.ofInt n)]) = .ok (g n)
  bits_inj : (∀ x ∈ front, ∀ r, registerOf x = .ok r → r < 32) →
    ∀ v w, (g v).bits = (g w).bits ↔ shown f op v = shown f op w

theorem takesNumber_system [Evaluator] {k : Int} (hsystem : systemNumber? op = some k)
    (h : encodeI op (front ++ [.text (Text.ofInt n)]) = .ok e) :
    TakesNumber .I op front fun _ => e := by
  simp only [encodeI, Except.bind_eq_ok] at h
  obtain ⟨c, hc, o, ho, he⟩ := h
  have haccepted (m : Int) (hm : (Nat.toDigits 10 m.natAbs).length ≤ Number.maxDigits) :
      ∃ o', operandsI (front ++ [.text (Text.ofInt m)]) = .ok o' := by
    rcases operandsI_ofInt hn ho with ⟨a, b, rfl, -⟩ | ⟨-, hnone⟩
    · refine ⟨some (a, b, .int m), ?_⟩
      simp only [List.cons_append, List.nil_append, operandsI, Immediate.resolve_ofInt hm]
      rfl
    · exact ⟨none, hnone _⟩
  refine ⟨fun m hm => ?_, fun _ v w => ?_⟩
  · obtain ⟨o', ho'⟩ := haccepted m hm
    simp only [encodeWith, encodeI, Except.bind_eq_ok]
    refine ⟨c, hc, o', ho', ?_⟩
    rw [hsystem] at he ⊢
    exact he
  · simp [shown, hsystem]

theorem takesNumber_immediate [Evaluator] (hsystem : systemNumber? op = none)
    (h : encodeI op (front ++ [.text (Text.ofInt n)]) = .ok e) : ∃ g, TakesNumber .I op front g := by
  obtain ⟨c, a, b, x, rd, rs1, hc, hoperands, ha, hb, -⟩ := encodeI_eq_ok hsystem h
  have hcode := codeOf_eq_ok.mpr hc
  obtain ⟨rfl⟩ : front = [a, b] := by
    rcases operandsI_ofInt hn hoperands with ⟨a', b', rfl, ho⟩ | ⟨ho, -⟩
    · cases ho
      rfl
    · cases ho
  cases hshift : isShift op with
  | true =>
      refine ⟨fun v => ⟨pack [(c.funct7, 25), (Bits.and v 0x3f, 20), (rs1, 15), (c.funct3, 12), (rd, 7),
        (c.opcode, 0)], ⟨some [rd, rs1], some (Bits.and v 0x3f)⟩⟩, ?_, ?_⟩
      · intro m hm
        simp [encodeWith, encodeI, operandsI, hcode, ha, hb, hsystem, hshift, Immediate.resolve_ofInt hm,
          Immediate.toInteger, bind, Except.bind, pure, Except.pure]
      · intro hregs v w
        simp only [shown, hsystem, hshift, Option.isSome_none, Bool.false_eq_true, if_false, if_true]
        exact pack_shift_inj (hregs a (by simp) rd ha) (hregs b (by simp) rs1 hb) hc hshift v w
  | false =>
      refine ⟨fun v => ⟨pack [(Immediate.wrap 12 v, 20), (rs1, 15), (c.funct3, 12), (rd, 7), (c.opcode, 0)],
        ⟨some [rd, rs1], some (Immediate.wrap 12 v)⟩⟩, ?_, ?_⟩
      · intro m hm
        simp [encodeWith, encodeI, operandsI, hcode, ha, hb, hsystem, hshift, Immediate.resolve_ofInt hm,
          Immediate.wrapOperand, Immediate.plain?, bind, Except.bind, pure, Except.pure]
      · intro hregs v w
        simp only [shown, hsystem, hshift, Option.isSome_none, Bool.false_eq_true, if_false]
        exact pack_immediate_inj (hregs a (by simp) rd ha) (hregs b (by simp) rs1 hb) hc hshift hsystem v w

omit hn in
theorem takesNumber_branch [Evaluator] (h : encodeB op (front ++ [.text (Text.ofInt n)]) = .ok e) :
    ∃ g, TakesNumber .B op front g := by
  obtain ⟨c, a, b, x, rs1, rs2, v, hc, hargs, ha, hb, -, -⟩ := encodeB_eq_ok h
  have hcode := codeOf_eq_ok.mpr hc
  have hsplit : front ++ [.text (Text.ofInt n)] = [a, b] ++ [x] := hargs
  obtain ⟨rfl, -⟩ := List.append_inj' hsplit rfl
  refine ⟨fun v => ⟨pack [(pack [(field (Immediate.wrap 13 v) 12 1, 6), (field (Immediate.wrap 13 v) 5 6, 0)], 25),
    (rs2, 20), (rs1, 15), (c.funct3, 12),
    (pack [(field (Immediate.wrap 13 v) 11 1, 6), (field (Immediate.wrap 13 v) 1 4, 0)], 7), (c.opcode, 0)],
    ⟨some [rs1, rs2], some (Immediate.wrap 13 v)⟩⟩, ?_, ?_⟩
  · intro m hm
    simp [encodeWith, encodeB, hcode, ha, hb, Immediate.toInteger_ofInt hm, bind, Except.bind, pure,
      Except.pure]
  · intro hregs v w
    exact pack_branch_inj (hregs a (by simp) rs1 ha) (hregs b (by simp) rs2 hb) hc v w

omit hn in
theorem takesNumber_upper [Evaluator] (h : encodeU op (front ++ [.text (Text.ofInt n)]) = .ok e) :
    ∃ g, TakesNumber .U op front g := by
  obtain ⟨c, a, imm, x, rd, v, hc, hargs, -, ha, -, -⟩ := encodeU_eq_ok h
  have hcode := codeOf_eq_ok.mpr hc
  have hsplit : front ++ [.text (Text.ofInt n)] = [a] ++ [imm] := hargs
  obtain ⟨rfl, -⟩ := List.append_inj' hsplit rfl
  refine ⟨fun v => ⟨pack [(Immediate.wrap 20 v, 12), (rd, 7), (c.opcode, 0)],
    ⟨some [rd], some (Immediate.wrap 20 v)⟩⟩, ?_, ?_⟩
  · intro m hm
    simp [encodeWith, encodeU, hcode, ha, upperOperand_ofInt hm, Immediate.wrapOperand, Immediate.plain?,
      bind, Except.bind, pure, Except.pure]
  · intro hregs v w
    exact pack_upper_inj (hregs a (by simp) rd ha) hc v w

omit hn in
theorem takesNumber_jump [Evaluator] (h : encodeJ op (front ++ [.text (Text.ofInt n)]) = .ok e) :
    ∃ g, TakesNumber .J op front g := by
  obtain ⟨c, a, imm, x, rd, v, hc, hargs, -, ha, -, -⟩ := encodeJ_eq_ok h
  have hcode := codeOf_eq_ok.mpr hc
  have hsplit : front ++ [.text (Text.ofInt n)] = [a] ++ [imm] := hargs
  obtain ⟨rfl, -⟩ := List.append_inj' hsplit rfl
  refine ⟨fun v => ⟨pack [(field (Immediate.wrap 21 v) 20 1, 31), (field (Immediate.wrap 21 v) 12 8, 12),
    (field (Immediate.wrap 21 v) 11 1, 20), (field (Immediate.wrap 21 v) 1 10, 21), (rd, 7),
    (c.opcode, 0)], ⟨some [rd], some (Immediate.wrap 21 v)⟩⟩, ?_, ?_⟩
  · intro m hm
    simp [encodeWith, encodeJ, hcode, ha, jumpOperand_ofInt hm, Immediate.wrapOperand, Immediate.plain?,
      bind, Except.bind, pure, Except.pure]
  · intro hregs v w
    exact pack_jump_inj (hregs a (by simp) rd ha) hc v w

/-- Whether a number is accepted in the last place does not depend on the number. A store takes none
there, nor does an operation between registers. -/
theorem exists_takesNumber [Evaluator] {f : Format}
    (h : encodeWith f op (front ++ [.text (Text.ofInt n)]) = .ok e) : ∃ g, TakesNumber f op front g := by
  cases f with
  | R =>
      obtain ⟨c, a, b, d, rd, rs1, rs2, -, hargs, -, -, hd, -⟩ := encodeR_eq_ok h
      have hsplit : front ++ [.text (Text.ofInt n)] = [a, b] ++ [d] := hargs
      obtain ⟨-, hlast⟩ := List.append_inj' hsplit rfl
      rw [← List.singleton_inj.mp hlast] at hd
      exact absurd hd (registerOf_ofInt n rs2)
  | I =>
      cases hsystem : systemNumber? op with
      | some k => exact ⟨_, takesNumber_system hn hsystem h⟩
      | none => exact takesNumber_immediate hn hsystem h
  | S =>
      obtain ⟨c, b, a, x, rs1, rs2, v, -, hargs, -, -, hv, -⟩ := encodeS_eq_ok h
      rcases operandsS_eq_ok hargs with hthree | ⟨place, base, htwo, -, hplace⟩
      · have hsplit : front ++ [.text (Text.ofInt n)] = [b, a] ++ [x] := hthree
        obtain ⟨-, hlast⟩ := List.append_inj' hsplit rfl
        rw [← List.singleton_inj.mp hlast] at hv
        cases hv
      · have hsplit : front ++ [.text (Text.ofInt n)] = [b] ++ [place] := htwo
        obtain ⟨-, hlast⟩ := List.append_inj' hsplit rfl
        rw [← List.singleton_inj.mp hlast, withBase_ofInt hn] at hplace
        cases hplace
  | B => exact takesNumber_branch h
  | U => exact takesNumber_upper h
  | J => exact takesNumber_jump h

end Number

/-- Width of the field for an immediate. -/
def widthOf : Format → Text → Nat
  | .I, op => if isShift op then 6 else 12
  | f, _ => f.immediateBits

/-- Integers an even distance apart are shown alike if and only if the distance leaves no remainder
in the field. -/
theorem shown_sub_iff {f : Format} {op : Text} (hsystem : systemNumber? op = none)
    (hcovers : covers op = false) {v d : Int} (hd : 2 ∣ d) :
    shown f op (v - d) = shown f op v ↔ (2 ^ widthOf f op : Int) ∣ d := by
  cases f with
  | R => simp [shown, widthOf, Format.immediateBits]
  | I =>
      cases hshift : isShift op with
      | true =>
          simp only [shown, widthOf, hsystem, hshift, Option.isSome_none, Bool.false_eq_true, if_false, if_true]
          omega
      | false =>
          simp only [shown, widthOf, hsystem, hshift, Option.isSome_none, Bool.false_eq_true, if_false]
          omega
  | B =>
      simp only [shown, widthOf, hcovers, Bool.false_eq_true, if_false, Format.immediateBits]
      omega
  | S | U | J =>
      simp only [shown, widthOf, Format.immediateBits]
      omega

end Instruction

end RvToolkit
