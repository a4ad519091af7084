import Mathlib.Data.List.Forall2
import RvToolkit.Proofs.Instruction.Branch
import RvToolkit.Proofs.Instruction.Extent
import RvToolkit.Proofs.Instruction.Misreading

namespace RvToolkit

namespace Register

variable {t : Text} {n : Nat}

/-- An `x` and decimal digits, no more of them than a literal may have. One line break may follow. -/
def Spells (t : Text) (n : Nat) : Prop :=
  ∃ ds, Text.chomp t = 'x' :: ds ∧ ds ≠ [] ∧ ds.all Text.isDigit = true ∧ ds.length ≤ Number.maxDigits ∧
    n = Number.ofDigits 10 (ds.filterMap Text.digitValue?)

theorem number_eq_ok_iff : number t = .ok n ↔ Spells t n := by
  unfold number
  constructor
  · intro h
    split at h
    · next ds hname =>
        split at h
        · cases h
        · next hdigits =>
            split at h
            · cases h
            · next hlong =>
                obtain ⟨hne, hall⟩ : ds ≠ [] ∧ ds.all Text.isDigit = true := by simpa using hdigits
                exact ⟨ds, hname, hne, hall, Nat.not_lt.mp hlong, (Except.ok.inj h).symm⟩
    · cases h
  · rintro ⟨ds, hname, hne, hall, hshort, rfl⟩
    have hdigits : (ds.isEmpty || !ds.all Text.isDigit) = false := by simp [hne, hall]
    simp [hname, hdigits, Nat.not_lt.mpr hshort]

theorem Spells.unique {n' : Nat} (h : Spells t n) (h' : Spells t n') : n = n' :=
  Except.ok.inj ((number_eq_ok_iff.mpr h).symm.trans (number_eq_ok_iff.mpr h'))

theorem number_of_overlong {f : Fault} (h : Overlong t f) : number t = .error f :=
  (escapes_number.mpr h).1

theorem number_of_not_spells (h : ∀ n, ¬ Spells t n) (hlong : ∀ f, ¬ Overlong t f) :
    number t = .error (.invalidRegister (.text t)) := by
  cases hnumber : number t with
  | ok n => exact absurd (number_eq_ok_iff.mp hnumber) (h n)
  | error f =>
      unfold number at hnumber
      split at hnumber
      · next ds hname =>
          split at hnumber
          · exact hnumber.symm
          · next hdigits =>
              have hall : ds.all Text.isDigit = true := by simp_all
              split at hnumber
              · next htoo => exact absurd (.digits hname hall htoo) (hlong _)
              · cases hnumber
      · exact hnumber.symm

theorem lt_of_toNumbered {base : Text} (h : toNumbered base = .ok t) (hn : number t = .ok n) : n < 32 := by
  have hbound : ∀ name ∈ numberedNames, Text.chomp name = name ∧ (number name).toOption.all (· < 32) = true := by
    decide
  have halias : ∀ p ∈ aliases, numbered p.2 ∈ numberedNames := by decide
  have hname : Text.chomp t ∈ numberedNames := by
    unfold toNumbered at h
    split at h
    · next hnumbered =>
        obtain rfl := Except.ok.inj h
        simpa [isNumbered] using hnumbered
    · split at h
      · split at h
        · next i hi =>
            have hmem := halias _ (mem_of_lookup hi)
            obtain rfl := Except.ok.inj h
            rwa [(hbound _ hmem).1]
        · cases h
      · cases h
  obtain ⟨hchomp, hlt⟩ := hbound _ hname
  have hsame : number (Text.chomp t) = .ok n := by
    obtain ⟨ds, hds, hrest⟩ := number_eq_ok_iff.mp hn
    exact number_eq_ok_iff.mpr ⟨ds, hchomp.trans hds, hrest⟩
  simpa [hsame, Except.toOption] using hlt

end Register

/-- The places of the register fields, in the order in which operands list the registers. -/
def Format.registerPlaces : Format → List Nat
  | .R => [7, 15, 20]
  | .I => [7, 15]
  | .S => [20, 15]
  | .B => [15, 20]
  | .U | .J => [7]

/-- The registers that stand in the fields of a word. -/
def Format.registersIn (f : Format) (w : BitVec 32) : List Nat :=
  f.registerPlaces.map fun low => (w.extractLsb' low 5).toNat

namespace Instruction

/-- The operands of an instruction that are registers: all but the last, which is one only where there is
no immediate. -/
def registerOperands {α : Type} : Format → List α → List α
  | .R, args => args
  | _, args => args.dropLast

def atPlaces (ns places : List Nat) : List (Int × Nat) := (ns.zip places).map fun x => ((x.1 : Int), x.2)

theorem atPlaces_nil (places : List Nat) : atPlaces [] places = [] := rfl

theorem atPlaces_cons (n low : Nat) (ns places : List Nat) :
    atPlaces (n :: ns) (low :: places) = ((n : Int), low) :: atPlaces ns places := rfl

/-- The word in which each register stands at its place and nothing else. -/
def placed (f : Format) (regs : List Nat) : BitVec 32 := packedWord (atPlaces regs f.registerPlaces)

/-- The word of what five bits do not hold of each register, laid over the field above. -/
def spilt (f : Format) (regs : List Nat) : BitVec 32 :=
  packedWord (atPlaces (regs.map (· / 32)) (f.registerPlaces.map (· + 5)))

section Fields

variable {low p : Nat} {v : Int} {fields : List (Int × Nat)}

theorem ofInt_shiftLeft_split (r low : Nat) :
    BitVec.ofInt 32 r <<< low =
      BitVec.ofInt 32 (r % 32 : Nat) <<< low ||| BitVec.ofInt 32 (r / 32 : Nat) <<< (low + 5) := by
  have hlow : r % 32 = r % 2 ^ 5 := rfl
  have hhigh : r / 32 = r / 2 ^ 5 := rfl
  apply BitVec.eq_of_getLsbD_eq
  intro i hi
  simp only [BitVec.ofInt_natCast, BitVec.getLsbD_or, BitVec.getLsbD_shiftLeft, BitVec.getLsbD_ofNat, hlow, hhigh,
    Nat.testBit_mod_two_pow, Nat.testBit_div_two_pow]
  by_cases hbelow : i < low
  · simp [hbelow, Nat.lt_add_right 5 hbelow]
  · by_cases hown : i < low + 5
    · simp [hbelow, hown, show i - low < 5 by omega]
    · have hsum : i - (low + 5) + 5 = i - low := by omega
      have hbound : i - low < 32 ∧ i - (low + 5) < 32 := by omega
      simp [hbelow, hown, hsum, hi, hbound, show ¬ i - low < 5 by omega]

theorem placed_eq (f : Format)
    (regs : List Nat) : placed f regs = placed f (regs.map (· % 32)) ||| spilt f regs := by
  unfold placed spilt
  generalize f.registerPlaces = places
  induction regs generalizing places with
  | nil => simp [atPlaces, packedWord_nil]
  | cons r regs ih =>
      cases places with
      | nil => simp [atPlaces, packedWord_nil]
      | cons low places =>
          simp only [List.map_cons, atPlaces_cons, packedWord_cons, ih places, ofInt_shiftLeft_split r low]
          ac_rfl

def Clears (low : Nat) (v : Int) (p : Nat) : Prop := low + 5 ≤ p ∨ 0 ≤ v ∧ v * 2 ^ p < 2 ^ low

theorem extract_cons (v : Int) (p : Nat) (fields : List (Int × Nat)) (low : Nat) :
    (packedWord ((v, p) :: fields)).extractLsb' low 5 =
      (BitVec.ofInt 32 v <<< p).extractLsb' low 5 ||| (packedWord fields).extractLsb' low 5 := by
  rw [packedWord_cons, BitVec.extractLsb'_or]

theorem extract_of_clears (h : Clears low v p) : (BitVec.ofInt 32 v <<< p).extractLsb' low 5 = 0 := by
  apply BitVec.eq_of_getLsbD_eq
  intro i hi
  simp only [BitVec.getLsbD_extractLsb', BitVec.getLsbD_shiftLeft]
  rcases h with habove | ⟨hnonneg, hbelow⟩
  · simp [show low + i < p by omega]
  · by_cases hp : low + i < p
    · simp [hp]
    · obtain ⟨n, rfl⟩ := Int.eq_ofNat_of_zero_le hnonneg
      have hlt : n < 2 ^ (low + i - p) := by
        have hsplit : 2 ^ (low + i) = 2 ^ (low + i - p) * 2 ^ p := by
          rw [← Nat.pow_add, Nat.sub_add_cancel (by omega)]
        have hle : 2 ^ low ≤ 2 ^ (low + i) := Nat.pow_le_pow_right (by decide) (by omega)
        have hn : n * 2 ^ p < 2 ^ low := by exact_mod_cast hbelow
        exact Nat.lt_of_mul_lt_mul_right (hsplit ▸ Nat.lt_of_lt_of_le hn hle)
      simp only [BitVec.ofInt_natCast, BitVec.getLsbD_ofNat, Nat.testBit_lt_two_pow hlt]
      simp

theorem extract_own (r : Nat) (hlow : low + 5 ≤ 32) :
    (BitVec.ofInt 32 (r : Int) <<< low).extractLsb' low 5 = BitVec.ofNat 5 r := by
  apply BitVec.eq_of_getLsbD_eq
  intro i hi
  have hin : low + i < 32 ∧ i < 32 := by omega
  simp only [BitVec.ofInt_natCast, BitVec.getLsbD_extractLsb', BitVec.getLsbD_shiftLeft, BitVec.getLsbD_ofNat]
  simp [hi, hin]

theorem extract_packedWord (h : ∀ x ∈ fields, Clears low x.1 x.2) :
    (packedWord fields).extractLsb' low 5 = 0 := by
  induction fields with
  | nil => exact BitVec.extractLsb'_zero
  | cons x fields ih =>
      obtain ⟨v, p⟩ := x
      rw [List.forall_mem_cons] at h
      rw [extract_cons, extract_of_clears h.1, ih h.2]
      rfl

theorem clears_of_apart {r : Nat} (hr : r < 32) (h : low + 5 ≤ p ∨ p + 5 ≤ low) : Clears low r p := by
  refine h.imp id fun hbelow => ⟨Int.natCast_nonneg r, ?_⟩
  have hpow : 2 ^ (p + 5) ≤ 2 ^ low := Nat.pow_le_pow_right (by decide) hbelow
  have hlt : r * 2 ^ p < 32 * 2 ^ p := Nat.mul_lt_mul_of_pos_right hr (Nat.two_pow_pos p)
  have hnat : r * 2 ^ p < 2 ^ low := by
    rw [Nat.pow_add] at hpow
    omega
  exact_mod_cast hnat

theorem map_extract {places regs : List Nat} {rest : BitVec 32} (hlength : regs.length = places.length)
    (hregs : ∀ r ∈ regs, r < 32) (hbound : ∀ low ∈ places, low + 5 ≤ 32)
    (hapart : places.Pairwise fun p q => p + 5 ≤ q ∨ q + 5 ≤ p)
    (hrest : ∀ low ∈ places, rest.extractLsb' low 5 = 0) :
    places.map (fun low => ((packedWord (atPlaces regs places) ||| rest).extractLsb' low 5).toNat) = regs := by
  induction places generalizing regs rest with
  | nil => exact (List.eq_nil_of_length_eq_zero hlength).symm
  | cons p places ih =>
      obtain ⟨r, regs, rfl⟩ := List.exists_cons_of_length_eq_add_one hlength
      rw [List.forall_mem_cons] at hregs hbound hrest
      obtain ⟨hhead, htail⟩ := List.pairwise_cons.mp hapart
      have hothers : (packedWord (atPlaces regs places)).extractLsb' p 5 = 0 := by
        apply extract_packedWord
        intro x hx
        obtain ⟨⟨r', low'⟩, hmem, rfl⟩ := List.mem_map.mp hx
        obtain ⟨hr', hlow'⟩ := List.of_mem_zip hmem
        exact clears_of_apart (hregs.2 r' hr') (hhead low' hlow')
      -- Seen from the other fields, the first one is part of what is packed beside them.
      have hbeside : ∀ low ∈ places, (BitVec.ofInt 32 (r : Int) <<< p ||| rest).extractLsb' low 5 = 0 := by
        intro low hlow
        have hclear := extract_of_clears (clears_of_apart hregs.1 (hhead low hlow).symm)
        rw [BitVec.extractLsb'_or, hclear, hrest.2 low hlow]
        rfl
      have hrec := ih (Nat.succ.inj hlength) hregs.2 hbound.2 htail hbeside
      rw [atPlaces_cons, packedWord_cons, List.map_cons]
      refine List.cons_eq_cons.mpr ⟨?_, ?_⟩
      · rw [BitVec.extractLsb'_or, BitVec.extractLsb'_or, extract_own r hbound.1, hothers, hrest.1]
        simp [Nat.mod_eq_of_lt hregs.1]
      · rwa [BitVec.or_comm (BitVec.ofInt 32 (r : Int) <<< p), BitVec.or_assoc]

theorem registersIn_eq {f : Format} {regs : List Nat} {rest : BitVec 32}
    (hlength : regs.length = f.registerPlaces.length) (hregs : ∀ r ∈ regs, r < 32)
    (hrest : ∀ low ∈ f.registerPlaces, rest.extractLsb' low 5 = 0) :
    f.registersIn (placed f regs ||| rest) = regs := by
  refine map_extract hlength hregs ?_ ?_ hrest
  · cases f <;> decide
  · cases f <;> decide

end Fields

/-- How an instruction with this last operand is encoded, for any operands in the places of its registers:
the numbers they spell are packed beside the other fields. -/
structure Plan [Evaluator] (f : Format) (op : Text) (args : List Text) where
  fields : List Nat → List (Int × Nat)
  others : List (Int × Nat)
  /-- Registers that are named inside the last operand. -/
  bases : List Nat
  imm : Option Int
  bases_lt : ∀ b ∈ bases, b < 32
  length_eq : (registerOperands f args).length + bases.length = f.registerPlaces.length
  others_clear : ∀ low ∈ f.registerPlaces, ∀ x ∈ others, Clears low x.1 x.2
  fields_perm : ∀ ns, ns.length = (registerOperands f args).length →
    (fields ns).Perm (atPlaces (ns ++ bases) f.registerPlaces ++ others)
  encode_eq : ∀ ts : List Text, ts.length = (registerOperands f args).length →
    encodeWith f op ((ts ++ args.drop ts.length).map .text) =
      ts.mapM Register.number >>= fun ns => .ok ⟨pack (fields ns), ⟨some (ns ++ bases), imm⟩⟩

section Plans

variable {op : Text} {args : List Text} {e : Encoded}

theorem lt_of_withBase [Evaluator] {place x : Value} {base : Text} {r : Nat}
    (h : Immediate.withBase place = .ok (x, base)) (hr : registerOf (.text base) = .ok r) : r < 32 := by
  unfold Immediate.withBase at h
  obtain ⟨resolved, -, h⟩ := Except.bind_eq_ok.mp h
  split at h
  · split at h
    · cases h
    · obtain ⟨reg, hreg, h⟩ := Except.bind_eq_ok.mp h
      obtain ⟨offset, -, h⟩ := Except.bind_eq_ok.mp h
      cases h
      exact Register.lt_of_toNumbered hreg hr
  · cases h

theorem plan_registers [Evaluator]
    (h : encodeR op (args.map .text) = .ok e) : Nonempty (Plan .R op args) := by
  obtain ⟨c, _, _, _, _, _, _, hc, hargs, -, -, -, -⟩ := encodeR_eq_ok h
  obtain ⟨hopcode, hf3, -⟩ := code_extent hc
  obtain ⟨t, u, v, rfl⟩ := List.length_eq_three.mp (by simpa using congrArg List.length hargs)
  refine ⟨{
    fields := fun ns => [(c.funct7, 25), (ns.getD 2 0, 20), (ns.getD 1 0, 15), (c.funct3, 12), (ns.getD 0 0, 7),
      (c.opcode, 0)]
    others := [(c.funct7, 25), (c.funct3, 12), (c.opcode, 0)]
    bases := []
    imm := none
    bases_lt := by simp
    length_eq := rfl
    others_clear := ?_
    fields_perm := ?_
    encode_eq := ?_ }⟩
  · simp [Format.registerPlaces, Clears]
    omega
  · intro ns hns
    obtain ⟨a, b, d, rfl⟩ := List.length_eq_three.mp hns
    simp only [Format.registerPlaces, List.append_nil, atPlaces_cons, atPlaces_nil, List.getD_cons_zero,
      List.getD_cons_succ]
    grind
  · intro ts hts
    obtain ⟨t, u, v, rfl⟩ := List.length_eq_three.mp hts
    have hcode := codeOf_eq_ok.mpr hc
    simp only [List.mapM_cons, List.mapM_nil, bind_assoc, pure_bind, List.append_nil]
    simp only [encodeWith, encodeR, hcode, registerOf, bind, Except.bind, pure, Except.pure]
    rfl

theorem exists_encodeI_eq [Evaluator] {c : Code} {x : Value} (hc : Code.find? .I op = some c)
    (hsystem : systemNumber? op = none)
    (hx : isShift op = true ∧ (∃ v, Immediate.toInteger x = .ok v) ∨
      isShift op = false ∧ ∃ v, Immediate.plain? x = some v) :
    ∃ (tops : List (Int × Nat)) (imm : Int), (∀ y ∈ tops, 20 ≤ y.2) ∧
      ∀ args a b, operandsI args = .ok (some (a, b, x)) → encodeI op args =
        registerOf a >>= fun rd => registerOf b >>= fun rs1 =>
          .ok ⟨pack (tops ++ [((rs1 : Int), 15), (c.funct3, 12), (rd, 7), (c.opcode, 0)]),
            ⟨some [rd, rs1], some imm⟩⟩ := by
  have hcode := codeOf_eq_ok.mpr hc
  rcases hx with ⟨hshift, v, hv⟩ | ⟨hshift, v, hv⟩
  · refine ⟨[(c.funct7, 25), (Bits.and v 0x3f, 20)], Bits.and v 0x3f, by simp, ?_⟩
    intro args a b hargs
    simp only [encodeI, hcode, hargs, hsystem, hshift, hv, ↓reduceIte, bind, Except.bind, pure, Except.pure]
    rfl
  · refine ⟨[(Immediate.wrap 12 v, 20)], Immediate.wrap 12 v, by simp, ?_⟩
    intro args a b hargs
    have hwrap : Immediate.wrapOperand 12 x = .ok (Immediate.wrap 12 v) := wrapOperand_eq_ok.mpr ⟨v, hv, rfl⟩
    simp only [encodeI, hcode, hargs, hsystem, hshift, hwrap, Bool.false_eq_true, ↓reduceIte, bind, Except.bind,
      pure, Except.pure]
    rfl

theorem plan_immediate [Evaluator] (hsystem : systemNumber? op = none)
    (h : encodeI op (args.map .text) = .ok e) :
    Nonempty (Plan .I op args) := by
  obtain ⟨c, a, b, x, rd, rs1, hc, hargs, -, hb, hshape⟩ := encodeI_eq_ok hsystem h
  obtain ⟨hopcode, hf3, -⟩ := code_extent hc
  have hx : isShift op = true ∧ (∃ v, Immediate.toInteger x = .ok v) ∨
      isShift op = false ∧ ∃ v, Immediate.plain? x = some v := by
    rcases hshape with ⟨hshift, v, hv, -⟩ | ⟨hshift, v, hv, -⟩
    · exact .inl ⟨hshift, v, hv⟩
    · exact .inr ⟨hshift, v, hv⟩
  obtain ⟨tops, imm, htops, hencode⟩ := exists_encodeI_eq hc hsystem hx
  have hclear : ∀ low ∈ Format.registerPlaces .I, ∀ y ∈ tops ++ [((c.funct3 : Int), 12), ((c.opcode : Int), 0)],
      Clears low y.1 y.2 := by
    intro low hlow y hy
    have hplace : low = 7 ∨ low = 15 := by simpa [Format.registerPlaces] using hlow
    rcases List.mem_append.mp hy with hy | hy
    · have htop := htops y hy
      exact .inl (by omega)
    · obtain rfl | rfl : y = ((c.funct3 : Int), 12) ∨ y = ((c.opcode : Int), 0) := by simpa using hy
      · rcases hplace with rfl | rfl <;> simp only [Clears] <;> omega
      · rcases hplace with rfl | rfl <;> simp only [Clears] <;> omega
  rcases operandsI_eq_some hargs with ⟨last, hlist, hlast⟩ | ⟨place, base, hlist, rfl, hplace⟩
  · obtain ⟨t, u, v, rfl⟩ := List.length_eq_three.mp (by simpa using congrArg List.length hlist)
    obtain ⟨-, -, rfl⟩ : a = .text t ∧ b = .text u ∧ last = .text v := by simpa [eq_comm] using hlist
    refine ⟨{
      fields := fun ns => tops ++ [((ns.getD 1 0 : Int), 15), (c.funct3, 12), (ns.getD 0 0, 7), (c.opcode, 0)]
      others := tops ++ [((c.funct3 : Int), 12), ((c.opcode : Int), 0)]
      bases := []
      imm := some imm
      bases_lt := by simp
      length_eq := rfl
      others_clear := hclear
      fields_perm := ?_
      encode_eq := ?_ }⟩
    · intro ns hns
      obtain ⟨a, b, rfl⟩ := List.length_eq_two.mp hns
      simp only [Format.registerPlaces, List.append_nil, atPlaces_cons, atPlaces_nil, List.getD_cons_zero,
      List.getD_cons_succ]
      grind
    · intro ts hts
      obtain ⟨t, u, rfl⟩ := List.length_eq_two.mp hts
      have hoperands : operandsI [.text t, .text u, .text v] = .ok (some (.text t, .text u, x)) := by
        simp [operandsI, hlast]
      simp only [List.mapM_cons, List.mapM_nil, bind_assoc, pure_bind, List.append_nil]
      exact hencode _ _ _ hoperands
  · obtain ⟨t, v, rfl⟩ := List.length_eq_two.mp (by simpa using congrArg List.length hlist)
    obtain ⟨-, rfl⟩ : a = .text t ∧ place = .text v := by simpa [eq_comm] using hlist
    refine ⟨{
      fields := fun ns => tops ++ [((rs1 : Int), 15), (c.funct3, 12), (ns.getD 0 0, 7), (c.opcode, 0)]
      others := tops ++ [((c.funct3 : Int), 12), ((c.opcode : Int), 0)]
      bases := [rs1]
      imm := some imm
      bases_lt := by simpa using lt_of_withBase hplace hb
      length_eq := rfl
      others_clear := hclear
      fields_perm := ?_
      encode_eq := ?_ }⟩
    · intro ns hns
      obtain ⟨a, rfl⟩ := List.length_eq_one_iff.mp hns
      simp only [Format.registerPlaces, List.cons_append, List.nil_append, atPlaces_cons, atPlaces_nil,
        List.getD_cons_zero]
      grind
    · intro ts hts
      obtain ⟨t, rfl⟩ := List.length_eq_one_iff.mp hts
      have hoperands : operandsI [.text t, .text v] = .ok (some (.text t, .text base, x)) := by
        simp [operandsI, hplace]
      simp only [List.mapM_cons, List.mapM_nil, bind_assoc, pure_bind]
      refine (hencode _ _ _ hoperands).trans ?_
      rw [hb]
      rfl

theorem plan_store [Evaluator] (h : encodeS op (args.map .text) = .ok e) : Nonempty (Plan .S op args) := by
  obtain ⟨c, b, a, x, rs1, rs2, v, hc, hargs, ha, -, hv, -⟩ := encodeS_eq_ok h
  obtain ⟨hopcode, hf3, -⟩ := code_extent hc
  have hlow := field_extent (Immediate.wrap 12 v) 0 5
  rcases operandsS_eq_ok hargs with hlist | ⟨place, base, hlist, rfl, hplace⟩
  · -- An offset that stands alone would have to be a number already.
    obtain ⟨t, u, w, rfl⟩ := List.length_eq_three.mp (by simpa using congrArg List.length hlist)
    obtain ⟨-, -, rfl⟩ : b = .text t ∧ a = .text u ∧ x = .text w := by simpa [eq_comm] using hlist
    cases hv
  · obtain ⟨t, w, rfl⟩ := List.length_eq_two.mp (by simpa using congrArg List.length hlist)
    obtain ⟨-, rfl⟩ : b = .text t ∧ place = .text w := by simpa [eq_comm] using hlist
    refine ⟨{
      fields := fun ns => [(field (Immediate.wrap 12 v) 5 7, 25), (ns.getD 0 0, 20), (rs1, 15), (c.funct3, 12),
        (field (Immediate.wrap 12 v) 0 5, 7), (c.opcode, 0)]
      others := [(field (Immediate.wrap 12 v) 5 7, 25), (c.funct3, 12), (field (Immediate.wrap 12 v) 0 5, 7),
        (c.opcode, 0)]
      bases := [rs1]
      imm := some (Immediate.wrap 12 v)
      bases_lt := by simpa using lt_of_withBase hplace ha
      length_eq := rfl
      others_clear := ?_
      fields_perm := ?_
      encode_eq := ?_ }⟩
    · simp [Format.registerPlaces, Clears]
      omega
    · intro ns hns
      obtain ⟨a, rfl⟩ := List.length_eq_one_iff.mp hns
      simp only [Format.registerPlaces, List.cons_append, List.nil_append, atPlaces_cons, atPlaces_nil,
        List.getD_cons_zero]
      grind
    · intro ts hts
      obtain ⟨t, rfl⟩ := List.length_eq_one_iff.mp hts
      have hcode := codeOf_eq_ok.mpr hc
      have hwrap : Immediate.wrapOperand 12 x = .ok (Immediate.wrap 12 v) := wrapOperand_eq_ok.mpr ⟨v, hv, rfl⟩
      have hbase : Register.number base = .ok rs1 := ha
      simp only [List.mapM_cons, List.mapM_nil, bind_assoc, pure_bind]
      simp [encodeWith, encodeS, operandsS, hcode, hplace, hbase, hwrap, registerOf, bind, Except.bind, pure,
        Except.pure]

theorem plan_branch [Evaluator] (h : encodeB op (args.map .text) = .ok e) : Nonempty (Plan .B op args) := by
  obtain ⟨c, a, b, x, rs1, rs2, v, hc, hargs, -, -, hv, -⟩ := encodeB_eq_ok h
  obtain ⟨hopcode, hf3, -⟩ := code_extent hc
  obtain ⟨t, u, w, rfl⟩ := List.length_eq_three.mp (by simpa using congrArg List.length hargs)
  obtain ⟨-, -, rfl⟩ : a = .text t ∧ b = .text u ∧ x = .text w := by simpa [eq_comm] using hargs
  have hlow := pair_extent (Immediate.wrap 13 v) 11 1 (by decide : 4 ≤ 6)
  generalize hhigh' : pack [(field (Immediate.wrap 13 v) 12 1, 6), (field (Immediate.wrap 13 v) 5 6, 0)] = high
  generalize hlow' : pack [(field (Immediate.wrap 13 v) 11 1, 6), (field (Immediate.wrap 13 v) 1 4, 0)] = low at hlow
  refine ⟨{
    fields := fun ns => [(high, 25), (ns.getD 1 0, 20), (ns.getD 0 0, 15), (c.funct3, 12), (low, 7), (c.opcode, 0)]
    others := [(high, 25), (c.funct3, 12), (low, 7), (c.opcode, 0)]
    bases := []
    imm := some (Immediate.wrap 13 v)
    bases_lt := by simp
    length_eq := rfl
    others_clear := ?_
    fields_perm := ?_
    encode_eq := ?_ }⟩
  · simp [Format.registerPlaces, Clears]
    omega
  · intro ns hns
    obtain ⟨a, b, rfl⟩ := List.length_eq_two.mp hns
    simp only [Format.registerPlaces, List.append_nil, atPlaces_cons, atPlaces_nil, List.getD_cons_zero,
      List.getD_cons_succ]
    grind
  · intro ts hts
    obtain ⟨t, u, rfl⟩ := List.length_eq_two.mp hts
    have hcode := codeOf_eq_ok.mpr hc
    simp only [List.mapM_cons, List.mapM_nil, bind_assoc, pure_bind, List.append_nil]
    simp [encodeWith, encodeB, hcode, hv, registerOf, hhigh', hlow', bind, Except.bind, pure, Except.pure]

theorem plan_single [Evaluator] {f : Format} {c : Code} {t w : Text} (tops : List (Int × Nat)) (imm : Int)
    (hf : f = .U ∨ f = .J) (hc : Code.find? f op = some c) (htops : ∀ y ∈ tops, 12 ≤ y.2)
    (hencode : ∀ t : Text, encodeWith f op [.text t, .text w] = Register.number t >>= fun rd =>
      .ok ⟨pack (tops ++ [((rd : Int), 7), (c.opcode, 0)]), ⟨some [rd], some imm⟩⟩) : Nonempty (Plan f op [t, w]) := by
  obtain ⟨hopcode, -, -⟩ := code_extent hc
  have hplaces : f.registerPlaces = [7] := by rcases hf with rfl | rfl <;> rfl
  have hregisters : (registerOperands f [t, w]).length = 1 := by rcases hf with rfl | rfl <;> rfl
  refine ⟨{
    fields := fun ns => tops ++ [((ns.getD 0 0 : Int), 7), (c.opcode, 0)]
    others := tops ++ [((c.opcode : Int), 0)]
    bases := []
    imm := some imm
    bases_lt := by simp
    length_eq := by rw [hregisters, hplaces]; rfl
    others_clear := ?_
    fields_perm := ?_
    encode_eq := ?_ }⟩
  · rw [hplaces]
    intro low hlow y hy
    obtain rfl : low = 7 := by simpa using hlow
    rcases List.mem_append.mp hy with hy | hy
    · exact .inl (htops y hy)
    · obtain rfl : y = ((c.opcode : Int), 0) := by simpa using hy
      simp only [Clears]
      omega
  · intro ns hns
    obtain ⟨a, rfl⟩ := List.length_eq_one_iff.mp (hns.trans hregisters)
    simp only [hplaces, List.append_nil, atPlaces_cons, atPlaces_nil, List.getD_cons_zero]
    grind
  · intro ts hts
    obtain ⟨t, rfl⟩ := List.length_eq_one_iff.mp (hts.trans hregisters)
    simp only [List.mapM_cons, List.mapM_nil, bind_assoc, pure_bind]
    exact hencode t

theorem plan_upper [Evaluator] (h : encodeU op (args.map .text) = .ok e) : Nonempty (Plan .U op args) := by
  obtain ⟨c, a, last, x, rd, v, hc, hargs, hx, -, hv, -⟩ := encodeU_eq_ok h
  obtain ⟨t, w, rfl⟩ := List.length_eq_two.mp (by simpa using congrArg List.length hargs)
  obtain ⟨-, rfl⟩ : a = .text t ∧ last = .text w := by simpa [eq_comm] using hargs
  have hcode := codeOf_eq_ok.mpr hc
  have hwrap : Immediate.wrapOperand 20 x = .ok (Immediate.wrap 20 v) := wrapOperand_eq_ok.mpr ⟨v, hv, rfl⟩
  refine plan_single [(Immediate.wrap 20 v, 12)] (Immediate.wrap 20 v) (.inl rfl) hc (by simp) fun t => ?_
  simp [encodeWith, encodeU, hcode, hx, hwrap, registerOf, bind, Except.bind, pure, Except.pure]

theorem plan_jump [Evaluator] (h : encodeJ op (args.map .text) = .ok e) : Nonempty (Plan .J op args) := by
  obtain ⟨c, a, last, x, rd, v, hc, hargs, hx, -, hv, -⟩ := encodeJ_eq_ok h
  obtain ⟨t, w, rfl⟩ := List.length_eq_two.mp (by simpa using congrArg List.length hargs)
  obtain ⟨-, rfl⟩ : a = .text t ∧ last = .text w := by simpa [eq_comm] using hargs
  have hcode := codeOf_eq_ok.mpr hc
  have hwrap : Immediate.wrapOperand 21 x = .ok (Immediate.wrap 21 v) := wrapOperand_eq_ok.mpr ⟨v, hv, rfl⟩
  refine plan_single [(field (Immediate.wrap 21 v) 20 1, 31), (field (Immediate.wrap 21 v) 12 8, 12),
    (field (Immediate.wrap 21 v) 11 1, 20), (field (Immediate.wrap 21 v) 1 10, 21)] (Immediate.wrap 21 v) (.inr rfl) hc
    (by simp) fun t => ?_
  simp [encodeWith, encodeJ, hcode, hx, hwrap, registerOf, bind, Except.bind, pure, Except.pure]

theorem exists_plan [Evaluator] {f : Format} (hsystem : systemNumber? op = none)
    (h : encodeWith f op (args.map .text) = .ok e) : Nonempty (Plan f op args) := by
  cases f with
  | R => exact plan_registers h
  | I => exact plan_immediate hsystem h
  | S => exact plan_store h
  | B => exact plan_branch h
  | U => exact plan_upper h
  | J => exact plan_jump h

end Plans

section Numbers

variable {ts : List Text} {ns : List Nat}

theorem mapM_number_eq_ok_iff : ts.mapM Register.number = .ok ns ↔ List.Forall₂ Register.Spells ts ns := by
  constructor
  · intro h
    induction ts generalizing ns with
    | nil =>
        cases h
        exact .nil
    | cons t ts ih =>
        rw [List.mapM_cons] at h
        obtain ⟨n, hn, h⟩ := Except.bind_eq_ok.mp h
        obtain ⟨ns', hns, h⟩ := Except.bind_eq_ok.mp h
        cases h
        exact .cons (Register.number_eq_ok_iff.mp hn) (ih hns)
  · intro h
    induction h with
    | nil => rfl
    | cons hn _ ih =>
        rw [List.mapM_cons, Register.number_eq_ok_iff.mpr hn, ih]
        rfl

/-- The first operand that is no register decides how reading them all fails. -/
def Misspelt (ts : List Text) (fault : Fault) : Prop :=
  ∃ before t after, ts = before ++ t :: after ∧ (∀ u ∈ before, ∃ n, Register.Spells u n) ∧
    (Register.Overlong t fault ∨
      (∀ n, ¬ Register.Spells t n) ∧ (∀ g, ¬ Register.Overlong t g) ∧ fault = .invalidRegister (.text t))

theorem mapM_number_of_misspelt {fault : Fault} (h : Misspelt ts fault) :
    ts.mapM Register.number = .error fault := by
  obtain ⟨before, t, after, rfl, hbefore, ht⟩ := h
  have hnumber : Register.number t = .error fault := by
    rcases ht with hlong | ⟨hnot, hshort, rfl⟩
    · exact Register.number_of_overlong hlong
    · exact Register.number_of_not_spells hnot hshort
  induction before with
  | nil =>
      rw [List.nil_append, List.mapM_cons, hnumber]
      rfl
  | cons u before ih =>
      rw [List.forall_mem_cons] at hbefore
      obtain ⟨n, hn⟩ := hbefore.1
      rw [List.cons_append, List.mapM_cons, Register.number_eq_ok_iff.mpr hn, ih hbefore.2]
      rfl

theorem spelt_le_iff (h : List.Forall₂ Register.Spells ts ns) (k : Nat) :
    (∀ n ∈ ns, n ≤ k) ↔ ∀ t ∈ ts, ∀ n, Register.Spells t n → n ≤ k := by
  induction h with
  | nil => simp
  | cons hn _ ih =>
      rw [List.forall_mem_cons, List.forall_mem_cons, ih]
      exact and_congr_left' ⟨fun hle _ hm => hm.unique hn ▸ hle, fun hall => hall _ hn⟩

end Numbers

namespace Plan

variable {f : Format} {op : Text} {args : List Text} {ns : List Nat}

def encoded [Evaluator] (P : Plan f op args)
    (ns : List Nat) : Encoded := ⟨pack (P.fields ns), ⟨some (ns ++ P.bases), P.imm⟩⟩

theorem word_eq [Evaluator] (P : Plan f op args) (hns : ns.length = (registerOperands f args).length) :
    BitVec.ofInt 32 (P.encoded ns).bits = placed f (ns ++ P.bases) ||| packedWord P.others :=
  (packedWord_perm (P.fields_perm ns hns)).trans (packedWord_append _ _)

theorem registersIn_iff [Evaluator] (P : Plan f op args)
    (hns : ns.length = (registerOperands f args).length) :
    f.registersIn (BitVec.ofInt 32 (P.encoded ns).bits) = ns ++ P.bases ↔ ∀ r ∈ ns ++ P.bases, r < 32 := by
  constructor
  · intro h r hr
    rw [← h] at hr
    obtain ⟨low, -, rfl⟩ := List.mem_map.mp hr
    exact BitVec.isLt _
  · intro hregs
    rw [P.word_eq hns]
    refine registersIn_eq ?_ hregs fun low hlow => extract_packedWord (P.others_clear low hlow)
    rw [List.length_append, hns, P.length_eq]

theorem word_spilt [Evaluator] (P : Plan f op args) (hns : ns.length = (registerOperands f args).length) :
    BitVec.ofInt 32 (P.encoded ns).bits =
      BitVec.ofInt 32 (P.encoded (ns.map (· % 32))).bits ||| spilt f (ns ++ P.bases) := by
  have hbases : P.bases.map (· % 32) = P.bases := by
    refine (List.map_congr_left fun b hb => Nat.mod_eq_of_lt (P.bases_lt b hb)).trans ?_
    exact List.map_id' _
  have hreduced : placed f ((ns ++ P.bases).map (· % 32)) = placed f (ns.map (· % 32) ++ P.bases) := by
    rw [List.map_append, hbases]
  rw [P.word_eq hns, P.word_eq (by rwa [List.length_map]), placed_eq, hreduced, BitVec.or_assoc, BitVec.or_assoc,
    BitVec.or_comm (spilt _ _)]

theorem effect_encode [Evaluator] (P : Plan f op args) (hf : Isa.base.format? op = some f) {σ : Type}
    (s : σ) {ts : List Text} (hts : ts.length = (registerOperands f args).length) :
    (encode Isa.base op ((ts ++ args.drop ts.length).map .text) : Action σ Encoded).effect s =
      (ts.mapM Register.number >>= fun ns => .ok (P.encoded ns), s) := by
  rw [effect_encode_of_format hf, P.encode_eq ts hts]
  rfl

end Plan

theorem registerOperands_append_drop (f : Format) (args : List Text) :
    registerOperands f args ++ args.drop (registerOperands f args).length = args := by
  refine List.prefix_iff_eq_append.mp ?_
  cases f with
  | R => exact List.prefix_rfl
  | I | S | B | U | J => exact List.dropLast_prefix args

/-- The registers of an instruction are those that its operands spell, of any number, and behind them the one
inside an `offset(register)`, which is one of the 32. They are read back from the word exactly if none exceeds
31; what exceeds five bits is laid over the field above. Operands that spell no register are refused. -/
theorem encode_register_numbers [Evaluator] {σ : Type} {op : Text} {args : List Text} {e : Encoded}
    {s s' : σ} (h : (encode Isa.base op (args.map .text) : Action σ Encoded).effect s = (.ok e, s')) :
    ∃ f, Isa.base.format? op = some f ∧
      (systemNumber? op ≠ none ∧ e.operands = ⟨none, none⟩ ∨
        ∃ (bits : List Nat → Int) (ns bases : List Nat) (imm : Option Int),
          e = ⟨bits ns, ⟨some (ns ++ bases), imm⟩⟩ ∧ List.Forall₂ Register.Spells (registerOperands f args) ns ∧
          ((∀ r ∈ ns ++ bases, r ≤ 31) ↔ ∀ t ∈ registerOperands f args, ∀ n, Register.Spells t n → n ≤ 31) ∧
          ∀ ts : List Text, ts.length = (registerOperands f args).length →
            (∀ ms, List.Forall₂ Register.Spells ts ms →
              (encode Isa.base op ((ts ++ args.drop ts.length).map .text) : Action σ Encoded).effect s =
                (.ok ⟨bits ms, ⟨some (ms ++ bases), imm⟩⟩, s) ∧
              (f.registersIn (BitVec.ofInt 32 (bits ms)) = ms ++ bases ↔ ∀ r ∈ ms ++ bases, r ≤ 31) ∧
              BitVec.ofInt 32 (bits ms) = BitVec.ofInt 32 (bits (ms.map (· % 32))) ||| spilt f (ms ++ bases)) ∧
            ∀ fault, Misspelt ts fault →
              (encode Isa.base op ((ts ++ args.drop ts.length).map .text) : Action σ Encoded).effect s =
                (.error fault, s)) := by
  obtain ⟨rfl, f, hf, he⟩ := encode_eq_ok.mp h
  refine ⟨f, hf, ?_⟩
  by_cases hsystem : systemNumber? op = none
  · right
    obtain ⟨P⟩ := exists_plan hsystem he
    have hread := P.encode_eq (registerOperands f args) rfl
    rw [registerOperands_append_drop, he] at hread
    obtain ⟨ns, hns, hresult⟩ := Except.bind_eq_ok.mp hread.symm
    have hspells := mapM_number_eq_ok_iff.mp hns
    refine ⟨fun ns => pack (P.fields ns), ns, P.bases, P.imm, (Except.ok.inj hresult).symm, hspells, ?_, ?_⟩
    · rw [← spelt_le_iff hspells]
      exact ⟨fun hall r hr => hall r (List.mem_append_left _ hr), fun hall r hr =>
        (List.mem_append.mp hr).elim (hall r) fun hbase => Nat.le_of_lt_succ (P.bases_lt r hbase)⟩
    · intro ts hts
      refine ⟨fun ms hms => ?_, fun fault hfault => ?_⟩
      · have hlength := hms.length_eq.symm.trans hts
        refine ⟨?_, ?_, P.word_spilt hlength⟩
        · rw [P.effect_encode hf s' hts, mapM_number_eq_ok_iff.mpr hms]
          rfl
        · exact (P.registersIn_iff hlength).trans (by simp only [Nat.lt_succ_iff])
      · rw [P.effect_encode hf s' hts, mapM_number_of_misspelt hfault]
        rfl
  · left
    obtain ⟨n, hn⟩ := Option.ne_none_iff_exists'.mp hsystem
    obtain rfl : f = .I := by
      by_contra hne
      exact hsystem (systemNumber?_of_format hf hne)
    exact ⟨hsystem, encodeI_eq_ok_of_system hn he⟩

section EncodeRegisterSpills

open scoped Evaluator.Arithmetic

theorem encode_register_spills :
    ∃ e : Encoded,
      (encode Isa.base "add".toList (["x32".toList, "x1".toList, "x2".toList].map .text) :
        Action Unit Encoded).effect () = (.ok e, ()) ∧
      e.operands.regs = some [32, 1, 2] ∧ Format.R.registersIn (BitVec.ofInt 32 e.bits) ≠ [32, 1, 2] ∧
      (encode Isa.base "sll".toList (["x0".toList, "x1".toList, "x2".toList].map .text) :
        Action Unit Encoded).effect () = (.ok ⟨e.bits, ⟨some [0, 1, 2], none⟩⟩, ()) := by
  have hadd : (encode Isa.base "add".toList (["x32".toList, "x1".toList, "x2".toList].map .text) :
      Action Unit Encoded).effect () = (.ok ⟨0x209033, ⟨some [32, 1, 2], none⟩⟩, ()) := by rfl
  refine ⟨_, hadd, rfl, ?_, by rfl⟩
  obtain ⟨f, hf, ⟨hsystem, -⟩ | ⟨bits, ns, bases, imm, he, hspells, -, hall⟩⟩ := encode_register_numbers hadd
  · exact absurd rfl hsystem
  · obtain rfl : Format.R = f := Option.some.inj hf
    obtain ⟨hbits, hoperands⟩ := Encoded.mk.inj he
    obtain ⟨hregs, -⟩ := Operands.mk.inj hoperands
    obtain ⟨-, hread, -⟩ := (hall _ rfl).1 ns hspells
    rw [← hbits, ← Option.some.inj hregs] at hread
    intro h
    exact absurd (hread.mp h 32 List.mem_cons_self) (by decide)

end EncodeRegisterSpills

end Instruction

end RvToolkit
