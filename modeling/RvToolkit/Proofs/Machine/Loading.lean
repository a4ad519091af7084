import RvToolkit.Proofs.Assembly.Steps
import RvToolkit.Proofs.Machine.Simulation

namespace RvToolkit

namespace Memory

theorem fetch_effect (addr : Address) (mem : Memory) :
    (fetch addr).effect mem = match mem.program.get? addr.value with
      | some ins => (.ok ins, mem)
      | none => (.error (.missingKey addr.toValue), mem) := by
  simp only [fetch, Action.effect_bind, Action.effect_note, Action.effect_get]
  cases mem.program.get? addr.value <;> rfl

theorem get?_foldl_loadStep {pc : Int} {steps : Assoc Int Assembly.Step} (h : steps.Consecutive pc)
    (program : Assoc Int Instr) (a : Int) :
    (steps.foldl loadStep program).get? a =
      ((steps.get? a).map (Instr.ofStep a)).or (program.get? a) := by
  induction steps generalizing pc program with
  | nil => rfl
  | cons entry steps ih =>
      obtain ⟨key, step⟩ := entry
      rw [List.foldl_cons, ih h.tail]
      change ((Assoc.get? a steps).map _).or (Assoc.get? a (program.insert key (.ofStep key step))) = _
      have hkey : key = pc := by simpa using h 0 (key, step) rfl
      by_cases ha : a = key
      · have hlater : Assoc.get? a steps = none := by
          -- the later entries have later addresses
          cases hget : Assoc.get? a steps with
          | none => rfl
          | some step' =>
              obtain ⟨k, -, hk⟩ := h.tail.exists_of_get? hget
              omega
        rw [hlater, ha, Assoc.get?_insert_self, Assoc.get?, if_pos rfl]
        rfl
      · rw [Assoc.get?_insert_of_ne ha, Assoc.get?, if_neg (Ne.symm ha)]

theorem get?_load {pc : Int} {steps : Assoc Int Assembly.Step} (h : steps.Consecutive pc) (base a : Int) :
    ((ofBase base).load steps).program.get? a = (steps.get? a).map (Instr.ofStep a) :=
  (get?_foldl_loadStep h [] a).trans Option.or_none

end Memory

namespace Reference

open Instruction

theorem exists_lookup {α : Type} {op : Text} {entries : List (Text × α)}
    (h : op ∈ entries.map Prod.fst) : ∃ a, entries.lookup op = some a := by
  obtain ⟨⟨name, a⟩, hmem, rfl⟩ := List.mem_map.mp h
  cases hlookup : entries.lookup name with
  | some a => exact ⟨a, rfl⟩
  | none =>
      have hne := List.lookup_eq_none_iff.mp hlookup (name, a) hmem
      simp at hne

theorem exists_ofStep? [Evaluator] {op : Text} {f : Format} {args : List Value} {e : Encoded}
    (hop : op ∈ Ins.mnemonics) (hformat : Isa.base.format? op = some f)
    (he : encodeWith f op args = .ok e) : ∃ ins, Ins.ofStep? ⟨op, e.operands⟩ = some ins := by
  simp only [Ins.mnemonics, List.mem_append, List.mem_cons, List.not_mem_nil, or_false] at hop
  -- the mnemonics of one list have one format, which gives the shape of the operands
  obtain ((hop | hop) | hop) | rfl | rfl := hop
  · have hR : ∀ op ∈ Ins.registerOps.map Prod.fst, Isa.base.format? op = some .R := by decide
    obtain rfl : Format.R = f := Option.some.inj ((hR op hop).symm.trans hformat)
    obtain ⟨c, a, b, d, rd, rs1, rs2, -, -, -, -, -, rfl⟩ := encodeR_eq_ok he
    obtain ⟨g, hg⟩ := exists_lookup hop
    exact ⟨_, by rw [Ins.ofStep?, hg]; rfl⟩
  · have hI : ∀ op ∈ Ins.immediateOps.map Prod.fst,
        Isa.base.format? op = some .I ∧ systemNumber? op = none := by decide
    obtain rfl : Format.I = f := Option.some.inj ((hI op hop).1.symm.trans hformat)
    obtain ⟨c, a, b, x, rd, rs1, -, -, -, -, h⟩ := encodeI_eq_ok (hI op hop).2 he
    obtain ⟨g, hg⟩ := exists_lookup hop
    obtain ⟨-, v, -, rfl⟩ | ⟨-, v, -, rfl⟩ := h <;> exact ⟨_, by rw [Ins.ofStep?, hg]⟩
  · have hB : ∀ op ∈ Ins.conditions.map Prod.fst,
        Isa.base.format? op = some .B ∧ Ins.immediateOps.lookup op = none := by decide
    obtain rfl : Format.B = f := Option.some.inj ((hB op hop).1.symm.trans hformat)
    obtain ⟨c, a, b, x, rs1, rs2, v, -, -, -, -, -, rfl⟩ := encodeB_eq_ok he
    obtain ⟨g, hg⟩ := exists_lookup hop
    exact ⟨_, by rw [Ins.ofStep?, (hB op hop).2, hg]; rfl⟩
  · have hJ : Isa.base.format? "jal".toList = some .J := by decide
    obtain rfl : Format.J = f := Option.some.inj (hJ.symm.trans hformat)
    obtain ⟨c, a, imm, x, rd, v, -, -, -, -, -, rfl⟩ := encodeJ_eq_ok he
    exact ⟨.jal (.ofNat 32 rd) (.ofInt 32 (Immediate.wrap 21 v)), by simp [Ins.ofStep?]⟩
  · have hI : Isa.base.format? "ecall".toList = some .I := by decide
    obtain rfl : Format.I = f := Option.some.inj (hI.symm.trans hformat)
    have hsystem : systemNumber? "ecall".toList = some 0 := by decide
    rw [encodeI_eq_ok_of_system hsystem he]
    exact ⟨.ecall, by simp [Ins.ofStep?]⟩

/-- Programs of which the machine can carry out every instruction. -/
def Supported (program : Assoc Int Assembly.Step) : Prop :=
  ∀ a step, program.get? a = some step → (∃ ins, Ins.ofStep? step = some ins) ∧ Registers step

end Reference

theorem Instr.mapM_aliasOf {regs : List Nat} (h : ∀ r ∈ regs, r < 32) :
    (regs.map Int.ofNat).mapM Register.aliasOf = .ok (regs.map Machine.shownName) := by
  induction regs with
  | nil => rfl
  | cons r regs ih =>
      have hr : Register.aliasOf (Int.ofNat r) = .ok (Machine.shownName r) :=
        Machine.aliasOf_eq (h r List.mem_cons_self)
      rw [List.map_cons, List.mapM_cons, hr, ih fun i hi => h i (List.mem_cons_of_mem r hi)]
      rfl

theorem Instr.exists_render_of_regs (op : Text) {regs : List Nat} (h : ∀ r ∈ regs, r < 32)
    (imm : Option Int) (addr : Int) :
    ∃ shown, (Instr.ofStep addr ⟨op, some regs, imm⟩).render = .ok shown := by
  have hnames := mapM_aliasOf h
  unfold render
  split
  · exact ⟨_, rfl⟩
  · simp only [ofStep, Option.map_some, hnames]
    exact ⟨_, rfl⟩

theorem Instr.exists_render {step : Assembly.Step} {ins : Reference.Ins}
    (hload : Reference.Ins.Loads step ins) (hregs : Reference.Registers step) (addr : Int) :
    ∃ shown, (Instr.ofStep addr step).render = .ok shown := by
  obtain ⟨op, _ | regs, imm⟩ := step
  · cases hload
    exact ⟨_, rfl⟩
  · exact exists_render_of_regs op hregs imm addr

section Program

open Assembly

variable {σ : Type} {st : SymbolTable} {base : Int} {lines : List Text} {x x' : σ}
  {program : Assoc Int Assembly.Step}

theorem supported_of_interpret [Evaluator]
    (h : (interpret st base lines : Action σ _).effect x = (.ok program, x'))
    (hops : ∀ e ∈ program, e.2.op ∈ Reference.Ins.mnemonics)
    (hregs : ∀ e ∈ program, Reference.Registers e.2) : Reference.Supported program := by
  obtain ⟨-, hlength, hconsecutive, hlines⟩ := interpret_eq_ok h
  intro a step hget
  obtain ⟨k, hk, rfl⟩ := hconsecutive.exists_of_get? hget
  obtain ⟨op, e, hline, hentry⟩ := hlines k _ (List.getElem?_eq_getElem (hlength ▸ hk))
  obtain rfl : ⟨op, e.operands⟩ = step := by
    rw [hconsecutive.get?_eq, hentry] at hget
    exact Option.some.inj hget
  have hmem := List.mem_of_getElem? hentry
  obtain ⟨args, resolved, f, -, -, hformat, hencode⟩ := lineCall_eq_ok.mp hline
  exact ⟨Reference.exists_ofStep? (hops _ hmem) hformat hencode, hregs _ hmem⟩

theorem get?_eq_none_iff (hconsecutive : program.Consecutive base) (hbase : 0 ≤ base)
    (hfits : base + 4 * program.length ≤ 0x100000000) (pc : BitVec 32) :
    program.get? (pc.toNat : Int) = none ↔ ∀ i < program.length, pc ≠ .ofInt 32 (base + 4 * (i : Nat)) := by
  constructor
  · intro hnone i hi hpc
    have haddress : (pc.toNat : Int) = base + 4 * (i : Nat) := by
      rw [hpc, BitVec.toNat_ofInt]
      omega
    rw [haddress, hconsecutive.get?_eq, List.getElem?_eq_getElem hi] at hnone
    cases hnone
  · intro hall
    cases hget : Assoc.get? (pc.toNat : Int) program with
    | none => rfl
    | some step =>
        obtain ⟨i, hi, haddress⟩ := hconsecutive.exists_of_get? hget
        refine absurd ?_ (hall i hi)
        rw [← haddress, BitVec.ofInt_natCast, BitVec.ofNat_toNat, BitVec.setWidth_eq]

end Program

end RvToolkit
