import RvToolkit.Proofs.Assembly.Link
import RvToolkit.Proofs.Machine.Loading
import RvToolkit.Proofs.Word.Residue

namespace RvToolkit

theorem Word.value_ofInt_of_le {w : Word} {a : Int} (hlow : 0 ≤ a) (hhigh : a ≤ w.value) :
    (ofInt w.sign a).value = a := by
  have hword : ofInt w.sign w.value = w := congrArg (Word.mk w.sign) w.ofInt_value
  obtain ⟨-, hgreatest⟩ := value_bounds w.sign w.value
  rw [hword] at hgreatest
  cases hsign : w.sign with
  | signed =>
      rw [hsign, greatest] at hgreatest
      rw [value_signed]
      apply Int.bmod_eq_of_le <;> omega
  | unsigned =>
      rw [hsign, greatest] at hgreatest
      rw [value_unsigned]
      exact Int.emod_eq_of_lt hlow (by omega)

theorem Assembly.steps_ne_nil [Evaluator] {a a' : Assembly} {ss : Assoc Int Step}
    (h : steps.effect a = (.ok ss, a')) :
    ss ≠ [] := by
  rintro rfl
  rw [steps, Action.effect_bind_of_ok (Action.effect_get a), Action.effect_bind_of_ok (steps_eq_ok h)] at h
  cases h

namespace Memory

open RvToolkit.Action

variable {mem : Memory} {w : Word} {n : Nat} {ins : Instr}

theorem value_distance_shiftRight (hbase : 0 ≤ mem.base.value) (hle : mem.base.value ≤ w.value) :
    ((mem.distance (.word w)).shiftRight 2).value = (w.value - mem.base.value) / 4 := by
  have hdistance : (mem.distance (.word w)).value = w.value - mem.base.value :=
    Word.value_ofInt_of_le (by omega) (by omega)
  have hshift : Bits.shiftRight (w.value - mem.base.value) 2 = (w.value - mem.base.value) / 4 :=
    Int.shiftRight_eq_div_pow _ 2
  change (Word.ofInt w.sign (Bits.shiftRight (mem.distance (.word w)).value 2)).value = _
  rw [hdistance, hshift]
  exact Word.value_ofInt_of_le (by omega) (by omega)

theorem isValid_effect (hsize : mem.size = some n) (w : Word) :
    (isValid (.word w)).effect mem = (.ok (decide (mem.base.value ≤ w.value ∧
      ((mem.distance (.word w)).shiftRight 2).value < n ∧ w.value % 4 = 0)), mem) := by
  have hmask : Bits.and w.value 3 = w.value % 4 := Bits.and_mask w.value 2
  have hrefuse (t : Text) (p : Prop) [Decidable p] (hp : ¬ p) :
      (do note .error t; return false : Action Memory Bool).effect mem = (.ok (decide p), mem) := by
    rw [decide_eq_false hp]
    rfl
  unfold isValid
  rw [effect_bind_of_ok (effect_get mem), hsize]
  dsimp only
  split
  · next hbelow => exact hrefuse _ _ fun h => absurd hbelow (Int.not_lt.mpr h.1)
  · next hbelow =>
      split
      · next hbeyond => exact hrefuse _ _ fun h => absurd hbeyond (Int.not_le.mpr h.2.1)
      · next hbeyond =>
          split
          · next hmisaligned => exact hrefuse _ _ fun h => hmisaligned (hmask.trans h.2.2)
          · next hmultiple =>
              have haligned : w.value % 4 = 0 := hmask.symm.trans (Decidable.of_not_not hmultiple)
              rw [decide_eq_true ⟨Int.not_lt.mp hbelow, Int.not_le.mp hbeyond, haligned⟩]
              rfl

theorem fetch_eq_ok_iff (addr : Address) :
    (fetch addr).effect mem = (.ok ins, mem) ↔ mem.program.get? addr.value = some ins := by
  rw [fetch_effect]
  cases mem.program.get? addr.value <;> simp

theorem dump_of_refused {addr : Address} (h : (isValid addr).effect mem = (.ok false, mem)) :
    (dump addr).effect mem = (.ok (), mem) := effect_bind_of_ok h _

theorem dump_of_valid {addr : Address} (h : (isValid addr).effect mem = (.ok true, mem))
    (hfetch : (fetch (.word addr.toWord)).effect mem = (.ok ins, mem)) :
    (dump addr).effect mem = (ins.render.map fun _ => (), mem) := by
  rw [dump, effect_bind_of_ok h, if_pos rfl, effect_bind_of_ok hfetch]
  cases hshown : ins.render with
  | error f => exact effect_bind_of_error (effect_ofExcept _ _) _
  | ok shown => exact effect_bind_of_ok (effect_ofExcept _ _) _

theorem isValid_load_effect (program : Assoc Int Assembly.Step) {base : Int} (haligned : base % 4 = 0)
    (hbase : 0 ≤ base) (hbound : base < 0x100000000) (w : Word) :
    ∃ valid, (isValid (.word w)).effect ((ofBase base).load program) =
        (.ok valid, (ofBase base).load program) ∧
      (valid = true ↔ ∃ i < program.length, w.value = base + 4 * (i : Nat)) := by
  have hvalue : ((ofBase base).load program).base.value = base :=
    (Word.value_unsigned base).trans (Int.emod_eq_of_lt hbase hbound)
  refine ⟨_, isValid_effect rfl w, ?_⟩
  rw [decide_eq_true_iff]
  constructor
  · rintro ⟨hle, hlt, hmultiple⟩
    rw [value_distance_shiftRight (by omega) hle] at hlt
    rw [hvalue] at hle hlt
    exact ⟨((w.value - base) / 4).toNat, by omega, by omega⟩
  · rintro ⟨i, hi, haddress⟩
    have hle : ((ofBase base).load program).base.value ≤ w.value := by omega
    refine ⟨hle, ?_, by omega⟩
    rw [value_distance_shiftRight (by omega) hle]
    omega

theorem exists_get?_iff {program : Assoc Int Assembly.Step} {base : Int} (h : program.Consecutive base)
    (addr : Int) :
    (∃ ins, ((ofBase base).load program).program.get? addr = some ins) ↔
      ∃ i < program.length, addr = base + 4 * (i : Nat) := by
  rw [get?_load h]
  constructor
  · rintro ⟨ins, hins⟩
    obtain ⟨step, hstep, -⟩ := Option.map_eq_some_iff.mp hins
    exact h.exists_of_get? hstep
  · rintro ⟨i, hi, rfl⟩
    rw [h.get?_eq, List.getElem?_eq_getElem hi]
    exact ⟨_, rfl⟩

/-- In memory that holds a program of the assembler from a multiple of four on, the check of a word has an
answer, and it accepts the word exactly if an instruction is found there. So what is shown of memory never
fails for want of an instruction: nothing is shown at an address that is refused, and at any other one the
instruction found there. -/
theorem isValid_iff_fetch [Evaluator] {a a' : Assembly} {program : Assoc Int Assembly.Step}
    (hsteps : Assembly.steps.effect a = (.ok program, a')) (haligned : a.base % 4 = 0)
    (hbase : 0 ≤ a.base) (hfits : a.base + 4 * program.length ≤ 0x100000000) (w : Word) :
    let mem := (ofBase a.base).load program
    ∃ valid, (isValid (.word w)).effect mem = (.ok valid, mem) ∧
      (valid = true ↔ ∃ ins, (fetch (.word w)).effect mem = (.ok ins, mem)) ∧
      (valid = false → (dump (.word w)).effect mem = (.ok (), mem)) ∧
      ∀ ins, (fetch (.word w)).effect mem = (.ok ins, mem) →
        (dump (.word w)).effect mem = (ins.render.map fun _ => (), mem) := by
  intro mem
  have hlength := List.length_pos_iff.mpr (Assembly.steps_ne_nil hsteps)
  obtain ⟨-, -, hconsecutive, -⟩ := Assembly.interpret_eq_ok (Assembly.steps_eq_ok hsteps)
  obtain ⟨valid, hvalid, hiff⟩ := isValid_load_effect program haligned hbase (by omega) w
  have hfound : valid = true ↔ ∃ ins, (fetch (.word w)).effect mem = (.ok ins, mem) := by
    rw [hiff, ← exists_get?_iff hconsecutive]
    exact exists_congr fun ins => (fetch_eq_ok_iff (.word w)).symm
  refine ⟨valid, hvalid, hfound, ?_, ?_⟩
  · rintro rfl
    exact dump_of_refused hvalid
  · intro ins hins
    obtain rfl := hfound.mpr ⟨ins, hins⟩
    -- the instruction is looked up by the unsigned word, which has the same value at an accepted address
    obtain ⟨i, hi, haddress⟩ := hiff.mp rfl
    have hunsigned : (Address.word (Address.word w).toWord).value = w.value :=
      (Word.value_unsigned w.value).trans (Int.emod_eq_of_lt (by omega) (by omega))
    refine dump_of_valid hvalid ((fetch_eq_ok_iff _).mpr ?_)
    rw [hunsigned]
    exact (fetch_eq_ok_iff _).mp hins

def topmost : Assembly :=
  { base := 0xfffffff8, mnemonics := ["addi x1, x0, 5".toList, "ecall".toList] }

def topmostSteps : Assoc Int Assembly.Step :=
  [(0xfffffff8, ⟨"addi".toList, some [1, 0], some 5⟩), (0xfffffffc, ⟨"ecall".toList, none, none⟩)]

section IsValidIffFetchTopmost

open scoped Evaluator.Arithmetic

theorem isValid_iff_fetch_topmost :
    Assembly.steps.effect topmost = (.ok topmostSteps, topmost) ∧
    let mem := (ofBase 0xfffffff8).load topmostSteps
    (isValid (.word ⟨.unsigned, 0xfffffffc⟩)).effect mem = (.ok true, mem) ∧
      (dump (.word ⟨.unsigned, 0xfffffffc⟩)).effect mem = (.ok (), mem) ∧
      (isValid (.word ⟨.signed, 0xfffffffc⟩)).effect mem = (.ok false, mem) := by
  have hsteps : Assembly.steps.effect topmost = (.ok topmostSteps, topmost) :=
    Assembly.steps_of_lineCalls (by decide +kernel) rfl
  have hexact := isValid_iff_fetch hsteps (by decide) (by decide) (by decide)
  obtain ⟨valid, hvalid, hfound, -, hdump⟩ := hexact ⟨.unsigned, 0xfffffffc⟩
  obtain ⟨refused, hrefused, hmissing, -, -⟩ := hexact ⟨.signed, 0xfffffffc⟩
  have hfetch : (fetch (.word ⟨.unsigned, 0xfffffffc⟩)).effect ((ofBase 0xfffffff8).load topmostSteps) =
      (.ok (.ofStep 0xfffffffc ⟨"ecall".toList, none, none⟩), (ofBase 0xfffffff8).load topmostSteps) :=
    (fetch_eq_ok_iff _).mpr rfl
  obtain rfl := hfound.mpr ⟨_, hfetch⟩
  refine ⟨hsteps, hvalid, hdump _ hfetch, ?_⟩
  cases refused with
  | false => exact hrefused
  | true =>
      obtain ⟨ins, hins⟩ := hmissing.mp rfl
      have hnone := (fetch_eq_ok_iff _).mp hins
      cases hnone

end IsValidIffFetchTopmost

end Memory

end RvToolkit
