import RvToolkit.Proofs.Assembly.Link
import RvToolkit.Proofs.Instruction.Offsets

namespace RvToolkit

namespace Instruction

/-- `v` is a signed number of `n` bits. -/
def Fits (n : Nat) (v : Int) : Prop := -2 ^ (n - 1) ≤ v ∧ v < 2 ^ (n - 1)

theorem Fits.bmod_eq {n : Nat} {v : Int} (hn : 0 < n) (h : Fits n v) : v.bmod (2 ^ n) = v := by
  obtain ⟨k, rfl⟩ : ∃ k, n = k + 1 := ⟨n - 1, by omega⟩
  obtain ⟨hlow, hhigh⟩ := h
  rw [Nat.add_sub_cancel, ← Bits.natCast_two_pow] at hlow hhigh
  rw [Nat.pow_succ]
  apply Int.bmod_eq_of_le <;> omega

theorem Fits.mono {n m : Nat} {v : Int} (hnm : n ≤ m) (h : Fits n v) : Fits m v := by
  have hle : 2 ^ (n - 1) ≤ 2 ^ (m - 1) := Nat.pow_le_pow_right (by decide) (Nat.sub_le_sub_right hnm 1)
  obtain ⟨hlow, hhigh⟩ := h
  rw [← Bits.natCast_two_pow] at hlow hhigh
  constructor <;> rw [← Bits.natCast_two_pow] <;> omega

theorem Representative.eq_bmod {n : Nat} {v i : Int} (hn : 0 < n) (h : Representative n v i) :
    i = v.bmod (2 ^ n) :=
  calc i = i.bmod (2 ^ n) := (Fits.bmod_eq hn h.2).symm
    _ = v.bmod (2 ^ n) := by rw [← Bits.emod_bmod_two_pow, h.1, Bits.emod_bmod_two_pow]

theorem Representative.eq_iff {n : Nat} {v i : Int} (hn : 0 < n) (h : Representative n v i) :
    i = v ↔ Fits n v := by
  constructor
  · rintro rfl
    exact h.2
  · intro hv
    exact (h.eq_bmod hn).trans (hv.bmod_eq hn)

/-- Operands in the spelling `offset(register)`. -/
def based (r b : Nat) (v : Int) : List Value :=
  [.text (Register.numbered r), .text (Text.call (Text.ofInt v) (Register.numbered b))]

section Based

variable [Evaluator] {f : Format} {r b : Nat} {v : Int} (hbased : f = .I ∨ f = .S) (hr : r < 32)
    (hb : b < 32)
  (hv : (Nat.toDigits 10 v.natAbs).length ≤ Number.maxDigits)

include hbased hr hb hv

end Based

end Instruction

namespace Assembly

open Instruction

theorem resolveOperand_numbered [Evaluator] {st : SymbolTable} {r : Nat} (hr : r < 32)
    (h : ∀ p ∈ st, Text.occurs p.1 (Register.numbered r) = false) (pc : Int) :
    resolveOperand st pc (Register.numbered r) = .ok (Register.numbered r) := by
  have hname : ∀ r < 32, Register.isNumbered (Register.numbered (r : Nat)) = true := by decide
  simp only [resolveOperand, SymbolTable.link_untouched h pc]
  change (if Register.isName (Register.numbered r) then _ else _) = _
  simp [Register.isName, Register.toNumbered, hname r hr]

section EncodeKeepsFar

open scoped Evaluator.Arithmetic

end EncodeKeepsFar

section EncodeBeyond

open scoped Evaluator.Arithmetic

end EncodeBeyond

end Assembly

end RvToolkit
