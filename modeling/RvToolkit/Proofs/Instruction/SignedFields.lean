import RvToolkit.Proofs.Assembly.Wrapping
import RvToolkit.Proofs.Instruction.Extent

namespace RvToolkit.Instruction

variable {n k : Nat} {r s v : Int}

section Masking

/-- The signed reading of `n` bits: in the upper half of the range the highest one counts negative. -/
def signed (n : Nat) (m : Int) : Int := if 2 ^ (n - 1) ≤ m then m - 2 ^ n else m

theorem wrap_eq_signed_emod (n : Nat) (v : Int) : Immediate.wrap n v = signed n (v % 2 ^ n) :=
  congrArg (signed n) (Bits.and_mask v n)

theorem wrapTo_eq_wrap (hn : 0 < n) (v : Int) :
    Immediate.wrapTo (.int v) n = .ok (Immediate.wrap n v) := by
  have hnonneg : ¬(n : Int) < 0 := by omega
  have hne : ¬(n : Int) = 0 := by omega
  simp only [Immediate.wrapTo, Immediate.plain?, if_neg hnonneg, if_neg hne, Int.toNat_natCast]

theorem representative_iff (hn : 0 < n) : Representative n v r ↔ r = Immediate.wrap n v := by
  constructor
  · intro h
    rw [h.eq_bmod hn, wrap_eq_bmod]
  · rintro rfl
    exact representative_wrap hn v

end Masking

section Parts

def parts (n k : Nat) (v : Int) : List (Int × Nat) := [(field v k (n - k), k), (field v 0 k, 0)]

theorem apart_parts (hk : k ≤ n) (v : Int) : Apart n (parts n k v) := by
  obtain ⟨hhigh, hhigh_lt⟩ := field_extent v k (n - k)
  obtain ⟨hlow, hlow_lt⟩ := field_extent v 0 k
  exact ⟨hk, hhigh, hhigh_lt, Nat.zero_le k, hlow, hlow_lt, trivial⟩

theorem pack_parts (hk : k ≤ n) (v : Int) : pack (parts n k v) = v % 2 ^ n :=
  calc pack (parts n k v)
    _ = total (parts n k v) := (pack_eq_total (apart_parts hk v)).1
    _ = v / 2 ^ k % 2 ^ (n - k) * 2 ^ k + v % 2 ^ k := by simp [parts, total, Layout.field_eq]
    _ = v % 2 ^ n := Bits.emod_two_pow_split hk v

theorem signed_pack_parts (hn : 0 < n) (hk : k ≤ n) (h : Fits n v) : signed n (pack (parts n k v)) = v := by
  rw [pack_parts hk, ← wrap_eq_signed_emod, wrap_eq_bmod, h.bmod_eq hn]

theorem eq_of_parts_eq (hn : 0 < n) (hk : k ≤ n) (hr : Fits n r) (hs : Fits n s)
    (h : parts n k s = parts n k r) : s = r := by
  rw [← signed_pack_parts hn hk hs, h, signed_pack_parts hn hk hr]

end Parts

/-- For every width the result is the mask read with a sign, which is the one signed number of that width with
the same remainder. Numbers of that width stay as they are, and are fixed by their two parts at any bit. -/
theorem wrapTo_signed (hn : 1 ≤ n) (v : Int) :
    ∃ r, Immediate.wrapTo (.int v) n = .ok r ∧
      r = signed n (Bits.and v (2 ^ n - 1)) ∧
      (∀ i, Representative n v i ↔ i = r) ∧
      (r = v ↔ Fits n v) ∧
      Immediate.wrapTo (.int r) n = .ok r ∧
      ∀ k, k ≤ n →
        signed n (pack [(field r k (n - k), k), (field r 0 k, 0)]) = r ∧
          ∀ s, Fits n s → field s k (n - k) = field r k (n - k) → field s 0 k = field r 0 k → s = r := by
  have hrep := representative_wrap hn v
  refine ⟨Immediate.wrap n v, wrapTo_eq_wrap hn v, rfl, fun _ => representative_iff hn,
    hrep.eq_iff hn, ?_, ?_⟩
  · rw [wrapTo_eq_wrap hn, wrap_wrap]
  · intro k hk
    refine ⟨signed_pack_parts hn hk hrep.2, fun s hs hhigh hlow => ?_⟩
    exact eq_of_parts_eq hn hk hrep.2 hs (by rw [parts, parts, hhigh, hlow])

/-- The first number beyond twelve bits becomes the lowest of them, and its upper seven and lower five bits
belong to no other. -/
theorem wrapTo_signed_twelve :
    ((1 : Nat) ≤ 12 ∧ Immediate.wrapTo (.int 2048) 12 = .ok (-2048)) ∧
      ((5 : Nat) ≤ 12 ∧ Fits 12 (-2048) ∧ field (-2048) 5 7 = 64 ∧ field (-2048) 0 5 = 0 ∧
        ∀ s, Fits 12 s → field s 5 7 = 64 → field s 0 5 = 0 → s = -2048) := by
  have hfits : Fits 12 (-2048) := ⟨by decide, by decide⟩
  obtain ⟨r, hr, -, hunique, -, -, hparts⟩ := wrapTo_signed (n := 12) (by decide) 2048
  obtain rfl : -2048 = r := (hunique (-2048)).mp ⟨by decide, hfits⟩
  refine ⟨⟨by decide, hr⟩, by decide, hfits, by decide, by decide, ?_⟩
  intro s hs hhigh hlow
  exact (hparts 5 (by decide)).2 s hs (hhigh.trans (by decide)) (hlow.trans (by decide))

end RvToolkit.Instruction
