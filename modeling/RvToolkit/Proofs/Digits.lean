import Mathlib.Data.Nat.Digits.Defs
import RvToolkit.Number.Power
import RvToolkit.Proofs.Numeral

namespace RvToolkit

namespace Text

theorem chunksFrom_append {n : Nat} {cur a : Text} (h : cur ≠ [] ∨ a ≠ []) (t : Text) :
    chunksFrom n a.length cur (a ++ t) = (cur.reverse ++ a) :: chunks (n + 1) t := by
  induction a generalizing cur with
  | nil =>
      obtain ⟨c, cur, rfl⟩ := List.exists_cons_of_ne_nil (h.resolve_right (by simp))
      cases t with
      | nil => simp [chunksFrom, chunks]
      | cons d t => simp [chunksFrom, chunks]
  | cons c a ih =>
      rw [List.length_cons, List.cons_append, chunksFrom, ih (.inl (by simp))]
      simp

theorem chunks_append {n : Nat} {a : Text} (hn : 0 < n) (ha : a.length = n) (t : Text) :
    chunks n (a ++ t) = a :: chunks n t := by
  obtain ⟨k, rfl⟩ : ∃ k, n = k + 1 := ⟨n - 1, by omega⟩
  have hne : a ≠ [] := by
    rintro rfl
    cases ha
  have h : chunksFrom k a.length [] (a ++ t) = _ := chunksFrom_append (.inr hne) t
  rw [ha] at h
  exact h

theorem chunks_flatten {n k : Nat} {t : Text} (hn : 0 < n) (h : t.length = n * k) :
    (chunks n t).length = k ∧ (∀ g ∈ chunks n t, g.length = n) ∧ (chunks n t).flatten = t := by
  induction k generalizing t with
  | zero =>
      obtain rfl := List.eq_nil_of_length_eq_zero h
      exact ⟨rfl, List.forall_mem_nil _, rfl⟩
  | succ k ih =>
      rw [Nat.mul_succ] at h
      have hfirst : (t.take n).length = n := by
        rw [List.length_take]
        omega
      have hrest : (t.drop n).length = n * k := by
        rw [List.length_drop]
        omega
      obtain ⟨hlength, hgroups, hflat⟩ := ih hrest
      have hchunks := chunks_append hn hfirst (t.drop n)
      rw [List.take_append_drop] at hchunks
      rw [hchunks, List.length_cons, List.forall_mem_cons, List.flatten_cons, hlength, hflat,
        List.take_append_drop]
      exact ⟨rfl, ⟨hfirst, hgroups⟩, rfl⟩

end Text

namespace Number

theorem ofDigits_eq_reverse (base : Nat) (ds : List Nat) :
    ofDigits base ds = Nat.ofDigits base ds.reverse := by
  rw [Nat.ofDigits_eq_foldr, List.foldr_reverse, ofDigits]
  congr
  funext n d
  rw [Nat.add_comm, Nat.mul_comm]
  rfl

theorem ofDigits_append (base : Nat) (ds es : List Nat) :
    ofDigits base (ds ++ es) = ofDigits base ds * base ^ es.length + ofDigits base es := by
  rw [ofDigits_eq_reverse, ofDigits_eq_reverse, ofDigits_eq_reverse, List.reverse_append,
    Nat.ofDigits_append, List.length_reverse, Nat.add_comm, Nat.mul_comm]

theorem ofDigits_lt {base : Nat} (hb : 1 < base) {ds : List Nat} (hds : ∀ d ∈ ds, d < base) :
    ofDigits base ds < base ^ ds.length := by
  rw [ofDigits_eq_reverse, ← List.length_reverse]
  exact Nat.ofDigits_lt_base_pow_length hb (by simpa using hds)

theorem ofDigits_inj {base : Nat} (hb : 1 < base) {ds es : List Nat} (hlength : ds.length = es.length)
    (hds : ∀ d ∈ ds, d < base) (hes : ∀ e ∈ es, e < base) (h : ofDigits base ds = ofDigits base es) :
    ds = es := by
  rw [ofDigits_eq_reverse, ofDigits_eq_reverse] at h
  apply List.reverse_inj.mp
  exact Nat.ofDigits_inj_of_len_eq hb (by simpa using hlength) (by simpa using hds) (by simpa using hes) h

theorem exists_write_of_lt {base width n : Nat} (hb : 1 < base) (hwidth : 0 < width)
    (h : n < base ^ width) :
    ∃ ds, Layout.write ⟨base, .lower, width, true⟩ n = ds.map Nat.digitChar ∧ ds.length = width ∧
      (∀ d ∈ ds, d < base) ∧ ofDigits base ds = n := by
  obtain ⟨ds, htext, -, hds, hvalue, -⟩ := exists_toDigits hb n
  have hlength : ds.length ≤ width := by
    rw [← List.length_map (f := Nat.digitChar), ← htext]
    exact (Nat.length_toDigits_le_iff hb hwidth).mpr h
  have hsign : ¬ (n : Int) < 0 := by omega
  refine ⟨List.replicate (width - ds.length) 0 ++ ds, ?_, ?_, ?_, ?_⟩
  · simp only [Layout.write, digits, hsign, Int.natAbs_natCast, htext, Text.padLeft, List.length_map,
      List.map_append, List.map_replicate, ↓reduceIte]
    rfl
  · rw [List.length_append, List.length_replicate]
    omega
  · intro d hd
    rcases List.mem_append.mp hd with hd | hd
    · obtain ⟨-, rfl⟩ := List.mem_replicate.mp hd
      omega
    · exact hds d hd
  · rw [ofDigits_replicate_zero, hvalue]

end Number

end RvToolkit
