import RvToolkit.Evaluator.Standard
import RvToolkit.Proofs.Assembly.Steps

namespace RvToolkit.Assembly

theorem map_fst_byAddress (pc : Int) (cs : List (Text × Encoded)) :
    (byAddress pc cs).map Prod.fst = (List.range cs.length).map fun (i : Nat) => pc + 4 * i := by
  apply List.ext_getElem?
  intro i
  rw [List.getElem?_map, getElem?_byAddress, List.getElem?_map, Option.map_map]
  by_cases hi : i < cs.length
  · simp [hi]
  · simp [Nat.not_lt.mp hi]

theorem get?_byAddress {cs : List (Text × Encoded)} {i : Nat} {c : Text × Encoded} (pc : Int)
    (h : cs[i]? = some c) : (byAddress pc cs).get? (pc + 4 * i) = some ⟨c.1, c.2.operands⟩ := by
  rw [(consecutive_byAddress pc cs).get?_eq, getElem?_byAddress, h]
  rfl

section Calls

variable {σ : Type} [Evaluator] {st : SymbolTable} {pc : Int} {lines : List Text}

theorem lineCalls_eq_error {e : Fault} (h : lineCalls st pc lines = .error e) :
    ∃ (i : Nat) (line : Text), lines[i]? = some line ∧
      (∀ j < i, ∀ line', lines[j]? = some line' → ∃ c, lineCall st (pc + 4 * (j : Nat)) line' = .ok c) ∧
      lineCall st (pc + 4 * i) line = .error e := by
  induction lines generalizing pc with
  | nil => cases h
  | cons line lines ih =>
      rw [lineCalls] at h
      cases hcall : lineCall st pc line with
      | error e' =>
          rw [hcall] at h
          cases h
          refine ⟨0, line, rfl, fun j hj => absurd hj (Nat.not_lt_zero j), ?_⟩
          simpa using hcall
      | ok c =>
          rw [hcall] at h
          cases hrest : lineCalls st (pc + 4) lines with
          | ok cs =>
              rw [hrest] at h
              cases h
          | error e' =>
              rw [hrest] at h
              cases h
              obtain ⟨i, line', hline', hbefore, hfail⟩ := ih hrest
              refine ⟨i + 1, line', hline', ?_, by rw [address_succ]; exact hfail⟩
              intro j hj line'' hline''
              cases j with
              | zero =>
                  obtain rfl : line = line'' := by simpa using hline''
                  exact ⟨c, by simpa using hcall⟩
              | succ j =>
                  rw [address_succ]
                  exact hbefore j (by omega) line'' hline''

theorem assemble_of_error {a : Assembly} {e : Fault}
    (h : ((translate a.symbols a.base a.mnemonics).effect a).1 = .error e) :
    assemble.effect a = (.error e, a) := by
  have hencode : (translate a.symbols a.base a.mnemonics).effect a = (.error e, a) := by
    rw [effect_translate] at h ⊢
    exact congrArg (·, a) h
  rw [assemble, Action.effect_bind_of_ok (Action.effect_note ..),
    Action.effect_bind_of_ok (Action.effect_get a), Action.effect_bind_of_error hencode]

/-- The encodings and the instructions of a list of lines fail together, at the first line whose call
fails, or are the two parts of the answers to one call for each line. An assembly whose encodings fail
stays as it was. -/
theorem encodings_steps_agree (st : SymbolTable) (base : Int) (lines : List Text) (s : σ) :
    ((∃ texts program, (translate st base lines).effect s = (.ok texts, s) ∧
        (interpret st base lines).effect s = (.ok program, s) ∧ texts.length = lines.length ∧
        program.map Prod.fst = (List.range lines.length).map (fun (i : Nat) => base + 4 * i) ∧
        ∀ (i : Nat) line, lines[i]? = some line → ∃ op e, lineCall st (base + 4 * i) line = .ok (op, e) ∧
          texts[i]? = some e.binary ∧ program.get? (base + 4 * i) = some ⟨op, e.operands⟩) ∨
      ∃ (i : Nat) (line : Text) (e : Fault), lines[i]? = some line ∧
        (∀ j < i, ∀ line', lines[j]? = some line' →
          ∃ c, lineCall st (base + 4 * (j : Nat)) line' = .ok c) ∧
        lineCall st (base + 4 * i) line = .error e ∧
        (translate st base lines).effect s = (.error e, s) ∧
        (interpret st base lines).effect s = (.error e, s)) ∧
    ∀ (a : Assembly) (e : Fault), ((translate a.symbols a.base a.mnemonics).effect a).1 = .error e →
      assemble.effect a = (.error e, a) := by
  refine ⟨?_, fun a e => assemble_of_error⟩
  cases hcalls : lineCalls st base lines with
  | ok cs =>
      obtain ⟨hlength, hall⟩ := lineCalls_eq_ok hcalls
      refine .inl ⟨cs.map fun c => c.2.binary, byAddress base cs, ?_, ?_, ?_, ?_, ?_⟩
      · rw [effect_translate, hcalls]
        rfl
      · rw [effect_interpret, hcalls]
        rfl
      · rw [List.length_map, hlength]
      · rw [map_fst_byAddress, hlength]
      · intro i line hline
        obtain ⟨c, hget, hcall⟩ := hall i line hline
        exact ⟨c.1, c.2, hcall, by rw [List.getElem?_map, hget]; rfl, get?_byAddress base hget⟩
  | error e =>
      obtain ⟨i, line, hline, hbefore, hfail⟩ := lineCalls_eq_error hcalls
      refine .inr ⟨i, line, e, hline, hbefore, hfail, ?_, ?_⟩
      · rw [effect_translate, hcalls]
        rfl
      · rw [effect_interpret, hcalls]
        rfl

end Calls

def cutShort : Assembly :=
  { base := 4096, mnemonics := ["addi x1, x0, 1".toList, "addi x1".toList, "sw x1".toList],
    encoded := ["0".toList] }

section CutShort

open scoped Evaluator.Arithmetic

theorem assemble_cutShort :
    ((translate cutShort.symbols cutShort.base cutShort.mnemonics).effect cutShort).1 =
      .error .unboundOperand ∧
    assemble.effect cutShort = (.error .unboundOperand, cutShort) := by
  have hfails : ((translate cutShort.symbols cutShort.base cutShort.mnemonics).effect cutShort).1 =
      .error .unboundOperand := by
    have hcalls : lineCalls cutShort.symbols cutShort.base cutShort.mnemonics = .error .unboundOperand := rfl
    rw [effect_translate, hcalls]
    rfl
  exact ⟨hfails, (encodings_steps_agree cutShort.symbols cutShort.base cutShort.mnemonics ()).2 cutShort
    .unboundOperand hfails⟩

end CutShort

end RvToolkit.Assembly
