import Mathlib.Data.List.TakeWhile
import RvToolkit.Proofs.Assembly.Relocation
import RvToolkit.Proofs.Assembly.Symbols
import RvToolkit.Proofs.Instruction.Shown

namespace RvToolkit.Assembly

section Calls

variable [Evaluator] (st : SymbolTable) (pc : Int)

theorem lineCalls_append (lines rest : List Text) :
    lineCalls st pc (lines ++ rest) = lineCalls st pc lines >>= fun cs =>
      lineCalls st (pc + 4 * (lines.length : Int)) rest >>= fun cs' => .ok (cs ++ cs') := by
  induction lines generalizing pc with
  | nil =>
      rw [List.nil_append, List.length_nil, Int.natCast_zero, Int.mul_zero, Int.add_zero]
      change _ = lineCalls st pc rest >>= fun cs' => .ok cs'
      cases lineCalls st pc rest with
      | error e => rfl
      | ok cs => rfl
  | cons line lines ih =>
      rw [List.cons_append, lineCalls, lineCalls, ih, List.length_cons, address_succ]
      cases lineCall st pc line with
      | error e => rfl
      | ok c =>
          cases lineCalls st (pc + 4) lines with
          | error e => rfl
          | ok cs =>
              cases lineCalls st (pc + 4 + 4 * (lines.length : Int)) rest with
              | error e => rfl
              | ok cs' => rfl

variable {st pc}

theorem lineCalls_append_cons {before after : List Text} {line : Text} {cs : List (Text × Encoded)} :
    lineCalls st pc (before ++ line :: after) = .ok cs ↔ ∃ cs₁ c cs₂, lineCalls st pc before = .ok cs₁ ∧
      lineCall st (pc + 4 * (before.length : Int)) line = .ok c ∧
      lineCalls st (pc + 4 * (before.length : Int) + 4) after = .ok cs₂ ∧ cs = cs₁ ++ c :: cs₂ := by
  rw [lineCalls_append, lineCalls]
  simp only [Except.bind_eq_ok]
  constructor
  · rintro ⟨cs₁, h₁, _, ⟨c, hc, cs₂, h₂, ⟨⟩⟩, ⟨⟩⟩
    exact ⟨cs₁, c, cs₂, h₁, hc, h₂, rfl⟩
  · rintro ⟨cs₁, c, cs₂, h₁, hc, h₂, rfl⟩
    exact ⟨cs₁, h₁, _, ⟨c, hc, cs₂, h₂, rfl⟩, rfl⟩

theorem lineCall_congr {line line' op : Text} {args args' : List Text}
    (htokens : tokens (Text.trim line) = op :: args) (htokens' : tokens (Text.trim line') = op :: args')
    (h : args.mapM (resolveOperand st pc) = args'.mapM (resolveOperand st pc)) :
    lineCall st pc line = lineCall st pc line' := by
  rw [lineCall, lineCall, htokens, htokens', resolveOperands, resolveOperands, h]

end Calls

/-- The register that an operand names once its symbols have been written. -/
def registerAt [Evaluator] (st : SymbolTable) (pc : Int) (t : Text) : Except Fault Nat := do
  Instruction.registerOf (.text (← resolveOperand st pc t))

/-- The operands that name registers name some of the 32. -/
def Registers [Evaluator] (st : SymbolTable) (pc : Int) (args : List Text) : Prop :=
  ∀ t ∈ args, ∀ r, registerAt st pc t = .ok r → r < 32

section Operand

variable {st : SymbolTable} {pc : Int} {line line' op x y : Text} {front : List Text}

theorem mapM_append_one [Evaluator] {t : Text} (hx : resolveOperand st pc x = .ok t) :
    (front ++ [x]).mapM (resolveOperand st pc) =
      front.mapM (resolveOperand st pc) >>= fun resolved => .ok (resolved ++ [t]) := by
  rw [List.mapM_append, List.mapM_cons, hx]
  rfl

theorem exists_of_mem_mapM {g : Text → Except Fault Text} {ts resolved : List Text}
    (h : ts.mapM g = .ok resolved) {t : Text} (ht : t ∈ resolved) : ∃ u ∈ ts, g u = .ok t := by
  induction ts generalizing resolved with
  | nil =>
      obtain rfl : [] = resolved := by simpa [pure, Except.pure] using h
      cases ht
  | cons u ts ih =>
      rw [List.mapM_cons, Except.bind_eq_ok] at h
      obtain ⟨t₁, hfirst, h⟩ := h
      obtain ⟨rest, hrest, h⟩ := Except.bind_eq_ok.mp h
      obtain rfl := Except.ok.inj h
      rcases List.mem_cons.mp ht with rfl | ht
      · exact ⟨u, List.mem_cons_self, hfirst⟩
      · obtain ⟨u', hu', hg⟩ := ih hrest ht
        exact ⟨u', List.mem_cons_of_mem u hu', hg⟩

/-- Lines that resolve to different numbers in the last place: both are accepted or none, and they have the
same encoding if and only if the word shows the same of the two numbers. -/
theorem exists_lineCall_number [Evaluator] {n m : Int} {c : Text × Encoded}
    (htokens : tokens (Text.trim line) = op :: (front ++ [x]))
    (hx : resolveOperand st pc x = .ok (Text.ofInt n))
    (htokens' : tokens (Text.trim line') = op :: (front ++ [y]))
    (hy : resolveOperand st pc y = .ok (Text.ofInt m))
    (hn : (Nat.toDigits 10 n.natAbs).length ≤ Number.maxDigits)
    (hm : (Nat.toDigits 10 m.natAbs).length ≤ Number.maxDigits) (h : lineCall st pc line = .ok c) :
    ∃ c', lineCall st pc line' = .ok c' ∧
      ∀ f, Isa.base.format? op = some f → Registers st pc front →
        (c'.2.bits = c.2.bits ↔ Instruction.shown f op m = Instruction.shown f op n) := by
  obtain ⟨op', e⟩ := c
  obtain ⟨args, resolved, f, htokens₁, hresolved, hf, he⟩ := lineCall_eq_ok.mp h
  obtain ⟨rfl, rfl⟩ : op' = op ∧ args = front ++ [x] := by simpa [htokens₁] using htokens
  rw [mapM_append_one hx, Except.bind_eq_ok] at hresolved
  obtain ⟨resolved, hfront, hlast⟩ := hresolved
  obtain rfl := Except.ok.inj hlast
  rw [List.map_append] at he
  obtain ⟨g, hg⟩ := Instruction.exists_takesNumber hn he
  have hen : e = g n := Except.ok.inj (he.symm.trans (hg.encode_eq n hn))
  refine ⟨(op', g m), ?_, ?_⟩
  · refine lineCall_eq_ok.mpr ⟨front ++ [y], resolved ++ [Text.ofInt m], f, htokens', ?_, hf, ?_⟩
    · rw [mapM_append_one hy, hfront]
      rfl
    · rw [List.map_append]
      exact hg.encode_eq m hm
  · intro f' hf' hregs
    obtain rfl : f = f' := Option.some.inj (hf.symm.trans hf')
    rw [hen]
    apply hg.bits_inj
    intro v hv r hr
    obtain ⟨t, ht, rfl⟩ := List.mem_map.mp hv
    obtain ⟨u, hu, hut⟩ := exists_of_mem_mapM hfront ht
    exact hregs u hu r (Except.bind_eq_ok.mpr ⟨t, hut, hr⟩)

end Operand

/-- Two texts with different operands, `x` and `y`, in the last place of instruction `k`. The instruction
may come from a call of a macro. -/
inductive Exchanged (k : Nat) (op : Text) (front : List Text)
    (x y : Text) : List Text → List Text → Prop where
  | intro {before after xs ys : List Text} {line line' c c' shown shown' : Text}
      (hout : insideAfter before = false)
      (hcode : Line.classify (withoutComment line) = .code c)
      (hcode' : Line.classify (withoutComment line') = .code c')
      (hlines : expansion (Definitions.after {} before).macros c = xs ++ shown :: ys)
      (hlines' : expansion (Definitions.after {} before).macros c' = xs ++ shown' :: ys)
      (htokens : tokens (Text.trim shown) = op :: (front ++ [x]))
      (htokens' : tokens (Text.trim shown') = op :: (front ++ [y]))
      (hk : k = (listing before).flatten.length + xs.length) :
      Exchanged k op front x y (before ++ line :: after) (before ++ line' :: after)

section Exchanged

variable {k : Nat} {op x y : Text} {front lines lines' : List Text}

theorem Exchanged.listing (h : Exchanged k op front x y lines lines') :
    ∃ before line line' after, (listing lines).flatten = before ++ line :: after ∧
      (listing lines').flatten = before ++ line' :: after ∧ before.length = k ∧
      tokens (Text.trim line) = op :: (front ++ [x]) ∧ tokens (Text.trim line') = op :: (front ++ [y]) := by
  obtain @⟨before, after, xs, ys, line, line', c, c', shown, shown', hout, hcode, hcode', hlines, hlines',
    htokens, htokens', rfl⟩ := h
  have hnone := inside_after_eq_none hout
  refine ⟨(Assembly.listing before).flatten ++ xs, shown, shown',
    ys ++ (Definitions.scan Definitions.added (Definitions.after {} before) after).flatten, ?_, ?_, ?_,
    htokens, htokens'⟩
  · rw [Assembly.listing, Definitions.scan_append, Definitions.scan, Definitions.next_of_code hnone hcode,
      Definitions.added_of_code hnone hcode, hlines]
    simp [Assembly.listing]
  · rw [Assembly.listing, Definitions.scan_append, Definitions.scan, Definitions.next_of_code hnone hcode',
      Definitions.added_of_code hnone hcode', hlines']
    simp [Assembly.listing]
  · rw [List.length_append]

theorem Exchanged.symbols [Evaluator] (h : Exchanged k op front x y lines lines') (base : Int) :
    symbolsOf base lines' = symbolsOf base lines := by
  obtain @⟨before, after, xs, ys, line, line', c, c', shown, shown', hout, hcode, hcode', hlines, hlines',
    -, -, -⟩ := h
  have hnone := inside_after_eq_none hout
  have henter (l text : Text) (hclass : Line.classify (withoutComment l) = .code text) (address : Int)
      (st : SymbolTable) : (Definitions.after {} before).enter address l st = st := by
    simp only [Definitions.enter, hnone, hclass]
  rw [symbolsOf, symbolsOf, Definitions.symbolsFrom_append, Definitions.symbolsFrom_append,
    Definitions.symbolsFrom, Definitions.symbolsFrom, Definitions.next_of_code hnone hcode,
    Definitions.next_of_code hnone hcode', Definitions.added_of_code hnone hcode,
    Definitions.added_of_code hnone hcode', hlines, hlines', henter _ _ hcode, henter _ _ hcode',
    List.length_append, List.length_append, List.length_cons, List.length_cons]

end Exchanged

section Encodings

variable [Evaluator] [Evaluator.Textual] {text : Text} {base : Int}

theorem encodings_eq (h : (ofText text base).result = .ok ()) :
    encodings text base =
      lineCalls (symbolsOf base (Text.lines text)) base (listing (Text.lines text)).flatten >>= fun cs =>
        if cs.isEmpty then .error (.parse .nothingEncoded) else .ok (cs.map fun c => c.2.binary) := by
  have hread := Outcome.eq_of_result h
  obtain ⟨r, hreached⟩ := read_reached rfl (Action.effect_of_run hread)
  have hbase : (ofText text base).state.base = base := hreached.base_eq
  have hassemble : encodings text base = (assemble.effect (ofText text base).state).1 >>= fun _ =>
      .ok (assemble.effect (ofText text base).state).2.encoded := by
    rw [encodings, h]
    rfl
  rw [hassemble, assemble, Action.effect_bind_of_ok (Action.effect_note ..),
    Action.effect_bind_of_ok (Action.effect_get _), Action.effect_bind, effect_translate,
    ofText_symbols hread, (ofText_listed hread).2.1, hbase]
  cases lineCalls (symbolsOf base (Text.lines text)) base (listing (Text.lines text)).flatten with
  | error e => rfl
  | ok cs =>
      cases cs with
      | nil => rfl
      | cons c cs => rfl

theorem encodings_eq_ok (es : List Text) {before after : List Text} {line : Text}
    (h : (ofText text base).result = .ok ())
    (hlist : (listing (Text.lines text)).flatten = before ++ line :: after) :
    encodings text base = .ok es ↔ ∃ cs₁ c cs₂,
      lineCalls (symbolsOf base (Text.lines text)) base before = .ok cs₁ ∧
      lineCall (symbolsOf base (Text.lines text)) (base + 4 * (before.length : Int)) line = .ok c ∧
      lineCalls (symbolsOf base (Text.lines text)) (base + 4 * (before.length : Int) + 4) after = .ok cs₂ ∧
      es = (cs₁ ++ c :: cs₂).map fun c => c.2.binary := by
  rw [encodings_eq h, hlist, Except.bind_eq_ok]
  constructor
  · rintro ⟨cs, hcs, hes⟩
    obtain ⟨cs₁, c, cs₂, h₁, hc, h₂, rfl⟩ := lineCalls_append_cons.mp hcs
    rw [if_neg (by simp)] at hes
    exact ⟨cs₁, c, cs₂, h₁, hc, h₂, (Except.ok.inj hes).symm⟩
  · rintro ⟨cs₁, c, cs₂, h₁, hc, h₂, rfl⟩
    exact ⟨_, lineCalls_append_cons.mpr ⟨cs₁, c, cs₂, h₁, hc, h₂, rfl⟩, if_neg (by simp)⟩

end Encodings

/-- No other symbol stands in the name of a constant, and none in the numbers that may be written for
it. -/
structure Alone (st : SymbolTable) (name : Text) (v pc : Int) : Prop where
  name : ∀ p ∈ st, p.1 ≠ name → Text.occurs p.1 name = false
  value : ∀ p ∈ st, Text.occurs p.1 (Text.ofInt v) = false
  relative : ∀ p ∈ st, Text.occurs p.1 (Text.ofInt (v - pc)) = false

section Resolve

variable {st : SymbolTable} {pc : Int}

theorem resolveOperand_ofInt [Evaluator] {n : Int} (h : ∀ p ∈ st, Text.occurs p.1 (Text.ofInt n) = false) :
    resolveOperand st pc (Text.ofInt n) = .ok (Text.ofInt n) := by
  simp only [resolveOperand, SymbolTable.link_untouched h pc]
  change (if Register.isName (Text.ofInt n) then _ else _) = _
  rw [Register.isName_ofInt]
  rfl

theorem resolveOperand_constant [Evaluator] {name : Text} {v : Int} (hget : st.get? name = some (.int v))
    (h : Alone st name v pc) (hdigits : (Nat.toDigits 10 (v - pc).natAbs).length ≤ Number.maxDigits) :
    resolveOperand st pc name = .ok (Text.ofInt (v - pc)) := by
  have htable := split_of_get? hget
  have hmem : (name, .int v) ∈ st := by
    rw [htable]
    exact List.mem_append_right _ List.mem_cons_self
  have hne : name ≠ [] := by
    rintro rfl
    have hempty := h.value _ hmem
    cases hnumber : Text.ofInt v <;> simp [hnumber, Text.occurs] at hempty
  have hlink : st.link pc name = .ok (Text.ofInt (v - pc)) := by
    rw [htable]
    apply SymbolTable.link_symbol hne _ _ hdigits
    · intro p hp
      have hother : p.1 ≠ name := by simpa using List.mem_takeWhile_imp hp
      exact h.name p ((List.takeWhile_sublist _).subset hp) hother
    · intro p hp
      exact h.relative p ((List.dropWhile_sublist _).subset (List.mem_of_mem_tail hp))
  simp only [resolveOperand, hlink]
  change (if Register.isName (Text.ofInt (v - pc)) then _ else _) = _
  rw [Register.isName_ofInt]
  rfl

end Resolve

/-- A text with a constant in the last place of an instruction at an address is encoded as with the
constant's value less that address. With the value itself in its place it is accepted too, but the
encodings are the same if and only if the word shows the same of the two numbers: at even addresses, if the
address leaves no remainder in the field. -/
theorem encodings_constant_iff [Evaluator] [Evaluator.Textual] {text : Text} {base v pc : Int}
    {i k : Nat} {op name : Text} {front : List Text} {st : SymbolTable}
    (hread : (ofText text base).result = .ok ()) (hst : (ofText text base).state.symbols = st)
    (hconstant : Constant (Text.lines text) i name v) (hpc : base + 4 * k = pc)
    (halone : Alone st name v pc) (hd : (Nat.toDigits 10 (v - pc).natAbs).length ≤ Number.maxDigits) :
    (∀ text', (ofText text' base).result = .ok () →
      Exchanged k op front name (Text.ofInt (v - pc)) (Text.lines text) (Text.lines text') →
      encodings text' base = encodings text base) ∧
    ∀ text', (ofText text' base).result = .ok () →
      (Nat.toDigits 10 v.natAbs).length ≤ Number.maxDigits →
      Exchanged k op front name (Text.ofInt v) (Text.lines text) (Text.lines text') →
      ((∃ es, encodings text' base = .ok es) ↔ ∃ es, encodings text base = .ok es) ∧
      ∀ f es es', Isa.base.format? op = some f → Registers st pc front →
        encodings text base = .ok es → encodings text' base = .ok es' →
        (es' = es ↔ Instruction.shown f op v = Instruction.shown f op (v - pc)) ∧
        (2 ∣ base → Instruction.systemNumber? op = none → Instruction.covers op = false →
          (es' = es ↔ (2 ^ Instruction.widthOf f op : Int) ∣ pc)) := by
  have hsymbols : symbolsOf base (Text.lines text) = st := by
    rw [← hst, ofText_symbols (Outcome.eq_of_result hread)]
  have hget : st.get? name = some (.int v) := by
    rw [← hsymbols]
    exact get?_constant hconstant base
  have hname := resolveOperand_constant hget halone hd
  refine ⟨?_, ?_⟩
  · intro text' hread' hexchanged
    obtain ⟨before, line, line', after, hlist, hlist', rfl, htokens, htokens'⟩ := hexchanged.listing
    have hnumber : resolveOperand st pc (Text.ofInt (v - pc)) = .ok (Text.ofInt (v - pc)) :=
      resolveOperand_ofInt halone.relative
    have hline : lineCall st pc line' = lineCall st pc line := by
      apply lineCall_congr htokens' htokens
      rw [mapM_append_one hnumber, mapM_append_one hname]
    rw [encodings_eq hread, encodings_eq hread', hexchanged.symbols, hsymbols, hlist, hlist', lineCalls_append,
      lineCalls_append, lineCalls, lineCalls, hpc, hline]
  · intro text' hread' hv hexchanged
    obtain ⟨before, line, line', after, hlist, hlist', rfl, htokens, htokens'⟩ := hexchanged.listing
    have hnumber : resolveOperand st pc (Text.ofInt v) = .ok (Text.ofInt v) :=
      resolveOperand_ofInt halone.value
    have hok (es : List Text) := encodings_eq_ok es hread hlist
    have hok' (es : List Text) := encodings_eq_ok es hread' hlist'
    simp only [hexchanged.symbols, hsymbols, hpc] at hok hok'
    refine ⟨?_, ?_⟩
    · constructor
      · rintro ⟨es', hes'⟩
        obtain ⟨cs₁, c', cs₂, h₁, hc', h₂, -⟩ := (hok' es').mp hes'
        obtain ⟨c, hc, -⟩ := exists_lineCall_number htokens' hnumber htokens hname hv hd hc'
        exact ⟨_, (hok _).mpr ⟨cs₁, c, cs₂, h₁, hc, h₂, rfl⟩⟩
      · rintro ⟨es, hes⟩
        obtain ⟨cs₁, c, cs₂, h₁, hc, h₂, -⟩ := (hok es).mp hes
        obtain ⟨c', hc', -⟩ := exists_lineCall_number htokens hname htokens' hnumber hd hv hc
        exact ⟨_, (hok' _).mpr ⟨cs₁, c', cs₂, h₁, hc', h₂, rfl⟩⟩
    · intro f es es' hf hregs hes hes'
      obtain ⟨cs₁, c, cs₂, h₁, hc, h₂, rfl⟩ := (hok es).mp hes
      obtain ⟨c', hc', hbits⟩ := exists_lineCall_number htokens hname htokens' hnumber hd hv hc
      obtain rfl : es' = (cs₁ ++ c' :: cs₂).map fun c => c.2.binary :=
        Except.ok.inj (hes'.symm.trans ((hok' _).mpr ⟨cs₁, c', cs₂, h₁, hc', h₂, rfl⟩))
      have hsame : (cs₁ ++ c' :: cs₂).map (fun c => c.2.binary) = (cs₁ ++ c :: cs₂).map (fun c => c.2.binary) ↔
          Instruction.shown f op v = Instruction.shown f op (v - pc) := by
        rw [← hbits f hf hregs, ← Encoded.binary_inj]
        simp
      refine ⟨hsame, fun hbase hsystem hcovers => ?_⟩
      rw [hsame, eq_comm]
      exact Instruction.shown_sub_iff hsystem hcovers (by omega)

def withConstant : Text := ".equ CONST, 30\naddi x0, x0, 0\naddi x1, x0, CONST\n".toList

def withNumber : Text := ".equ CONST, 30\naddi x0, x0, 0\naddi x1, x0, 30\n".toList

section WithConstant

open scoped Evaluator.Arithmetic

theorem constant_withConstant : Constant (Text.lines withConstant) 0 "const".toList 30 := by
  have hvalue : Evaluator.constantOf (Text.trim " 30".toList) = .ok (.int 30) := by
    have htext : Text.trim " 30".toList = Text.ofInt 30 := by decide +kernel
    rw [htext]
    exact Evaluator.constantOf_of_evaluate (Expr.evaluate_ofInt (by decide))
  refine ⟨⟨"CONST, 30".toList, "CONST".toList, " 30".toList, by decide +kernel, by decide +kernel,
    by decide +kernel, hvalue⟩, ?_⟩
  have hlast : ∀ j < (Text.lines withConstant).length, 0 < j →
      (lineAt? (Text.lines withConstant) j).bind Line.symbol? ≠ some "const".toList := by
    decide +kernel
  exact symbol_ne_of_lt_length hlast

theorem exchanged_withConstant :
    Exchanged 1 "addi".toList ["x1".toList, "x0".toList] "const".toList (Text.ofInt 30)
      (Text.lines withConstant) (Text.lines withNumber) := by
  have hlines : Text.lines withConstant = [".equ CONST, 30".toList, "addi x0, x0, 0".toList] ++
      "addi x1, x0, CONST".toList :: [] := by decide +kernel
  have hlines' : Text.lines withNumber = [".equ CONST, 30".toList, "addi x0, x0, 0".toList] ++
      "addi x1, x0, 30".toList :: [] := by decide +kernel
  have hcode : Line.classify (withoutComment "addi x1, x0, CONST".toList) =
      .code "addi x1, x0, CONST".toList := by decide +kernel
  have hcode' : Line.classify (withoutComment "addi x1, x0, 30".toList) =
      .code "addi x1, x0, 30".toList := by decide +kernel
  have hexpand : expansion (Definitions.after {} [".equ CONST, 30".toList, "addi x0, x0, 0".toList]).macros
      "addi x1, x0, CONST".toList = [] ++ "addi x1, x0, CONST".toList :: [] := by decide +kernel
  have hexpand' : expansion (Definitions.after {} [".equ CONST, 30".toList, "addi x0, x0, 0".toList]).macros
      "addi x1, x0, 30".toList = [] ++ "addi x1, x0, 30".toList :: [] := by decide +kernel
  rw [hlines, hlines']
  exact .intro (by decide +kernel) hcode hcode' hexpand hexpand' (by decide +kernel) (by decide +kernel)
    (by decide +kernel)

theorem registers_withConstant :
    Registers (ofText withConstant 0).state.symbols 4 ["x1".toList, "x0".toList] := by
  have hsmall : ∀ t ∈ ["x1".toList, "x0".toList],
      (registerAt (ofText withConstant 0).state.symbols 4 t).toOption.all (· < 32) = true := by
    decide +kernel
  intro t ht r hr
  have h := hsmall t ht
  rw [hr] at h
  simpa [Except.toOption] using h

theorem encodings_withConstant :
    Constant (Text.lines withConstant) 0 "const".toList 30 ∧
    Exchanged 1 "addi".toList ["x1".toList, "x0".toList] "const".toList (Text.ofInt 30)
      (Text.lines withConstant) (Text.lines withNumber) ∧
    ∃ es es', encodings withConstant 0 = .ok es ∧ encodings withNumber 0 = .ok es' ∧ es' ≠ es := by
  have hread : (ofText withConstant 0).result = .ok () := Except.eq_ok_of_toOption (by decide +kernel)
  have hread' : (ofText withNumber 0).result = .ok () := Except.eq_ok_of_toOption (by decide +kernel)
  have halone : Alone (ofText withConstant 0).state.symbols "const".toList 30 4 :=
    ⟨by decide +kernel, by decide +kernel, by decide +kernel⟩
  have hes : encodings withConstant 0 = .ok ["00000000000000000000000000010011".toList,
      "00000001101000000000000010010011".toList] := Except.eq_ok_of_toOption (by decide +kernel)
  have hes' : encodings withNumber 0 = .ok ["00000000000000000000000000010011".toList,
      "00000001111000000000000010010011".toList] := Except.eq_ok_of_toOption (by decide +kernel)
  obtain ⟨-, hnumber⟩ := encodings_constant_iff hread rfl constant_withConstant
    (by decide : (0 : Int) + 4 * 1 = 4) halone (by decide)
  obtain ⟨-, hiff⟩ := (hnumber withNumber hread' (by decide) exchanged_withConstant).2 .I _ _ (by decide)
    registers_withConstant hes hes'
  refine ⟨constant_withConstant, exchanged_withConstant, _, _, hes, hes', ?_⟩
  intro heq
  have hdvd := (hiff (by decide) (by decide) (by decide)).mp heq
  exact absurd hdvd (by decide)

end WithConstant

end RvToolkit.Assembly
