import RvToolkit.Assembly.Encoding
import RvToolkit.Proofs.Instruction.Operands

namespace RvToolkit

theorem address_succ (pc : Int) (k : Nat) : pc + 4 * ((k + 1 : Nat) : Int) = pc + 4 + 4 * (k : Int) := by
  omega

namespace Assoc

variable {β : Type} {es : Assoc Int β} {pc : Int}

/-- Entries for every fourth address from `pc` upward. -/
def Consecutive (pc : Int) (es : Assoc Int β) : Prop := ∀ (k : Nat) p, es[k]? = some p → p.1 = pc + 4 * k

theorem Consecutive.tail {e : Int × β} (h : Consecutive pc (e :: es)) : Consecutive (pc + 4) es := by
  intro k p hp
  have := h (k + 1) p hp
  omega

theorem Consecutive.get?_eq (h : Consecutive pc es) (k : Nat) :
    get? (pc + 4 * k) es = es[k]?.map Prod.snd := by
  induction es generalizing pc k with
  | nil => rfl
  | cons e es ih =>
      obtain ⟨a, b⟩ := e
      have ha : a = pc := by simpa using h 0 (a, b) rfl
      cases k with
      | zero => simp [get?, ha]
      | succ k =>
          have hne : ¬ a = pc + 4 * ((k + 1 : Nat) : Int) := by omega
          rw [get?, if_neg hne, address_succ, ih h.tail k]
          rfl

theorem Consecutive.exists_of_get? (h : Consecutive pc es) {a : Int} {b : β} (hget : get? a es = some b) :
    ∃ k : Nat, k < es.length ∧ a = pc + 4 * k := by
  induction es generalizing pc with
  | nil => simp [get?] at hget
  | cons e es ih =>
      obtain ⟨c, b'⟩ := e
      have hc : c = pc := by simpa using h 0 (c, b') rfl
      by_cases hca : c = a
      · exact ⟨0, by simp, by omega⟩
      · rw [get?, if_neg hca] at hget
        obtain ⟨k, hk, ha⟩ := ih h.tail hget
        exact ⟨k + 1, by simpa using hk, by omega⟩

theorem insert_of_notMem {α : Type} [DecidableEq α] {k : α} {v : β} {es : Assoc α β}
    (h : k ∉ es.map Prod.fst) : insert k v es = es ++ [(k, v)] := by
  induction es with
  | nil => rfl
  | cons e es ih =>
      obtain ⟨a, w⟩ := e
      obtain ⟨ha, hrest⟩ := not_or.mp (mt List.mem_cons.mpr h)
      rw [insert, if_neg (Ne.symm ha), ih hrest, List.cons_append]

end Assoc

theorem Instruction.effect_encode {σ : Type} [Evaluator] (isa : Isa) (op : Text) (args : List Value)
    (s : σ) :
    (encode isa op args : Action σ Encoded).effect s =
      (((encode isa op args : Action Unit Encoded).effect ()).1, s) := by
  cases hf : isa.format? op with
  | none => simp [encode, hf]
  | some f => rw [effect_encode_of_format hf, effect_encode_of_format hf]

namespace Assembly

/-- An instruction of a program with its encoding. -/
structure Coded where
  op : Text
  format : Format
  encoding : Encoded

def byAddress : Int → List (Text × Encoded) → Assoc Int Step
  | _, [] => []
  | pc, c :: cs => (pc, ⟨c.1, c.2.operands⟩) :: byAddress (pc + 4) cs

theorem getElem?_byAddress (pc : Int) (cs : List (Text × Encoded)) (i : Nat) :
    (byAddress pc cs)[i]? = cs[i]?.map fun c => (pc + 4 * i, ⟨c.1, c.2.operands⟩) := by
  induction cs generalizing pc i with
  | nil => rfl
  | cons c cs ih =>
      cases i with
      | zero => simp [byAddress]
      | succ i =>
          rw [byAddress, List.getElem?_cons_succ, List.getElem?_cons_succ, ih, address_succ]

theorem length_byAddress (pc : Int)
    (cs : List (Text × Encoded)) : (byAddress pc cs).length = cs.length := by
  induction cs generalizing pc with
  | nil => rfl
  | cons c cs ih => exact congrArg (· + 1) (ih (pc + 4))

theorem consecutive_byAddress (pc : Int) (cs : List (Text × Encoded)) :
    (byAddress pc cs).Consecutive pc := by
  intro i p hp
  rw [getElem?_byAddress] at hp
  obtain ⟨c, -, rfl⟩ := Option.map_eq_some_iff.mp hp
  rfl

variable {σ : Type} [Evaluator]

/-- The call of the encoder that a line at an address comes to, and its answer. -/
def lineCall (st : SymbolTable) (pc : Int) (line : Text) : Except Fault (Text × Encoded) := do
  let ts ← resolveOperands st pc (tokens (Text.trim line))
  let e ← ((encodeTokens ts).effect ()).1
  return (ts.headD [], e)

def lineCalls (st : SymbolTable) : Int → List Text → Except Fault (List (Text × Encoded))
  | _, [] => .ok []
  | pc, line :: lines => do
      let c ← lineCall st pc line
      let cs ← lineCalls st (pc + 4) lines
      return c :: cs

/-- The lines from an address upward and their instructions. -/
inductive Encodes (st : SymbolTable) : Int → List Text → List Coded → Prop where
  | nil (pc : Int) : Encodes st pc [] []
  | cons {pc : Int} {line : Text} {lines args resolved : List Text} {c : Coded} {cs : List Coded}
      (htokens : tokens (Text.trim line) = c.op :: args)
      (hargs : args.mapM (resolveOperand st pc) = .ok resolved)
      (hformat : Isa.base.format? c.op = some c.format)
      (hencode : Instruction.encodeWith c.format c.op (resolved.map .text) = .ok c.encoding)
      (hrest : Encodes st (pc + 4) lines cs) : Encodes st pc (line :: lines) (c :: cs)

variable {st : SymbolTable} {pc : Int} {lines : List Text}

theorem SymbolTable.relative_int (pc i : Int) : relative pc (.int i) = decimalText (i - pc) := rfl

theorem lineCall_eq_ok {line op : Text} {e : Encoded} :
    lineCall st pc line = .ok (op, e) ↔ ∃ args resolved f, tokens (Text.trim line) = op :: args ∧
      args.mapM (resolveOperand st pc) = .ok resolved ∧ Isa.base.format? op = some f ∧
      Instruction.encodeWith f op (resolved.map .text) = .ok e := by
  constructor
  · intro h
    obtain ⟨ts, hts, h⟩ := Except.bind_eq_ok.mp h
    cases htokens : tokens (Text.trim line) with
    | nil => simp [htokens, resolveOperands] at hts
    | cons op' args =>
        rw [htokens, resolveOperands] at hts
        obtain ⟨resolved, hargs, hcons⟩ := Except.bind_eq_ok.mp hts
        cases hcons
        obtain ⟨e', he', hpair⟩ := Except.bind_eq_ok.mp h
        cases hpair
        obtain ⟨-, f, hf, he⟩ := Instruction.encode_eq_ok.mp (Prod.ext he' rfl)
        exact ⟨args, resolved, f, rfl, hargs, hf, he⟩
  · rintro ⟨args, resolved, f, htokens, hargs, hf, he⟩
    have hread : resolveOperands st pc (tokens (Text.trim line)) = .ok (op :: resolved) := by
      rw [htokens, resolveOperands, hargs]
      rfl
    have hcall : (encodeTokens (op :: resolved)).effect () = (.ok e, ()) :=
      Instruction.encode_eq_ok.mpr ⟨rfl, f, hf, he⟩
    exact Except.bind_eq_ok.mpr ⟨_, hread, Except.bind_eq_ok.mpr ⟨e, congrArg Prod.fst hcall, rfl⟩⟩

theorem lineCalls_eq_ok {cs : List (Text × Encoded)} (h : lineCalls st pc lines = .ok cs) :
    cs.length = lines.length ∧ ∀ (i : Nat) line, lines[i]? = some line →
      ∃ c, cs[i]? = some c ∧ lineCall st (pc + 4 * i) line = .ok c := by
  induction lines generalizing pc cs with
  | nil =>
      cases h
      exact ⟨rfl, fun i line hline => by simp at hline⟩
  | cons line lines ih =>
      obtain ⟨c, hc, h⟩ := Except.bind_eq_ok.mp h
      obtain ⟨cs', hcs', h⟩ := Except.bind_eq_ok.mp h
      cases h
      obtain ⟨hlength, hcalls⟩ := ih hcs'
      refine ⟨by rw [List.length_cons, List.length_cons, hlength], ?_⟩
      intro i line' hline'
      cases i with
      | zero =>
          obtain rfl : line = line' := by simpa using hline'
          refine ⟨c, rfl, ?_⟩
          simpa using hc
      | succ i =>
          obtain ⟨c', hget, hcall⟩ := hcalls i line' hline'
          rw [address_succ]
          exact ⟨c', hget, hcall⟩

theorem encodes_of_lineCalls {calls : List (Text × Encoded)} (h : lineCalls st pc lines = .ok calls) :
    ∃ cs, Encodes st pc lines cs ∧ calls = cs.map fun c => (c.op, c.encoding) := by
  induction lines generalizing pc calls with
  | nil =>
      cases h
      exact ⟨[], .nil pc, rfl⟩
  | cons line lines ih =>
      obtain ⟨⟨op, e⟩, hcall, h⟩ := Except.bind_eq_ok.mp h
      obtain ⟨rest, hrest, h⟩ := Except.bind_eq_ok.mp h
      cases h
      obtain ⟨args, resolved, f, htokens, hargs, hformat, hencode⟩ := lineCall_eq_ok.mp hcall
      obtain ⟨cs, hcs, rfl⟩ := ih hrest
      exact ⟨⟨op, f, e⟩ :: cs, .cons htokens hargs hformat hencode hcs, rfl⟩

section Loops

variable (st : SymbolTable)

theorem effect_lineTokens (pc : Int) (line : Text) (s : σ) :
    (lineTokens st pc line : Action σ _).effect s = (resolveOperands st pc (tokens line), s) := by
  rw [lineTokens, Action.effect_bind_of_ok (Action.effect_note ..), Action.effect_ofExcept]

theorem effect_encodeTokens (ts : List Text) (s : σ) :
    (encodeTokens ts : Action σ _).effect s = (((encodeTokens ts : Action Unit _).effect ()).1, s) := by
  cases ts with
  | nil => rfl
  | cons op args => exact Instruction.effect_encode Isa.base op (args.map .text) s

theorem isEmpty_of_resolveOperands {ts resolved : List Text} (h : resolveOperands st pc ts = .ok resolved) :
    resolved.isEmpty = false := by
  -- A line without words fails before it could be passed over.
  cases ts with
  | nil => cases h
  | cons op args =>
      obtain ⟨args', -, hcons⟩ := Except.bind_eq_ok.mp h
      cases hcons
      rfl

theorem effect_translateFrom (base : Int) (n : Nat) (codes lines : List Text) (s : σ) :
    (translateFrom st base n codes (lines.map Text.trim) : Action σ _).effect s =
      ((lineCalls st (base + 4 * n) lines).map fun cs => codes ++ cs.map fun c => c.2.binary, s) := by
  induction lines generalizing n codes with
  | nil => simp [translateFrom, lineCalls, Except.map]
  | cons line lines ih =>
      have haddress : (n * 4 + base : Int) = base + 4 * n := by omega
      have hnext : base + 4 * ((n + 1 : Nat) : Int) = base + 4 * (n : Int) + 4 := by omega
      rw [List.map_cons, translateFrom, haddress, lineCalls, lineCall, Action.effect_bind, effect_lineTokens]
      cases hts : resolveOperands st (base + 4 * n) (tokens (Text.trim line)) with
      | error e => rfl
      | ok ts =>
          dsimp only
          rw [isEmpty_of_resolveOperands st hts, if_neg (by decide), Action.effect_bind, effect_encodeTokens]
          cases he : ((encodeTokens ts : Action Unit Encoded).effect ()).1 with
          | error e => simp [bind, Except.bind, he, Except.map]
          | ok e =>
              dsimp only
              rw [Action.effect_bind_of_ok (Action.effect_note ..), ih, hnext]
              cases lineCalls st (base + 4 * n + 4) lines with
              | error e' => simp [bind, Except.bind, he, Except.map, pure, Except.pure]
              | ok cs => simp [bind, Except.bind, he, Except.map, pure, Except.pure]

theorem effect_interpretFrom (pc : Int) {steps : Assoc Int Step} (hsteps : ∀ p ∈ steps, p.1 < pc)
    (lines : List Text) (s : σ) :
    (interpretFrom st pc steps (lines.map Text.trim) : Action σ _).effect s =
      ((lineCalls st pc lines).map fun cs => steps ++ byAddress pc cs, s) := by
  induction lines generalizing pc steps with
  | nil => simp [interpretFrom, lineCalls, Except.map, byAddress]
  | cons line lines ih =>
      rw [List.map_cons, interpretFrom, lineCalls, lineCall, Action.effect_bind, effect_lineTokens]
      cases resolveOperands st pc (tokens (Text.trim line)) with
      | error e => rfl
      | ok ts =>
          dsimp only
          rw [Action.effect_bind, effect_encodeTokens]
          cases he : ((encodeTokens ts : Action Unit Encoded).effect ()).1 with
          | error e => simp [bind, Except.bind, he, Except.map]
          | ok e =>
              dsimp only
              -- all addresses so far are smaller, so that the new entry comes last
              have hfresh : pc ∉ steps.map Prod.fst := by
                intro hmem
                obtain ⟨p, hp, rfl⟩ := List.mem_map.mp hmem
                exact Int.lt_irrefl _ (hsteps p hp)
              rw [Assoc.insert_of_notMem hfresh, ih (pc + 4) (by
                intro p hp
                rcases List.mem_append.mp hp with hp | hp
                · have := hsteps p hp
                  omega
                · obtain rfl := List.mem_singleton.mp hp
                  exact Int.lt_add_of_pos_right pc (by decide))]
              cases lineCalls st (pc + 4) lines with
              | error e' => simp [bind, Except.bind, he, Except.map, pure, Except.pure]
              | ok cs => simp [bind, Except.bind, he, Except.map, pure, Except.pure, byAddress]

theorem effect_translate (base : Int) (lines : List Text) (s : σ) :
    (translate st base lines : Action σ _).effect s =
      ((lineCalls st base lines).map (List.map fun c => c.2.binary), s) := by
  have h := effect_translateFrom st base 0 [] lines s
  rwa [Int.natCast_zero, Int.mul_zero, Int.add_zero] at h

theorem effect_interpret (base : Int) (lines : List Text) (s : σ) :
    (interpret st base lines : Action σ _).effect s = ((lineCalls st base lines).map (byAddress base), s) :=
  effect_interpretFrom st base (List.forall_mem_nil _) lines s

theorem interpret_of_lineCalls {base : Int} {lines : List Text} {steps : Assoc Int Step}
    (h : ((lineCalls st base lines).map (byAddress base)).toOption = some steps) (s : σ) :
    (interpret st base lines : Action σ _).effect s = (.ok steps, s) := by
  rw [effect_interpret, Except.eq_ok_of_toOption h]

theorem steps_of_lineCalls {a : Assembly} {ss : Assoc Int Step}
    (h : ((lineCalls a.symbols a.base a.mnemonics).map (byAddress a.base)).toOption = some ss)
    (hne : ss.isEmpty = false) : steps.effect a = (.ok ss, a) := by
  rw [steps, Action.effect_bind_of_ok (Action.effect_get a),
    Action.effect_bind_of_ok (interpret_of_lineCalls a.symbols h a), hne]
  rfl

end Loops

theorem interpret_eq_ok {s s' : σ} {ss : Assoc Int Step}
    (h : (interpret st pc lines : Action σ _).effect s = (.ok ss, s')) :
    s' = s ∧ ss.length = lines.length ∧ ss.Consecutive pc ∧
      ∀ (k : Nat) line, lines[k]? = some line → ∃ op e,
        lineCall st (pc + 4 * k) line = .ok (op, e) ∧ ss[k]? = some (pc + 4 * k, ⟨op, e.operands⟩) := by
  rw [effect_interpret] at h
  obtain ⟨hmap, rfl⟩ := Prod.mk.inj h
  obtain ⟨cs, hcalls, rfl⟩ := Except.map_eq_ok.mp hmap
  obtain ⟨hlength, hall⟩ := lineCalls_eq_ok hcalls
  refine ⟨rfl, by rw [length_byAddress, hlength], consecutive_byAddress pc cs, ?_⟩
  intro k line hline
  obtain ⟨c, hget, hcall⟩ := hall k line hline
  exact ⟨c.1, c.2, hcall, by rw [getElem?_byAddress, hget]; rfl⟩

theorem assemble_eq_ok {a a' : Assembly} (h : assemble.effect a = (.ok (), a')) :
    ∃ cs, Encodes a.symbols a.base a.mnemonics cs ∧
      a' = { a with encoded := cs.map fun c => c.encoding.binary } := by
  obtain ⟨⟨⟩, a₁, hnote, hbody⟩ := Action.effect_bind_eq_ok.mp h
  obtain ⟨a₂, a₃, hget, hbody⟩ := Action.effect_bind_eq_ok.mp hbody
  obtain ⟨texts, a₄, hencode, hlast⟩ := Action.effect_bind_eq_ok.mp hbody
  obtain rfl := Action.effect_note_eq_ok.mp hnote
  obtain ⟨rfl, rfl⟩ := Action.effect_get_eq_ok.mp hget
  rw [effect_translate] at hencode
  obtain ⟨hmap, rfl⟩ := Prod.mk.inj hencode
  obtain ⟨calls, hcalls, rfl⟩ := Except.map_eq_ok.mp hmap
  obtain ⟨cs, hcs, rfl⟩ := encodes_of_lineCalls hcalls
  refine ⟨cs, hcs, ?_⟩
  split at hlast
  · simp at hlast
  · rw [Action.effect_modify_eq_ok.mp hlast, List.map_map]
    rfl

end Assembly

end RvToolkit
