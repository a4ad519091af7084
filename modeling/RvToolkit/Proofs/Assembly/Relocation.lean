import RvToolkit.Proofs.Assembly.Reading
import RvToolkit.Proofs.Assembly.Steps

namespace RvToolkit

namespace Action

variable {ι τ σ α β : Type} {view : ι → τ → σ} {p : τ}

/-- The action does the same on all the views of a state. -/
def Uniform (view : ι → τ → σ) (x : Action σ α) (p : τ) : Prop :=
  ∃ r p', ∀ i, x.effect (view i p) = (r, view i p')

theorem uniform_pure (a : α) : Uniform view (pure a : Action σ α) p := ⟨.ok a, p, fun _ => rfl⟩

theorem uniform_fail (e : Fault) : Uniform view (fail e : Action σ α) p := ⟨.error e, p, fun _ => rfl⟩

theorem uniform_ofExcept (r : Except Fault α) : Uniform view (ofExcept r) p := ⟨r, p, fun _ => rfl⟩

theorem uniform_note (l : Level) (t : Text) : Uniform view (note l t) p := ⟨.ok (), p, fun _ => rfl⟩

theorem uniform_modify {f : σ → σ} (p' : τ) (h : ∀ i, f (view i p) = view i p') :
    Uniform view (modify f) p := by
  refine ⟨.ok (), p', ?_⟩
  intro i
  rw [effect_modify, h]

theorem Uniform.bind {x : Action σ α} {f : α → Action σ β} (hx : Uniform view x p)
    (hf : ∀ a p', (∀ i, x.effect (view i p) = (.ok a, view i p')) → Uniform view (f a) p') :
    Uniform view (x >>= f) p := by
  obtain ⟨r, p', hr⟩ := hx
  cases r with
  | error e => exact ⟨.error e, p', fun i => effect_bind_of_error (hr i) f⟩
  | ok a =>
      obtain ⟨r', p'', hr'⟩ := hf a p' hr
      refine ⟨r', p'', ?_⟩
      intro i
      rw [effect_bind_of_ok (hr i), hr']

theorem uniform_get_bind {f : σ → Action σ β} {y : Action σ β}
    (hf : ∀ i, (f (view i p)).effect (view i p) = y.effect (view i p))
    (hy : Uniform view y p) : Uniform view (get >>= f) p := by
  obtain ⟨r, p', hr⟩ := hy
  refine ⟨r, p', ?_⟩
  intro i
  rw [effect_bind_of_ok (effect_get _), hf, hr]

theorem uniform_forEach {f : α → Action σ Unit} (hf : ∀ a p, Uniform view (f a) p) (as : List α) :
    Uniform view (forEach f as) p := by
  induction as generalizing p with
  | nil => exact uniform_pure ()
  | cons a as ih =>
      apply (hf a p).bind
      intro _ p' _
      exact ih

end Action

theorem Assoc.insert_map {α β γ : Type} [DecidableEq α] (g : β → γ) (k : α) (v : β) (es : Assoc α β) :
    insert k (g v) (es.map fun p => (p.1, g p.2)) = (insert k v es).map fun p => (p.1, g p.2) := by
  induction es with
  | nil => rfl
  | cons e es ih =>
      obtain ⟨a, b⟩ := e
      by_cases ha : a = k
      · simp [insert, ha]
      · simpa [insert, ha] using ih

namespace Assembly

open RvToolkit.Action

def SymbolTable.ofLabels (base : Int) (labels : Assoc Text Nat) : SymbolTable :=
  labels.map fun p => (p.1, .int (base + 4 * p.2))

/-- A program that has no address yet. -/
structure Unplaced where
  lines : List Text := []
  indices : List Nat := []
  mnemonics : List Text := []
  labels : Assoc Text Nat := []
  encoded : List Text := []
  macros : Assoc Text Macro := []

def Unplaced.at (base : Int) (p : Unplaced) : Assembly :=
  ⟨base, p.lines, p.indices, p.mnemonics, .ofLabels base p.labels, p.encoded, p.macros⟩

def Line.isConstant : Line → Bool
  | .directive name _ => name = "equ".toList
  | _ => false

/-- No line outside the macro definitions sets a constant. -/
def Constantless (lines : List Text) : Prop := ∀ i l, lineAt? lines i = some l → l.isConstant = false

section Reading

variable {p : Unplaced} {r : Reader} {line : Text}

theorem uniform_addInstruction (index : Nat) (line : Text) (p : Unplaced) :
    Uniform Unplaced.at (addInstruction index line) p := by
  apply (uniform_ofExcept _).bind
  intro accepted p' _
  cases accepted with
  | false => exact uniform_fail _
  | true =>
      let added : Unplaced := { p' with
        indices := p'.indices ++ [index]
        mnemonics := p'.mnemonics ++ [Text.trim (Text.squeeze line)] }
      exact uniform_modify added fun _ => rfl

theorem uniform_readInside (m : OpenMacro) : Uniform Unplaced.at (readInside m r line) p := by
  by_cases hempty : line.isEmpty = true
  · rw [readInside, if_pos hempty]
    exact uniform_pure r
  · by_cases hend : Line.isMacroEnd line = true
    · rw [readInside, if_neg hempty, if_pos hend]
      let closed : Unplaced := { p with macros := p.macros.insert m.name ⟨m.args, m.body.reverse⟩ }
      apply (uniform_modify closed fun _ => rfl).bind
      intro _ p' _
      exact uniform_pure _
    · rw [readInside, if_neg hempty, if_neg hend]
      exact uniform_pure _

theorem uniform_label (name : Text) (count : Nat) :
    Uniform Unplaced.at
      (modify fun a => { a with symbols := a.symbols.insert name (.int (a.base + 4 * count)) }) p := by
  apply uniform_modify { p with labels := p.labels.insert name count }
  intro base
  have hlabel := Assoc.insert_map (fun k : Nat => Value.int (base + 4 * k)) name count p.labels
  simp only [Unplaced.at, SymbolTable.ofLabels]
  rw [hlabel]

theorem uniform_readOutside [Evaluator] (index : Nat)
    (hconstant : (Line.classify line).isConstant = false) :
    Uniform Unplaced.at (readOutside index r line) p := by
  cases hclass : Line.classify line with
  | blank =>
      simp only [readOutside, hclass]
      exact uniform_pure r
  | macroStart name args =>
      simp only [readOutside, hclass]
      exact uniform_pure _
  | directive name args =>
      -- a directive that sets no constant does nothing
      have hname : name ≠ "equ".toList := by simpa [hclass, Line.isConstant] using hconstant
      simp only [readOutside, hclass, directive, if_neg hname]
      apply (uniform_pure ()).bind
      intro _ p' _
      exact uniform_pure r
  | label name =>
      simp only [readOutside, hclass]
      apply (uniform_label name r.count).bind
      intro _ p' _
      exact uniform_pure r
  | code text =>
      simp only [readOutside, hclass]
      -- the macros of a program do not depend on its address
      have hexpand (base : Int) : expand (p.at base) text = expand (p.at 0) text := rfl
      refine uniform_get_bind (fun base => by rw [hexpand]) ?_
      apply (uniform_forEach (uniform_addInstruction index) _).bind
      intro _ p' _
      exact uniform_pure _

end Reading

theorem uniform_readLines [Evaluator] (lines : List Text) {rest : List Text} {p : Unplaced} {r : Reader}
    {index : Nat}
    (hconstant : Constantless (lines ++ rest)) (hinside : r.inside.isSome = insideAfter lines) :
    Uniform Unplaced.at (readLines index r rest) p := by
  induction rest generalizing p r lines index with
  | nil => exact uniform_pure r
  | cons line rest ih =>
      have hline : Uniform Unplaced.at (readLine index r line) p := by
        unfold readLine
        cases hr : r.inside with
        | some m => exact uniform_readInside m
        | none =>
            apply uniform_readOutside index
            apply hconstant lines.length
            rw [lineAt?_append_cons, ← hinside, hr]
            rfl
      apply hline.bind
      intro r' p' hr'
      rw [← List.singleton_append, ← List.append_assoc] at hconstant
      apply ih (lines ++ [line]) hconstant
      rw [readLine_inside (hr' 0), hinside, insideAfter_append]

theorem exists_unplaced [Evaluator] {text : Text} (h : Constantless (Text.lines text)) :
    ∃ r, ∃ p : Unplaced, ∀ base,
      (ofText text base).result = r ∧ (ofText text base).state = p.at base := by
  have hread : Uniform Unplaced.at (read text) {} := by
    apply (uniform_modify { lines := Text.lines text } fun _ => rfl).bind
    intro _ p' _
    apply (uniform_readLines [] h rfl).bind
    intro r p'' _
    exact ⟨.ok (), p'', fun _ => rfl⟩
  obtain ⟨r, p, hp⟩ := hread
  refine ⟨r, p, ?_⟩
  intro base
  exact Prod.mk.inj (hp base)

section Encoding

variable [Evaluator] (base : Int) (labels : Assoc Text Nat)

theorem link_ofLabels (pc : Int) (t : Text) :
    (SymbolTable.ofLabels base labels).link (base + pc) t = (SymbolTable.ofLabels 0 labels).link pc t := by
  induction labels generalizing t with
  | nil => rfl
  | cons e labels ih =>
      obtain ⟨name, k⟩ := e
      have hshown : SymbolTable.relative (base + pc) (.int (base + 4 * k)) =
          SymbolTable.relative pc (.int (0 + 4 * k)) := by
        have hdistance : base + 4 * (k : Int) - (base + pc) = 0 + 4 * k - pc := by omega
        rw [SymbolTable.relative_int, SymbolTable.relative_int, hdistance]
      change SymbolTable.link _ ((name, .int (base + 4 * k)) :: SymbolTable.ofLabels base labels) t =
        SymbolTable.link _ ((name, .int (0 + 4 * k)) :: SymbolTable.ofLabels 0 labels) t
      simp only [SymbolTable.link, hshown, ih]

theorem lineCall_ofLabels (pc : Int) (line : Text) :
    lineCall (.ofLabels base labels) (base + pc) line = lineCall (.ofLabels 0 labels) pc line := by
  have hoperand : resolveOperand (.ofLabels base labels) (base + pc) =
      resolveOperand (.ofLabels 0 labels) pc := by
    funext t
    rw [resolveOperand, resolveOperand, link_ofLabels]
  have hoperands (ts : List Text) : resolveOperands (.ofLabels base labels) (base + pc) ts =
      resolveOperands (.ofLabels 0 labels) pc ts := by
    cases ts with
    | nil => rfl
    | cons op args => rw [resolveOperands, resolveOperands, hoperand]
  rw [lineCall, lineCall, hoperands]

theorem lineCalls_ofLabels (pc : Int) (lines : List Text) :
    lineCalls (.ofLabels base labels) (base + pc) lines = lineCalls (.ofLabels 0 labels) pc lines := by
  induction lines generalizing pc with
  | nil => rfl
  | cons line lines ih => rw [lineCalls, lineCalls, lineCall_ofLabels, Int.add_assoc, ih]

end Encoding

/-- Moves the instructions of a program. -/
def moved (d : Int) (ss : Assoc Int Step) : Assoc Int Step := ss.map fun p => (p.1 + d, p.2)

theorem moved_moved (d e : Int) (ss : Assoc Int Step) : moved d (moved e ss) = moved (e + d) ss := by
  simp [moved, Int.add_assoc]

theorem moved_byAddress (d pc : Int) (cs : List (Text × Encoded)) :
    moved d (byAddress pc cs) = byAddress (pc + d) cs := by
  induction cs generalizing pc with
  | nil => rfl
  | cons c cs ih =>
      have hnext : pc + 4 + d = pc + d + 4 := by omega
      rw [byAddress, moved, List.map_cons, byAddress, ← hnext, ← ih]
      rfl

section Program

variable [Evaluator] (p : Unplaced)

theorem lineCalls_at (base : Int) :
    lineCalls (p.at base).symbols (p.at base).base (p.at base).mnemonics =
      lineCalls (.ofLabels 0 p.labels) 0 p.mnemonics := by
  rw [← lineCalls_ofLabels base, Int.add_zero]
  rfl

theorem uniform_assemble : Uniform Unplaced.at assemble p := by
  apply (uniform_note _ _).bind
  intro _ p₁ _
  let encoded := (lineCalls (.ofLabels 0 p₁.labels) 0 p₁.mnemonics).map (List.map fun c => c.2.binary)
  refine uniform_get_bind (y := ofExcept encoded >>= fun encoded =>
    if encoded.isEmpty then fail (.parse .nothingEncoded)
    else modify fun a => { a with encoded := encoded }) ?_ ?_
  · intro base
    rw [effect_bind, effect_translate, lineCalls_at, effect_bind, effect_ofExcept]
  · apply (uniform_ofExcept _).bind
    intro encoded p₂ _
    split
    · exact uniform_fail _
    · exact uniform_modify { p₂ with encoded := encoded } fun _ => rfl

theorem steps_at (base : Int) :
    (steps.effect (p.at base)).1 = (steps.effect (p.at 0)).1.map (moved base) := by
  rw [steps, Action.effect_bind_of_ok (Action.effect_get _), Action.effect_bind, effect_interpret, lineCalls_at,
    Action.effect_bind_of_ok (Action.effect_get _), Action.effect_bind, effect_interpret, lineCalls_at]
  cases lineCalls (.ofLabels 0 p.labels) 0 p.mnemonics with
  | error e => rfl
  | ok cs =>
      have hmoved : byAddress base cs = moved base (byAddress 0 cs) := by rw [moved_byAddress, Int.zero_add]
      change ((if (byAddress base cs).isEmpty then _ else pure (byAddress base cs) :
          Action Assembly _).effect _).1 =
        ((if (byAddress 0 cs).isEmpty then _ else pure (byAddress 0 cs) : Action Assembly _).effect _).1.map
          (moved base)
      rw [hmoved]
      cases byAddress 0 cs with
      | nil => rfl
      | cons s ss => rfl

end Program

/-- The encodings of a text that is to stand at an address. -/
def encodings [Evaluator] (text : Text) (base : Int) : Except Fault (List Text) := do
  (ofText text base).result
  (assemble.run (ofText text base).state).result
  return (assemble.run (ofText text base).state).state.encoded

/-- The instructions of a text that is to stand at an address. -/
def instructions [Evaluator] (text : Text) (base : Int) : Except Fault (Assoc Int Step) := do
  (ofText text base).result
  (steps.run (ofText text base).state).result

/-- A text without constants has the same encodings at every address, or fails with the same fault. Its
symbols, in the same order, and its instructions are moved by the distance of the two addresses. -/
theorem encodings_position_independent [Evaluator] {text : Text} (h : Constantless (Text.lines text))
    (b₁ b₂ : Int) :
    encodings text b₂ = encodings text b₁ ∧
    (∃ addresses : Assoc Text Int,
      (ofText text b₁).state.symbols = addresses.map (fun p => (p.1, .int p.2)) ∧
      (ofText text b₂).state.symbols = addresses.map fun p => (p.1, .int (p.2 + (b₂ - b₁)))) ∧
    instructions text b₂ = (instructions text b₁).map (moved (b₂ - b₁)) := by
  obtain ⟨r, p, hp⟩ := exists_unplaced h
  obtain ⟨r', p', hp'⟩ := uniform_assemble p
  refine ⟨?_, ?_, ?_⟩
  · have hall (base : Int) : encodings text base = (do r; r'; return p'.encoded) := by
      have hresult : (assemble.run (p.at base)).result = r' := congrArg Prod.fst (hp' base)
      have hstate : (assemble.run (p.at base)).state = p'.at base := congrArg Prod.snd (hp' base)
      rw [encodings, (hp base).1, (hp base).2, hresult, hstate]
      rfl
    rw [hall, hall]
  · refine ⟨p.labels.map fun q => (q.1, b₁ + 4 * q.2), ?_, ?_⟩
    · rw [(hp b₁).2, List.map_map]
      rfl
    · rw [(hp b₂).2, List.map_map]
      apply List.map_congr_left
      intro q _
      simp only [Function.comp_apply, Prod.mk.injEq, Value.int.injEq, true_and]
      omega
  · have hall (base : Int) : instructions text base =
        r >>= fun _ => (steps.effect (p.at 0)).1.map (moved base) := by
      rw [instructions, (hp base).1, (hp base).2, ← steps_at]
      rfl
    rw [hall, hall]
    rcases r with e | ⟨⟩
    · rfl
    · rcases (steps.effect (p.at 0)).1 with e | ss
      · rfl
      · have hdistance : b₁ + (b₂ - b₁) = b₂ := by omega
        change Except.ok (moved b₂ ss) = .ok (moved (b₂ - b₁) (moved b₁ ss))
        rw [moved_moved, hdistance]

def loop : Text := "start:\n addi x1, x0, 1\n jal x0, start\n".toList

section Loop

open scoped Evaluator.Arithmetic

theorem instructions_loop :
    Constantless (Text.lines loop) ∧
    instructions loop 4096 = .ok [(4096, ⟨"addi".toList, ⟨some [1, 0], some 1⟩⟩),
      (4100, ⟨"jal".toList, ⟨some [0], some (-4)⟩⟩)] := by
  have hconstant : Constantless (Text.lines loop) := by
    have hlines : ∀ i < (Text.lines loop).length, (lineAt? (Text.lines loop) i).all (!·.isConstant) := by
      decide +kernel
    intro i l hl
    have hall := hlines i (lt_length_of_lineAt? hl)
    simpa [hl] using hall
  have hzero : instructions loop 0 = .ok [(0, ⟨"addi".toList, ⟨some [1, 0], some 1⟩⟩),
      (4, ⟨"jal".toList, ⟨some [0], some (-4)⟩⟩)] := Except.eq_ok_of_toOption (by decide +kernel)
  refine ⟨hconstant, ?_⟩
  rw [(encodings_position_independent hconstant 0 4096).2.2, hzero]
  rfl

end Loop

end Assembly

end RvToolkit
