import RvToolkit.Assembly.Basic
import RvToolkit.Proofs.Evaluator

namespace RvToolkit

namespace Assoc

variable {α β : Type} [DecidableEq α]

theorem get?_insert_self (k : α) (v : β) (es : Assoc α β) : get? k (insert k v es) = some v := by
  induction es with
  | nil => simp [insert, get?]
  | cons e es ih =>
      obtain ⟨a, b⟩ := e
      by_cases ha : a = k
      · simp [insert, get?, ha]
      · simp [insert, get?, ha, ih]

theorem get?_insert_of_ne {a k : α} (h : a ≠ k) (v : β) (es : Assoc α β) :
    get? a (insert k v es) = get? a es := by
  induction es with
  | nil => simp [insert, get?, Ne.symm h]
  | cons e es ih =>
      obtain ⟨c, b⟩ := e
      by_cases hc : c = k
      · subst hc
        simp [insert, get?, Ne.symm h]
      · by_cases hca : c = a
        · subst hca
          simp [insert, get?, hc]
        · simp [insert, get?, hc, hca, ih]

end Assoc

namespace Assembly

def insideAfterLine (inside : Bool) (line : Text) : Bool :=
  if inside then !Line.isMacroEnd (withoutComment line)
  else
    match Line.classify (withoutComment line) with
    | .macroStart .. => true
    | _ => false

def insideAfter (lines : List Text) : Bool := lines.foldl insideAfterLine false

/-- The line at an index, if it stands outside the macro definitions. -/
def lineAt? (lines : List Text) (i : Nat) : Option Line :=
  if insideAfter (lines.take i) then none
  else lines[i]?.map fun line => Line.classify (withoutComment line)

/-- The symbol that a line sets: a label, or a constant. -/
def Line.symbol? : Line → Option Text
  | .label name => some name
  | .directive name args =>
      if name = "equ".toList then
        match args.splitOn ',' with
        | [constant, _] => some (Text.lower (Text.trim constant))
        | _ => none
      else none
  | _ => none

theorem insideAfter_append (lines : List Text) (line : Text) :
    insideAfter (lines ++ [line]) = insideAfterLine (insideAfter lines) line := by
  simp [insideAfter]

theorem lineAt?_append_of_lt {lines : List Text} {i : Nat} (hi : i < lines.length) (line : Text) :
    lineAt? (lines ++ [line]) i = lineAt? lines i := by
  unfold lineAt?
  rw [List.take_append_of_le_length (by omega), List.getElem?_append_left hi]

theorem lineAt?_append_cons (lines : List Text) (line : Text) (rest : List Text) :
    lineAt? (lines ++ line :: rest) lines.length =
      if insideAfter lines then none else some (Line.classify (withoutComment line)) := by
  unfold lineAt?
  rw [List.take_left, List.getElem?_append_right (Nat.le_refl _), Nat.sub_self]
  rfl

theorem lt_length_of_lineAt? {lines : List Text} {i : Nat} {l : Line} (h : lineAt? lines i = some l) :
    i < lines.length := by
  unfold lineAt? at h
  split at h
  · simp at h
  · obtain ⟨line, hline, -⟩ := Option.map_eq_some_iff.mp h
    exact (List.getElem?_eq_some_iff.mp hline).1

theorem lineAt?_of_length_le {lines : List Text} {i : Nat} (hi : lines.length ≤ i) :
    lineAt? lines i = none := by
  simp [lineAt?, List.getElem?_eq_none hi]

theorem addInstruction_eq_ok {index : Nat} {line : Text} {s s' : Assembly}
    (h : (addInstruction index line).effect s = (.ok (), s')) :
    isInstruction line = .ok true ∧ s' = { s with
      indices := s.indices ++ [index]
      mnemonics := s.mnemonics ++ [Text.trim (Text.squeeze line)] } := by
  unfold addInstruction at h
  obtain ⟨b, s₁, hb, h⟩ := Action.effect_bind_eq_ok.mp h
  obtain ⟨hline, rfl⟩ := Action.effect_ofExcept_eq_ok.mp hb
  cases b with
  | true => exact ⟨hline, Action.effect_modify_eq_ok.mp h⟩
  | false => simp at h

theorem forEach_addInstruction_eq_ok {index : Nat} {lines : List Text} {s s' : Assembly}
    (h : (Action.forEach (addInstruction index) lines).effect s = (.ok (), s')) :
    (∀ l ∈ lines, isInstruction l = .ok true) ∧ s' = { s with
      indices := s.indices ++ List.replicate lines.length index
      mnemonics := s.mnemonics ++ lines.map fun line => Text.trim (Text.squeeze line) } := by
  induction lines generalizing s with
  | nil =>
      obtain ⟨-, rfl⟩ := Action.effect_pure_eq_ok.mp h
      exact ⟨List.forall_mem_nil _, by simp⟩
  | cons line lines ih =>
      obtain ⟨⟨⟩, s₁, hline, hrest⟩ := Action.effect_bind_eq_ok.mp h
      obtain ⟨hfirst, rfl⟩ := addInstruction_eq_ok hline
      obtain ⟨hothers, rfl⟩ := ih hrest
      refine ⟨?_, by simp [List.replicate_succ]⟩
      intro l hl
      rcases List.mem_cons.mp hl with rfl | hl
      · exact hfirst
      · exact hothers l hl

section Constants

variable [Evaluator] [Evaluator.Textual]

theorem effect_define (name value : Text) (s : Assembly) :
    (define name value).effect s = match Evaluator.constantOf value with
      | .error e => (.error e, s)
      | .ok v => ((Evaluator.display v).map fun _ => (), { s with symbols := s.symbols.insert name v }) := by
  -- The symbol is set before its value is shown, and stays set when that fails.
  rw [define, Action.effect_bind, Evaluator.effect_constantValue]
  cases Evaluator.constantOf value with
  | error e => rfl
  | ok v =>
      dsimp only
      rw [Action.effect_bind_of_ok (Action.effect_modify ..), Action.effect_bind, Action.effect_ofExcept]
      cases Evaluator.display v with
      | error e => rfl
      | ok shown => rfl

theorem directive_eq_ok {name args : Text} {s s' : Assembly}
    (h : (directive name args).effect s = (.ok (), s')) :
    (name ≠ "equ".toList ∧ s' = s) ∨ ∃ constant value v, name = "equ".toList ∧
      args.splitOn ',' = [constant, value] ∧ Evaluator.constantOf (Text.trim value) = .ok v ∧
      s' = { s with symbols := s.symbols.insert (Text.lower (Text.trim constant)) v } := by
  by_cases hname : name = "equ".toList
  · rw [directive, if_pos hname] at h
    unfold equate at h
    split at h
    · rename_i constant value hsplit
      rw [Action.effect_handle, effect_define] at h
      cases hvalue : Evaluator.constantOf (Text.trim value) with
      | error e => simp [hvalue] at h
      | ok v =>
          rw [hvalue] at h
          cases hshown : Evaluator.display v with
          | error e => simp [hshown, Except.map] at h
          | ok shown =>
              simp only [hshown, Except.map, Prod.mk.injEq, true_and] at h
              exact .inr ⟨constant, value, v, hname, hsplit, hvalue, h.symm⟩
    · simp at h
  · rw [directive, if_neg hname] at h
    exact .inl ⟨hname, (Action.effect_pure_eq_ok.mp h).2⟩

end Constants

/-- What one line can do to the reader and to the program. -/
inductive LineStep [Evaluator] (index : Nat)
    (line : Text) : Reader → Assembly → Reader → Assembly → Prop where
  | skip {m : OpenMacro} {r : Reader} {s : Assembly} (hr : r.inside = some m)
      (hempty : withoutComment line = []) : LineStep index line r s r s
  | close {m : OpenMacro} {r : Reader} {s : Assembly} (hr : r.inside = some m)
      (hend : Line.isMacroEnd (withoutComment line) = true) :
      LineStep index line r s { r with inside := none }
        { s with macros := s.macros.insert m.name ⟨m.args, m.body.reverse⟩ }
  | keep {m : OpenMacro} {r : Reader} {s : Assembly} (hr : r.inside = some m)
      (hne : withoutComment line ≠ []) (hend : Line.isMacroEnd (withoutComment line) = false) :
      LineStep index line r s { r with inside := some { m with body := withoutComment line :: m.body } } s
  | blank {r : Reader} {s : Assembly} (hr : r.inside = none)
      (hclass : Line.classify (withoutComment line) = .blank) : LineStep index line r s r s
  | macroStart {r : Reader} {s : Assembly} {name : Text} {args : List Text} (hr : r.inside = none)
      (hclass : Line.classify (withoutComment line) = .macroStart name args) :
      LineStep index line r s { r with inside := some ⟨name, args, []⟩ } s
  | directive {r : Reader} {s : Assembly} {name args : Text} (hr : r.inside = none)
      (hclass : Line.classify (withoutComment line) = .directive name args)
      (hname : name ≠ "equ".toList) : LineStep index line r s r s
  | constant {r : Reader} {s : Assembly} {args name value : Text} {v : Value} (hr : r.inside = none)
      (hclass : Line.classify (withoutComment line) = .directive "equ".toList args)
      (hargs : args.splitOn ',' = [name, value]) (hvalue : Evaluator.constantOf (Text.trim value) = .ok v) :
      LineStep index line r s r { s with symbols := s.symbols.insert (Text.lower (Text.trim name)) v }
  | label {r : Reader} {s : Assembly} {name : Text} (hr : r.inside = none)
      (hclass : Line.classify (withoutComment line) = .label name) :
      LineStep index line r s r { s with symbols := s.symbols.insert name (.int (s.base + 4 * r.count)) }
  | code {r : Reader} {s : Assembly} {text : Text} {lines : List Text} (hr : r.inside = none)
      (hclass : Line.classify (withoutComment line) = .code text)
      (hlines : (expand s text).splitOn '\n' = lines)
      (haccepted : ∀ l ∈ lines, isInstruction l = .ok true) :
      LineStep index line r s ⟨none, r.count + lines.length⟩
        { s with
          indices := s.indices ++ List.replicate lines.length index
          mnemonics := s.mnemonics ++ lines.map fun l => Text.trim (Text.squeeze l) }

theorem readLine_step [Evaluator] [Evaluator.Textual] {index : Nat} {line : Text} {r r' : Reader}
    {s s' : Assembly}
    (h : (readLine index r line).effect s = (.ok r', s')) : LineStep index line r s r' s' := by
  unfold readLine at h
  cases hr : r.inside with
  | some m =>
      simp only [hr, readInside] at h
      split at h
      · rename_i hempty
        obtain ⟨rfl, rfl⟩ := Action.effect_pure_eq_ok.mp h
        exact .skip hr (List.isEmpty_iff.mp hempty)
      · rename_i hempty
        split at h
        · rename_i hend
          obtain ⟨⟨⟩, s₁, hset, hreader⟩ := Action.effect_bind_eq_ok.mp h
          obtain rfl := Action.effect_modify_eq_ok.mp hset
          obtain ⟨rfl, rfl⟩ := Action.effect_pure_eq_ok.mp hreader
          exact .close hr hend
        · rename_i hend
          obtain ⟨rfl, rfl⟩ := Action.effect_pure_eq_ok.mp h
          exact .keep hr (by simpa using hempty) (Bool.eq_false_iff.mpr hend)
  | none =>
      simp only [hr, readOutside] at h
      split at h <;> rename_i hclass
      · obtain ⟨rfl, rfl⟩ := Action.effect_pure_eq_ok.mp h
        exact .blank hr hclass
      · obtain ⟨rfl, rfl⟩ := Action.effect_pure_eq_ok.mp h
        exact .macroStart hr hclass
      · obtain ⟨⟨⟩, s₁, hset, hreader⟩ := Action.effect_bind_eq_ok.mp h
        obtain ⟨rfl, rfl⟩ := Action.effect_pure_eq_ok.mp hreader
        rcases directive_eq_ok hset with ⟨hname, rfl⟩ | ⟨constant, value, v, rfl, hargs, hvalue, rfl⟩
        · exact .directive hr hclass hname
        · exact .constant hr hclass hargs hvalue
      · obtain ⟨⟨⟩, s₁, hset, hreader⟩ := Action.effect_bind_eq_ok.mp h
        obtain rfl := Action.effect_modify_eq_ok.mp hset
        obtain ⟨rfl, rfl⟩ := Action.effect_pure_eq_ok.mp hreader
        exact .label hr hclass
      · obtain ⟨a, s₁, hget, hcode⟩ := Action.effect_bind_eq_ok.mp h
        obtain ⟨ha, hs₁⟩ := Action.effect_get_eq_ok.mp hget
        rw [ha, hs₁] at hcode
        obtain ⟨⟨⟩, s₂, hadd, hreader⟩ := Action.effect_bind_eq_ok.mp hcode
        obtain ⟨rfl, rfl⟩ := Action.effect_pure_eq_ok.mp hreader
        obtain ⟨haccepted, rfl⟩ := forEach_addInstruction_eq_ok hadd
        exact .code hr hclass rfl haccepted

theorem readLine_inside [Evaluator] {index : Nat} {line : Text} {r r' : Reader} {s s' : Assembly}
    (h : (readLine index r line).effect s = (.ok r', s')) :
    r'.inside.isSome = insideAfterLine r.inside.isSome line := by
  unfold readLine at h
  cases hr : r.inside with
  | some m =>
      simp only [hr, readInside] at h
      split at h
      · rename_i hempty
        obtain ⟨rfl, -⟩ := Action.effect_pure_eq_ok.mp h
        simp [insideAfterLine, hr, List.isEmpty_iff.mp hempty, Line.isMacroEnd]
      · split at h
        · rename_i hend
          obtain ⟨⟨⟩, s₁, -, hreader⟩ := Action.effect_bind_eq_ok.mp h
          obtain ⟨rfl, -⟩ := Action.effect_pure_eq_ok.mp hreader
          simp [insideAfterLine, hend]
        · rename_i hend
          obtain ⟨rfl, -⟩ := Action.effect_pure_eq_ok.mp h
          simp [insideAfterLine, hend]
  | none =>
      simp only [hr, readOutside] at h
      split at h <;> rename_i hclass
      · obtain ⟨rfl, -⟩ := Action.effect_pure_eq_ok.mp h
        simp [insideAfterLine, hr, hclass]
      · obtain ⟨rfl, -⟩ := Action.effect_pure_eq_ok.mp h
        simp [insideAfterLine, hclass]
      · obtain ⟨⟨⟩, s₁, -, hreader⟩ := Action.effect_bind_eq_ok.mp h
        obtain ⟨rfl, -⟩ := Action.effect_pure_eq_ok.mp hreader
        simp [insideAfterLine, hr, hclass]
      · obtain ⟨⟨⟩, s₁, -, hreader⟩ := Action.effect_bind_eq_ok.mp h
        obtain ⟨rfl, -⟩ := Action.effect_pure_eq_ok.mp hreader
        simp [insideAfterLine, hr, hclass]
      · obtain ⟨a, s₁, -, hcode⟩ := Action.effect_bind_eq_ok.mp h
        obtain ⟨⟨⟩, s₂, -, hreader⟩ := Action.effect_bind_eq_ok.mp hcode
        obtain ⟨rfl, -⟩ := Action.effect_pure_eq_ok.mp hreader
        simp [insideAfterLine, hclass]

/-- What one line does to symbols and addresses: it adds instructions of its index, and it sets no
symbol but its own. -/
structure LineRead (index : Nat) (line : Text) (r : Reader) (s : Assembly) (r' : Reader) (s' : Assembly) :
    Prop where
  base : s'.base = s.base
  inside : r'.inside.isSome = insideAfterLine r.inside.isSome line
  added : ∃ n, r'.count = r.count + n ∧ s'.indices = s.indices ++ List.replicate n index
  kept : ∀ name, r.inside.isSome = true ∨ (Line.classify (withoutComment line)).symbol? ≠ some name →
    s'.symbols.get? name = s.symbols.get? name
  label : ∀ name, r.inside.isSome = false → Line.classify (withoutComment line) = .label name →
    s'.indices = s.indices ∧ s'.symbols.get? name = some (.int (s.base + 4 * r.count))

theorem readLine_lineRead [Evaluator] [Evaluator.Textual] {index : Nat} {line : Text} {r r' : Reader}
    {s s' : Assembly}
    (h : (readLine index r line).effect s = (.ok r', s')) : LineRead index line r s r' s' := by
  have hinside := readLine_inside h
  cases readLine_step h with
  | skip hr hempty =>
      exact ⟨rfl, hinside, ⟨0, rfl, by simp⟩,
        fun _ _ => rfl, fun _ hout => by simp [hr] at hout⟩
  | close hr hend =>
      exact ⟨rfl, hinside, ⟨0, rfl, by simp⟩, fun _ _ => rfl,
        fun _ hout => by simp [hr] at hout⟩
  | keep hr _ hend =>
      exact ⟨rfl, hinside, ⟨0, rfl, by simp⟩, fun _ _ => rfl,
        fun _ hout => by simp [hr] at hout⟩
  | blank hr hclass | macroStart hr hclass | directive hr hclass =>
      exact ⟨rfl, hinside, ⟨0, rfl, by simp⟩, fun _ _ => rfl,
        fun _ _ hlabel => by simp [hclass] at hlabel⟩
  | @constant _ _ _ name _ _ hr hclass hargs _ =>
      refine ⟨rfl, hinside, ⟨0, rfl, by simp⟩, ?_,
        fun _ _ hlabel => by simp [hclass] at hlabel⟩
      rintro symbol (hout | hsymbol)
      · simp [hr] at hout
      · apply Assoc.get?_insert_of_ne
        rintro rfl
        exact hsymbol (by simp [Line.symbol?, hclass, hargs])
  | @label _ _ name hr hclass =>
      refine ⟨rfl, hinside, ⟨0, rfl, by simp⟩, ?_, ?_⟩
      · rintro symbol (hout | hsymbol)
        · simp [hr] at hout
        · apply Assoc.get?_insert_of_ne
          rintro rfl
          exact hsymbol (by simp [Line.symbol?, hclass])
      · intro symbol _ hlabel
        obtain rfl : name = symbol := by simpa [hclass] using hlabel
        exact ⟨rfl, Assoc.get?_insert_self _ _ _⟩
  | code hr hclass hlines _ =>
      exact ⟨rfl, hinside, ⟨_, rfl, rfl⟩, fun _ _ => rfl,
        fun _ _ hlabel => by simp [hclass] at hlabel⟩

/-- Address of the first instruction that comes from a line or from one after it. -/
def addressOfLine (a : Assembly) (i : Nat) : Int := a.base + 4 * a.indices.countP (· < i)

/-- What holds after some lines have been read. A label that no later line sets anew stands for the
address of its line. -/
structure Reached (base : Int) (lines : List Text) (r : Reader) (s : Assembly) : Prop where
  base_eq : s.base = base
  count_eq : r.count = s.indices.length
  indices_lt : ∀ i ∈ s.indices, i < lines.length
  inside_eq : r.inside.isSome = insideAfter lines
  label_eq : ∀ name i, lineAt? lines i = some (.label name) →
    (∀ j, i < j → (lineAt? lines j).bind Line.symbol? ≠ some name) →
    s.symbols.get? name = some (.int (addressOfLine s i))

theorem reached_nil (s : Assembly) (hindices : s.indices = []) : Reached s.base [] {} s := by
  refine ⟨rfl, by rw [hindices]; rfl, by simp [hindices], rfl, ?_⟩
  intro name i hlabel
  exact absurd (lt_length_of_lineAt? hlabel) (Nat.not_lt_zero i)

theorem countP_append_replicate {indices : List Nat} {i n index : Nat} (h : i ≤ index) :
    (indices ++ List.replicate n index).countP (· < i) = indices.countP (· < i) := by
  have hnone : (List.replicate n index).countP (· < i) = 0 := by
    rw [List.countP_eq_zero]
    intro j hj
    have := (List.mem_replicate.mp hj).2
    simpa using (by omega : i ≤ j)
  rw [List.countP_append, hnone, Nat.add_zero]

section Step

variable {base : Int} {lines : List Text} {line name : Text} {r r' : Reader} {s s' : Assembly}

theorem Reached.label_of_new (hs : Reached base lines r s) (h : LineRead lines.length line r s r' s')
    (hlabel : lineAt? (lines ++ [line]) lines.length = some (.label name)) :
    s'.symbols.get? name = some (.int (addressOfLine s' lines.length)) := by
  rw [lineAt?_append_cons] at hlabel
  have hout : insideAfter lines = false := by
    cases hin : insideAfter lines with
    | true => simp [hin] at hlabel
    | false => rfl
  rw [hout] at hlabel
  obtain ⟨hsame, hvalue⟩ := h.label name (by rw [hs.inside_eq, hout]) (by simpa using hlabel)
  -- all instructions so far stand before the new line
  have hall : s.indices.countP (· < lines.length) = s.indices.length := by
    rw [List.countP_eq_length]
    simpa using hs.indices_lt
  rw [hvalue, addressOfLine, h.base, hsame, hall, hs.count_eq]

theorem Reached.label_of_old (hs : Reached base lines r s) (h : LineRead lines.length line r s r' s')
    {i : Nat} (hi : i < lines.length) (hlabel : lineAt? lines i = some (.label name))
    (hlast : ∀ j, i < j → (lineAt? (lines ++ [line]) j).bind Line.symbol? ≠ some name) :
    s'.symbols.get? name = some (.int (addressOfLine s' i)) := by
  obtain ⟨n, -, hindices⟩ := h.added
  have hkept : s'.symbols.get? name = s.symbols.get? name := by
    refine h.kept name ?_
    by_cases hin : insideAfter lines = true
    · exact .inl (by rw [hs.inside_eq, hin])
    · have hnext := hlast lines.length hi
      rw [lineAt?_append_cons, if_neg hin] at hnext
      exact .inr hnext
  have hlast' : ∀ j, i < j → (lineAt? lines j).bind Line.symbol? ≠ some name := by
    intro j hj
    by_cases hjl : j < lines.length
    · rw [← lineAt?_append_of_lt hjl line]
      exact hlast j hj
    · simp [lineAt?_of_length_le (by omega : lines.length ≤ j)]
  rw [hkept, hs.label_eq name i hlabel hlast', addressOfLine, addressOfLine, h.base, hindices,
    countP_append_replicate (by omega)]

theorem Reached.step (hs : Reached base lines r s) (h : LineRead lines.length line r s r' s') :
    Reached base (lines ++ [line]) r' s' := by
  obtain ⟨n, hcount, hindices⟩ := h.added
  refine ⟨by rw [h.base, hs.base_eq], ?_, ?_, ?_, ?_⟩
  · rw [hcount, hs.count_eq, hindices, List.length_append, List.length_replicate]
  · intro i hi
    rw [List.length_append, List.length_singleton]
    rw [hindices] at hi
    rcases List.mem_append.mp hi with hi | hi
    · have := hs.indices_lt i hi
      omega
    · have := (List.mem_replicate.mp hi).2
      omega
  · rw [h.inside, hs.inside_eq, insideAfter_append]
  · intro name i hlabel hlast
    have hi := lt_length_of_lineAt? hlabel
    rw [List.length_append, List.length_singleton] at hi
    by_cases hnew : i = lines.length
    · subst hnew
      exact hs.label_of_new h hlabel
    · have hold : i < lines.length := by omega
      rw [lineAt?_append_of_lt hold] at hlabel
      exact hs.label_of_old h hold hlabel hlast

end Step

theorem readLines_reached [Evaluator] [Evaluator.Textual] {base : Int} {lines rest : List Text}
    {r r' : Reader} {s s' : Assembly}
    (hs : Reached base lines r s) (h : (readLines lines.length r rest).effect s = (.ok r', s')) :
    Reached base (lines ++ rest) r' s' := by
  induction rest generalizing lines r s with
  | nil =>
      obtain ⟨rfl, rfl⟩ := Action.effect_pure_eq_ok.mp h
      rwa [List.append_nil]
  | cons line rest ih =>
      obtain ⟨r₁, s₁, hline, hrest⟩ := Action.effect_bind_eq_ok.mp h
      have hs₁ := hs.step (readLine_lineRead hline)
      have hlength : (lines ++ [line]).length = lines.length + 1 := List.length_append
      have hfinal := ih hs₁ (by rw [hlength]; exact hrest)
      rwa [List.append_assoc] at hfinal

theorem read_eq_ok [Evaluator] {text : Text} {s a : Assembly} :
    (read text).effect s = (.ok (), a) ↔
      ∃ r, (readLines 0 {} (Text.lines text)).effect { s with lines := Text.lines text } = (.ok r, a) := by
  constructor
  · intro h
    obtain ⟨⟨⟩, s₁, hset, h⟩ := Action.effect_bind_eq_ok.mp h
    obtain rfl := Action.effect_modify_eq_ok.mp hset
    obtain ⟨r, s₂, hlines, hnote⟩ := Action.effect_bind_eq_ok.mp h
    obtain rfl := Action.effect_note_eq_ok.mp hnote
    exact ⟨r, hlines⟩
  · rintro ⟨r, hlines⟩
    exact Action.effect_bind_eq_ok.mpr ⟨(), _, rfl, Action.effect_bind_eq_ok.mpr ⟨r, a, hlines, rfl⟩⟩

theorem read_reached [Evaluator] [Evaluator.Textual] {text : Text} {s a : Assembly}
    (hindices : s.indices = [])
    (h : (read text).effect s = (.ok (), a)) : ∃ r, Reached s.base (Text.lines text) r a := by
  obtain ⟨r, hlines⟩ := read_eq_ok.mp h
  refine ⟨r, ?_⟩
  exact readLines_reached (reached_nil { s with lines := Text.lines text } hindices) hlines

end Assembly

end RvToolkit
