import RvToolkit.Proofs.Assembly.Listing

namespace RvToolkit.Assembly

variable [Evaluator]

def SymbolTable.define (args : Text) (st : SymbolTable) : SymbolTable :=
  match args.splitOn ',' with
  | [name, value] =>
      match Evaluator.constantOf (Text.trim value) with
      | .ok v => st.insert (Text.lower (Text.trim name)) v
      | .error _ => st
  | _ => st

namespace Definitions

def enter (d : Definitions) (address : Int) (line : Text) (st : SymbolTable) : SymbolTable :=
  match d.inside, Line.classify (withoutComment line) with
  | none, .label name => st.insert name (.int address)
  | none, .directive name args => if name = "equ".toList then st.define args else st
  | _, _ => st

/-- The symbols after some lines, of which the first stands after `n` instructions. -/
def symbolsFrom (base : Int) : Definitions → Nat → SymbolTable → List Text → SymbolTable
  | _, _, st, [] => st
  | d, n, st, line :: lines =>
      symbolsFrom base (d.next line) (n + (d.added line).length) (d.enter (base + 4 * n) line st) lines

variable {d : Definitions} {base : Int} {n : Nat} {st : SymbolTable} {line name : Text} {lines : List Text}

theorem symbolsFrom_append (lines rest : List Text) :
    symbolsFrom base d n st (lines ++ rest) =
      symbolsFrom base (d.after lines) (n + (scan added d lines).flatten.length)
        (symbolsFrom base d n st lines) rest := by
  induction lines generalizing d n st with
  | nil => rfl
  | cons line lines ih =>
      rw [List.cons_append, symbolsFrom, ih, scan, List.flatten_cons, List.length_append, Nat.add_assoc]
      rfl

theorem get?_define {args : Text} (h : (Line.directive "equ".toList args).symbol? ≠ some name) :
    (st.define args).get? name = st.get? name := by
  unfold SymbolTable.define
  split
  · rename_i constant value hsplit
    split
    · apply Assoc.get?_insert_of_ne
      rintro rfl
      simp [Line.symbol?, hsplit] at h
    · rfl
  · rfl

theorem get?_enter {address : Int}
    (h : d.inside = none → (Line.classify (withoutComment line)).symbol? ≠ some name) :
    (d.enter address line st).get? name = st.get? name := by
  obtain ⟨inside, macros⟩ := d
  cases inside with
  | some m => rfl
  | none =>
      have hsymbol := h rfl
      cases hclass : Line.classify (withoutComment line) with
      | label label =>
          rw [hclass] at hsymbol
          simp only [enter, hclass]
          apply Assoc.get?_insert_of_ne
          rintro rfl
          exact hsymbol rfl
      | directive directive args =>
          rw [hclass] at hsymbol
          simp only [enter, hclass]
          split
          · rename_i hname
            subst hname
            exact get?_define hsymbol
          · rfl
      | blank | macroStart | code => simp only [enter, hclass]

theorem enter_constant {address : Int} {args left right : Text} {v : Int} (hout : d.inside = none)
    (hclass : Line.classify (withoutComment line) = .directive "equ".toList args)
    (hargs : args.splitOn ',' = [left, right])
    (hvalue : Evaluator.constantOf (Text.trim right) = .ok (.int v)) :
    d.enter address line st = st.insert (Text.lower (Text.trim left)) (.int v) := by
  simp only [enter, SymbolTable.define, hout, hclass, hargs, hvalue, if_true]

theorem get?_symbolsFrom (h : ∀ k line, lines[k]? = some line → (d.after (lines.take k)).inside = none →
      (Line.classify (withoutComment line)).symbol? ≠ some name) :
    (symbolsFrom base d n st lines).get? name = st.get? name := by
  induction lines generalizing d n st with
  | nil => rfl
  | cons line lines ih =>
      rw [symbolsFrom, ih fun k l hl => h (k + 1) l hl]
      exact get?_enter (h 0 line rfl)

end Definitions

theorem readLine_symbols [Evaluator.Textual] {index : Nat} {line : Text} {r r' : Reader} {s s' : Assembly}
    (h : (readLine index r line).effect s = (.ok r', s')) :
    s'.base = s.base ∧ r'.count = r.count + (Definitions.added ⟨r.inside, s.macros⟩ line).length ∧
      s'.symbols = Definitions.enter ⟨r.inside, s.macros⟩ (s.base + 4 * r.count) line s.symbols := by
  obtain ⟨inside, count⟩ := r
  cases readLine_step h with
  | skip hr | close hr | keep hr =>
      obtain rfl : inside = _ := hr
      exact ⟨rfl, rfl, rfl⟩
  | blank hr hclass | macroStart hr hclass | label hr hclass =>
      obtain rfl : inside = _ := hr
      exact ⟨rfl, by simp [Definitions.added, hclass], by simp [Definitions.enter, hclass]⟩
  | directive hr hclass hname =>
      obtain rfl : inside = _ := hr
      exact ⟨rfl, by simp [Definitions.added, hclass], by simp only [Definitions.enter, hclass, if_neg hname]⟩
  | constant hr hclass hargs hvalue =>
      obtain rfl : inside = _ := hr
      exact ⟨rfl, by simp [Definitions.added, hclass],
        by simp [Definitions.enter, SymbolTable.define, hclass, hargs, hvalue]⟩
  | @code _ _ text lines hr hclass hlines _ =>
      obtain rfl : inside = _ := hr
      have hexpand : (expand { base := 0, macros := s.macros } text).splitOn '\n' = lines := hlines
      exact ⟨rfl, by simp [Definitions.added, expansion, hclass, hexpand], by simp [Definitions.enter, hclass]⟩

theorem readLines_symbols [Evaluator.Textual] {index : Nat} {lines : List Text} {r r' : Reader}
    {s s' : Assembly} (h : (readLines index r lines).effect s = (.ok r', s')) :
    s'.symbols = Definitions.symbolsFrom s.base ⟨r.inside, s.macros⟩ r.count s.symbols lines := by
  induction lines generalizing index r s with
  | nil =>
      obtain ⟨rfl, rfl⟩ := Action.effect_pure_eq_ok.mp h
      rfl
  | cons line lines ih =>
      obtain ⟨r₁, s₁, hline, hrest⟩ := Action.effect_bind_eq_ok.mp h
      obtain ⟨hbase, hcount, hsymbols⟩ := readLine_symbols hline
      rw [ih hrest, (readLine_listed hline).definitions, hbase, hcount, hsymbols]
      rfl

def symbolsOf (base : Int) (lines : List Text) : SymbolTable := Definitions.symbolsFrom base {} 0 [] lines

theorem ofText_symbols [Evaluator.Textual] {text : Text} {base : Int} {a : Assembly} {log : Log}
    (h : ofText text base = ⟨log, a, .ok ()⟩) : a.symbols = symbolsOf base (Text.lines text) := by
  obtain ⟨r, hlines⟩ := read_eq_ok.mp (Action.effect_of_run h)
  exact readLines_symbols hlines

/-- Line `i` sets a constant that no later line sets. -/
structure Constant (lines : List Text) (i : Nat) (name : Text) (v : Int) : Prop where
  line : ∃ args left right, lineAt? lines i = some (.directive "equ".toList args) ∧
    args.splitOn ',' = [left, right] ∧ Text.lower (Text.trim left) = name ∧
    Evaluator.constantOf (Text.trim right) = .ok (.int v)
  last : ∀ j, i < j → (lineAt? lines j).bind Line.symbol? ≠ some name

theorem get?_constant {lines : List Text} {i : Nat} {name : Text} {v : Int} (h : Constant lines i name v)
    (base : Int) : (symbolsOf base lines).get? name = some (.int v) := by
  obtain ⟨args, left, right, hat, hargs, rfl, hvalue⟩ := h.line
  obtain ⟨line, hline, hout, hclass⟩ := exists_of_lineAt? hat
  obtain ⟨hi, hget⟩ := List.getElem?_eq_some_iff.mp hline
  have hsplit : lines = lines.take i ++ line :: lines.drop (i + 1) := by
    rw [← hget, List.getElem_cons_drop hi, List.take_append_drop]
  have hkept (k : Nat) (l : Text) (hl : (lines.drop (i + 1))[k]? = some l)
      (hin : (((definitionsAt lines i).next line).after ((lines.drop (i + 1)).take k)).inside = none) :
      (Line.classify (withoutComment l)).symbol? ≠ some (Text.lower (Text.trim left)) := by
    have hlast := h.last (i + 1 + k) (by omega)
    have hbefore : definitionsAt lines (i + 1 + k) =
        ((definitionsAt lines i).next line).after ((lines.drop (i + 1)).take k) := by
      rw [definitionsAt, List.take_add, List.take_add_one, hline]
      simp [definitionsAt, Definitions.after]
    rw [List.getElem?_drop] at hl
    rw [lineAt?_of_getElem? hl, hbefore, hin] at hlast
    simpa using hlast
  rw [symbolsOf, hsplit, Definitions.symbolsFrom_append, Definitions.symbolsFrom, ← definitionsAt,
    Definitions.get?_symbolsFrom hkept, Definitions.enter_constant hout hclass hargs hvalue,
    Assoc.get?_insert_self]

end RvToolkit.Assembly
