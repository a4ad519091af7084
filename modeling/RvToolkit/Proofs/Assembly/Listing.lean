import Mathlib.Data.List.Basic
import RvToolkit.Proofs.Assembly.Link

namespace RvToolkit

theorem lt_iff_lt_countP {l : List Nat} (hl : l.Pairwise (· ≤ ·)) {n i j : Nat} (hi : l[n]? = some i) :
    i < j ↔ n < l.countP (· < j) := by
  induction l generalizing n with
  | nil => simp at hi
  | cons a l ih =>
      obtain ⟨hhead, htail⟩ := List.pairwise_cons.mp hl
      by_cases ha : a < j
      · rw [List.countP_cons_of_pos (by simpa using ha)]
        cases n with
        | zero =>
            obtain rfl : a = i := by simpa using hi
            exact iff_of_true ha (Nat.succ_pos _)
        | succ n =>
            rw [ih htail hi]
            omega
      · have hnone : l.countP (· < j) = 0 := by
          rw [List.countP_eq_zero]
          intro b hb
          have := hhead b hb
          simpa using (by omega : j ≤ b)
        rw [List.countP_cons_of_neg (by simpa using ha), hnone]
        refine iff_of_false ?_ (Nat.not_lt_zero n)
        have hmem := List.mem_of_getElem? hi
        rcases List.mem_cons.mp hmem with rfl | hmem
        · exact ha
        · have := hhead i hmem
          omega

namespace Assembly

/-- The instructions that a text stands for: its own line, or those of the macro that it calls. -/
def expansion (macros : Assoc Text Macro) (t : Text) : List Text :=
  ((expand { base := 0, macros := macros } t).splitOn '\n').map fun line => Text.trim (Text.squeeze line)

theorem expansion_ne_nil (macros : Assoc Text Macro) (t : Text) : expansion macros t ≠ [] := by
  intro h
  exact List.splitOn_ne_nil _ _ (List.map_eq_nil_iff.mp h)

/-- The macros that have been defined, and the one that is open. -/
structure Definitions where
  inside : Option OpenMacro := none
  macros : Assoc Text Macro := []

namespace Definitions

def next (d : Definitions) (line : Text) : Definitions :=
  match d.inside with
  | some m =>
      if (withoutComment line).isEmpty then d
      else if Line.isMacroEnd (withoutComment line) then
        ⟨none, d.macros.insert m.name ⟨m.args, m.body.reverse⟩⟩
      else ⟨some { m with body := withoutComment line :: m.body }, d.macros⟩
  | none =>
      match Line.classify (withoutComment line) with
      | .macroStart name args => ⟨some ⟨name, args, []⟩, d.macros⟩
      | _ => d

def added (d : Definitions) (line : Text) : List Text :=
  match d.inside, Line.classify (withoutComment line) with
  | none, .code t => expansion d.macros t
  | _, _ => []

/-- What is found on each line, where it may depend on the definitions before the line. -/
def scan (f : Definitions → Text → List Text) : Definitions → List Text → List (List Text)
  | _, [] => []
  | d, line :: lines => f d line :: scan f (d.next line) lines

def after (d : Definitions) (lines : List Text) : Definitions := lines.foldl next d

variable {d : Definitions} {line : Text} {lines : List Text} {f : Definitions → Text → List Text}

theorem isSome_inside_next : (d.next line).inside.isSome = insideAfterLine d.inside.isSome line := by
  obtain ⟨inside, macros⟩ := d
  cases inside with
  | some m =>
      by_cases hempty : withoutComment line = []
      · simp [next, insideAfterLine, hempty, Line.isMacroEnd]
      · by_cases hend : Line.isMacroEnd (withoutComment line) = true
        · simp [next, insideAfterLine, hempty, hend]
        · simp [next, insideAfterLine, hempty, hend]
  | none => cases hclass : Line.classify (withoutComment line) <;> simp [next, insideAfterLine, hclass]

theorem isSome_inside_after (d : Definitions) (lines : List Text) :
    (d.after lines).inside.isSome = lines.foldl insideAfterLine d.inside.isSome := by
  induction lines generalizing d with
  | nil => rfl
  | cons line lines ih =>
      rw [List.foldl_cons, ← isSome_inside_next]
      exact ih (d.next line)

theorem length_scan : (scan f d lines).length = lines.length := by
  induction lines generalizing d with
  | nil => rfl
  | cons line lines ih => simp [scan, ih]

theorem scan_append (lines rest : List Text) :
    scan f d (lines ++ rest) = scan f d lines ++ scan f (d.after lines) rest := by
  induction lines generalizing d with
  | nil => rfl
  | cons line lines ih => simp [scan, after, ih]

theorem getElem?_scan (k : Nat) :
    (scan f d lines)[k]? = lines[k]?.map (f (d.after (lines.take k))) := by
  induction lines generalizing d k with
  | nil => rfl
  | cons line lines ih =>
      cases k with
      | zero => rfl
      | succ k => exact ih k

theorem added_of_label {name : Text} (hout : d.inside = none)
    (hlabel : Line.classify (withoutComment line) = .label name) : d.added line = [] := by
  rw [added, hout, hlabel]

theorem added_of_code {c : Text} (hout : d.inside = none)
    (hcode : Line.classify (withoutComment line) = .code c) : d.added line = expansion d.macros c := by
  rw [added, hout, hcode]

theorem next_of_label {name : Text} (hout : d.inside = none)
    (hlabel : Line.classify (withoutComment line) = .label name) : d.next line = d := by
  rw [next, hout, hlabel]

theorem next_of_code {c : Text} (hout : d.inside = none)
    (hcode : Line.classify (withoutComment line) = .code c) : d.next line = d := by
  rw [next, hout, hcode]

end Definitions

theorem inside_after_eq_none {lines : List Text} (h : insideAfter lines = false) :
    (Definitions.after {} lines).inside = none := by
  have hinside : _ = insideAfter lines := Definitions.isSome_inside_after {} lines
  rw [h] at hinside
  simpa using hinside

/-- The definitions before a line of a text. -/
def definitionsAt (lines : List Text) (j : Nat) : Definitions := Definitions.after {} (lines.take j)

theorem lineAt?_of_getElem? {lines : List Text} {line : Text} {j : Nat} (h : lines[j]? = some line) :
    lineAt? lines j = if (definitionsAt lines j).inside.isSome then none
      else some (Line.classify (withoutComment line)) := by
  have hinside : _ = insideAfter (lines.take j) := Definitions.isSome_inside_after {} (lines.take j)
  rw [lineAt?, definitionsAt, hinside, h]
  rfl

theorem exists_of_lineAt? {lines : List Text} {l : Line} {j : Nat} (h : lineAt? lines j = some l) :
    ∃ line, lines[j]? = some line ∧ (definitionsAt lines j).inside = none ∧
      Line.classify (withoutComment line) = l := by
  have hline := List.getElem?_eq_getElem (lt_length_of_lineAt? h)
  rw [lineAt?_of_getElem? hline] at h
  cases hin : (definitionsAt lines j).inside with
  | some m => simp [hin] at h
  | none => exact ⟨_, hline, rfl, by simpa [hin] using h⟩

theorem symbol_ne_of_lt_length {lines : List Text} {name : Text} {i : Nat}
    (h : ∀ j < lines.length, i < j → (lineAt? lines j).bind Line.symbol? ≠ some name) (j : Nat)
    (hj : i < j) :
    (lineAt? lines j).bind Line.symbol? ≠ some name := by
  intro hset
  obtain ⟨l, hl, -⟩ := Option.bind_eq_some_iff.mp hset
  exact h j (lt_length_of_lineAt? hl) hj hset

def origins : Nat → List (List Text) → List Nat
  | _, [] => []
  | index, c :: cs => List.replicate c.length index ++ origins (index + 1) cs

theorem length_origins (index : Nat) (cs : List (List Text)) :
    (origins index cs).length = cs.flatten.length := by
  induction cs generalizing index with
  | nil => rfl
  | cons c cs ih => simp [origins, ih]

theorem exists_of_mem_origins {index i : Nat} {cs : List (List Text)} (h : i ∈ origins index cs) :
    ∃ k c, i = index + k ∧ cs[k]? = some c ∧ c ≠ [] := by
  induction cs generalizing index with
  | nil => simp [origins] at h
  | cons c cs ih =>
      rcases List.mem_append.mp h with h | h
      · obtain ⟨hne, rfl⟩ := List.mem_replicate.mp h
        exact ⟨0, c, rfl, rfl, by simpa using hne⟩
      · obtain ⟨k, c', rfl, hk, hne⟩ := ih h
        exact ⟨k + 1, c', by omega, hk, hne⟩

theorem pairwise_origins (index : Nat) (cs : List (List Text)) : (origins index cs).Pairwise (· ≤ ·) := by
  induction cs generalizing index with
  | nil => exact .nil
  | cons c cs ih =>
      rw [origins, List.pairwise_append]
      refine ⟨?_, ih _, ?_⟩
      · rw [List.pairwise_replicate]
        exact .inr (Nat.le_refl index)
      · intro i hi j hj
        obtain ⟨k, -, rfl, -⟩ := exists_of_mem_origins hj
        have := (List.mem_replicate.mp hi).2
        omega

/-- What one line does to the listing. -/
structure Listed (index : Nat) (line : Text) (r : Reader) (s : Assembly) (r' : Reader) (s' : Assembly) :
    Prop where
  definitions : (⟨r'.inside, s'.macros⟩ : Definitions) = Definitions.next ⟨r.inside, s.macros⟩ line
  lines : s'.lines = s.lines
  mnemonics : s'.mnemonics = s.mnemonics ++ Definitions.added ⟨r.inside, s.macros⟩ line
  indices : s'.indices =
    s.indices ++ List.replicate (Definitions.added ⟨r.inside, s.macros⟩ line).length index

theorem readLine_listed [Evaluator] [Evaluator.Textual] {index : Nat} {line : Text} {r r' : Reader}
    {s s' : Assembly}
    (h : (readLine index r line).effect s = (.ok r', s')) : Listed index line r s r' s' := by
  obtain ⟨inside, count⟩ := r
  cases readLine_step h with
  | skip hr hempty =>
      obtain rfl : inside = _ := hr
      exact ⟨by simp [Definitions.next, hempty], rfl, by simp [Definitions.added], by simp [Definitions.added]⟩
  | close hr hend =>
      obtain rfl : inside = _ := hr
      have hne : withoutComment line ≠ [] := by
        intro hempty
        rw [hempty] at hend
        cases hend
      exact ⟨by simp [Definitions.next, hne, hend], rfl, by simp [Definitions.added],
        by simp [Definitions.added]⟩
  | keep hr hne hend =>
      obtain rfl : inside = _ := hr
      exact ⟨by simp [Definitions.next, hne, hend], rfl, by simp [Definitions.added],
        by simp [Definitions.added]⟩
  | blank hr hclass | macroStart hr hclass | directive hr hclass | constant hr hclass | label hr hclass =>
      obtain rfl : inside = _ := hr
      exact ⟨by simp [Definitions.next, hclass], rfl, by simp [Definitions.added, hclass],
        by simp [Definitions.added, hclass]⟩
  | @code _ _ text lines hr hclass hlines _ =>
      obtain rfl : inside = _ := hr
      have hexpand : (expand { base := 0, macros := s.macros } text).splitOn '\n' = lines := hlines
      exact ⟨by simp [Definitions.next, hclass], rfl, by simp [Definitions.added, expansion, hclass, hexpand],
        by simp [Definitions.added, expansion, hclass, hexpand]⟩

theorem readLines_listed [Evaluator] [Evaluator.Textual] {index : Nat} {lines : List Text}
    {r r' : Reader} {s s' : Assembly} (h : (readLines index r lines).effect s = (.ok r', s')) :
    s'.lines = s.lines ∧
    s'.mnemonics = s.mnemonics ++ (Definitions.scan Definitions.added ⟨r.inside, s.macros⟩ lines).flatten ∧
    s'.indices = s.indices ++ origins index (Definitions.scan Definitions.added ⟨r.inside, s.macros⟩ lines) := by
  induction lines generalizing index r s with
  | nil =>
      obtain ⟨rfl, rfl⟩ := Action.effect_pure_eq_ok.mp h
      simp [Definitions.scan, origins]
  | cons line lines ih =>
      obtain ⟨r₁, s₁, hline, hrest⟩ := Action.effect_bind_eq_ok.mp h
      have hlisted := readLine_listed hline
      obtain ⟨hlines, hmnemonics, hindices⟩ := ih hrest
      rw [hlisted.definitions] at hmnemonics hindices
      refine ⟨hlines.trans hlisted.lines, ?_, ?_⟩
      · rw [hmnemonics, hlisted.mnemonics, List.append_assoc]
        rfl
      · rw [hindices, hlisted.indices, List.append_assoc]
        rfl

def listing (lines : List Text) : List (List Text) := Definitions.scan Definitions.added {} lines

theorem ofText_listed [Evaluator] [Evaluator.Textual] {text : Text} {base : Int} {a : Assembly} {log : Log}
    (h : ofText text base = ⟨log, a, .ok ()⟩) :
    a.lines = Text.lines text ∧ a.mnemonics = (listing (Text.lines text)).flatten ∧
      a.indices = origins 0 (listing (Text.lines text)) := by
  obtain ⟨r, hlines⟩ := read_eq_ok.mp (Action.effect_of_run h)
  simpa [listing] using readLines_listed hlines

/-- Every instruction comes with the number of its line, in the order of the lines. -/
structure Indexed (a : Assembly) : Prop where
  length_eq : a.indices.length = a.mnemonics.length
  ascending : a.indices.Pairwise (· ≤ ·)
  lt_length : ∀ i ∈ a.indices, i < a.lines.length

/-- The first `k` instructions stand before line `j` and all others after it. -/
def FirstAfter (a : Assembly) (j k : Nat) : Prop :=
  ∀ n i, a.indices[n]? = some i → if n < k then i < j else j < i

section Text

variable {text : Text} {base : Int} {a : Assembly} {log : Log}

theorem indexed_of_ofText [Evaluator] [Evaluator.Textual]
    (h : ofText text base = ⟨log, a, .ok ()⟩) : a.Indexed := by
  obtain ⟨hlines, hmnemonics, hindices⟩ := ofText_listed h
  refine ⟨?_, ?_, ?_⟩
  · rw [hindices, hmnemonics, length_origins]
  · rw [hindices]
    exact pairwise_origins 0 _
  · intro i hi
    rw [hindices] at hi
    obtain ⟨k, c, rfl, hk, -⟩ := exists_of_mem_origins hi
    have hlt := (List.getElem?_eq_some_iff.mp hk).1
    rw [listing, Definitions.length_scan] at hlt
    rw [hlines]
    omega

theorem getElem?_listing_label {lines : List Text} {name : Text} {j : Nat}
    (h : lineAt? lines j = some (.label name)) : (listing lines)[j]? = some [] := by
  obtain ⟨line, hline, hout, hlabel⟩ := exists_of_lineAt? h
  rw [listing, Definitions.getElem?_scan, hline, Option.map_some, ← definitionsAt,
    Definitions.added_of_label hout hlabel]

theorem firstAfter_label [Evaluator] [Evaluator.Textual] (h : ofText text base = ⟨log, a, .ok ()⟩)
    {name : Text} {j : Nat} (hlabel : lineAt? (Text.lines text) j = some (.label name)) :
    a.FirstAfter j (a.indices.countP (· < j)) := by
  intro n i hi
  have hbefore := lt_iff_lt_countP (indexed_of_ofText h).ascending (j := j) hi
  have hne : i ≠ j := by
    rintro rfl
    have hmem := List.mem_of_getElem? hi
    rw [(ofText_listed h).2.2] at hmem
    obtain ⟨k, c, rfl, hk, hc⟩ := exists_of_mem_origins hmem
    rw [Nat.zero_add] at hlabel
    exact hc (Option.some.inj (hk.symm.trans (getElem?_listing_label hlabel)))
  split
  · rename_i hn
    exact hbefore.mpr hn
  · rename_i hn
    have := mt hbefore.mp hn
    omega

end Text

/-- The instructions of a program stand at every fourth address from its base upward, in the order of
their lines. -/
theorem steps_placed [Evaluator] {a a' : Assembly} {log : Log} {ss : Assoc Int Step}
    (h : steps.run a = ⟨log, a', .ok ss⟩) :
    ss.map Prod.fst = (List.range a.mnemonics.length).map (fun n : Nat => a.base + 4 * (n : Int)) ∧
    ∀ (k : Nat) line, a.mnemonics[k]? = some line → ∃ op e,
      lineCall a.symbols (a.base + 4 * k) line = .ok (op, e) ∧
      ss.get? (a.base + 4 * k) = some ⟨op, e.operands⟩ := by
  obtain ⟨-, hlength, hplaced, hall⟩ := interpret_eq_ok (steps_eq_ok (Action.effect_of_run h))
  refine ⟨?_, ?_⟩
  · apply List.ext_getElem
    · simp [hlength]
    · intro n hn _
      have hget := hplaced n _ (List.getElem?_eq_getElem (by simpa using hn))
      simpa using hget
  · intro k line hline
    obtain ⟨op, e, hencode, hget⟩ := hall k line hline
    refine ⟨op, e, hencode, ?_⟩
    rw [hplaced.get?_eq, hget]
    rfl

/-- Instructions and their lines are listed together and in order. A symbol that a label set last stands
for the address of the first instruction after the label, or, where there is none, for the address just
past the program. -/
theorem label_address [Evaluator] [Evaluator.Textual] {text : Text} {base : Int} {a : Assembly} {log : Log}
    (h : ofText text base = ⟨log, a, .ok ()⟩) :
    a.lines = Text.lines text ∧ a.Indexed ∧
    ∀ name j, lineAt? a.lines j = some (.label name) →
      (∀ j', j < j' → (lineAt? a.lines j').bind Line.symbol? ≠ some name) →
      ∃ k, k = a.indices.countP (· < j) ∧ k ≤ a.mnemonics.length ∧ a.FirstAfter j k ∧
        a.symbols.get? name = some (.int (base + 4 * k)) ∧
        ∀ log' a' ss, steps.run a = ⟨log', a', .ok ss⟩ →
          ss.map Prod.fst = (List.range a.mnemonics.length).map (fun n : Nat => base + 4 * (n : Int)) ∧
          ∀ line, a.mnemonics[k]? = some line → ∃ op e,
            lineCall a.symbols (base + 4 * k) line = .ok (op, e) ∧
            ss.get? (base + 4 * k) = some ⟨op, e.operands⟩ := by
  have hlines := (ofText_listed h).1
  have hindexed := indexed_of_ofText h
  refine ⟨hlines, hindexed, ?_⟩
  intro name j hlabel hlast
  rw [hlines] at hlabel hlast
  obtain ⟨r, hreached⟩ := read_reached rfl (Action.effect_of_run h)
  obtain rfl : a.base = base := hreached.base_eq
  refine ⟨_, rfl, ?_, firstAfter_label h hlabel, hreached.label_eq name j hlabel hlast, ?_⟩
  · rw [← hindexed.length_eq]
    exact List.countP_le_length
  · intro log' a' ss hsteps
    obtain ⟨haddresses, hall⟩ := steps_placed hsteps
    exact ⟨haddresses, hall _⟩

def twice : Text :=
  ".macro two\naddi x1, x1, 1\naddi x1, x1, 2\n.endm\nl:\ntwo\nl:\naddi x2, x0, 0\n".toList

section LabelTwice

open scoped Evaluator.Arithmetic

theorem label_twice :
    (ofText twice 8).state.indices = [5, 5, 7] ∧
    lineAt? (ofText twice 8).state.lines 6 = some (.label "l".toList) ∧
    (ofText twice 8).state.symbols.get? "l".toList = some (.int 16) := by
  have hread : (ofText twice 8).result = .ok () := Except.eq_ok_of_toOption (by decide +kernel)
  have hlabel : lineAt? (ofText twice 8).state.lines 6 = some (.label "l".toList) := by decide +kernel
  have hindices : (ofText twice 8).state.indices = [5, 5, 7] := by decide +kernel
  have hlast : ∀ j < (ofText twice 8).state.lines.length, 6 < j →
      (lineAt? (ofText twice 8).state.lines j).bind Line.symbol? ≠ some "l".toList := by
    decide +kernel
  obtain ⟨-, -, hall⟩ := label_address (Outcome.eq_of_result hread)
  obtain ⟨k, hk, -, -, hvalue, -⟩ := hall _ 6 hlabel (symbol_ne_of_lt_length hlast)
  obtain rfl : k = 2 := by
    rw [hk, hindices]
    rfl
  exact ⟨hindices, hlabel, hvalue⟩

end LabelTwice

def appended : Text := ".equ q, self.mnemonics.append('nop')\naddi x1, x0, 1\n".toList

section IndicesAppended

open scoped Evaluator.Reflective

theorem indices_appended :
    (ofText appended 0).result = .ok () ∧ (ofText appended 0).state.indices = [1] ∧
    (ofText appended 0).state.mnemonics = ["nop".toList, "addi x1, x0, 1".toList] :=
  ⟨Except.eq_ok_of_toOption (by decide +kernel), by decide +kernel, by decide +kernel⟩

end IndicesAppended

end Assembly

end RvToolkit
