import RvToolkit.Proofs.Keeping
import RvToolkit.Proofs.Machine.Execution
import RvToolkit.Proofs.Numeral

namespace RvToolkit

theorem Register.ofAlias?_eq_some_iff {name : Text} {r : Nat} :
    ofAlias? name = some r ↔ (name, r) ∈ aliases := by
  have hlookup : ∀ p ∈ aliases, ofAlias? p.1 = some p.2 := by decide
  exact ⟨mem_of_lookup, hlookup (name, r)⟩

namespace RegisterFile

open RvToolkit.Action

variable {rf : RegisterFile} {name family : Text} {f : Fault}

theorem index_of_mem {r : Nat} (h : (name, r) ∈ Register.aliases) : index name = .ok (r : Int) := by
  rw [index, Register.ofAlias?_eq_some_iff.mpr h]

theorem index_eq_error_iff :
    index name = .error f ↔ f = .invalidRegister (.text name) ∧ ∀ r, (name, r) ∉ Register.aliases := by
  cases hname : Register.ofAlias? name with
  | some r =>
      have hmem := Register.ofAlias?_eq_some_iff.mp hname
      rw [index_of_mem hmem]
      exact iff_of_false (by simp) fun h => h.2 r hmem
  | none =>
      have hnone : ∀ r, (name, r) ∉ Register.aliases := by
        intro r hr
        rw [Register.ofAlias?_eq_some_iff.mpr hr] at hname
        cases hname
      rw [index, hname]
      constructor
      · intro h
        cases h
        exact ⟨rfl, hnone⟩
      · rintro ⟨rfl, -⟩
        rfl

theorem exists_mem_or_index_error (name : Text) :
    (∃ r : Fin 32, (name, r.val) ∈ Register.aliases) ∨ ∃ f, index name = .error f := by
  have hbound : ∀ p ∈ Register.aliases, p.2 < 32 := by decide
  cases hname : Register.ofAlias? name with
  | some r =>
      have hmem := Register.ofAlias?_eq_some_iff.mp hname
      exact .inl ⟨⟨r, hbound _ hmem⟩, hmem⟩
  | none => exact .inr ⟨_, by rw [index, hname]⟩

theorem index_ne_error (h : isName name = true) (f : Fault) : index name ≠ .error f := by
  intro herror
  obtain ⟨r, hr⟩ := Option.isSome_iff_exists.mp h
  exact (index_eq_error_iff.mp herror).2 r (Register.ofAlias?_eq_some_iff.mp hr)

section Dumps

theorem isName_member_iff {n : Nat} (h : familySize? family = some n) (i : Int) :
    isName (member family i) = true ↔ 0 ≤ i ∧ i < n := by
  have hfamily : (family, n) ∈ families := mem_of_lookup h
  constructor
  · intro hname
    -- every name that starts like the family goes on with a number below the size, or with no number
    have hread : ∀ p ∈ families, ∀ q ∈ Register.aliases, q.1.take 1 = p.1 → q.1.length ≤ 4 ∧
        (Number.readInt 10 (q.1.drop 1)).toOption.all
          (fun v => decide (0 ≤ v ∧ v < (p.2 : Int))) = true := by
      decide +kernel
    have hletter : ∀ p ∈ families, p.1.length = 1 := by decide
    have hone : family.length = 1 := hletter (family, n) hfamily
    obtain ⟨r, hr⟩ := Option.isSome_iff_exists.mp hname
    obtain ⟨hlength, hvalue⟩ :=
      hread _ hfamily _ (Register.ofAlias?_eq_some_iff.mp hr) (List.take_left' hone)
    have hdigits : (Nat.toDigits 10 i.natAbs).length ≤ Number.maxDigits := by
      obtain ⟨ds, htext, -, -, -, -, hds⟩ := Number.exists_ofInt i
      simp only [member, htext, List.length_append, List.length_map] at hlength
      have hmax : 4 ≤ Number.maxDigits := by decide
      omega
    have hrest : (member family i).drop 1 = Text.ofInt i := List.drop_left' hone
    rw [hrest, Number.readInt_ofInt hdigits] at hvalue
    exact of_decide_eq_true hvalue
  · rintro ⟨h0, hn⟩
    have hmember : ∀ p ∈ families, ∀ k < p.2, isName (member p.1 (k : Nat)) = true := by decide
    obtain ⟨k, rfl⟩ := Int.eq_ofNat_of_zero_le h0
    exact hmember _ hfamily k (by omega)

theorem index_of_cell (h : rf.cell name = .error f) : index name = .error f := by
  rcases Except.cases_of_bind_eq_error h with h | ⟨r, -, h⟩
  · exact h
  · cases h

theorem table_ne_error (oneLine : Bool) (rf : RegisterFile) (f : Fault) : rf.table oneLine ≠ .error f := by
  have hnamed : ∀ name ∈ named, isName name = true := by decide
  have hsize : ∀ p ∈ families, familySize? p.1 = some p.2 := by decide
  have hcell {name : Text} (hname : isName name = true) : rf.cell name ≠ .error f :=
    fun h => index_ne_error hname f (index_of_cell h)
  intro h
  rcases Except.cases_of_bind_eq_error h with h | ⟨names, -, h⟩
  · obtain ⟨name, hmem, hname⟩ := Except.exists_of_mapM_eq_error h
    exact hcell (hnamed name hmem) hname
  rcases Except.cases_of_bind_eq_error h with h | ⟨rows, -, h⟩
  · obtain ⟨i, -, h⟩ := Except.exists_of_mapM_eq_error h
    rcases Except.cases_of_bind_eq_error h with h | ⟨cells, -, h⟩
    · obtain ⟨p, hp, h⟩ := Except.exists_of_mapM_eq_error h
      dsimp only at h
      split at h
      · next hi => exact hcell ((isName_member_iff (hsize p hp) i).mpr (by omega)) h
      · cases h
    · cases h
  · cases h

theorem keeps_dump (oneLine : Bool) : Keeps id (fun _ => False) (dump oneLine) := by
  refine keeps_get.bind fun rf => Keeps.bind (keeps_ofExcept ?_) fun lines => ?_
  · exact table_ne_error oneLine rf
  · exact keeps_forEach (fun _ => keeps_note _ _) lines

theorem keeps_dumpSpan (title family : Text) (is : List Int) :
    Keeps id (fun f => ∃ i ∈ is, index (member family i) = .error f) (dumpSpan title family is) := by
  refine keeps_get.bind fun rf => Keeps.bind (keeps_ofExcept ?_) fun cells => keeps_note _ _
  intro f hf
  obtain ⟨i, hi, hcell⟩ := Except.exists_of_mapM_eq_error hf
  exact ⟨i, hi, index_of_cell hcell⟩

theorem mem_span_iff {l r i : Int} : i ∈ span l r ↔ l ≤ i ∧ i < r := by
  simp only [span, List.mem_map, List.mem_range]
  constructor
  · rintro ⟨k, hk, rfl⟩
    omega
  · intro h
    exact ⟨(i - l).toNat, by omega, by omega⟩

theorem keeps_dumpFamily (family : Text) : Keeps id (fun _ => False) (dumpFamily family) := by
  unfold dumpFamily
  split
  · exact keeps_note _ _
  · next n hsize =>
      refine (keeps_dumpSpan _ family _).mono ?_
      rintro f ⟨i, hi, hindex⟩
      exact index_ne_error ((isName_member_iff hsize i).mpr (mem_span_iff.mp hi)) f hindex

theorem keeps_dumpRange (family : Text) (l r : Int) :
    Keeps id (fun f => ∃ n i, familySize? family = some n ∧ l ≤ i ∧ i < r ∧
      index (member family i) = .error f) (dumpRange family l r) := by
  unfold dumpRange
  split
  · exact keeps_note _ _
  · next n hsize =>
      refine (keeps_dumpSpan _ family _).mono ?_
      rintro f ⟨i, hi, hindex⟩
      obtain ⟨hl, hr⟩ := mem_span_iff.mp hi
      exact ⟨n, i, hsize, hl, hr, hindex⟩

theorem dumpRange_beyond {n : Nat} (hsize : familySize? family = some n) {l r : Int} (hlr : l < r)
    (hout : l < 0 ∨ n < r) (rf : RegisterFile) :
    ∃ name, (dumpRange family l r).effect rf = (.error (.invalidRegister (.text name)), rf) := by
  obtain ⟨i, hi, hbeyond⟩ : ∃ i ∈ span l r, ¬ (0 ≤ i ∧ i < n) := by
    rcases hout with hl | hr
    · exact ⟨l, mem_span_iff.mpr (by omega), by omega⟩
    · exact ⟨r - 1, mem_span_iff.mpr (by omega), by omega⟩
  rw [dumpRange, hsize]
  cases hcells : (span l r).mapM fun i => rf.cell (member family i) with
  | ok cells =>
      obtain ⟨t, ht⟩ := Except.exists_of_mapM_eq_ok hcells i hi
      obtain ⟨k, hk, -⟩ := Except.bind_eq_ok.mp ht
      refine absurd ((isName_member_iff hsize i).mp ?_) hbeyond
      rcases exists_mem_or_index_error (member family i) with ⟨k, hmem⟩ | ⟨f, hf⟩
      · exact Option.isSome_iff_exists.mpr ⟨k, Register.ofAlias?_eq_some_iff.mpr hmem⟩
      · rw [hf] at hk
        cases hk
  | error f =>
      obtain ⟨j, -, hj⟩ := Except.exists_of_mapM_eq_error hcells
      obtain ⟨rfl, -⟩ := index_eq_error_iff.mp (index_of_cell hj)
      refine ⟨member family j, ?_⟩
      simp only [dumpSpan, effect_bind, effect_get, effect_ofExcept, hcells]

theorem keeps_dumpNamed (name : Text) : Keeps id (fun _ => False) (dumpNamed name) := by
  unfold dumpNamed
  split
  · next hname =>
      refine keeps_get.bind fun rf => Keeps.bind (keeps_ofExcept ?_) fun cell => keeps_note _ _
      exact fun f h => index_ne_error hname f (index_of_cell h)
  · exact keeps_note _ _

end Dumps

section Store

/-- Numbers that can be written under a name. -/
inductive Datum where
  | int (i : Int)
  | word (w : Word)

namespace Datum

def value : Datum → Int
  | .int i => i
  | .word w => w.value

def toValue : Datum → Value
  | .int i => .int i
  | .word w => .word w

theorem ofValue_toValue (d : Datum) : Word.ofValue .signed d.toValue = .ok (.ofInt .signed d.value) := by
  cases d <;> rfl

end Datum

/-- What can be asked of a register file. -/
inductive Request where
  | write (r : Fin 32) (w : Word) (mark : Bool)
  | writeNamed (name : Text) (d : Datum) (mark : Bool)
  | read (r : Fin 32) (mark : Bool)
  | readNamed (name : Text) (mark : Bool)
  | dump (oneLine : Bool)
  | dumpFamily (family : Text)
  | dumpRange (family : Text) (first last : Int)
  | dumpNamed (name : Text)

/-- The register file after a request, also after one that fails. -/
def Request.leave (rf : RegisterFile) : Request → RegisterFile
  | .write r w mark => ((RegisterFile.write (r.val : Int) (.word w) mark).effect rf).2
  | .writeNamed name d mark => ((RegisterFile.writeNamed name d.toValue mark).effect rf).2
  | .read r mark => ((RegisterFile.read (r.val : Int) mark).effect rf).2
  | .readNamed name mark => ((RegisterFile.readNamed name mark).effect rf).2
  | .dump oneLine => ((RegisterFile.dump oneLine).effect rf).2
  | .dumpFamily family => ((RegisterFile.dumpFamily family).effect rf).2
  | .dumpRange family first last => ((RegisterFile.dumpRange family first last).effect rf).2
  | .dumpNamed name => ((RegisterFile.dumpNamed name).effect rf).2

/-- A fresh register file after a history of requests. -/
def after (history : List Request) : RegisterFile := history.foldl Request.leave {}

/-- The request writes this value to this register. -/
inductive Request.Writes : Request → Fin 32 → Int → Prop where
  | number (r : Fin 32) (w : Word) (mark : Bool) : Writes (.write r w mark) r w.value
  | name {name : Text} {r : Fin 32} (h : (name, r.val) ∈ Register.aliases) (d : Datum) (mark : Bool) :
      Writes (.writeNamed name d mark) r d.value

/-- The last request of the history that writes to the register writes this value. -/
def LastWritten (history : List Request) (r : Fin 32) (v : Int) : Prop :=
  ∃ earlier q later, history = earlier ++ q :: later ∧ q.Writes r v ∧ ∀ p ∈ later, ∀ u, ¬ p.Writes r u

/-- The register has this value, by its number and by each of its names. -/
def Reads (rf : RegisterFile) (r : Fin 32) (v : Int) : Prop :=
  ∀ mark, (∃ w, ((read (r.val : Int) mark).effect rf).1 = .ok w ∧ w.value = v) ∧
    ∀ name, (name, r.val) ∈ Register.aliases →
      ∃ w, ((readNamed name mark).effect rf).1 = .ok w ∧ w.value = v

variable {r : Fin 32} {q : Request} {v : Int}

theorem read_result (r : Fin 32) (mark : Bool) (rf : RegisterFile) :
    ((read (r.val : Int) mark).effect rf).1 = .ok (rf.content r.val) := by
  cases mark with
  | false => rfl
  | true =>
      simp only [read, ↓reduceIte, effect_bind, effect_ofExcept, Machine.aliasOf_eq r.isLt, effect_modify,
        effect_get, effect_pure]
      rfl

theorem reads_of_content (h : (rf.content r.val).value = v) : Reads rf r v := by
  intro mark
  refine ⟨⟨_, read_result r mark rf, h⟩, ?_⟩
  intro name hname
  refine ⟨_, ?_, h⟩
  rw [readNamed, effect_bind_of_ok (by rw [effect_ofExcept, index_of_mem hname])]
  exact read_result r mark rf

theorem keeps_read (r : Int) (mark : Bool) :
    Keeps cells (fun f => Register.aliasOf r = .error f) (read r mark) := by
  have hget : Keeps cells (fun f => Register.aliasOf r = .error f) (do
      let rf ← Action.get
      return rf.content r) := keeps_get.bind fun rf => keeps_pure _
  unfold read
  split
  · refine Keeps.bind (keeps_ofExcept fun f hf => hf) fun name => ?_
    exact Keeps.bind (keeps_modify fun _ => rfl) fun _ => hget
  · exact hget

theorem keeps_readNamed (name : Text) (mark : Bool) :
    Keeps cells (fun f => index name = .error f ∨ ∃ r, Register.aliasOf r = .error f)
      (readNamed name mark) := by
  refine Keeps.bind (keeps_ofExcept fun f hf => .inl hf) fun r => ?_
  exact (keeps_read r mark).mono fun f hf => .inr ⟨r, hf⟩

theorem keeps_write (r : Int) (w : Word) (mark : Bool) :
    Keeps lastRead (fun f => Register.aliasOf r = .error f) (write r (.word w) mark) := by
  have hinsert : Keeps lastRead (fun f => Register.aliasOf r = .error f) (do
      Action.modify fun rf => { rf with cells := rf.cells.insert r w.asSigned }
      return true) := Keeps.bind (keeps_modify fun _ => rfl) fun _ => keeps_pure _
  by_cases h0 : r = 0
  · rw [write, if_pos h0]
    exact keeps_pure _
  · rw [write, if_neg h0]
    cases mark with
    | false => exact hinsert
    | true =>
        refine Keeps.bind (keeps_ofExcept fun f hf => hf) fun name => ?_
        exact Keeps.bind (keeps_modify fun _ => rfl) fun _ => hinsert

theorem content_of_cells {rf' : RegisterFile} (h : rf'.cells = rf.cells) (i : Int) :
    rf'.content i = rf.content i := by
  rw [content, content, h]

theorem write_effect (r : Fin 32) (w : Word) (mark : Bool) (rf : RegisterFile) :
    ∃ b rf', (write (r.val : Int) (.word w) mark).effect rf = (.ok b, rf') ∧
      rf'.cells = if r = 0 then rf.cells else rf.cells.insert r.val w.asSigned := by
  by_cases h0 : r = 0
  · subst h0
    exact ⟨false, rf, rfl, rfl⟩
  · have hint : ¬ (r.val : Int) = 0 := by omega
    rw [if_neg h0]
    cases mark with
    | false => exact ⟨true, _, by rw [write, if_neg hint]; rfl, rfl⟩
    | true =>
        refine ⟨true, { rf with
          cells := rf.cells.insert r.val w.asSigned
          lastSet := some (Machine.shownName r.val) }, ?_, rfl⟩
        simp only [write, hint, ↓reduceIte, effect_bind, effect_ofExcept, Machine.aliasOf_eq r.isLt,
          effect_modify, effect_pure]

theorem content_write (r i : Fin 32) (w : Word) (mark : Bool) (rf : RegisterFile) :
    ((write (r.val : Int) (.word w) mark).effect rf).2.content i.val =
      if i = r ∧ r ≠ 0 then w.asSigned else rf.content i.val := by
  obtain ⟨b, rf', heffect, hcells⟩ := write_effect r w mark rf
  rw [heffect]
  by_cases h0 : r = 0
  · rw [if_pos h0] at hcells
    rw [if_neg fun h => h.2 h0]
    exact content_of_cells hcells _
  · rw [if_neg h0] at hcells
    have hinsert : rf'.content i.val = _ :=
      (content_of_cells hcells i.val).trans (content_insert rf r.val i.val w.asSigned)
    rw [hinsert]
    have heq : ((i.val : Int) = r.val) ↔ i = r ∧ r ≠ 0 := by
      constructor
      · exact fun h => ⟨Fin.ext (by omega), h0⟩
      · rintro ⟨rfl, -⟩
        rfl
    simp only [heq]

theorem asSigned_eq (w : Word) : w.asSigned = .ofInt .signed w.value := by
  rw [Word.ofInt, Word.ofInt_value]
  rfl

theorem writeNamed_effect (h : (name, r.val) ∈ Register.aliases) (d : Datum) (mark : Bool)
    (rf : RegisterFile) : (writeNamed name d.toValue mark).effect rf =
      (write (r.val : Int) (.word (.ofInt .signed d.value)) mark).effect rf := by
  rw [writeNamed, effect_bind_of_ok (by rw [effect_ofExcept, index_of_mem h]),
    effect_bind_of_ok (by rw [effect_ofExcept, Datum.ofValue_toValue])]

theorem writeNamed_unknown (h : index name = .error f) (value : Value) (mark : Bool) (rf : RegisterFile) :
    (writeNamed name value mark).effect rf = (.error f, rf) := by
  rw [writeNamed, effect_bind_of_error (by rw [effect_ofExcept, h])]

theorem content_leave_of_writes (h : q.Writes r v) (hr : r ≠ 0) (rf : RegisterFile) :
    (q.leave rf).content r.val = .ofInt .signed v := by
  cases h with
  | number _ w mark =>
      rw [Request.leave, content_write, if_pos ⟨rfl, hr⟩, asSigned_eq]
  | name hname d mark =>
      rw [Request.leave, writeNamed_effect hname, content_write, if_pos ⟨rfl, hr⟩]
      rfl

theorem content_leave (h : r = 0 ∨ ∀ v, ¬ q.Writes r v) (rf : RegisterFile) :
    (q.leave rf).content r.val = rf.content r.val := by
  have hother {i : Fin 32} (hwrites : ∃ v, q.Writes i v) : ¬ (r = i ∧ i ≠ 0) := by
    rintro ⟨rfl, h0⟩
    obtain ⟨v, hv⟩ := hwrites
    exact h.elim h0 fun hnone => hnone v hv
  cases q with
  | write i w mark =>
      rw [Request.leave, content_write, if_neg (hother ⟨_, .number i w mark⟩)]
  | writeNamed name d mark =>
      rcases exists_mem_or_index_error name with ⟨i, hi⟩ | ⟨f, hf⟩
      · rw [Request.leave, writeNamed_effect hi, content_write, if_neg (hother ⟨_, .name hi d mark⟩)]
      · rw [Request.leave, writeNamed_unknown hf]
  | read i mark => exact content_of_cells (keeps_read i.val mark rf).1 _
  | readNamed name mark => exact content_of_cells (keeps_readNamed name mark rf).1 _
  | dump oneLine => exact congrArg (content · r.val) (keeps_dump oneLine rf).1
  | dumpFamily family => exact congrArg (content · r.val) (keeps_dumpFamily family rf).1
  | dumpRange family first last => exact congrArg (content · r.val) (keeps_dumpRange family first last rf).1
  | dumpNamed name => exact congrArg (content · r.val) (keeps_dumpNamed name rf).1

theorem content_foldl_leave {history : List Request} (h : r = 0 ∨ ∀ q ∈ history, ∀ v, ¬ q.Writes r v)
    (rf : RegisterFile) : (history.foldl Request.leave rf).content r.val = rf.content r.val := by
  induction history generalizing rf with
  | nil => rfl
  | cons q history ih =>
      rw [List.foldl_cons, ih (h.imp_right fun h p hp => h p (List.mem_cons_of_mem q hp))]
      exact content_leave (h.imp_right fun h => h q List.mem_cons_self) rf

theorem content_after_of_lastWritten {history : List Request} (h : LastWritten history r v) (hr : r ≠ 0) :
    (after history).content r.val = .ofInt .signed v := by
  obtain ⟨earlier, q, later, rfl, hq, hlater⟩ := h
  rw [after, List.foldl_append, List.foldl_cons, content_foldl_leave (.inr hlater)]
  exact content_leave_of_writes hq hr _

theorem writeNamed_eq_error_iff (d : Datum) (mark : Bool) (rf : RegisterFile) :
    ((writeNamed name d.toValue mark).effect rf).1 = .error f ↔ index name = .error f := by
  rcases exists_mem_or_index_error name with ⟨r, hr⟩ | ⟨f', hf'⟩
  · obtain ⟨b, rf', heffect, -⟩ := write_effect r (.ofInt .signed d.value) mark rf
    rw [writeNamed_effect hr, heffect, index_of_mem hr]
    simp
  · rw [writeNamed_unknown hf', hf']
    simp

theorem readNamed_eq_error_iff (mark : Bool) (rf : RegisterFile) :
    ((readNamed name mark).effect rf).1 = .error f ↔ index name = .error f := by
  rcases exists_mem_or_index_error name with ⟨r, hr⟩ | ⟨f', hf'⟩
  · rw [readNamed, effect_bind_of_ok (by rw [effect_ofExcept, index_of_mem hr]), read_result,
      index_of_mem hr]
    simp
  · rw [readNamed, effect_bind_of_error (by rw [effect_ofExcept, hf']), hf']
    simp

/-- After any history, register zero reads zero, and any other register reads the value last written to
it in the range of signed words, or zero if there was none. A request leaves alone the registers that it
does not write to, and only a name that no register has is refused. -/
theorem after_reads (history : List Request) :
    Reads (after history) 0 0 ∧
    (∀ r, (∀ q ∈ history, ∀ v, ¬ q.Writes r v) → Reads (after history) r 0) ∧
    (∀ r v, r ≠ 0 → LastWritten history r v → Reads (after history) r (v.bmod 0x100000000)) ∧
    (∀ (q : Request) (r : Fin 32), (∀ v, ¬ q.Writes r v) →
      (q.leave (after history)).content r.val = (after history).content r.val) ∧
    (∀ name d mark f, ((writeNamed name (Datum.toValue d) mark).effect (after history)).1 = .error f ↔
      f = .invalidRegister (.text name) ∧ ∀ r, (name, r) ∉ Register.aliases) ∧
    (∀ name mark f, ((readNamed name mark).effect (after history)).1 = .error f ↔
      f = .invalidRegister (.text name) ∧ ∀ r, (name, r) ∉ Register.aliases) := by
  have hwithout {r : Fin 32} (h : r = 0 ∨ ∀ q ∈ history, ∀ v, ¬ q.Writes r v) :
      Reads (after history) r 0 :=
    reads_of_content (congrArg Word.value (content_foldl_leave h {}))
  refine ⟨hwithout (.inl rfl), fun r h => hwithout (.inr h), ?_, ?_, ?_, ?_⟩
  · intro r v hr hlast
    apply reads_of_content
    rw [content_after_of_lastWritten hlast hr]
    exact BitVec.toInt_ofInt v
  · exact fun q r h => content_leave (.inr h) _
  · exact fun name d mark f => (writeNamed_eq_error_iff d mark _).trans index_eq_error_iff
  · exact fun name mark f => (readNamed_eq_error_iff mark _).trans index_eq_error_iff

theorem after_reads_framePointer :
    let history : List Request := [.writeNamed "fp".toList (.int 0x80000005) true,
      .write 9 ⟨.unsigned, 0xffffffff⟩ false, .writeNamed "x8".toList (.int 1) true, .dump false]
    ∃ w, ((readNamed "s0".toList true).effect (after history)).1 = .ok w ∧ w.value = -0x7ffffffb := by
  intro history
  have hlast : LastWritten history 8 0x80000005 := by
    refine ⟨[], _, _, rfl, .name (by decide) (.int 0x80000005) true, ?_⟩
    have hunknown : ("x8".toList, 8) ∉ Register.aliases := by decide
    have hother : (9 : Fin 32) ≠ 8 := by decide
    intro q hq u hwrites
    simp only [List.mem_cons, List.not_mem_nil, or_false] at hq
    rcases hq with rfl | rfl | rfl
    · generalize (9 : Fin 32) = r, (8 : Fin 32) = i at hwrites hother
      cases hwrites
      exact hother rfl
    · cases hwrites with
      | name hname => exact hunknown hname
    · cases hwrites
  obtain ⟨-, -, hreads, -⟩ := after_reads history
  exact (hreads 8 0x80000005 (by decide) hlast true).2 "s0".toList (by decide)

end Store

end RegisterFile

end RvToolkit
