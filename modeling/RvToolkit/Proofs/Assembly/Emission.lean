import RvToolkit.Assembly.Image
import RvToolkit.Proofs.Assembly.Reading
import RvToolkit.Proofs.Assembly.Steps
import RvToolkit.Proofs.Digits
import RvToolkit.Proofs.Instruction.Extent

namespace RvToolkit.Assembly

namespace Image

/-- The number that bytes stand for, the highest byte first. -/
def value (bytes : List UInt8) : Nat := Number.ofDigits 256 (bytes.map UInt8.toNat)

theorem value_cons (b : UInt8) (bytes : List UInt8) :
    value (b :: bytes) = b.toNat * 256 ^ bytes.length + value bytes := by
  have h := Number.ofDigits_append 256 [b.toNat] (bytes.map UInt8.toNat)
  rw [List.length_map] at h
  simpa [value, Number.ofDigits] using h

theorem digits_lt (bytes : List UInt8) : ∀ d ∈ bytes.map UInt8.toNat, d < 256 := by
  intro d hd
  obtain ⟨b, -, rfl⟩ := List.mem_map.mp hd
  exact b.toNat_lt

theorem value_lt (bytes : List UInt8) : value bytes < 256 ^ bytes.length := by
  have h := Number.ofDigits_lt (by decide : 1 < 256) (digits_lt bytes)
  rwa [List.length_map] at h

theorem eq_of_value_eq {bytes bytes' : List UInt8} (hlength : bytes.length = bytes'.length)
    (h : value bytes = value bytes') : bytes = bytes' := by
  have hmap := Number.ofDigits_inj (by decide) (by simpa using hlength) (digits_lt bytes)
    (digits_lt bytes') h
  exact (List.map_inj_right fun _ _ => UInt8.toNat_inj.mp).mp hmap

theorem byteOf_digits {ds : List Nat} (hlength : ds.length = 8) (hds : ∀ d ∈ ds, d < 2) :
    ∃ b, byteOf (ds.map Nat.digitChar) = .ok b ∧ b.toNat = Number.ofDigits 2 ds := by
  have hlt := Number.ofDigits_lt (by decide) hds
  rw [hlength] at hlt
  have hne : ds ≠ [] := List.ne_nil_of_length_eq_add_one hlength
  have hread : Number.readInt 2 (ds.map Nat.digitChar) = .ok (Number.ofDigits 2 ds : Int) :=
    Number.readInt_digits (by decide) false hne hds (by simp)
  refine ⟨(Number.ofDigits 2 ds).toUInt8, ?_, Nat.mod_eq_of_lt hlt⟩
  rw [byteOf, hread]
  exact if_pos (by omega)

theorem ofBinary_digits {k : Nat} {ds : List Nat} (hlength : ds.length = 8 * k) (hds : ∀ d ∈ ds, d < 2) :
    ∃ bytes, ofBinary (ds.map Nat.digitChar) = .ok bytes ∧ bytes.length = k ∧
      value bytes = Number.ofDigits 2 ds := by
  induction k generalizing ds with
  | zero =>
      obtain rfl := List.eq_nil_of_length_eq_zero hlength
      exact ⟨[], rfl, rfl, rfl⟩
  | succ k ih =>
      have hfirst : (ds.take 8).length = 8 := by
        rw [List.length_take]
        omega
      have hrest : (ds.drop 8).length = 8 * k := by
        rw [List.length_drop]
        omega
      obtain ⟨b, hb, hvalue⟩ := byteOf_digits hfirst fun d hd => hds d (List.mem_of_mem_take hd)
      obtain ⟨bytes, hbytes, hcount, hsum⟩ := ih hrest fun d hd => hds d (List.mem_of_mem_drop hd)
      refine ⟨b :: bytes, ?_, by rw [List.length_cons, hcount], ?_⟩
      · rw [ofBinary] at hbytes ⊢
        rw [← List.take_append_drop 8 ds, List.map_append,
          Text.chunks_append (by decide) (by rw [List.length_map, hfirst]), List.mapM_cons, hb, hbytes]
        rfl
      · rw [value_cons, hsum, hvalue, hcount, ← List.take_append_drop 8 ds, Number.ofDigits_append,
          List.take_append_drop, hrest, Nat.pow_mul]

theorem hexDigit?_digitChar {d : Nat} (hd : d < 16) :
    isAsciiBlank d.digitChar = false ∧ hexDigit? d.digitChar = some d := by
  have h : ∀ d < 16, isAsciiBlank d.digitChar = false ∧ hexDigit? d.digitChar = some d := by decide
  exact h d hd

theorem hexPairs_digits {k : Nat} {ds : List Nat} (hlength : ds.length = 2 * k)
    (hds : ∀ d ∈ ds, d < 16) :
    ∃ bytes, hexPairs (ds.map Nat.digitChar) = .ok bytes ∧ bytes.length = k ∧
      value bytes = Number.ofDigits 16 ds := by
  induction k generalizing ds with
  | zero =>
      obtain rfl := List.eq_nil_of_length_eq_zero hlength
      exact ⟨[], rfl, rfl, rfl⟩
  | succ k ih =>
      obtain ⟨h, l, rest, rfl⟩ : ∃ h l rest, ds = h :: l :: rest := by
        cases ds with
        | nil => simp at hlength
        | cons h ds =>
            cases ds with
            | nil => simp at hlength; omega
            | cons l rest => exact ⟨h, l, rest, rfl⟩
      have hrest : rest.length = 2 * k := by
        simp only [List.length_cons] at hlength
        omega
      have hh := hds h (by simp)
      have hl := hds l (by simp)
      obtain ⟨bytes, hbytes, hcount, hsum⟩ := ih hrest fun d hd => hds d (by simp [hd])
      refine ⟨(16 * h + l).toUInt8 :: bytes, ?_, by rw [List.length_cons, hcount], ?_⟩
      · simp only [List.map_cons, hexPairs, hexDigit?_digitChar hh, hexDigit?_digitChar hl, hbytes]
        rfl
      · have hbyte : (16 * h + l).toUInt8.toNat = 16 * h + l := Nat.mod_eq_of_lt (by omega)
        have hpair : Number.ofDigits 16 [h, l] = 16 * h + l := by
          simp only [Number.ofDigits, List.foldl_cons, List.foldl_nil]
          omega
        have hsplit := Number.ofDigits_append 16 [h, l] rest
        rw [hpair, hrest, Nat.pow_mul] at hsplit
        rw [value_cons, hsum, hbyte, hcount]
        exact hsplit.symm

end Image

section Words

variable {i : Int}

def wordOf (i : Int) : Nat := (i % 2 ^ 32).toNat

def hexText (i : Int) : Text := '0' :: 'x' :: Number.Layout.write ⟨16, .lower, 8, true⟩ (wordOf i)

theorem natCast_wordOf (i : Int) : (wordOf i : Int) = i % 2 ^ 32 :=
  Int.toNat_of_nonneg (Int.emod_nonneg i (by decide))

theorem wordOf_lt (i : Int) : wordOf i < 2 ^ 32 := by
  have h := natCast_wordOf i
  have hlt := Int.emod_lt_of_pos i (by decide : (0 : Int) < 2 ^ 32)
  omega

theorem hexWord_bin32 (i : Int) : hexWord (Number.bin32 i) = .ok (hexText i) := by
  have hmask : Bits.and i 0xffffffff = i % 2 ^ 32 := Bits.and_mask i 32
  rw [hexWord, Number.readInt_bin32]
  simp only [hmask, ← natCast_wordOf]
  rfl

theorem ofHex_hexText (i : Int) :
    ∃ bytes, Image.ofHex (hexText i) = .ok bytes ∧ bytes.length = 4 ∧ Image.value bytes = wordOf i := by
  obtain ⟨ds, htext, hlength, hds, hvalue⟩ :=
    Number.exists_write_of_lt (by decide : 1 < 16) (by decide : 0 < 8) (wordOf_lt i)
  obtain ⟨bytes, hbytes, hcount, hsum⟩ := Image.hexPairs_digits (k := 4) hlength hds
  refine ⟨bytes, ?_, hcount, hsum.trans hvalue⟩
  rw [hexText, htext]
  exact hbytes

theorem bin32_digits (h : 0 ≤ i ∧ i < 2 ^ 32) :
    ∃ ds, Number.bin32 i = ds.map Nat.digitChar ∧ ds.length = 32 ∧ (∀ d ∈ ds, d < 2) ∧
      Number.ofDigits 2 ds = wordOf i := by
  have hword : (wordOf i : Int) = i := (natCast_wordOf i).trans (Int.emod_eq_of_lt h.1 h.2)
  have hwrite := Number.exists_write_of_lt (by decide : 1 < 2) (by decide : 0 < 32) (wordOf_lt i)
  rwa [hword] at hwrite

theorem ofBinary_bin32 (h : 0 ≤ i ∧ i < 2 ^ 32) :
    Image.ofBinary (Number.bin32 i) = Image.ofHex (hexText i) := by
  obtain ⟨ds, htext, hlength, hds, hvalue⟩ := bin32_digits h
  obtain ⟨bytes, hbytes, hcount, hsum⟩ := Image.ofBinary_digits (k := 4) hlength hds
  obtain ⟨bytes', hbytes', hcount', hsum'⟩ := ofHex_hexText i
  have heq : bytes = bytes' :=
    Image.eq_of_value_eq (hcount.trans hcount'.symm) (by rw [hsum, hvalue, hsum'])
  rw [htext, hbytes, hbytes', heq]

theorem length_bin32 (i : Int) : 32 ≤ (Number.bin32 i).length := by
  simp only [Number.bin32, Number.Layout.write, Text.padLeft, ↓reduceIte, List.length_append,
    List.length_replicate]
  omega

theorem bin32_negative (h : i < 0) :
    ∃ ds : List Nat, Number.bin32 i = '-' :: ds.map Nat.digitChar ∧ 31 ≤ ds.length ∧
      ∀ d ∈ ds, d < 2 := by
  obtain ⟨ds, htext, -, hds, -⟩ := Number.exists_write (by decide : 1 < 2) 32 i
  rw [decide_eq_true h, if_pos rfl] at htext
  have hlength := length_bin32 i
  rw [Number.bin32, htext] at hlength
  refine ⟨ds, htext, ?_, hds⟩
  simp only [List.length_append, List.length_cons, List.length_nil, List.length_map] at hlength
  omega

theorem head_of_ofBinary (h : i < 0) {bytes : List UInt8}
    (hbytes : Image.ofBinary (Number.bin32 i) = .ok bytes) : bytes.head? = some 0 := by
  obtain ⟨ds, htext, hlength, hds⟩ := bin32_negative h
  have hfirst : (ds.take 7).length = 7 := by
    rw [List.length_take]
    omega
  have hne : ds.take 7 ≠ [] := List.ne_nil_of_length_eq_add_one hfirst
  have hread : Number.readInt 2 ('-' :: (ds.take 7).map Nat.digitChar) =
      .ok (-(Number.ofDigits 2 (ds.take 7) : Int)) :=
    Number.readInt_digits (by decide) true hne (fun d hd => hds d (List.mem_of_mem_take hd)) (by simp)
  have hsplit : Number.bin32 i =
      ('-' :: (ds.take 7).map Nat.digitChar) ++ (ds.drop 7).map Nat.digitChar := by
    rw [htext, List.cons_append, ← List.map_append, List.take_append_drop]
  have hchunk : ('-' :: (ds.take 7).map Nat.digitChar).length = 8 := by
    rw [List.length_cons, List.length_map, hfirst]
  rw [hsplit, Image.ofBinary, Text.chunks_append (by decide) hchunk, List.mapM_cons] at hbytes
  obtain ⟨b, hb, hrest⟩ := Except.bind_eq_ok.mp hbytes
  obtain ⟨rest, -, hcons⟩ := Except.bind_eq_ok.mp hrest
  cases hcons
  rw [Image.byteOf, hread] at hb
  dsimp only at hb
  split at hb
  · rename_i hrange
    have hzero : -(Number.ofDigits 2 (ds.take 7) : Int) = 0 := by omega
    rw [hzero] at hb
    exact congrArg some (Except.ok.inj hb).symm
  · cases hb

theorem head_of_ofHex (h : -2 ^ 31 ≤ i ∧ i < 0) {bytes : List UInt8}
    (hbytes : Image.ofHex (hexText i) = .ok bytes) : ∃ b rest, bytes = b :: rest ∧ b ≠ 0 := by
  obtain ⟨bytes', hbytes', hcount, hvalue⟩ := ofHex_hexText i
  obtain rfl : bytes' = bytes := Except.ok.inj (hbytes'.symm.trans hbytes)
  cases bytes' with
  | nil => cases hcount
  | cons b rest =>
      refine ⟨b, rest, rfl, ?_⟩
      rintro rfl
      have hlt := Image.value_lt rest
      have hword := natCast_wordOf i
      rw [Nat.succ.inj hcount] at hlt
      rw [Image.value_cons, UInt8.toNat_zero, Nat.zero_mul, Nat.zero_add] at hvalue
      omega

/-- The three spellings of an instruction agree: 32 binary digits, the same word in hexadecimal, and
the digits in eight groups of four. -/
structure Agree (binary hex nibble : Text) : Prop where
  length_eq : binary.length = 32
  digits : ∀ c ∈ binary, c = '0' ∨ c = '1'
  word : ∃ w : BitVec 32, Number.readInt 2 binary = .ok w.toNat ∧ Number.readInt 16 hex = .ok w.toNat
  groups : ∃ gs : List Text, gs.length = 8 ∧ (∀ g ∈ gs, g.length = 4) ∧ gs.flatten = binary ∧
    nibble = Text.join ['\t'] gs

theorem agree_iff (h : -2 ^ 31 ≤ i ∧ i < 2 ^ 32) :
    Agree (Number.bin32 i) (hexText i) (nibbles (Number.bin32 i)) ↔ 0 ≤ i := by
  constructor
  · intro hagree
    by_contra hnegative
    obtain ⟨ds, htext, -, -⟩ := bin32_negative (by omega : i < 0)
    have hsign := hagree.digits '-' (by rw [htext]; exact List.mem_cons_self)
    revert hsign
    decide
  · intro hi
    obtain ⟨ds, htext, hlength, hds, -⟩ := bin32_digits ⟨hi, h.2⟩
    have hcount : (Number.bin32 i).length = 32 := by rw [htext, List.length_map, hlength]
    have hword : (wordOf i : Int) = i := (natCast_wordOf i).trans (Int.emod_eq_of_lt hi h.2)
    obtain ⟨hgroups, hfour, hflat⟩ := Text.chunks_flatten (k := 8) (by decide : 0 < 4) hcount
    refine ⟨hcount, ?_, ⟨BitVec.ofNat 32 (wordOf i), ?_, ?_⟩, _, hgroups, hfour, hflat, rfl⟩
    · intro c hc
      rw [htext] at hc
      obtain ⟨d, hd, rfl⟩ := List.mem_map.mp hc
      have hbit : ∀ d < 2, d.digitChar = '0' ∨ d.digitChar = '1' := by decide
      exact hbit d (hds d hd)
    · rw [BitVec.toNat_ofNat, Nat.mod_eq_of_lt (wordOf_lt i), hword, Number.readInt_bin32]
    · rw [BitVec.toNat_ofNat, Nat.mod_eq_of_lt (wordOf_lt i)]
      exact Number.readInt_hexMark 8 (wordOf i)

end Words

namespace Image

theorem writeAll_cons {f : Text → Except Fault (List UInt8)} {t : Text} {ts : List Text}
    {bytes : List UInt8} :
    writeAll f (t :: ts) = ⟨bytes, none⟩ ↔
      ∃ front rest, f t = .ok front ∧ writeAll f ts = ⟨rest, none⟩ ∧ bytes = front ++ rest := by
  rw [writeAll]
  cases f t with
  | error e => simp
  | ok front =>
      obtain ⟨rest, fault⟩ := writeAll f ts
      constructor
      · intro h
        cases h
        exact ⟨front, rest, rfl, rfl, rfl⟩
      · rintro ⟨front', rest', hfront, hrest, rfl⟩
        cases hfront
        cases hrest
        rfl

theorem writeAll_hexText (is : List Int) :
    ∃ bytes, writeAll ofHex (is.map hexText) = ⟨bytes, none⟩ ∧ bytes.length = 4 * is.length := by
  induction is with
  | nil => exact ⟨[], rfl, rfl⟩
  | cons i is ih =>
      obtain ⟨front, hfront, hcount, -⟩ := ofHex_hexText i
      obtain ⟨rest, hrest, hlength⟩ := ih
      refine ⟨front ++ rest, writeAll_cons.mpr ⟨front, rest, hfront, hrest, rfl⟩, ?_⟩
      rw [List.length_append, List.length_cons, hcount, hlength]
      omega

/-- The two files are the same exactly when no encoding is negative: the first byte of a negative one
would have to be zero. -/
theorem writeAll_agree_iff {is : List Int} (h : ∀ i ∈ is, -2 ^ 31 ≤ i ∧ i < 2 ^ 32) :
    (∃ bytes, writeAll ofBinary (is.map Number.bin32) = ⟨bytes, none⟩ ∧
      writeAll ofHex (is.map hexText) = ⟨bytes, none⟩) ↔ ∀ i ∈ is, 0 ≤ i := by
  induction is with
  | nil => exact ⟨fun _ => List.forall_mem_nil _, fun _ => ⟨[], rfl, rfl⟩⟩
  | cons i is ih =>
      obtain ⟨hi, his⟩ := List.forall_mem_cons.mp h
      rw [List.forall_mem_cons, ← ih his, List.map_cons, List.map_cons]
      simp only [writeAll_cons]
      constructor
      · rintro ⟨bytes, ⟨front, rest, hfront, hrest, rfl⟩, front', rest', hfront', hrest', heq⟩
        have hsign : 0 ≤ i := by
          by_contra hnegative
          have hhead := head_of_ofBinary (by omega) hfront
          obtain ⟨b, tail, rfl, hb⟩ := head_of_ofHex ⟨hi.1, by omega⟩ hfront'
          cases front with
          | nil => cases hhead
          | cons c front =>
              have hcb : c = b := (List.cons.inj heq).1
              exact hb (hcb.symm.trans (Option.some.inj hhead))
        obtain rfl : front = front' := by
          rw [ofBinary_bin32 ⟨hsign, hi.2⟩] at hfront
          exact Except.ok.inj (hfront.symm.trans hfront')
        exact ⟨hsign, rest, hrest, List.append_cancel_left heq ▸ hrest'⟩
      · rintro ⟨hsign, rest, hrest, hrest'⟩
        obtain ⟨front, hfront, -, -⟩ := ofHex_hexText i
        refine ⟨front ++ rest, ⟨front, rest, ?_, hrest, rfl⟩, front, rest, hfront, hrest', rfl⟩
        rw [ofBinary_bin32 ⟨hsign, hi.2⟩, hfront]

theorem drop_extension {extension : Text} (h : extension.length = 4) (stem : Text) :
    (stem ++ extension).drop ((stem ++ extension).length - 4) = extension := by
  rw [List.length_append, h, Nat.add_sub_cancel, List.drop_left]

theorem forFile?_bin (stem : Text) (items : List Text) :
    forFile? (stem ++ ".bin".toList) items = some (writeAll ofBinary items) := by
  rw [forFile?, drop_extension rfl]
  rfl

theorem forFile?_hex (stem : Text) (items : List Text) :
    forFile? (stem ++ ".hex".toList) items = some (writeAll ofHex items) := by
  rw [forFile?, drop_extension rfl]
  rfl

theorem files_agree_iff {is : List Int} (h : ∀ i ∈ is, -2 ^ 31 ≤ i ∧ i < 2 ^ 32) (stem stem' : Text) :
    (∃ bytes, forFile? (stem ++ ".bin".toList) (is.map Number.bin32) = some ⟨bytes, none⟩ ∧
      forFile? (stem' ++ ".hex".toList) (is.map hexText) = some ⟨bytes, none⟩ ∧
      bytes.length = 4 * is.length) ↔ ∀ i ∈ is, 0 ≤ i := by
  obtain ⟨written, hwritten, hlength⟩ := writeAll_hexText is
  rw [forFile?_bin, forFile?_hex, ← writeAll_agree_iff h]
  simp only [Option.some.injEq]
  constructor
  · rintro ⟨bytes, hbin, hhex, -⟩
    exact ⟨bytes, hbin, hhex⟩
  · rintro ⟨bytes, hbin, hhex⟩
    obtain rfl : written = bytes := congrArg Image.bytes (hwritten.symm.trans hhex)
    exact ⟨written, hbin, hhex, hlength⟩

end Image

/-- Does a negative immediate stand at the top of the word? -/
def Coded.Negative (c : Coded) : Prop :=
  Instruction.NegativeTop c.format c.op c.encoding.operands

theorem Encodes.extent [Evaluator] {st : SymbolTable} {pc : Int} {lines : List Text} {cs : List Coded}
    (h : Encodes st pc lines cs)
    (hregs : ∀ c ∈ cs, ∀ regs ∈ c.encoding.operands.regs, ∀ r ∈ regs, r < 32) :
    ∀ c ∈ cs, Instruction.Extent c.Negative c.encoding.bits := by
  induction h with
  | nil => exact List.forall_mem_nil _
  | cons _ _ _ hencode _ ih =>
      obtain ⟨hfirst, hrest⟩ := List.forall_mem_cons.mp hregs
      exact List.forall_mem_cons.mpr ⟨Instruction.encodeWith_extent hencode hfirst, ih hrest⟩

theorem mapM_hexWord (is : List Int) :
    (is.map Number.bin32).mapM hexWord = .ok (is.map hexText) := by
  induction is with
  | nil => rfl
  | cons i is ih =>
      rw [List.map_cons, List.mapM_cons, hexWord_bin32, ih]
      rfl

theorem effect_emit (mode : Emission) (a : Assembly) :
    (emit mode).effect a = (render mode a.encoded, a) := rfl

/-- For a program that assembles with the 32 registers: the emitted forms of an instruction agree, and
so do the two files, if and only if no negative immediate stands at the top of a word. -/
theorem emissions_agree_iff [Evaluator] [Evaluator.Textual] {text : Text} {base : Int} {a a' : Assembly}
    {log log' : Log}
    (hread : ofText text base = ⟨log, a, .ok ()⟩) (hassemble : assemble.run a = ⟨log', a', .ok ()⟩) :
    ∃ cs, Encodes a.symbols base a.mnemonics cs ∧
      ((∀ c ∈ cs, ∀ regs ∈ c.encoding.operands.regs, ∀ r ∈ regs, r < 32) →
        ∃ bins hexes nibs, (emit .bin).effect a' = (.ok bins, a') ∧
          (emit .hex).effect a' = (.ok hexes, a') ∧ (emit .nibble).effect a' = (.ok nibs, a') ∧
          bins.length = cs.length ∧ hexes.length = cs.length ∧ nibs.length = cs.length ∧
          (∀ (k : Nat) c, cs[k]? = some c → ∃ b x n, bins[k]? = some b ∧ hexes[k]? = some x ∧
            nibs[k]? = some n ∧ (Agree b x n ↔ ¬ c.Negative)) ∧
          ∀ stem stem', (∃ bytes, Image.forFile? (stem ++ ".bin".toList) bins = some ⟨bytes, none⟩ ∧
            Image.forFile? (stem' ++ ".hex".toList) hexes = some ⟨bytes, none⟩ ∧
            bytes.length = 4 * cs.length) ↔ ∀ c ∈ cs, ¬ c.Negative) := by
  have hreading : (read text).effect ⟨base, [], [], [], [], [], []⟩ = (.ok (), a) := by
    change ((ofText text base).result, (ofText text base).state) = _
    rw [hread]
  have hrun : assemble.effect a = (.ok (), a') := by
    change ((assemble.run a).result, (assemble.run a).state) = _
    rw [hassemble]
  obtain ⟨r, hreached⟩ := read_reached rfl hreading
  obtain ⟨cs, hcs, rfl⟩ := assemble_eq_ok hrun
  rw [hreached.base_eq] at hcs
  refine ⟨cs, hcs, fun hregs => ?_⟩
  have hextent := hcs.extent hregs
  let is : List Int := cs.map fun c => c.encoding.bits
  have hbins : (cs.map fun c => c.encoding.binary) = is.map Number.bin32 := by
    rw [List.map_map]
    rfl
  have hbounds : ∀ i ∈ is, -2 ^ 31 ≤ i ∧ i < 2 ^ 32 := by
    intro i hi
    obtain ⟨c, hc, rfl⟩ := List.mem_map.mp hi
    exact (hextent c hc).bounds
  have hall : (∀ i ∈ is, 0 ≤ i) ↔ ∀ c ∈ cs, ¬ c.Negative := by
    rw [List.forall_mem_map]
    exact forall₂_congr fun c hc => (hextent c hc).nonneg_iff
  refine ⟨is.map Number.bin32, is.map hexText, (is.map Number.bin32).map nibbles, ?_, ?_, ?_,
    by simp [is], by simp [is], by simp [is], ?_, ?_⟩
  · rw [effect_emit, hbins]
    rfl
  · rw [effect_emit, hbins, render, mapM_hexWord]
  · rw [effect_emit, hbins]
    rfl
  · intro k c hc
    have hc' := hextent c (List.mem_of_getElem? hc)
    refine ⟨Number.bin32 c.encoding.bits, hexText c.encoding.bits,
      nibbles (Number.bin32 c.encoding.bits), by simp [is, hc], by simp [is, hc], by simp [is, hc], ?_⟩
    rw [agree_iff hc'.bounds, hc'.nonneg_iff]
  · intro stem stem'
    have hlength : is.length = cs.length := List.length_map ..
    rw [← hall, ← Image.files_agree_iff hbounds stem stem', hlength]

def minusOne : Text := "addi x1, x0, -1\n".toList

section EmissionsMinusOne

open scoped Evaluator.Arithmetic

theorem emissions_minusOne :
    ∃ a' bins hexes, (ofText minusOne 0).result = .ok () ∧
      assemble.effect (ofText minusOne 0).state = (.ok (), a') ∧
      (emit .bin).effect a' = (.ok bins, a') ∧ (emit .hex).effect a' = (.ok hexes, a') ∧
      ∀ stem stem', ¬ ∃ bytes, Image.forFile? (stem ++ ".bin".toList) bins = some ⟨bytes, none⟩ ∧
        Image.forFile? (stem' ++ ".hex".toList) hexes = some ⟨bytes, none⟩ ∧ bytes.length = 4 := by
  have hread : (ofText minusOne 0).result = .ok () := Except.eq_ok_of_toOption (by decide +kernel)
  have hassemble : (assemble.run (ofText minusOne 0).state).result = .ok () :=
    Except.eq_ok_of_toOption (by decide +kernel)
  obtain ⟨cs, hcs, hemit⟩ := emissions_agree_iff (a := (ofText minusOne 0).state)
    (by rw [← hread]) (by rw [← hassemble])
  have hlines : (ofText minusOne 0).state.mnemonics = ["addi x1, x0, -1".toList] := by decide +kernel
  have hsymbols : (ofText minusOne 0).state.symbols = [] :=
    List.eq_nil_of_length_eq_zero (by decide +kernel)
  rw [hlines, hsymbols] at hcs
  cases hcs with
  | @cons _ _ _ args resolved c cs htokens hargs hformat hencode hrest =>
      cases hrest
      obtain ⟨op, f, e⟩ := c
      have htokens' : tokens (Text.trim "addi x1, x0, -1".toList) =
          "addi".toList :: ["x1".toList, "x0".toList, "-1".toList] := by decide +kernel
      obtain ⟨rfl, rfl⟩ := List.cons.inj (htokens.symm.trans htokens')
      have hargs' : ["x1".toList, "x0".toList, "-1".toList].mapM (resolveOperand [] 0) =
          .ok ["x1".toList, "x0".toList, "-1".toList] := Except.eq_ok_of_toOption (by decide +kernel)
      obtain rfl := Except.ok.inj (hargs.symm.trans hargs')
      have hformat' : Isa.base.format? "addi".toList = some .I := by decide
      obtain rfl : f = .I := Option.some.inj (hformat.symm.trans hformat')
      have hencode' : Instruction.encodeWith .I "addi".toList
          (["x1".toList, "x0".toList, "-1".toList].map .text) =
            .ok ⟨-1048429, ⟨some [1, 0], some (-1)⟩⟩ := Except.eq_ok_of_toOption (by decide +kernel)
      obtain rfl := Except.ok.inj (hencode.symm.trans hencode')
      obtain ⟨bins, hexes, nibs, hbin, hhex, -, -, -, -, -, hfiles⟩ := hemit (by simp)
      refine ⟨_, bins, hexes, hread, by rw [← hassemble]; rfl, hbin, hhex, fun stem stem' h => ?_⟩
      exact (hfiles stem stem').mp h _ List.mem_cons_self ⟨.inr ⟨rfl, by decide⟩, -1, rfl, by decide⟩

end EmissionsMinusOne

end RvToolkit.Assembly
