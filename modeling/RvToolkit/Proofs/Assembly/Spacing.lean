import Mathlib.Data.List.Forall2
import Mathlib.Data.List.TakeWhile
import RvToolkit.Proofs.Assembly.Agreement
import RvToolkit.Proofs.Assembly.Relocation
import RvToolkit.Proofs.OneLine

namespace RvToolkit

namespace Action

variable {σ τ υ α β : Type} {g : σ → τ}

/-- `y` does to the image of every state what `x` does to the state. -/
def Follows (g : σ → τ) (x : Action σ α) (y : Action τ α) : Prop :=
  ∀ s, y.effect (g s) = ((x.effect s).1, g (x.effect s).2)

theorem follows_pure (a : α) : Follows g (pure a) (pure a) := fun _ => rfl

theorem follows_fail (e : Fault) : Follows g (fail e : Action σ α) (fail e) := fun _ => rfl

theorem follows_ofExcept (r : Except Fault α) : Follows g (ofExcept r) (ofExcept r) := fun _ => rfl

theorem follows_note (l : Level) (t : Text) : Follows g (note l t) (note l t) := fun _ => rfl

theorem follows_modify {f : σ → σ} {f' : τ → τ} (h : ∀ s, f' (g s) = g (f s)) :
    Follows g (modify f) (modify f') := by
  intro s
  rw [effect_modify, effect_modify, h]

theorem Follows.bind {x : Action σ α} {y : Action τ α} {f : α → Action σ β} {f' : α → Action τ β}
    (hx : Follows g x y) (hf : ∀ a, Follows g (f a) (f' a)) : Follows g (x >>= f) (y >>= f') := by
  intro s
  rw [effect_bind, effect_bind, hx s]
  obtain ⟨e | a, s'⟩ := x.effect s
  · rfl
  · exact hf a s'

theorem Follows.handle {x : Action σ α} {y : Action τ α} {k : Fault → Action σ α} {k' : Fault → Action τ α}
    (hx : Follows g x y) (hk : ∀ e, Follows g (k e) (k' e)) : Follows g (x.handle k) (y.handle k') := by
  intro s
  rw [effect_handle, effect_handle, hx s]
  obtain ⟨e | a, s'⟩ := x.effect s
  · exact hk e s'
  · rfl

theorem follows_get_bind {f : σ → Action σ β} {f' : τ → Action τ β} (h : ∀ s, Follows g (f s) (f' (g s))) :
    Follows g (get >>= f) (get >>= f') := by
  intro s
  rw [effect_bind_of_ok (effect_get _), effect_bind_of_ok (effect_get _)]
  exact h s s

theorem follows_forEach {f : α → Action σ Unit} {f' : α → Action τ Unit} (h : ∀ a, Follows g (f a) (f' a))
    (as : List α) : Follows g (forEach f as) (forEach f' as) := by
  induction as with
  | nil => exact follows_pure ()
  | cons a as ih => exact (h a).bind fun _ => ih

theorem follows_of_answer {x : Action σ α} {y : Action τ α} {r : Except Fault α}
    (hx : ∀ s, x.effect s = (r, s)) (hy : ∀ s, y.effect s = (r, s)) : Follows g x y := by
  intro s
  rw [hx, hy]

theorem Follows.trans {g' : τ → υ} {x : Action σ α} {y : Action τ α} {z : Action υ α} (hy : Follows g x y)
    (hz : Follows g' y z) : Follows (g' ∘ g) x z := by
  intro s
  rw [Function.comp_apply, hz, hy]
  rfl

end Action

namespace Text

theorem trimEnd_append_blanks {blanks : Text} (h : ∀ c ∈ blanks, isBlank c = true) (t : Text) :
    trimEnd (t ++ blanks) = trimEnd t := by
  have hreverse : ∀ c ∈ blanks.reverse, isBlank c = true := fun c hc => h c (List.mem_reverse.mp hc)
  rw [trimEnd, List.reverse_append, List.dropWhile_append_of_pos hreverse, trimEnd]

theorem trim_append_blanks {blanks : Text} (h : ∀ c ∈ blanks, isBlank c = true) (t : Text) :
    trim (t ++ blanks) = trim t := by
  induction t with
  | nil =>
      have hall : (blanks ++ []).dropWhile isBlank = [].dropWhile isBlank := List.dropWhile_append_of_pos h
      rw [List.append_nil] at hall
      rw [trim, List.nil_append, hall]
      rfl
  | cons c t ih =>
      unfold trim at ih ⊢
      rw [List.cons_append, List.dropWhile_cons, List.dropWhile_cons]
      by_cases hc : isBlank c = true
      · rw [if_pos hc, if_pos hc, ih]
      · rw [if_neg hc, if_neg hc]
        exact trimEnd_append_blanks h (c :: t)

theorem linesFrom_append {line : Text} (h : ∀ c ∈ line, isLineBreak c = false) (cur rest : Text) :
    linesFrom cur (line ++ '\n' :: rest) = (cur.reverse ++ line) :: linesFrom [] rest := by
  induction line generalizing cur with
  | nil =>
      rw [List.append_nil]
      rfl
  | cons c line ih =>
      have hc : ¬ isLineBreak c = true := by
        rw [h c List.mem_cons_self]
        decide
      have hreturn : c ≠ '\r' := by
        rintro rfl
        exact hc (by decide)
      rw [List.cons_append, linesFrom, if_neg hc, ih fun d hd => h d (List.mem_cons_of_mem c hd)]
      · simp
      · exact fun _ heq => absurd heq hreturn

def unlines (ls : List Text) : Text := ls.flatMap (· ++ ['\n'])

theorem lines_unlines {ls : List Text} (h : ∀ l ∈ ls, ∀ c ∈ l, isLineBreak c = false) :
    lines (unlines ls) = ls := by
  unfold lines unlines
  induction ls with
  | nil => rfl
  | cons l ls ih =>
      obtain ⟨hl, hls⟩ := List.forall_mem_cons.mp h
      rw [List.flatMap_cons, List.append_assoc, List.singleton_append, linesFrom_append hl, ih hls]
      rfl

end Text

namespace Assembly

open RvToolkit.Action

variable {f : Nat → Nat} {lines ls ls' pre post : List Text} {line line' gap : Text} {i j : Nat}

def isGap (t : Text) : Bool :=
  t.all (fun c => !Text.isLineBreak c) &&
    (t.dropWhile fun c => c = ' ' || c = '\t').head?.all fun c => c = '#' || c = ';'

theorem withoutComment_append_gap (h : isGap gap = true) (line : Text) :
    withoutComment (line ++ gap) = withoutComment line := by
  obtain ⟨-, hcomment⟩ := Bool.and_eq_true_iff.mp h
  let isSpace (c : Char) : Bool := c = ' ' || c = '\t'
  have hspaces : ∀ c ∈ gap.takeWhile isSpace, c = ' ' ∨ c = '\t' := by
    intro c hc
    simpa [isSpace] using List.mem_takeWhile_imp hc
  have hblanks : ∀ c ∈ gap.takeWhile isSpace, Text.isBlank c = true := by
    intro c hc
    rcases hspaces c hc with rfl | rfl <;> decide
  have hgap : gap.takeWhile (fun c => c ≠ ';' && c ≠ '#') = gap.takeWhile isSpace := by
    have hcontent : ∀ c ∈ gap.takeWhile isSpace, (c ≠ ';' && c ≠ '#') = true := by
      intro c hc
      rcases hspaces c hc with rfl | rfl <;> decide
    have hrest : (gap.dropWhile isSpace).takeWhile (fun c => c ≠ ';' && c ≠ '#') = [] := by
      cases hdrop : gap.dropWhile isSpace with
      | nil => rfl
      | cons c rest =>
          change (gap.dropWhile isSpace).head?.all _ = true at hcomment
          have hc : c = '#' ∨ c = ';' := by simpa [hdrop] using hcomment
          exact List.takeWhile_cons_of_neg (by rcases hc with rfl | rfl <;> decide)
    calc gap.takeWhile (fun c => c ≠ ';' && c ≠ '#')
        = (gap.takeWhile isSpace ++ gap.dropWhile isSpace).takeWhile (fun c => c ≠ ';' && c ≠ '#') := by
          rw [List.takeWhile_append_dropWhile]
      _ = gap.takeWhile isSpace := by
          rw [List.takeWhile_append_of_pos hcontent, hrest, List.append_nil]
  unfold withoutComment
  rw [List.takeWhile_append, hgap]
  split
  · next hall =>
      -- the line has no comment of its own, so that its blanks and those of the gap are trimmed together
      rw [(List.takeWhile_prefix _).eq_of_length hall]
      exact Text.trim_append_blanks hblanks line
  · rfl

theorem withoutComment_gap (h : isGap gap = true) : withoutComment gap = [] :=
  withoutComment_append_gap h []

theorem effect_readLine_gap [Evaluator] (h : isGap gap = true) (r : Reader) (a : Assembly) :
    (readLine i r gap).effect a = (.ok r, a) := by
  unfold readLine
  rw [withoutComment_gap h]
  cases r.inside with
  | some m => rfl
  | none => rfl

/-- Where the lines from `n` on go when one is put before them. -/
def makeRoom (n i : Nat) : Nat := if i < n then i else i + 1

/-- Gaps have been put between the lines and behind them; a line is found where `f` says. -/
inductive Relaid : (Nat → Nat) → List Text → List Text → Prop where
  | refl (ls : List Text) : Relaid id ls ls
  | between {f : Nat → Nat} {ls pre post : List Text} {gap : Text} (h : Relaid f ls (pre ++ post))
      (hgap : isGap gap = true) : Relaid (makeRoom pre.length ∘ f) ls (pre ++ gap :: post)
  | behind {f : Nat → Nat} {ls pre post : List Text} {line gap : Text}
      (h : Relaid f ls (pre ++ line :: post)) (hgap : isGap gap = true) :
      Relaid f ls (pre ++ (line ++ gap) :: post)

theorem Relaid.isLineBreak (h : Relaid f ls ls') (hls : ∀ l ∈ ls, ∀ c ∈ l, Text.isLineBreak c = false) :
    ∀ l ∈ ls', ∀ c ∈ l, Text.isLineBreak c = false := by
  have hfree {gap : Text} (hgap : isGap gap = true) : ∀ c ∈ gap, Text.isLineBreak c = false := by
    intro c hc
    simpa using List.all_eq_true.mp (Bool.and_eq_true_iff.mp hgap).1 c hc
  induction h with
  | refl => exact hls
  | between _ hgap ih =>
      obtain ⟨hpre, hpost⟩ := List.forall_mem_append.mp (ih hls)
      exact List.forall_mem_append.mpr ⟨hpre, List.forall_mem_cons.mpr ⟨hfree hgap, hpost⟩⟩
  | behind _ hgap ih =>
      obtain ⟨hpre, hpost⟩ := List.forall_mem_append.mp (ih hls)
      obtain ⟨hline, hpost⟩ := List.forall_mem_cons.mp hpost
      have hlonger := List.forall_mem_append.mpr ⟨hline, hfree hgap⟩
      exact List.forall_mem_append.mpr ⟨hpre, List.forall_mem_cons.mpr ⟨hlonger, hpost⟩⟩

def reindexed (f : Nat → Nat) (lines : List Text) (a : Assembly) : Assembly :=
  { a with lines := lines, indices := a.indices.map f }

theorem reindexed_comp (g : Nat → Nat) : reindexed g lines ∘ reindexed f ls = reindexed (g ∘ f) lines := by
  funext a
  simp [reindexed]

theorem follows_addInstruction (text : Text) :
    Follows (reindexed f lines) (addInstruction i text) (addInstruction (f i) text) := by
  apply (follows_ofExcept _).bind
  intro accepted
  cases accepted with
  | false => exact follows_fail _
  | true =>
      apply follows_modify
      intro a
      simp [reindexed]

section Reading

variable [Evaluator] [Evaluator.Textual]

theorem follows_define (name value : Text) :
    Follows (reindexed f lines) (define name value) (define name value) := by
  have hvalue := Evaluator.effect_constantValue value
  apply (follows_of_answer hvalue hvalue).bind
  intro v
  refine Follows.bind (follows_modify fun _ => rfl) fun _ => ?_
  exact (follows_ofExcept _).bind fun _ => follows_note _ _

theorem follows_directive (name args : Text) :
    Follows (reindexed f lines) (directive name args) (directive name args) := by
  unfold directive
  split
  · unfold equate
    split
    · exact (follows_define _ _).handle fun e => follows_fail _
    · exact follows_fail _
  · exact follows_pure ()

theorem follows_readLine (hline : withoutComment line' = withoutComment line) (r : Reader) :
    Follows (reindexed f lines) (readLine i r line) (readLine (f i) r line') := by
  unfold readLine
  rw [hline]
  dsimp only
  cases r.inside with
  | some m =>
      dsimp only
      unfold readInside
      split
      · exact follows_pure r
      · split
        · exact Follows.bind (follows_modify fun _ => rfl) fun _ => follows_pure _
        · exact follows_pure _
  | none =>
      dsimp only
      unfold readOutside
      split
      · exact follows_pure r
      · exact follows_pure _
      · exact (follows_directive _ _).bind fun _ => follows_pure r
      · exact Follows.bind (follows_modify fun _ => rfl) fun _ => follows_pure r
      · apply follows_get_bind
        intro a
        exact (follows_forEach (fun text => follows_addInstruction text) _).bind fun _ => follows_pure _

theorem follows_readLines (hlines : List.Forall₂ (fun l l' => withoutComment l' = withoutComment l) ls ls')
    (hf : ∀ k < ls.length, f (i + k) = j + k) (r : Reader) :
    Follows (reindexed f lines) (readLines i r ls) (readLines j r ls') := by
  induction hlines generalizing i j r with
  | nil => exact follows_pure r
  | @cons l l' ls ls' hl _ ih =>
      have hi : f i = j := hf 0 (Nat.zero_lt_succ _)
      rw [readLines, readLines, ← hi]
      refine (follows_readLine hl r).bind fun r' => ?_
      apply ih
      intro k hk
      have hnext := hf (k + 1) (Nat.succ_lt_succ hk)
      rw [Nat.add_assoc, Nat.add_comm 1 k, hnext]
      omega

theorem follows_readLines_gap (h : isGap gap = true) (hbefore : ∀ k < i + pre.length, f k = k)
    (hbehind : ∀ k, i + pre.length ≤ k → f k = k + 1) (r : Reader) :
    Follows (reindexed f lines) (readLines i r (pre ++ post)) (readLines i r (pre ++ gap :: post)) := by
  induction pre generalizing i r with
  | nil =>
      intro a
      rw [List.nil_append, List.nil_append, readLines, effect_bind_of_ok (effect_readLine_gap h r _)]
      refine follows_readLines (List.forall₂_same.mpr fun _ _ => rfl) ?_ r a
      intro k _
      rw [hbehind (i + k) (Nat.le_add_right i k)]
      omega
  | cons l pre ih =>
      have hi : f i = i := hbefore i (by simp)
      rw [List.cons_append, List.cons_append, readLines, readLines]
      conv => arg 3; rw [← hi]
      refine (follows_readLine rfl r).bind fun r' => ?_
      rw [hi]
      apply ih
      · intro k hk
        exact hbefore k (by rw [List.length_cons]; omega)
      · intro k hk
        exact hbehind k (by rw [List.length_cons]; omega)

theorem Relaid.follows (h : Relaid f ls ls') (lines : List Text) (r : Reader) :
    Follows (reindexed f lines) (readLines 0 r ls) (readLines 0 r ls') := by
  induction h with
  | refl ls => exact follows_readLines (List.forall₂_same.mpr fun _ _ => rfl) (fun _ _ => rfl) r
  | @between f ls pre post gap h hgap ih =>
      have hbefore : ∀ k < 0 + pre.length, makeRoom pre.length k = k := by
        intro k hk
        exact if_pos (by omega)
      have hbehind : ∀ k, 0 + pre.length ≤ k → makeRoom pre.length k = k + 1 := by
        intro k hk
        exact if_neg (by omega)
      rw [← reindexed_comp]
      exact ih.trans (follows_readLines_gap hgap hbefore hbehind r)
  | @behind f ls pre post line gap h hgap ih =>
      have hkept (l : List Text) : List.Forall₂ (fun l l' => withoutComment l' = withoutComment l) l l :=
        List.forall₂_same.mpr fun _ _ => rfl
      have hsame := List.rel_append (hkept pre) (.cons (withoutComment_append_gap hgap line) (hkept post))
      rw [← Function.id_comp f, ← reindexed_comp]
      exact ih.trans (follows_readLines hsame (fun _ _ => rfl) r)

theorem follows_read {t t' : Text} (h : Relaid f (Text.lines t) (Text.lines t')) :
    Follows (reindexed f (Text.lines t')) (read t) (read t') := by
  refine Follows.bind (follows_modify fun _ => rfl) fun _ => ?_
  exact (h.follows (Text.lines t') {}).bind fun _ => follows_note _ _

end Reading

theorem follows_assemble [Evaluator] (f : Nat → Nat) (lines : List Text) :
    Follows (reindexed f lines) assemble assemble := by
  apply (follows_note _ _).bind
  intro _
  apply follows_get_bind
  intro a
  have hanswer := effect_translate a.symbols a.base a.mnemonics (σ := Assembly)
  apply (follows_of_answer hanswer hanswer).bind
  intro encoded
  split
  · exact follows_fail _
  · exact follows_modify fun _ => rfl

theorem follows_steps [Evaluator] (f : Nat → Nat) (lines : List Text) :
    Follows (reindexed f lines) steps steps := by
  apply follows_get_bind
  intro a
  have hanswer := effect_interpret a.symbols a.base a.mnemonics (σ := Assembly)
  apply (follows_of_answer hanswer hanswer).bind
  intro ss
  split
  · exact follows_fail _
  · exact follows_pure ss

/-- Gaps between and behind the lines of a text, inside or outside its macros, change nothing but the
lines that the instructions come from: the text is refused with the same fault, or gives the same
program, encodings and instructions. -/
theorem ofText_relaid [Evaluator] [Evaluator.Textual] {t : Text} (h : Relaid f (Text.lines t) ls)
    (base : Int) :
    (∃ t', Text.lines t' = ls) ∧ ∀ t', Text.lines t' = ls →
      (ofText t' base).result = (ofText t base).result ∧
      (ofText t' base).state = { (ofText t base).state with
        lines := ls
        indices := (ofText t base).state.indices.map f } ∧
      encodings t' base = encodings t base ∧ instructions t' base = instructions t base := by
  refine ⟨⟨_, Text.lines_unlines (h.isLineBreak fun _ => Text.isLineBreak_of_mem_lines)⟩, ?_⟩
  rintro t' rfl
  have hread := follows_read h ⟨base, [], [], [], [], [], []⟩
  have hresult : (ofText t' base).result = (ofText t base).result := congrArg Prod.fst hread
  have hstate : (ofText t' base).state = reindexed f (Text.lines t') (ofText t base).state :=
    congrArg Prod.snd hread
  have hassemble := follows_assemble f (Text.lines t') (ofText t base).state
  have hsteps := follows_steps f (Text.lines t') (ofText t base).state
  rw [← hstate] at hassemble hsteps
  have hencoded : (assemble.run (ofText t' base).state).result = (assemble.run (ofText t base).state).result ∧
      (assemble.run (ofText t' base).state).state.encoded =
        (assemble.run (ofText t base).state).state.encoded :=
    ⟨congrArg Prod.fst hassemble, congrArg (·.2.encoded) hassemble⟩
  have hstepped : (steps.run (ofText t' base).state).result = (steps.run (ofText t base).state).result :=
    congrArg Prod.fst hsteps
  refine ⟨hresult, hstate, ?_, ?_⟩
  · rw [encodings, encodings, hresult, hencoded.1, hencoded.2]
  · rw [instructions, instructions, hresult, hstepped]

section OfTextRelaidMacro

open scoped Evaluator.Arithmetic

theorem ofText_relaid_macro :
    let t := ".macro m\naddi x1, x0, 1\n.endm\nl:\nm\njal x0, l\n".toList
    let t' := ".macro m\n\t # one\naddi x1, x0, 1\n.endm\nl:\nm ; call\njal x0, l".toList
    (ofText t' 8).result = .ok () ∧ (ofText t 8).state.indices = [4, 5] ∧
      (ofText t' 8).state.indices = [5, 6] ∧ encodings t' 8 = encodings t 8 := by
  intro t t'
  let front := ["addi x1, x0, 1".toList, ".endm".toList, "l:".toList]
  let lines := [".macro m".toList] ++ (front ++ ["m".toList, "jal x0, l".toList])
  have hbetween : Relaid (makeRoom 1 ∘ id) lines ([".macro m".toList] ++ "\t # one".toList ::
      (front ++ ["m".toList, "jal x0, l".toList])) :=
    .between (.refl lines) (by decide)
  have hbehind : Relaid (makeRoom 1 ∘ id) lines ((".macro m".toList :: "\t # one".toList :: front) ++
      ("m".toList ++ " ; call".toList) :: ["jal x0, l".toList]) :=
    .behind hbetween (by decide)
  have hlines : Text.lines t = lines := by decide +kernel
  rw [← hlines] at hbehind
  obtain ⟨-, htext⟩ := ofText_relaid hbehind 8
  obtain ⟨hresult, hstate, hencodings, -⟩ := htext t' (by decide +kernel)
  have hindices : (ofText t 8).state.indices = [4, 5] := by decide +kernel
  have hok : (ofText t 8).result = .ok () := Except.eq_ok_of_toOption (by decide +kernel)
  refine ⟨hresult.trans hok, hindices, ?_, hencodings⟩
  rw [hstate, hindices]
  rfl

end OfTextRelaidMacro

def counting : Text := ".equ n, len(self.lines)\naddi x1, x0, n\n".toList

def countingRelaid : Text := ".equ n, len(self.lines)\n\naddi x1, x0, n\n".toList

section EncodingsCounting

open scoped Evaluator.Reflective

theorem encodings_counting :
    Relaid (makeRoom 1 ∘ id) (Text.lines counting) (Text.lines countingRelaid) ∧
    encodings counting 0 = .ok ["00000000001000000000000010010011".toList] ∧
    encodings countingRelaid 0 = .ok ["00000000001100000000000010010011".toList] := by
  let pre := [".equ n, len(self.lines)".toList]
  let post := ["addi x1, x0, n".toList]
  have hlines : Text.lines counting = pre ++ post := by decide +kernel
  have hrelaid : Text.lines countingRelaid = pre ++ [] :: post := by decide +kernel
  have hbetween : Relaid (makeRoom 1 ∘ id) (pre ++ post) (pre ++ [] :: post) :=
    .between (.refl (pre ++ post)) rfl
  refine ⟨?_, Except.eq_ok_of_toOption (by decide +kernel), Except.eq_ok_of_toOption (by decide +kernel)⟩
  rwa [hlines, hrelaid]

end EncodingsCounting

end Assembly

end RvToolkit
