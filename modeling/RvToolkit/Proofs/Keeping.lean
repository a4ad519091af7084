import RvToolkit.Proofs.Effect

namespace RvToolkit

theorem Except.cases_of_bind_eq_error {ε α β : Type} {x : Except ε α} {f : α → Except ε β} {e : ε}
    (h : x >>= f = .error e) : x = .error e ∨ ∃ a, x = .ok a ∧ f a = .error e := by
  cases x with
  | error e' => exact .inl (congrArg Except.error (Except.error.inj h))
  | ok a => exact .inr ⟨a, rfl, h⟩

theorem Except.exists_of_mapM_eq_error {ε α β : Type} {f : α → Except ε β} {as : List α} {e : ε}
    (h : as.mapM f = .error e) : ∃ a ∈ as, f a = .error e := by
  induction as with
  | nil => cases h
  | cons a as ih =>
      rw [List.mapM_cons] at h
      rcases cases_of_bind_eq_error h with ha | ⟨b, -, h⟩
      · exact ⟨a, List.mem_cons_self, ha⟩
      · rcases cases_of_bind_eq_error h with has | ⟨bs, -, h⟩
        · obtain ⟨a', ha', he⟩ := ih has
          exact ⟨a', List.mem_cons_of_mem a ha', he⟩
        · cases h

theorem Except.exists_of_mapM_eq_ok {ε α β : Type} {f : α → Except ε β} {as : List α} {bs : List β}
    (h : as.mapM f = .ok bs) : ∀ a ∈ as, ∃ b, f a = .ok b := by
  induction as generalizing bs with
  | nil => simp
  | cons a as ih =>
      rw [List.mapM_cons] at h
      obtain ⟨b, hb, h⟩ := Except.bind_eq_ok.mp h
      obtain ⟨bs', has, -⟩ := Except.bind_eq_ok.mp h
      exact List.forall_mem_cons.mpr ⟨⟨b, hb⟩, ih has⟩

namespace Action

variable {σ τ υ φ α β : Type} {view : σ → υ} {P Q : Fault → Prop} {x : Action σ α}

/-- The action leaves alone what `view` shows of the state, and its faults are among `P`. -/
def Keeps (view : σ → υ) (P : Fault → Prop) (x : Action σ α) : Prop :=
  ∀ s, view (x.effect s).2 = view s ∧ ∀ f, (x.effect s).1 = .error f → P f

theorem Keeps.fault (hx : Keeps view P x) {f : Fault} {s s' : σ} (h : x.effect s = (.error f, s')) : P f :=
  (hx s).2 f (by rw [h])

theorem Keeps.mono (hx : Keeps view P x) (hPQ : ∀ f, P f → Q f) : Keeps view Q x :=
  fun s => ⟨(hx s).1, fun f hf => hPQ f ((hx s).2 f hf)⟩

theorem Keeps.of_id (hx : Keeps id P x) (view : σ → υ) : Keeps view P x :=
  fun s => ⟨congrArg view (hx s).1, (hx s).2⟩

theorem keeps_pure (a : α) : Keeps view P (pure a) := fun _ => ⟨rfl, fun _ h => by cases h⟩

theorem keeps_get : Keeps view P (get : Action σ σ) := fun _ => ⟨rfl, fun _ h => by cases h⟩

theorem keeps_note (l : Level) (t : Text) : Keeps view P (note l t) :=
  fun _ => ⟨rfl, fun _ h => by cases h⟩

theorem keeps_modify {f : σ → σ} (hf : ∀ s, view (f s) = view s) : Keeps view P (modify f) :=
  fun s => ⟨hf s, fun _ h => by cases h⟩

theorem keeps_ofExcept {r : Except Fault α} (hr : ∀ f, r = .error f → P f) : Keeps view P (ofExcept r) :=
  fun _ => ⟨rfl, hr⟩

theorem keeps_fail {f : Fault} (hf : P f) : Keeps view P (fail f : Action σ α) :=
  keeps_ofExcept fun _ h => by cases h; exact hf

theorem Keeps.bind {f : α → Action σ β} (hx : Keeps view P x) (hf : ∀ a, Keeps view P (f a)) :
    Keeps view P (x >>= f) := by
  intro s
  have hs := hx s
  rw [effect_bind]
  generalize x.effect s = out at hs
  obtain ⟨e | a, s'⟩ := out
  · exact ⟨hs.1, fun f h => by cases h; exact hs.2 e rfl⟩
  · exact ⟨((hf a s').1).trans hs.1, (hf a s').2⟩

theorem Keeps.ofExcept_bind {r : Except Fault α} {f : α → Action σ β} (herror : ∀ e, r = .error e → P e)
    (hok : ∀ a, r = .ok a → Keeps view P (f a)) : Keeps view P (ofExcept r >>= f) := by
  cases r with
  | error e => exact keeps_fail (herror e rfl)
  | ok a => exact hok a rfl

theorem Keeps.handle {h : Fault → Action σ α} (hx : Keeps view P x) (hh : ∀ f, P f → Keeps view Q (h f)) :
    Keeps view Q (handle x h) := by
  -- What a handler takes up is no longer a fault of the whole.
  intro s
  have hs := hx s
  rw [effect_handle]
  generalize x.effect s = out at hs
  obtain ⟨e | a, s'⟩ := out
  · have he := hh e (hs.2 e rfl) s'
    exact ⟨he.1.trans hs.1, he.2⟩
  · exact ⟨hs.1, fun f hf => by cases hf⟩

theorem keeps_forEach {f : α → Action σ Unit} (hf : ∀ a, Keeps view P (f a)) (as : List α) :
    Keeps view P (forEach f as) := by
  induction as with
  | nil => exact keeps_pure ()
  | cons a as ih => exact (hf a).bind fun _ => ih

theorem Keeps.within {get : τ → σ} {put : σ → τ → τ} {view' : τ → φ} (hx : Keeps view P x)
    (hput : ∀ s t, view s = view (get t) → view' (put s t) = view' t) :
    Keeps view' P (within get put x) :=
  fun t => ⟨hput _ t (hx (get t)).1, (hx (get t)).2⟩

end Action

end RvToolkit
