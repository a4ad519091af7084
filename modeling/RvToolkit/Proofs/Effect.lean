import RvToolkit.Action

namespace RvToolkit

theorem Except.bind_eq_ok {ε α β : Type} {x : Except ε α} {f : α → Except ε β} {b : β} :
    x >>= f = .ok b ↔ ∃ a, x = .ok a ∧ f a = .ok b := by
  cases x with
  | error e => simp [bind, Except.bind]
  | ok a => simp [bind, Except.bind]

theorem Except.map_eq_ok {ε α β : Type} {x : Except ε α} {f : α → β} {b : β} :
    x.map f = .ok b ↔ ∃ a, x = .ok a ∧ f a = b := by
  cases x with
  | error e => simp [Except.map]
  | ok a => simp [Except.map]

theorem Except.eq_ok_of_toOption {ε α : Type} {x : Except ε α} {a : α} (h : x.toOption = some a) :
    x = .ok a := by
  cases x with
  | error e => simp [Except.toOption] at h
  | ok b => simpa [Except.toOption] using h

theorem Except.toOption_eq {ε α : Type} {x y : Except ε α} (h : x.toOption = y.toOption) :
    (∃ a, x = .ok a ∧ y = .ok a) ∨ ∃ e e', x = .error e ∧ y = .error e' := by
  cases x with
  | error e =>
      cases y with
      | error e' => exact .inr ⟨e, e', rfl, rfl⟩
      | ok b => cases h
  | ok a =>
      cases y with
      | error e' => cases h
      | ok b =>
          cases h
          exact .inl ⟨a, rfl, rfl⟩

theorem mem_of_lookup {α β : Type} [BEq α] [LawfulBEq α] {a : α} {b : β} {entries : List (α × β)}
    (h : entries.lookup a = some b) : (a, b) ∈ entries := by
  obtain ⟨front, back, hsplit, -⟩ := List.lookup_eq_some_iff.mp h
  rw [hsplit]
  exact List.mem_append_right front List.mem_cons_self

theorem Outcome.eq_of_result {σ α : Type} {o : Outcome σ α} {r : Except Fault α} (h : o.result = r) :
    o = ⟨o.log, o.state, r⟩ := by
  rw [← h]

namespace Action

variable {σ τ α β : Type}

/-- Value or fault of an action, and the state that it leaves. -/
def effect (x : Action σ α) (s : σ) : Except Fault α × σ := ((x.run s).result, (x.run s).state)

theorem effect_of_run {x : Action σ α} {s s' : σ} {r : Except Fault α} {log : Log}
    (h : x.run s = ⟨log, s', r⟩) : x.effect s = (r, s') := by
  rw [effect, h]

@[simp] theorem effect_pure (a : α) (s : σ) : (pure a : Action σ α).effect s = (.ok a, s) := rfl

@[simp] theorem effect_fail (e : Fault) (s : σ) : (fail e : Action σ α).effect s = (.error e, s) := rfl

@[simp] theorem effect_get (s : σ) : (get : Action σ σ).effect s = (.ok s, s) := rfl

@[simp] theorem effect_set (s s' : σ) : (set s').effect s = (.ok (), s') := rfl

@[simp] theorem effect_modify (f : σ → σ) (s : σ) : (modify f).effect s = (.ok (), f s) := rfl

@[simp] theorem effect_note (l : Level) (t : Text) (s : σ) : (note l t).effect s = (.ok (), s) := rfl

@[simp] theorem effect_ofExcept (r : Except Fault α) (s : σ) : (ofExcept r).effect s = (r, s) := rfl

theorem effect_pure_eq_ok {a b : α} {s s' : σ} :
    (pure a : Action σ α).effect s = (.ok b, s') ↔ b = a ∧ s' = s := by
  simp [eq_comm]

theorem effect_get_eq_ok {s s' a : σ} : (get : Action σ σ).effect s = (.ok a, s') ↔ a = s ∧ s' = s := by
  simp [eq_comm]

theorem effect_modify_eq_ok {f : σ → σ} {s s' : σ} {u : Unit} :
    (modify f).effect s = (.ok u, s') ↔ s' = f s := by
  simp [eq_comm]

theorem effect_note_eq_ok {l : Level} {t : Text} {s s' : σ} {u : Unit} :
    (note l t).effect s = (.ok u, s') ↔ s' = s := by
  simp [eq_comm]

theorem effect_ofExcept_eq_ok {r : Except Fault α} {a : α} {s s' : σ} :
    (ofExcept r).effect s = (.ok a, s') ↔ r = .ok a ∧ s' = s := by
  simp [eq_comm]

theorem effect_bind (x : Action σ α) (f : α → Action σ β) (s : σ) :
    (x >>= f).effect s = match x.effect s with
      | (.ok a, s') => (f a).effect s'
      | (.error e, s') => (.error e, s') := by
  change ((Action.bind x f s).result, (Action.bind x f s).state) = _
  unfold Action.bind effect run
  rcases x s with ⟨log, s', e | a⟩ <;> rfl

theorem effect_bind_of_ok {x : Action σ α} {s s' : σ} {a : α} (h : x.effect s = (.ok a, s'))
    (f : α → Action σ β) : (x >>= f).effect s = (f a).effect s' := by
  rw [effect_bind, h]

theorem effect_bind_of_error {x : Action σ α} {s s' : σ} {e : Fault}
    (h : x.effect s = (.error e, s')) (f : α → Action σ β) :
    (x >>= f).effect s = (.error e, s') := by
  rw [effect_bind, h]

theorem effect_bind_eq_ok {x : Action σ α} {f : α → Action σ β} {s s'' : σ} {b : β} :
    (x >>= f).effect s = (.ok b, s'') ↔
      ∃ a s', x.effect s = (.ok a, s') ∧ (f a).effect s' = (.ok b, s'') := by
  rw [effect_bind]
  rcases x.effect s with ⟨e | a, s'⟩
  · simp
  · constructor
    · intro h
      exact ⟨a, s', rfl, h⟩
    · rintro ⟨_, _, ⟨⟩, h⟩
      exact h

theorem effect_handle (x : Action σ α) (h : Fault → Action σ α) (s : σ) :
    (handle x h).effect s = match x.effect s with
      | (.ok a, s') => (.ok a, s')
      | (.error e, s') => (h e).effect s' := by
  simp only [handle, effect, run]
  rcases x s with ⟨log, s', e | a⟩ <;> rfl

theorem effect_handle_of_ok {x : Action σ α} {s s' : σ} {a : α} (hx : x.effect s = (.ok a, s'))
    (h : Fault → Action σ α) : (handle x h).effect s = (.ok a, s') := by
  rw [effect_handle, hx]

theorem effect_handle_of_error {x : Action σ α} {s s' : σ} {e : Fault}
    (hx : x.effect s = (.error e, s')) (h : Fault → Action σ α) :
    (handle x h).effect s = (h e).effect s' := by
  rw [effect_handle, hx]

theorem effect_ensure (x : Action σ α) (f : σ → σ) (s : σ) :
    (ensure x f).effect s = ((x.effect s).1, f (x.effect s).2) := rfl

theorem effect_within (get : τ → σ) (put : σ → τ → τ) (x : Action σ α) (t : τ) :
    (within get put x).effect t = ((x.effect (get t)).1, put (x.effect (get t)).2 t) := rfl

end Action

end RvToolkit
