import Mathlib.Data.List.Basic
import RvToolkit.Proofs.Effect

namespace RvToolkit

/-- The computation ends in a fault that is none of the toolkit's own reports. -/
def Escapes {α : Type} (x : Except Fault α) (e : Fault) : Prop := x = .error e ∧ e.isReported = false

section Escapes

variable {α β : Type} {e : Fault}

@[simp]
theorem escapes_ok (a : α) : ¬ Escapes (.ok a : Except Fault α) e := by
  rintro ⟨h, -⟩
  cases h

@[simp]
theorem escapes_pure (a : α) : ¬ Escapes (pure a : Except Fault α) e := escapes_ok a

@[simp]
theorem escapes_error {e' : Fault} :
    Escapes (.error e' : Except Fault α) e ↔ e = e' ∧ e'.isReported = false := by
  constructor
  · rintro ⟨h, he⟩
    cases h
    exact ⟨rfl, he⟩
  · rintro ⟨rfl, he⟩
    exact ⟨rfl, he⟩

theorem escapes_bind {x : Except Fault α} {f : α → Except Fault β} :
    Escapes (x >>= f) e ↔ Escapes x e ∨ ∃ a, x = .ok a ∧ Escapes (f a) e := by
  cases x with
  | error e' => simp [bind, Except.bind]
  | ok a => simp [bind, Except.bind]

end Escapes

theorem Action.escapes_bind {σ α β : Type} {x : Action σ α} {f : α → Action σ β} {s : σ} {e : Fault} :
    Escapes ((x >>= f).effect s).1 e ↔
      Escapes (x.effect s).1 e ∨ ∃ a s', x.effect s = (.ok a, s') ∧ Escapes ((f a).effect s').1 e := by
  rw [effect_bind]
  rcases x.effect s with ⟨e' | a, s'⟩
  · simp
  · constructor
    · intro h
      exact .inr ⟨a, s', rfl, h⟩
    · rintro (h | ⟨_, _, ⟨⟩, h⟩)
      · exact absurd h (escapes_ok a)
      · exact h

end RvToolkit
