import RvToolkit.Fault
import RvToolkit.Log

namespace RvToolkit

/-- What comes of an action: the records it made, the state it left, and its value or fault. The
state is there also after a fault. -/
structure Outcome (σ α : Type) where
  log : Log
  state : σ
  result : Except Fault α

/-- Stateful computations that keep a log and may fail. -/
def Action (σ α : Type) : Type := σ → Outcome σ α

namespace Action

variable {σ α β : Type}

def run (x : Action σ α) (s : σ) : Outcome σ α := x s

protected def pure (a : α) : Action σ α := fun s => ⟨[], s, .ok a⟩

protected def bind (x : Action σ α) (f : α → Action σ β) : Action σ β := fun s =>
  match x s with
  | ⟨log, s', .ok a⟩ =>
      let r := f a s'
      ⟨log ++ r.log, r.state, r.result⟩
  | ⟨log, s', .error e⟩ => ⟨log, s', .error e⟩

instance : Monad (Action σ) where
  pure := Action.pure
  bind := Action.bind

def fail (e : Fault) : Action σ α := fun s => ⟨[], s, .error e⟩

def get : Action σ σ := fun s => ⟨[], s, .ok s⟩

def set (s : σ) : Action σ Unit := fun _ => ⟨[], s, .ok ()⟩

def modify (f : σ → σ) : Action σ Unit := fun s => ⟨[], f s, .ok ()⟩

def ofExcept (r : Except Fault α) : Action σ α := fun s => ⟨[], s, r⟩

def note (level : Level) (text : Text) : Action σ Unit := fun s => ⟨[⟨level, text⟩], s, .ok ()⟩

/-- Runs the handler after a fault, on the state that the fault left. -/
def handle (x : Action σ α) (h : Fault → Action σ α) : Action σ α := fun s =>
  match x s with
  | ⟨log, s', .error e⟩ =>
      let r := h e s'
      ⟨log ++ r.log, r.state, r.result⟩
  | o => o

/-- Changes the state at the end, whatever came of the action. -/
def ensure (x : Action σ α) (f : σ → σ) : Action σ α := fun s =>
  let o := x s
  ⟨o.log, f o.state, o.result⟩

def attempt (x : Action σ α) : Action σ (Except Fault α) := fun s =>
  let o := x s
  ⟨o.log, o.state, .ok o.result⟩

/-- Runs an action on a part of a larger state. -/
def within {τ : Type} (get : τ → σ) (put : σ → τ → τ) (x : Action σ α) : Action τ α := fun t =>
  let o := x (get t)
  ⟨o.log, put o.state t, o.result⟩

def forEach (f : α → Action σ Unit) : List α → Action σ Unit
  | [] => pure ()
  | a :: as => do
      f a
      forEach f as

end Action

end RvToolkit
