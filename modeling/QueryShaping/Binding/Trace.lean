import QueryShaping.Binding.Step

/-!
Runs that leave a trace of steps and may stop early, with and without a state.
-/

namespace QueryShaping

/-- The steps taken in order, then a result or the reason to stop. -/
structure Trace (ε α : Type) where
  steps : List Step
  result : Except ε α

namespace Trace

variable {ε : Type} {α β : Type}

def done (x : α) : Trace ε α := ⟨[], .ok x⟩

def stop (e : ε) : Trace ε α := ⟨[], .error e⟩

def andThen (t : Trace ε α) (f : α → Trace ε β) : Trace ε β :=
  match t.result with
  | .ok x => let u := f x; ⟨t.steps ++ u.steps, u.result⟩
  | .error e => ⟨t.steps, .error e⟩

instance : Monad (Trace ε) where
  pure := done
  bind := andThen

def tell (step : Step) : Trace ε Unit := ⟨[step], .ok ()⟩

/-- The log of a run. -/
def events (config : Config) (t : Trace ε α) : List Event := t.steps.flatMap (Step.events config)

/-- The nodes that the store was asked about. -/
def questions (t : Trace ε α) : List Shape := t.steps.filterMap Step.question?

/-- The kinds of these nodes. -/
def asked (t : Trace ε α) : List Kind := t.questions.map Shape.kind

/-- The fragments that were recorded, with their addresses. -/
def recorded (t : Trace ε α) : List (Address × Fragment) := t.steps.filterMap Step.recorded?

theorem bind_of_ok {t : Trace ε α} {x : α} (h : t.result = .ok x) (f : α → Trace ε β) :
    t >>= f = ⟨t.steps ++ (f x).steps, (f x).result⟩ := by
  simp only [Bind.bind, andThen, h]

theorem bind_of_error {t : Trace ε α} {e : ε} (h : t.result = .error e) (f : α → Trace ε β) :
    t >>= f = ⟨t.steps, .error e⟩ := by
  simp only [Bind.bind, andThen, h]

end Trace

/-- A run that also changes a state. The state it leaves is there even if it stops early. -/
def Pass (σ ε α : Type) := σ → Trace ε α × σ

namespace Pass

variable {σ ε : Type} {α β : Type}

def andThen (p : Pass σ ε α) (f : α → Pass σ ε β) : Pass σ ε β := fun s =>
  let (t, s) := p s
  match t.result with
  | .ok x => let (u, s) := f x s; (⟨t.steps ++ u.steps, u.result⟩, s)
  | .error e => (⟨t.steps, .error e⟩, s)

instance : Monad (Pass σ ε) where
  pure x := fun s => (.done x, s)
  bind := andThen

def ofTrace (t : Trace ε α) : Pass σ ε α := fun s => (t, s)

def tell (step : Step) : Pass σ ε Unit := ofTrace (.tell step)

def stop (e : ε) : Pass σ ε α := ofTrace (.stop e)

def update (f : σ → σ) : Pass σ ε Unit := fun s => (.done (), f s)

theorem bind_of_ok {p : Pass σ ε α} {s after : σ} {steps : List Step} {x : α}
    (h : p s = (⟨steps, .ok x⟩, after)) (f : α → Pass σ ε β) :
    (p >>= f) s = (⟨steps ++ (f x after).1.steps, (f x after).1.result⟩, (f x after).2) := by
  simp only [Bind.bind, andThen, h]

theorem bind_of_error {p : Pass σ ε α} {s after : σ} {steps : List Step} {e : ε}
    (h : p s = (⟨steps, .error e⟩, after)) (f : α → Pass σ ε β) :
    (p >>= f) s = (⟨steps, .error e⟩, after) := by
  simp only [Bind.bind, andThen, h]

end Pass

end QueryShaping
