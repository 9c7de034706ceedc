import QueryShaping.Binding.Trace

/-!
Runs that come to an end. A trace or a pass returns a value, or it stops; both follow its parts.
-/

namespace QueryShaping

namespace Trace

variable {ε α β : Type}

/-- The run ends with a value, after it recorded the given fragments. -/
def Returns (t : Trace ε α) (x : α) (recorded : List (Address × Fragment)) : Prop :=
  t.result = .ok x ∧ t.recorded = recorded

theorem returns_pure (x : α) : Returns (pure x : Trace ε α) x [] := ⟨rfl, rfl⟩

theorem returns_asked (node : Shape) : Returns (tell (.asked node) : Trace ε Unit) () [] := ⟨rfl, rfl⟩

theorem Returns.bind {t : Trace ε α} {f : α → Trace ε β} {x : α} {y : β}
    {as bs : List (Address × Fragment)} (ht : t.Returns x as) (hf : (f x).Returns y bs) :
    (t >>= f).Returns y (as ++ bs) := by
  rw [Returns, bind_of_ok ht.1]
  refine ⟨hf.1, ?_⟩
  rw [recorded, List.filterMap_append, ← ht.2, ← hf.2]
  rfl

theorem Returns.map {t : Trace ε α} {x : α} {as : List (Address × Fragment)} (f : α → β)
    (ht : t.Returns x as) : (do return f (← t)).Returns (f x) as := by
  have h := Returns.bind (f := fun x => pure (f x)) ht (returns_pure (f x))
  rwa [List.append_nil] at h

/-- The run stops. -/
def Stops (t : Trace ε α) (e : ε) : Prop := t.result = .error e

theorem Stops.bind {t : Trace ε α} {e : ε} (ht : t.Stops e) (f : α → Trace ε β) :
    (t >>= f).Stops e := by
  rw [Stops, bind_of_error ht]

theorem Returns.bind_stops {t : Trace ε α} {f : α → Trace ε β} {x : α} {e : ε}
    {as : List (Address × Fragment)} (ht : t.Returns x as) (hf : (f x).Stops e) :
    (t >>= f).Stops e := by
  rw [Stops, bind_of_ok ht.1]
  exact hf

/-- A run that ends with a value came through its first part. -/
theorem exists_of_bind_ok {t : Trace ε α} {f : α → Trace ε β} {y : β}
    (h : (t >>= f).result = .ok y) : ∃ x, t.result = .ok x ∧ (f x).result = .ok y := by
  cases ht : t.result with
  | ok x =>
    rw [bind_of_ok ht] at h
    exact ⟨x, rfl, h⟩
  | error e =>
    rw [bind_of_error ht] at h
    cases h

end Trace

namespace Pass

variable {σ ε α β : Type}

/-- The run leads from a state to another and ends with a value. -/
def Returns (p : Pass σ ε α) (s : σ) (x : α) (after : σ) : Prop :=
  ∃ steps, p s = (⟨steps, .ok x⟩, after)

theorem returns_pure (x : α) (s : σ) : Returns (pure x : Pass σ ε α) s x s := ⟨[], rfl⟩

theorem returns_tell (step : Step) (s : σ) : Returns (tell step : Pass σ ε Unit) s () s :=
  ⟨[step], rfl⟩

theorem bind_tell (step : Step) (f : Unit → Pass σ ε β) (s : σ) :
    (tell step >>= f) s = (⟨step :: (f () s).1.steps, (f () s).1.result⟩, (f () s).2) := rfl

theorem returns_update (f : σ → σ) (s : σ) : Returns (update f : Pass σ ε Unit) s () (f s) :=
  ⟨[], rfl⟩

theorem Returns.bind {p : Pass σ ε α} {f : α → Pass σ ε β} {s mid after : σ} {x : α} {y : β}
    (hp : p.Returns s x mid) (hf : (f x).Returns mid y after) : (p >>= f).Returns s y after := by
  obtain ⟨steps, hs⟩ := hp
  obtain ⟨rest, hr⟩ := hf
  exact ⟨steps ++ rest, by rw [bind_of_ok hs, hr]⟩

theorem Returns.map {p : Pass σ ε α} {s after : σ} {x : α} (f : α → β)
    (hp : p.Returns s x after) : (do return f (← p)).Returns s (f x) after :=
  Returns.bind (f := fun x => pure (f x)) hp (returns_pure (f x) after)

/-- A run that ends with a value came through its first part. -/
theorem exists_of_bind_ok {p : Pass σ ε α} {f : α → Pass σ ε β} {s : σ} {y : β}
    (h : ((p >>= f) s).1.result = .ok y) :
    ∃ x, (p s).1.result = .ok x ∧ (f x (p s).2).1.result = .ok y := by
  rcases hp : p s with ⟨⟨steps, e | x⟩, after⟩
  · rw [bind_of_error hp] at h
    cases h
  · rw [bind_of_ok hp] at h
    exact ⟨x, rfl, h⟩

end Pass

end QueryShaping
