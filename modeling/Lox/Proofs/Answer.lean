/-!
# Programs with fuel, state and faults

The parser and the machine share their monad: a program may run out of fuel, throw a
fault or give a result, and what it did to the state outlives the fault. The equations
for `run` here are all that is used of the monad, so that no proof opens its layers.
-/

namespace Lox

variable {ε σ α β : Type}

theorem run_pure (a : α) (s : σ) :
    (pure a : ExceptT ε (StateT σ Option) α).run s = some (.ok a, s) := rfl

theorem run_get (s : σ) : (get : ExceptT ε (StateT σ Option) σ).run s = some (.ok s, s) := rfl

theorem run_bind (p : ExceptT ε (StateT σ Option) α) (f : α → ExceptT ε (StateT σ Option) β)
    (s : σ) :
    (p >>= f).run s = match p.run s with
      | none => none
      | some (.error fault, s') => some (.error fault, s')
      | some (.ok a, s') => (f a).run s' := by
  show (p s).bind _ = match p s with
    | none => none
    | some (.error fault, s') => _
    | some (.ok a, s') => _
  rcases p s with _ | ⟨fault | a, s'⟩ <;> rfl

theorem run_bind_of_ok {p : ExceptT ε (StateT σ Option) α}
    {f : α → ExceptT ε (StateT σ Option) β} {s s' : σ} {a : α}
    (h : p.run s = some (.ok a, s')) : (p >>= f).run s = (f a).run s' := by
  rw [run_bind, h]

/-- A program of two parts that gives a result has given one behind the first part. -/
theorem ok_of_bind {p : ExceptT ε (StateT σ Option) α} {f : α → ExceptT ε (StateT σ Option) β}
    {s s' : σ} {b : β} (h : (p >>= f).run s = some (.ok b, s')) :
    ∃ a s₁, p.run s = some (.ok a, s₁) ∧ (f a).run s₁ = some (.ok b, s') := by
  rw [run_bind] at h
  rcases hp : p.run s with _ | ⟨fault | a, s₁⟩ <;> rw [hp] at h
  · cases h
  · cases h
  · exact ⟨a, s₁, rfl, h⟩

theorem run_tryCatch (p : ExceptT ε (StateT σ Option) α)
    (handler : ε → ExceptT ε (StateT σ Option) α) (s : σ) :
    (tryCatch p handler).run s = match p.run s with
      | none => none
      | some (.error fault, s') => (handler fault).run s'
      | some (.ok a, s') => some (.ok a, s') := by
  show (p s).bind _ = match p s with
    | none => none
    | some (.error fault, s') => _
    | some (.ok a, s') => _
  rcases p s with _ | ⟨fault | a, s'⟩ <;> rfl

end Lox
