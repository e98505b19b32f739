import StringAssembler.Log.Event

/-!
# Computations that report events

A traced computation yields a value or a failure, and in both cases the events of
what it did, in order.  Sequencing keeps the events of the first part also when that
part fails; what would have come after a failure reports nothing.
-/

namespace StringAssembler

/-- An outcome together with the events reported on the way to it. -/
structure Traced (ε α : Type) where
  events : List Event
  outcome : Except ε α

namespace Traced

variable {ε ε' α β : Type}

/-- A value, with nothing to report. -/
def value (a : α) : Traced ε α := ⟨[], .ok a⟩

/-- A failure, with nothing to report. -/
def failure (e : ε) : Traced ε α := ⟨[], .error e⟩

/-- An outcome, with nothing to report. -/
def ofExcept (outcome : Except ε α) : Traced ε α := ⟨[], outcome⟩

/-- Reports one event. -/
def report (event : Event) : Traced ε Unit := ⟨[event], .ok ()⟩

/-- Goes on with the value of a computation, if it has one. -/
def andThen (first : Traced ε α) (next : α → Traced ε β) : Traced ε β :=
  match first.outcome with
  | .ok a =>
      let rest := next a
      ⟨first.events ++ rest.events, rest.outcome⟩
  | .error e => ⟨first.events, .error e⟩

/-- Restates the value of a computation. -/
def mapValue (f : α → β) (first : Traced ε α) : Traced ε β :=
  ⟨first.events, first.outcome.map f⟩

/-- Restates the failure of a computation. -/
def mapFailure (f : ε → ε') (first : Traced ε α) : Traced ε' α :=
  ⟨first.events, first.outcome.mapError f⟩

instance : Monad (Traced ε) where
  pure := value
  bind := andThen
  map := mapValue

/-! ## Outcomes

Of the outcome alone sequencing is that of `Except`; events never decide it. -/

@[simp] theorem outcome_pure (a : α) : (pure a : Traced ε α).outcome = .ok a := rfl

@[simp] theorem outcome_ofExcept (outcome : Except ε α) :
    (ofExcept outcome).outcome = outcome := rfl

@[simp] theorem outcome_report (event : Event) :
    (report event : Traced ε Unit).outcome = .ok () := rfl

@[simp] theorem outcome_bind (first : Traced ε α) (next : α → Traced ε β) :
    (first >>= next).outcome = first.outcome >>= fun a => (next a).outcome := by
  cases h : first.outcome <;> simp [bind, andThen, Except.bind, h]

@[simp] theorem outcome_mapValue (f : α → β) (first : Traced ε α) :
    (first.mapValue f).outcome = first.outcome.map f := rfl

@[simp] theorem outcome_mapFailure (f : ε → ε') (first : Traced ε α) :
    (first.mapFailure f).outcome = first.outcome.mapError f := rfl

/-- Behind a failure nothing is done and nothing is reported. -/
theorem bind_of_error {first : Traced ε α} {e : ε} (h : first.outcome = .error e)
    (next : α → Traced ε β) : (first >>= next) = ⟨first.events, .error e⟩ := by
  simp only [bind, andThen, h]

/-- A sequence succeeds when both parts do. -/
theorem bind_eq_ok_iff {first : Traced ε α} {next : α → Traced ε β} {b : β} :
    (first >>= next).outcome = .ok b ↔
      ∃ a, first.outcome = .ok a ∧ (next a).outcome = .ok b := by
  rw [outcome_bind]
  cases first.outcome <;> simp [bind, Except.bind]

/-- A sequence fails with its first failure. -/
theorem bind_eq_error_iff {first : Traced ε α} {next : α → Traced ε β} {e : ε} :
    (first >>= next).outcome = .error e ↔
      first.outcome = .error e ∨ ∃ a, first.outcome = .ok a ∧ (next a).outcome = .error e := by
  rw [outcome_bind]
  cases first.outcome <;> simp [bind, Except.bind]

theorem mapValue_eq_ok_iff {f : α → β} {first : Traced ε α} {b : β} :
    (first.mapValue f).outcome = .ok b ↔ ∃ a, first.outcome = .ok a ∧ f a = b := by
  rw [outcome_mapValue]
  cases first.outcome <;> simp [Except.map]

theorem mapValue_eq_error_iff {f : α → β} {first : Traced ε α} {e : ε} :
    (first.mapValue f).outcome = .error e ↔ first.outcome = .error e := by
  rw [outcome_mapValue]
  cases first.outcome <;> simp [Except.map]

theorem mapFailure_eq_ok_iff {f : ε → ε'} {first : Traced ε α} {a : α} :
    (first.mapFailure f).outcome = .ok a ↔ first.outcome = .ok a := by
  rw [outcome_mapFailure]
  cases first.outcome with
  | ok b =>
      constructor
      · intro h
        cases h
        rfl
      · intro h
        cases h
        rfl
  | error cause =>
      constructor
      · intro h
        cases h
      · intro h
        cases h

theorem mapFailure_eq_error_iff {f : ε → ε'} {first : Traced ε α} {e : ε'} :
    (first.mapFailure f).outcome = .error e ↔
      ∃ cause, first.outcome = .error cause ∧ f cause = e := by
  rw [outcome_mapFailure]
  cases first.outcome with
  | ok b =>
      constructor
      · intro h
        cases h
      · rintro ⟨cause, hcause, -⟩
        cases hcause
  | error cause =>
      constructor
      · intro h
        cases h
        exact ⟨cause, rfl, rfl⟩
      · rintro ⟨_, hcause, rfl⟩
        cases hcause
        rfl

/-! ## Events

Nothing that has been reported is lost, and nothing is reported twice. -/

@[simp] theorem events_pure (a : α) : (pure a : Traced ε α).events = [] := rfl

@[simp] theorem events_ofExcept (outcome : Except ε α) : (ofExcept outcome).events = [] := rfl

@[simp] theorem events_report (event : Event) :
    (report event : Traced ε Unit).events = [event] := rfl

@[simp] theorem events_mapValue (f : α → β) (first : Traced ε α) :
    (first.mapValue f).events = first.events := rfl

@[simp] theorem events_mapFailure (f : ε → ε') (first : Traced ε α) :
    (first.mapFailure f).events = first.events := rfl

/-- Behind a value the events of both parts follow each other. -/
theorem events_bind_of_ok {first : Traced ε α} {a : α} (h : first.outcome = .ok a)
    (next : α → Traced ε β) : (first >>= next).events = first.events ++ (next a).events := by
  simp only [bind, andThen, h]

/-- Behind a failure no event follows. -/
theorem events_bind_of_error {first : Traced ε α} {e : ε} (h : first.outcome = .error e)
    (next : α → Traced ε β) : (first >>= next).events = first.events := by
  rw [bind_of_error h]

/-- Restating a value reports nothing. -/
theorem events_bind_pure (first : Traced ε α) (f : α → β) :
    (first >>= fun a => pure (f a)).events = first.events := by
  cases h : first.outcome with
  | ok a => rw [events_bind_of_ok h, events_pure, List.append_nil]
  | error e => exact events_bind_of_error h _

end Traced
end StringAssembler
