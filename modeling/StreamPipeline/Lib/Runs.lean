import Mathlib

/-!
# Runs of a step function

A system is a partial step function over events; a run takes its events in order. What every
step preserves under a condition on the state before it holds after every run that meets the
condition along the way.
-/

namespace StreamPipeline.Runs

variable {σ α : Type}

/-- The state after the events; none when one of them cannot happen. -/
def run (step : σ → α → Option σ) : σ → List α → Option σ
  | state, [] => some state
  | state, event :: events =>
    match step state event with
    | none => none
    | some next => run step next events

/-- A run in two parts. -/
theorem run_append {step : σ → α → Option σ} {state mid : σ} {first : List α}
    (ran : run step state first = some mid) (second : List α) :
    run step state (first ++ second) = run step mid second := by
  induction first generalizing state with
  | nil =>
    rw [← Option.some.inj ran]
    rfl
  | cons event first ih =>
    rw [run] at ran
    rw [List.cons_append, run]
    cases found : step state event with
    | none =>
      rw [found] at ran
      contradiction
    | some next =>
      rw [found] at ran
      exact ih ran

/-- A run that can happen ends in the state read off it. -/
theorem run_eq_getD {step : σ → α → Option σ} {state : σ} {events : List α}
    (happens : (run step state events).isSome = true) (other : σ) :
    run step state events = some ((run step state events).getD other) := by
  rw [← Option.get_eq_getD _ (h := happens), Option.some_get]

/-- The condition holds of every event of the run in the state before it. -/
def Along (step : σ → α → Option σ) (meets : σ → α → Prop) : σ → List α → Prop
  | _, [] => True
  | state, event :: events =>
    meets state event ∧
      match step state event with
      | none => True
      | some next => Along step meets next events

instance decidableAlong (step : σ → α → Option σ) (meets : σ → α → Prop)
    [∀ state event, Decidable (meets state event)] :
    (state : σ) → (events : List α) → Decidable (Along step meets state events)
  | _, [] => .isTrue trivial
  | state, event :: events =>
    match found : step state event with
    | none => decidable_of_iff (meets state event) (by simp [Along, found])
    | some next =>
      have := decidableAlong step meets next events
      decidable_of_iff (meets state event ∧ Along step meets next events) (by simp [Along, found])

/-- A run under the condition is under it up to any point. -/
theorem Along.front {step : σ → α → Option σ} {meets : σ → α → Prop} {before after : List α} :
    ∀ {state}, Along step meets state (before ++ after) → Along step meets state before := by
  induction before with
  | nil => exact fun _ => trivial
  | cons event before ih =>
    intro state along
    rw [List.cons_append, Along] at along
    rw [Along]
    refine ⟨along.1, ?_⟩
    cases found : step state event with
    | none => trivial
    | some next =>
      rw [found] at along
      exact ih along.2

/-- A run under the condition is under it from any point on. -/
theorem Along.rest {step : σ → α → Option σ} {meets : σ → α → Prop} {before after : List α} :
    ∀ {state mid}, Along step meets state (before ++ after) →
      run step state before = some mid → Along step meets mid after := by
  induction before with
  | nil =>
    intro state mid along ran
    rw [← Option.some.inj ran]
    exact along
  | cons event before ih =>
    intro state mid along ran
    rw [run] at ran
    rw [List.cons_append, Along] at along
    cases found : step state event with
    | none =>
      rw [found] at ran
      contradiction
    | some next =>
      rw [found] at ran along
      exact ih along.2 ran

/-- The condition holds along a run when it holds of every event where the run has come to. -/
theorem along_of_events {step : σ → α → Option σ} {meets : σ → α → Prop} {events : List α} :
    ∀ {state}, (∀ before event after mid, events = before ++ event :: after →
        run step state before = some mid → meets mid event) → Along step meets state events := by
  induction events with
  | nil => exact fun _ => trivial
  | cons event events ih =>
    intro state each
    refine ⟨each [] event events state rfl rfl, ?_⟩
    cases found : step state event with
    | none => trivial
    | some next =>
      apply ih
      intro before later after mid split ran
      refine each (event :: before) later after mid (by rw [split]; rfl) ?_
      rw [run, found]
      exact ran

/-- A predicate that holds at the end of a run and not at its start becomes true at some event. -/
theorem exists_change {step : σ → α → Option σ} {holds : σ → Prop} {events : List α} :
    ∀ {state last}, ¬holds state → run step state events = some last → holds last →
      ∃ before event after mid next, events = before ++ event :: after ∧
        run step state before = some mid ∧ ¬holds mid ∧ step mid event = some next ∧
          holds next := by
  induction events with
  | nil =>
    intro state last start ran ends
    rw [← Option.some.inj ran] at ends
    exact absurd ends start
  | cons event events ih =>
    intro state last start ran ends
    rw [run] at ran
    cases found : step state event with
    | none =>
      rw [found] at ran
      contradiction
    | some next =>
      rw [found] at ran
      by_cases here : holds next
      · exact ⟨[], event, events, state, next, rfl, rfl, start, found, here⟩
      · obtain ⟨before, later, after, mid, following, rfl, reached, rest⟩ := ih here ran ends
        refine ⟨event :: before, later, after, mid, following, rfl, ?_, rest⟩
        rw [run, found]
        exact reached

/-- A predicate that every step under the condition preserves holds after every run under it. -/
theorem invariant {step : σ → α → Option σ} {meets : σ → α → Prop} {holds : σ → Prop}
    (preserved : ∀ state event next, holds state → meets state event →
      step state event = some next → holds next) {events : List α} :
    ∀ {state last}, holds state → Along step meets state events →
      run step state events = some last → holds last := by
  induction events with
  | nil =>
    intro state last start _ ran
    rw [← Option.some.inj ran]
    exact start
  | cons event events ih =>
    intro state last start along ran
    rw [run] at ran
    rw [Along] at along
    cases found : step state event with
    | none =>
      rw [found] at ran
      contradiction
    | some next =>
      rw [found] at ran along
      exact ih (preserved state event next start along.1 found) along.2 ran

/-- A predicate that every step preserves holds after every run. -/
theorem stable {step : σ → α → Option σ} {holds : σ → Prop}
    (preserved : ∀ state event next, holds state → step state event = some next → holds next)
    {events : List α} : ∀ {state last}, holds state →
      run step state events = some last → holds last := by
  induction events with
  | nil =>
    intro state last start ran
    rw [← Option.some.inj ran]
    exact start
  | cons event events ih =>
    intro state last start ran
    rw [run] at ran
    cases found : step state event with
    | none =>
      rw [found] at ran
      contradiction
    | some next =>
      rw [found] at ran
      exact ih (preserved state event next start found) ran

/-- The costly events of a run are paid from a potential and from what other events add to it. -/
theorem countP_le {step : σ → α → Option σ} {holds : σ → Prop} {potential : σ → Nat}
    {cost gain : α → Bool}
    (paid : ∀ state event next, holds state → step state event = some next →
      holds next ∧
        potential next + (cost event).toNat ≤ potential state + (gain event).toNat)
    {events : List α} : ∀ {state last}, holds state → run step state events = some last →
      potential last + events.countP cost ≤ potential state + events.countP gain := by
  induction events with
  | nil =>
    intro state last start ran
    rw [← Option.some.inj ran]
    exact Nat.le_refl _
  | cons event events ih =>
    intro state last start ran
    rw [run] at ran
    cases found : step state event with
    | none =>
      rw [found] at ran
      contradiction
    | some next =>
      rw [found] at ran
      have ⟨kept, here⟩ := paid state event next start found
      have later := ih kept ran
      have counted (p : α → Bool) :
          (event :: events).countP p = events.countP p + (p event).toNat := by
        cases counts : p event <;> simp [counts]
      rw [counted, counted]
      omega

/-- A run meets the condition all along, or it ends where its first step against the condition
leads for good. -/
theorem along_or {step : σ → α → Option σ} {meets : σ → α → Prop} {holds bad : σ → Prop}
    (preserved : ∀ state event next, holds state → meets state event →
      step state event = some next → holds next)
    (breaks : ∀ state event next, holds state → ¬meets state event →
      step state event = some next → bad next)
    (stays : ∀ state event next, bad state → step state event = some next → bad next)
    {events : List α} : ∀ {state last}, holds state → run step state events = some last →
      (Along step meets state events ∧ holds last) ∨ bad last := by
  induction events with
  | nil =>
    intro state last start ran
    rw [← Option.some.inj ran]
    exact .inl ⟨trivial, start⟩
  | cons event events ih =>
    intro state last start ran
    rw [run] at ran
    rw [Along]
    cases found : step state event with
    | none =>
      rw [found] at ran
      contradiction
    | some next =>
      rw [found] at ran
      by_cases met : meets state event
      · rcases ih (preserved state event next start met found) ran with ⟨along, ends⟩ | ends
        · exact .inl ⟨⟨met, along⟩, ends⟩
        · exact .inr ends
      · exact .inr (stable stays (breaks state event next start met found) ran)

end StreamPipeline.Runs
