import Mathlib.Data.List.Basic
import Mathlib.Tactic.Common

/-!
# Runs of a machine that can fault

A machine is a step function: in a state, an action either stops the machine
with a fault or yields the next state together with the observable events of
the step.  Every asynchronous interleaving of several tasks is a list of such
actions, so a property of all interleavings is a property of `run` for all
lists.  The rules below turn a fact about one step into a fact about a run.
-/

namespace Conveyor.Runs

variable {State Action Event Fault : Type*}

abbrev Step (State Action Event Fault : Type*) :=
  State → Action → Except Fault (State × List Event)

/-- Perform the actions in order and collect their events. -/
def run (step : Step State Action Event Fault) :
    State → List Action → Except Fault (State × List Event)
  | state, [] => .ok (state, [])
  | state, action :: actions =>
      match step state action with
      | .error fault => .error fault
      | .ok (middle, now) =>
          match run step middle actions with
          | .error fault => .error fault
          | .ok (final, later) => .ok (final, now ++ later)

variable {step : Step State Action Event Fault}

@[simp]
theorem run_nil (state : State) : run step state [] = .ok (state, []) := rfl

theorem run_cons {state middle final : State} {action : Action}
    {actions : List Action} {now later : List Event}
    (hstep : step state action = .ok (middle, now))
    (hrun : run step middle actions = .ok (final, later)) :
    run step state (action :: actions) = .ok (final, now ++ later) := by
  simp only [run, hstep, hrun]

theorem run_cons_ok {state final : State} {action : Action}
    {actions : List Action} {trace : List Event}
    (hrun : run step state (action :: actions) = .ok (final, trace)) :
    ∃ middle now later, step state action = .ok (middle, now) ∧
      run step middle actions = .ok (final, later) ∧ trace = now ++ later := by
  cases hstep : step state action with
  | error fault => simp [run, hstep] at hrun
  | ok outcome =>
      obtain ⟨middle, now⟩ := outcome
      cases hrest : run step middle actions with
      | error fault => simp [run, hstep, hrest] at hrun
      | ok ending =>
          obtain ⟨last, later⟩ := ending
          simp only [run, hstep, hrest, Except.ok.injEq, Prod.mk.injEq] at hrun
          obtain ⟨rfl, rfl⟩ := hrun
          exact ⟨middle, now, later, rfl, hrest, rfl⟩

/-- A run goes on from where its first part ended. -/
theorem run_append_of_ok {state middle : State} {first : List Action}
    {now : List Event} (hfirst : run step state first = .ok (middle, now))
    (second : List Action) :
    run step state (first ++ second) =
      (run step middle second).map fun outcome =>
        (outcome.1, now ++ outcome.2) := by
  induction first generalizing state now with
  | nil =>
      simp only [run_nil, Except.ok.injEq, Prod.mk.injEq] at hfirst
      obtain ⟨rfl, rfl⟩ := hfirst
      cases hsecond : run step state second <;> simp [hsecond, Except.map]
  | cons action actions ih =>
      obtain ⟨next, here, there, hstep, hrest, rfl⟩ := run_cons_ok hfirst
      simp only [List.cons_append, run, hstep, ih hrest]
      cases run step middle second <;> simp [Except.map]

/-- Runs compose. -/
theorem run_append {state middle final : State} {first second : List Action}
    {now later : List Event}
    (hfirst : run step state first = .ok (middle, now))
    (hsecond : run step middle second = .ok (final, later)) :
    run step state (first ++ second) = .ok (final, now ++ later) := by
  rw [run_append_of_ok hfirst, hsecond]
  rfl

/-- A run that faults after a prefix that does not. -/
theorem run_append_error {state middle : State} {first second : List Action}
    {now : List Event} {fault : Fault}
    (hfirst : run step state first = .ok (middle, now))
    (hsecond : run step middle second = .error fault) :
    run step state (first ++ second) = .error fault := by
  rw [run_append_of_ok hfirst, hsecond]
  rfl

/-- A run of two parts stops between them. -/
theorem run_append_ok {state final : State} {first second : List Action}
    {trace : List Event}
    (hrun : run step state (first ++ second) = .ok (final, trace)) :
    ∃ middle now later, run step state first = .ok (middle, now) ∧
      run step middle second = .ok (final, later) ∧ trace = now ++ later := by
  induction first generalizing state trace with
  | nil => exact ⟨state, [], trace, rfl, hrun, rfl⟩
  | cons action actions ih =>
      obtain ⟨next, here, there, hstep, hrest, rfl⟩ := run_cons_ok hrun
      obtain ⟨middle, now, later, hfirst, hsecond, rfl⟩ := ih hrest
      refine ⟨middle, here ++ now, later, run_cons hstep hfirst, hsecond, ?_⟩
      exact (List.append_assoc _ _ _).symm

theorem run_concat_ok {state final : State} {first : List Action}
    {action : Action} {trace : List Event}
    (hrun : run step state (first ++ [action]) = .ok (final, trace)) :
    ∃ middle now later, run step state first = .ok (middle, now) ∧
      step middle action = .ok (final, later) ∧ trace = now ++ later := by
  obtain ⟨middle, now, later, hfirst, hlast, rfl⟩ := run_append_ok hrun
  obtain ⟨last, here, rest, hstep, hnil, rfl⟩ := run_cons_ok hlast
  simp only [run_nil, Except.ok.injEq, Prod.mk.injEq] at hnil
  obtain ⟨rfl, rfl⟩ := hnil
  exact ⟨middle, now, here, hfirst, hstep, by rw [List.append_nil]⟩

theorem run_one {state final : State} {action : Action} {now : List Event}
    (hstep : step state action = .ok (final, now)) :
    run step state [action] = .ok (final, now) := by
  simp only [run, hstep, List.append_nil]

/-- A faulting run performs some actions without fault and then one that
faults. -/
theorem run_error {state : State} {actions : List Action} {fault : Fault}
    (hrun : run step state actions = .error fault) :
    ∃ before action after middle past, actions = before ++ action :: after ∧
      run step state before = .ok (middle, past) ∧
      step middle action = .error fault := by
  induction actions generalizing state with
  | nil => simp at hrun
  | cons action actions ih =>
      cases hstep : step state action with
      | error found =>
          simp only [run, hstep, Except.error.injEq] at hrun
          subst hrun
          exact ⟨[], action, actions, state, [], rfl, rfl, hstep⟩
      | ok outcome =>
          obtain ⟨next, now⟩ := outcome
          have hrest : run step next actions = .error fault := by
            cases hnext : run step next actions with
            | error found => simpa [run, hstep, hnext] using hrun
            | ok ending => simp [run, hstep, hnext] at hrun
          obtain ⟨before, culprit, after, middle, past, rfl, hbefore, hfault⟩ :=
            ih hrest
          exact ⟨action :: before, culprit, after, middle, now ++ past, rfl,
            run_cons hstep hbefore, hfault⟩

/-! ## Runs all of whose steps meet a condition -/

/-- Every action performed by the run meets `guard` in the state where it is
performed. -/
def StepsMeet (step : Step State Action Event Fault)
    (guard : State → Action → Prop) : State → List Action → Prop
  | _, [] => True
  | state, action :: actions =>
      guard state action ∧
        ∀ next now, step state action = .ok (next, now) →
          StepsMeet step guard next actions

variable {guard : State → Action → Prop}

theorem stepsMeet_cons_of_ok {state next : State} {action : Action}
    {actions : List Action} {now : List Event}
    (hstep : step state action = .ok (next, now)) :
    StepsMeet step guard state (action :: actions) ↔
      guard state action ∧ StepsMeet step guard next actions := by
  refine and_congr_right fun _ => ⟨fun hrest => hrest next now hstep, ?_⟩
  intro hrest other later hother
  rw [hstep, Except.ok.injEq, Prod.mk.injEq] at hother
  exact hother.1 ▸ hrest

theorem stepsMeet_cons_of_error {state : State} {action : Action}
    {actions : List Action} {fault : Fault}
    (hstep : step state action = .error fault) :
    StepsMeet step guard state (action :: actions) ↔ guard state action := by
  refine and_iff_left fun next now hnext => ?_
  simp [hstep] at hnext

instance decidableStepsMeet [∀ state action, Decidable (guard state action)] :
    ∀ state actions, Decidable (StepsMeet step guard state actions)
  | _, [] => isTrue trivial
  | state, action :: actions =>
      match hstep : step state action with
      | .error _ =>
          decidable_of_iff (guard state action)
            (stepsMeet_cons_of_error hstep).symm
      | .ok (next, _) =>
          have : Decidable (StepsMeet step guard next actions) :=
            decidableStepsMeet next actions
          decidable_of_iff
            (guard state action ∧ StepsMeet step guard next actions)
            (stepsMeet_cons_of_ok hstep).symm

theorem StepsMeet.of_forall {actions : List Action}
    (hguard : ∀ action ∈ actions, ∀ state, guard state action) (state : State) :
    StepsMeet step guard state actions := by
  induction actions generalizing state with
  | nil => trivial
  | cons action actions ih =>
      refine ⟨hguard action (by simp) state, fun next now _ => ?_⟩
      exact ih (fun later hlater => hguard later (by simp [hlater])) next

theorem StepsMeet.and {other : State → Action → Prop} {state : State}
    {actions : List Action} (hmeets : StepsMeet step guard state actions)
    (hother : StepsMeet step other state actions) :
    StepsMeet step (fun current action =>
      guard current action ∧ other current action) state actions := by
  induction actions generalizing state with
  | nil => trivial
  | cons action actions ih =>
      exact ⟨⟨hmeets.1, hother.1⟩, fun next now hstep =>
        ih (hmeets.2 next now hstep) (hother.2 next now hstep)⟩

theorem StepsMeet.append_left {state : State} {first second : List Action}
    (hmeets : StepsMeet step guard state (first ++ second)) :
    StepsMeet step guard state first := by
  induction first generalizing state with
  | nil => trivial
  | cons action actions ih =>
      exact ⟨hmeets.1, fun next now hstep => ih (hmeets.2 next now hstep)⟩

theorem StepsMeet.append_right {state middle : State} {now : List Event}
    {first second : List Action}
    (hmeets : StepsMeet step guard state (first ++ second))
    (hfirst : run step state first = .ok (middle, now)) :
    StepsMeet step guard middle second := by
  induction first generalizing state now with
  | nil =>
      simp only [run_nil, Except.ok.injEq, Prod.mk.injEq] at hfirst
      obtain ⟨rfl, -⟩ := hfirst
      exact hmeets
  | cons action actions ih =>
      obtain ⟨next, here, there, hstep, hrest, -⟩ := run_cons_ok hfirst
      exact ih (hmeets.2 next here hstep) hrest

/-- A condition met wherever the run arrives is met by its steps. -/
theorem StepsMeet.of_arrivals {state : State} {actions : List Action}
    (harrive : ∀ before action after middle past,
      actions = before ++ action :: after →
      run step state before = .ok (middle, past) → guard middle action) :
    StepsMeet step guard state actions := by
  induction actions generalizing state with
  | nil => trivial
  | cons action actions ih =>
      refine ⟨harrive [] action actions state [] rfl rfl,
        fun next now hstep => ih ?_⟩
      rintro before later after middle past rfl hrun
      exact harrive (action :: before) later after middle (now ++ past) rfl
        (run_cons hstep hrun)

/-! ## Rules for whole runs -/

section Rules

variable (step guard)

/-- The invariant rule: what every step that meets the condition preserves
holds after every run whose steps meet it. -/
theorem run_invariant (inv : State → List Event → Prop)
    (hstep : ∀ state past action next now, inv state past →
      guard state action → step state action = .ok (next, now) →
        inv next (past ++ now))
    {state final : State} {trace : List Event} {actions : List Action}
    (hinit : inv state []) (hmeets : StepsMeet step guard state actions)
    (hrun : run step state actions = .ok (final, trace)) : inv final trace := by
  suffices hfrom : ∀ past, inv state past → inv final (past ++ trace) from
    hfrom [] hinit
  intro past hpast
  clear hinit
  induction actions generalizing state past trace with
  | nil =>
      simp only [run_nil, Except.ok.injEq, Prod.mk.injEq] at hrun
      obtain ⟨rfl, rfl⟩ := hrun
      simpa using hpast
  | cons action actions ih =>
      obtain ⟨next, now, later, hfirst, hrest, rfl⟩ := run_cons_ok hrun
      rw [← List.append_assoc]
      exact ih (hmeets.2 next now hfirst) hrest (past ++ now)
        (hstep state past action next now hpast hmeets.1 hfirst)

/-- The invariant rule without a condition on the steps. -/
theorem run_history_invariant (inv : State → List Event → Prop)
    (hstep : ∀ state past action next now, inv state past →
      step state action = .ok (next, now) → inv next (past ++ now))
    {state final : State} {trace : List Event} {actions : List Action}
    (hinit : inv state [])
    (hrun : run step state actions = .ok (final, trace)) : inv final trace :=
  run_invariant step (fun _ _ => True) inv
    (fun current past action next now hinv _ hfirst =>
      hstep current past action next now hinv hfirst)
    hinit (StepsMeet.of_forall (fun _ _ _ => trivial) state) hrun

/-- The invariant rule for a predicate of the state alone. -/
theorem run_state_invariant (inv : State → Prop)
    (hstep : ∀ state action next now, inv state →
      step state action = .ok (next, now) → inv next)
    {state final : State} {trace : List Event} {actions : List Action}
    (hinit : inv state) (hrun : run step state actions = .ok (final, trace)) :
    inv final :=
  run_history_invariant step (fun current _ => inv current)
    (fun current _ action next now hinv hfirst =>
      hstep current action next now hinv hfirst) hinit hrun

/-- A run whose steps keep an invariant that excludes a fault never stops with
that fault. -/
theorem run_ne_error (inv : State → Prop) (fault : Fault)
    (hstep : ∀ state action next now, inv state → guard state action →
      step state action = .ok (next, now) → inv next)
    (hsafe : ∀ state action, inv state → guard state action →
      step state action ≠ .error fault)
    {state : State} {actions : List Action} (hinit : inv state)
    (hmeets : StepsMeet step guard state actions) :
    run step state actions ≠ .error fault := by
  intro hrun
  obtain ⟨before, action, after, middle, past, rfl, hbefore, hfault⟩ :=
    run_error hrun
  have hmiddle : inv middle :=
    run_invariant step guard (fun current _ => inv current)
      (fun current _ act next now hinv hguard hfirst =>
        hstep current act next now hinv hguard hfirst)
      hinit hmeets.append_left hbefore
  exact hsafe middle action hmiddle (hmeets.append_right hbefore).1 hfault

/-- A run succeeds if every step that meets the condition does and keeps the
invariant. -/
theorem run_succeeds (inv : State → Prop)
    (hstep : ∀ state action, inv state → guard state action →
      ∃ next now, step state action = .ok (next, now) ∧ inv next)
    {state : State} {actions : List Action} (hinit : inv state)
    (hmeets : StepsMeet step guard state actions) :
    ∃ final trace, run step state actions = .ok (final, trace) := by
  induction actions generalizing state with
  | nil => exact ⟨state, [], rfl⟩
  | cons action actions ih =>
      obtain ⟨next, now, hfirst, hnext⟩ := hstep state action hinit hmeets.1
      obtain ⟨final, later, hrest⟩ := ih hnext (hmeets.2 next now hfirst)
      exact ⟨final, now ++ later, run_cons hfirst hrest⟩

end Rules

/-- If every step that fails the condition ends in a fault, a run without that
fault meets the condition. -/
theorem stepsMeet_of_ne_error (fault : Fault)
    (hfault : ∀ state action, ¬ guard state action →
      step state action = .error fault)
    {state : State} {actions : List Action}
    (hrun : run step state actions ≠ .error fault) :
    StepsMeet step guard state actions := by
  induction actions generalizing state with
  | nil => trivial
  | cons action actions ih =>
      refine ⟨?_, fun next now hstep => ih fun hrest => hrun ?_⟩
      · by_contra hguard
        exact hrun (by simp only [run, hfault state action hguard])
      · simp only [run, hstep, hrest]

/-! ## Projecting a machine onto one of its components -/

section Projection

variable {Part PartAction PartEvent PartFault : Type*}

/-- If every step of a machine is, on one component, a run of that component,
then so is every run of the machine. -/
theorem run_project (step : Step State Action Event Fault)
    (partStep : Step Part PartAction PartEvent PartFault) (view : State → Part)
    (see : Event → Option PartEvent)
    (hpart : ∀ state action next now, step state action = .ok (next, now) →
      ∃ moves, run partStep (view state) moves =
        .ok (view next, now.filterMap see))
    {state final : State} {trace : List Event} {actions : List Action}
    (hrun : run step state actions = .ok (final, trace)) :
    ∃ moves, run partStep (view state) moves =
      .ok (view final, trace.filterMap see) := by
  induction actions generalizing state trace with
  | nil =>
      simp only [run_nil, Except.ok.injEq, Prod.mk.injEq] at hrun
      obtain ⟨rfl, rfl⟩ := hrun
      exact ⟨[], rfl⟩
  | cons action actions ih =>
      obtain ⟨next, now, later, hfirst, hrest, rfl⟩ := run_cons_ok hrun
      obtain ⟨first, hfirstRun⟩ := hpart state action next now hfirst
      obtain ⟨second, hsecondRun⟩ := ih hrest
      refine ⟨first ++ second, ?_⟩
      rw [List.filterMap_append]
      exact run_append hfirstRun hsecondRun

end Projection

end Conveyor.Runs
