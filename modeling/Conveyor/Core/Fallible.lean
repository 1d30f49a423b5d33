import Mathlib.Tactic.Common

/-!
# Programs that can give up

A program on a state may return a result, give up, or do what its language does
not define.  A triple says that the third never happens, what holds where the
program returns, and what holds where it gives up.
-/

namespace Conveyor.Fallible

/-- A program that reads an environment, changes a state and may give up. -/
abbrev Program (Env State Misuse : Type) :=
  ReaderT Env (OptionT (StateT State (Except Misuse)))

variable {Env State Misuse Result Other : Type}

def giveUp : Program Env State Misuse Result := fun _ state => .ok (none, state)

def misuse (fault : Misuse) : Program Env State Misuse Result :=
  fun _ _ => .error fault

def update (change : State → State) : Program Env State Misuse Unit :=
  fun _ state => .ok (some (), change state)

/-- A program that depends on the state it starts in. -/
def reading (program : State → Program Env State Misuse Result) :
    Program Env State Misuse Result :=
  fun env state => program state env state

/-- From a state as in `pre` the program ends as in `post`, or it gives up as in
`refused`. -/
def Triple (env : Env) (pre : State → Prop)
    (program : Program Env State Misuse Result) (post : Result → State → Prop)
    (refused : State → Prop) : Prop :=
  ∀ state, pre state → ∃ result final,
    program env state = .ok (result, final) ∧
      match result with
      | none => refused final
      | some value => post value final

variable {env : Env} {pre pre' : State → Prop} {refused refused' : State → Prop}
variable {program : Program Env State Misuse Result}
variable {post post' : Result → State → Prop}

theorem bind_some {state middle : State} {value : Result}
    (hfirst : program env state = .ok (some value, middle))
    (next : Result → Program Env State Misuse Other) :
    (program >>= next) env state = next value env middle := by
  change Except.bind (program env state) _ = _
  rw [hfirst]
  rfl

theorem bind_none {state middle : State}
    (hfirst : program env state = .ok (none, middle))
    (next : Result → Program Env State Misuse Other) :
    (program >>= next) env state = .ok (none, middle) := by
  change Except.bind (program env state) _ = _
  rw [hfirst]
  rfl

theorem Triple.consequence (htriple : Triple env pre program post refused)
    (hpre : ∀ state, pre' state → pre state)
    (hpost : ∀ value state, post value state → post' value state)
    (hrefused : ∀ state, refused state → refused' state) :
    Triple env pre' program post' refused' := by
  intro state hstate
  obtain ⟨result, final, hrun, hend⟩ := htriple state (hpre state hstate)
  refine ⟨result, final, hrun, ?_⟩
  cases result with
  | none => exact hrefused final hend
  | some value => exact hpost value final hend

theorem Triple.weaken (htriple : Triple env pre program post refused)
    (hpost : ∀ value state, post value state → post' value state) :
    Triple env pre program post' refused :=
  htriple.consequence (fun _ => id) hpost (fun _ => id)

theorem Triple.strengthen (htriple : Triple env pre program post refused)
    (hpre : ∀ state, pre' state → pre state) :
    Triple env pre' program post refused :=
  htriple.consequence hpre (fun _ _ => id) (fun _ => id)

theorem Triple.bind {next : Result → Program Env State Misuse Other}
    {last : Other → State → Prop} (hfirst : Triple env pre program post refused)
    (hnext : ∀ value, Triple env (post value) (next value) last refused) :
    Triple env pre (program >>= next) last refused := by
  intro state hstate
  obtain ⟨result, middle, hrun, hmiddle⟩ := hfirst state hstate
  cases result with
  | none => exact ⟨none, middle, bind_none hrun next, hmiddle⟩
  | some value =>
      obtain ⟨other, final, hrest, hfinal⟩ := hnext value middle hmiddle
      exact ⟨other, final, (bind_some hrun next).trans hrest, hfinal⟩

theorem Triple.of_pure {value : Result} (hpost : ∀ state, pre state →
    post value state) : Triple env pre (pure value : Program Env State Misuse _)
      post refused :=
  fun state hstate => ⟨some value, state, rfl, hpost state hstate⟩

theorem Triple.of_giveUp (hrefused : ∀ state, pre state → refused state) :
    Triple env pre (giveUp : Program Env State Misuse Result) post refused :=
  fun state hstate => ⟨none, state, rfl, hrefused state hstate⟩

theorem Triple.of_update {change : State → State} {post : Unit → State → Prop}
    (hpost : ∀ state, pre state → post () (change state)) :
    Triple env pre (update change : Program Env State Misuse Unit) post refused :=
  fun state hstate => ⟨some (), change state, rfl, hpost state hstate⟩

theorem Triple.of_reading
    {program : State → Program Env State Misuse Result}
    (htriple : ∀ state, pre state →
      Triple env (fun current => current = state) (program state) post refused) :
    Triple env pre (reading program) post refused :=
  fun state hstate => htriple state hstate state rfl

end Conveyor.Fallible
