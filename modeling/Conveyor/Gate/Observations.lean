import Conveyor.Core.LevelChanges
import Conveyor.Gate.Soundness

/-!
# What a trace shows of one pin

The levels stored for a pin determine its shadow, so statements about what the
controller could have seen are statements about the trace.
-/

namespace Conveyor.Gate

open Conveyor.Core Conveyor.Rtos Conveyor.IoDriver

/-- The level an event stores for the pin. -/
def Event.storedLevel (port : Port) (pin : Pin) : Event → Option UInt8
  | .stored p k level _ => if p = port ∧ k = pin then some level else none
  | _ => none

/-- The levels the reads of a trace stored for the pin, good or failed. -/
def storedLevels (port : Port) (pin : Pin) (trace : List Event) : List UInt8 :=
  trace.filterMap (Event.storedLevel port pin)

@[simp]
theorem storedLevels_nil (port : Port) (pin : Pin) :
    storedLevels port pin [] = [] := rfl

@[simp]
theorem storedLevels_append (port : Port) (pin : Pin)
    (first second : List Event) :
    storedLevels port pin (first ++ second) =
      storedLevels port pin first ++ storedLevels port pin second :=
  List.filterMap_append

theorem storedLevels_stored (port p : Port) (pin k : Pin) (level : UInt8)
    (good : Bool) :
    storedLevels port pin [.stored p k level good] =
      if p = port ∧ k = pin then [level] else [] := by
  by_cases hsame : p = port ∧ k = pin <;>
    simp [storedLevels, Event.storedLevel, hsame]

/-- One step changes the shadow of a pin only by storing it. -/
theorem input_step {state next : State} {action : Action} {now : List Event}
    (hstep : step state action = .ok (next, now)) (port : Port) (pin : Pin) :
    next.data.input port pin =
      (storedLevels port pin now).getLastD (state.data.input port pin) := by
  cases move_of_step hstep with
  | store result phase p k value good hscan =>
      rw [storedLevels_stored]
      by_cases hsame : p = port ∧ k = pin
      · obtain ⟨rfl, rfl⟩ := hsame
        simp
      · have hother : ¬(port = p ∧ pin = k) := fun heq =>
          hsame ⟨heq.1.symm, heq.2.symm⟩
        simp [hsame, setPin_apply, hother]
  | resetWrite result p k data bus byte hscan hwrite =>
      obtain ⟨-, -, -, rfl, -, -⟩ := pcf8574WriteOutput_ok hwrite
      rfl
  | write result command data bus byte hscan hwrite =>
      obtain ⟨-, -, -, rfl, -, -⟩ := pcf8574WriteOutput_ok hwrite
      rfl
  | _ => rfl

/-- The shadow of a pin is the level stored last. -/
theorem input_run {state final : State} {actions : List Action}
    {trace : List Event} (hrun : run state actions = .ok (final, trace))
    (port : Port) (pin : Pin) :
    final.data.input port pin =
      (storedLevels port pin trace).getLastD (state.data.input port pin) := by
  refine Runs.run_history_invariant step
    (fun current past => current.data.input port pin =
      (storedLevels port pin past).getLastD (state.data.input port pin))
    (fun current past action next now hinv hstep => ?_) rfl hrun
  rw [input_step hstep, hinv, storedLevels_append, getLastD_append]

/-- Changes of a pin add up along a run. -/
theorem changes_run {state middle : State} {actions : List Action}
    {first : List Event} (hrun : run state actions = .ok (middle, first))
    (port : Port) (pin : Pin) (second : List Event) :
    changes (state.data.input port pin)
        (storedLevels port pin (first ++ second)) =
      changes (state.data.input port pin) (storedLevels port pin first) +
        changes (middle.data.input port pin)
          (storedLevels port pin second) := by
  rw [storedLevels_append, changes_append, ← input_run hrun]

/-- The gate commands offered by the environment. -/
def Action.offer : Action → Option GateCommand
  | .sendGateCommand command => some command
  | _ => none

def commandsOf (actions : List Action) : List GateCommand :=
  actions.filterMap Action.offer

@[simp]
theorem commandsOf_append (first second : List Action) :
    commandsOf (first ++ second) = commandsOf first ++ commandsOf second :=
  List.filterMap_append

end Conveyor.Gate
