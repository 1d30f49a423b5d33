import Conveyor.Gate.Observations
import Conveyor.Gate.Soundness

/-!
# What the tasks carry

Every command inside the two tasks was offered, and every output command was
derived from one that was.  So a property of the offered commands holds of
whatever is queued or in hand at any moment.
-/

namespace Conveyor.Gate

open Conveyor.Core Conveyor.Rtos Conveyor.IoDriver

/-- The command the controller has received and not finished. -/
def Controller.held : Controller → Option GateCommand
  | .sampling command => some command
  | .enqueueing command _ => some command
  | .firstWait command _ => some command
  | .secondWait command _ => some command
  | _ => none

theorem held_of_waitingFor {controller : Controller} {command : GateCommand}
    (hwaiting : controller.waitingFor = some command) :
    controller.held = some command := by
  cases controller with
  | firstWait | secondWait => exact hwaiting
  | _ => simp [Controller.waitingFor] at hwaiting

/-- Everything queued or in hand comes from commands with the property. -/
structure Carries (allowed : GateCommand → Prop) (state : State) : Prop where
  queued : ∀ command ∈ contents state.gateQueue, allowed command
  held : ∀ command, state.controller.held = some command → allowed command
  outputs : ∀ output ∈ contents state.ioQueue,
    ∃ command, allowed command ∧ output = command.output
  inHand : ∀ output, state.scan = .writing output →
    ∃ command, allowed command ∧ output = command.output

theorem carries_powerOn (allowed : GateCommand → Prop) :
    Carries allowed State.powerOn where
  queued := by simp [State.powerOn]
  held := by simp [State.powerOn, Controller.held]
  outputs := by simp [State.powerOn]
  inHand := by simp [State.powerOn]

theorem Carries.step {allowed : GateCommand → Prop} {state next : State}
    {action : Action} {now : List Event} (hcarries : Carries allowed state)
    (hoffer : ∀ command, action.offer = some command → allowed command)
    (hstep : step state action = .ok (next, now)) : Carries allowed next := by
  cases move_of_step hstep with
  | scanStarted | controllerStarted | controllerAbsent | idle | firstSame
  | secondSame | scanAbsent => exact hcarries
  | scanStart | transfer | nothingQueued | installDriver =>
      exact { hcarries with inHand := by simp }
  | configParam result hscan =>
      refine { hcarries with inHand := fun output hwriting => ?_ }
      simp only at hwriting
      split at hwriting <;> simp at hwriting
  | gateQueueInit => exact { hcarries with queued := by simp }
  | controllerStart | secondChange =>
      exact { hcarries with held := by simp [Controller.held] }
  | offer command queue accepted hsend =>
      exact { hcarries with
        queued := forall_contents_of_send hsend hcarries.queued
          (hoffer command rfl) }
  | take command queue hcontroller hreceive =>
      obtain ⟨hallowed, hrest⟩ :=
        forall_contents_of_receive hreceive hcarries.queued
      refine { hcarries with queued := hrest, held := fun taken htaken => ?_ }
      rw [Controller.held, Option.some.injEq] at htaken
      exact htaken ▸ hallowed
  | sample command port pin hcontroller
  | firstChange command old port pin hcontroller =>
      exact { hcarries with
        held := fun other hother =>
          hcarries.held other
            (by simpa [hcontroller, Controller.held] using hother) }
  | enqueue command old queue accepted hcontroller hsend =>
      have hallowed : allowed command :=
        hcarries.held command (by simp [hcontroller, Controller.held])
      refine { hcarries with
        held := fun other hother => ?_
        outputs := forall_contents_of_send hsend hcarries.outputs
          ⟨command, hallowed, rfl⟩ }
      rw [Controller.held, Option.some.injEq] at hother
      exact hother ▸ hallowed
  | resetWrite result port pin data bus byte hscan hwrite =>
      exact { hcarries with
        inHand := fun output hwriting =>
          absurd hwriting (afterReset_ne_writing port pin output) }
  | store result phase port pin value good hscan =>
      exact { hcarries with
        inHand := fun output hwriting =>
          absurd hwriting (afterStore_ne_writing phase port pin value good
            output) }
  | queueInit =>
      exact { hcarries with outputs := by simp, inHand := by simp }
  | dequeue result output queue hscan hreceive =>
      obtain ⟨horigin, hrest⟩ :=
        forall_contents_of_receive hreceive hcarries.outputs
      refine { hcarries with
        outputs := hrest
        inHand := fun written hwriting => ?_ }
      rw [Scan.writing.injEq] at hwriting
      exact hwriting ▸ horigin
  | write result command data bus byte hscan hwrite =>
      exact { hcarries with inHand := by simp }

end Conveyor.Gate
