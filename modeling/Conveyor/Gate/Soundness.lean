import Conveyor.Gate.Moves

/-!
# What holds in every state of the two tasks

The sample before a command is the only array access whose indices come
straight from a gate command.  Once it has succeeded, the polls, the derived
output command and its write all use the same indices, so none of them can go
out of range.  Input levels are always 0 or 1, and the controller waits only
after `queue_init`.
-/

namespace Conveyor.Gate

open Conveyor.Core Conveyor.Rtos Conveyor.IoDriver

/-- The command whose pre-command sample has been taken. -/
def Controller.sampledCommand : Controller → Option GateCommand
  | .enqueueing command _ => some command
  | .firstWait command _ => some command
  | .secondWait command _ => some command
  | _ => none

/-- The command whose sensor is being polled in one of the wait loops. -/
def Controller.waitingFor : Controller → Option GateCommand
  | .firstWait command _ => some command
  | .secondWait command _ => some command
  | _ => none

/-- The controller polls the pin in one of its wait loops. -/
def WaitsAt (state : State) (command : GateCommand) (port : Port) (pin : Pin) :
    Prop :=
  state.controller.waitingFor = some command ∧
    command.index = some (port, pin)

/-- Past `queue_init`, inside the loop of `io_scan_task`. -/
def Scan.Looping : Scan → Prop
  | .top => True
  | .writing _ => True
  | .transfer .scan _ => True
  | .store .scan _ _ _ _ => True
  | _ => False

instance : DecidablePred Scan.Looping
  | .top | .writing _ | .transfer .scan _ | .store .scan _ _ _ _ => isTrue trivial
  | .notCreated | .configParam | .installDriver | .resetWrite _ _
  | .transfer .reset _ | .store .reset _ _ _ _ | .queueInit => isFalse id

theorem looping_afterStore (port : Port) (pin : Pin) (value : Byte)
    (good : Bool) : (afterStore .scan port pin value good).Looping := by
  rcases afterStore_cases .scan port pin value good with ⟨next, hafter⟩ | hafter
  · rw [hafter]
    trivial
  · rcases afterPort_scan port with hport | hport <;> rw [hafter, hport] <;>
      trivial

/-- The loop of `io_scan_task` is never left. -/
theorem looping_step {state next : State} {action : Action} {now : List Event}
    (hstep : step state action = .ok (next, now))
    (hlooping : state.scan.Looping) : next.scan.Looping := by
  cases move_of_step hstep with
  | scanStart hscan | configParam result hscan | installDriver result hscan
  | resetWrite result port pin data bus byte hscan =>
      rw [hscan] at hlooping
      exact hlooping.elim
  | queueInit | nothingQueued | dequeue | write => trivial
  | transfer result phase port hscan =>
      rw [hscan] at hlooping
      cases phase with
      | reset => exact hlooping.elim
      | scan => trivial
  | store result phase port pin value good hscan =>
      rw [hscan] at hlooping
      cases phase with
      | reset => exact hlooping.elim
      | scan => exact looping_afterStore port pin value good
  | _ => exact hlooping

/-- A table whose entries are levels of a pin. -/
def IsLevels (table : Port → Pin → UInt8) : Prop :=
  ∀ port pin, table port pin = 0 ∨ table port pin = 1

structure Sound (state : State) : Prop where
  sampled : ∀ command, state.controller.sampledCommand = some command →
    command.index.isSome
  queued : ∀ command ∈ contents state.ioQueue,
    (pinIndex command.port command.pin).isSome
  inHand : ∀ command, state.scan = .writing command →
    (pinIndex command.port command.pin).isSome
  levels : IsLevels state.data.input
  looping : state.ioQueue.isSome → state.scan.Looping
  waiting : state.controller.waitingFor.isSome → state.ioQueue.isSome

theorem sound_powerOn : Sound State.powerOn where
  sampled := by simp [State.powerOn, Controller.sampledCommand]
  queued := by simp [State.powerOn]
  inHand := by simp [State.powerOn]
  levels := by simp [State.powerOn, IoData.zero, IsLevels]
  looping := by simp [State.powerOn]
  waiting := by simp [State.powerOn, Controller.waitingFor]

theorem GateCommand.index_output (command : GateCommand) :
    pinIndex command.output.port command.output.pin = command.index := rfl

theorem IsLevels.setPin {table : Port → Pin → UInt8} (hlevels : IsLevels table)
    (port : Port) (pin : Pin) (value : Byte) :
    IsLevels (setPin table port pin (pinLevel value pin)) := by
  intro p k
  rw [setPin_apply]
  split
  · exact pinLevel_zero_or_one value pin
  · exact hlevels p k

/-- The queue does not exist before the loop of `io_scan_task`. -/
theorem Sound.ioQueue_eq_none {state : State} (hsound : Sound state)
    (hstarting : ¬ state.scan.Looping) : state.ioQueue = none :=
  Option.not_isSome_iff_eq_none.mp (mt hsound.looping hstarting)

theorem Sound.step {state next : State} {action : Action} {now : List Event}
    (hsound : Sound state) (hstep : step state action = .ok (next, now)) :
    Sound next := by
  have hlooping : state.ioQueue.isSome → next.scan.Looping := fun hqueue =>
    looping_step hstep (hsound.looping hqueue)
  cases move_of_step hstep with
  | scanStarted | controllerStarted | controllerAbsent | idle | firstSame
  | secondSame | scanAbsent => exact hsound
  | gateQueueInit | offer => exact { hsound with }
  | scanStart | installDriver | transfer | nothingQueued =>
      exact { hsound with inHand := by simp, looping := hlooping }
  | controllerStart | take =>
      exact { hsound with
        sampled := by simp [Controller.sampledCommand]
        waiting := by simp [Controller.waitingFor] }
  | sample command port pin hcontroller hindex =>
      exact { hsound with
        sampled := by simp [Controller.sampledCommand, hindex]
        waiting := by simp [Controller.waitingFor] }
  | enqueue command old queue accepted hcontroller hsend =>
      obtain ⟨hbefore, hafter, -⟩ := xQueueSend_ok hsend
      have hindex : command.index.isSome :=
        hsound.sampled command (by simp [hcontroller, Controller.sampledCommand])
      exact { hsound with
        sampled := by simpa [Controller.sampledCommand] using hindex
        queued := forall_contents_of_send hsend hsound.queued hindex
        looping := fun _ => hlooping hbefore
        waiting := fun _ => hafter }
  | firstChange command old port pin hcontroller hindex hchange =>
      exact { hsound with
        sampled := by simp [Controller.sampledCommand, hindex]
        waiting := fun _ =>
          hsound.waiting (by simp [hcontroller, Controller.waitingFor]) }
  | secondChange command old port pin hcontroller hindex hchange =>
      exact { hsound with
        sampled := by simp [Controller.sampledCommand]
        waiting := by simp [Controller.waitingFor] }
  | configParam result hscan =>
      exact { hsound with
        inHand := by cases result <;> simp [CallResult.succeeded]
        looping := hlooping }
  | resetWrite result port pin data bus byte hscan hwrite =>
      obtain ⟨p, k, -, rfl, -, -⟩ := pcf8574WriteOutput_ok hwrite
      exact { hsound with
        inHand := fun command hwriting =>
          absurd hwriting (afterReset_ne_writing port pin command)
        looping := hlooping }
  | store result phase port pin value good hscan =>
      exact { hsound with
        inHand := fun command hwriting => absurd hwriting
          (afterStore_ne_writing phase port pin value good command)
        levels := hsound.levels.setPin port pin value
        looping := hlooping }
  | queueInit result hscan =>
      have hnone := hsound.ioQueue_eq_none (by simp [hscan, Scan.Looping])
      exact { hsound with
        queued := by simp
        inHand := by simp
        looping := fun _ => trivial
        waiting := fun hwaiting => by
          simpa [hnone] using hsound.waiting hwaiting }
  | dequeue result command queue hscan hreceive =>
      obtain ⟨-, hafter, -⟩ := xQueueReceive_some hreceive
      obtain ⟨hindex, hrest⟩ :=
        forall_contents_of_receive hreceive hsound.queued
      refine { hsound with
        queued := hrest
        inHand := fun output hwriting => ?_
        looping := fun _ => trivial
        waiting := fun _ => hafter }
      rw [Scan.writing.injEq] at hwriting
      exact hwriting ▸ hindex
  | write result command data bus byte hscan hwrite =>
      obtain ⟨p, k, -, rfl, -, -⟩ := pcf8574WriteOutput_ok hwrite
      exact { hsound with inHand := by simp, looping := hlooping }

theorem Sound.run {state final : State} {actions : List Action}
    {trace : List Event} (hsound : Sound state)
    (hrun : run state actions = .ok (final, trace)) : Sound final :=
  Runs.run_state_invariant Gate.step Sound
    (fun _ _ _ _ hinv hstep => hinv.step hstep) hsound hrun

/-- The states the two tasks can reach from power-on. -/
theorem sound_of_run {final : State} {actions : List Action}
    {trace : List Event}
    (hrun : run State.powerOn actions = .ok (final, trace)) : Sound final :=
  sound_powerOn.run hrun

end Conveyor.Gate
