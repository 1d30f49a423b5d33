import Conveyor.Gate.Carrying
import Conveyor.Gate.OutputQueue
import Conveyor.Gate.Passes

/-!
# When a queued stop command takes effect

The wait loops look at nothing but the sensor.  A stop command behind the
command being waited for is therefore received only after the sensor has moved
as often as the loops still require.  This file says exactly from which states
the gate can be written off while its input stays as it is, and that two
changes of the input always suffice for the stop command.
-/

namespace Conveyor.Gate

open Conveyor.Core Conveyor.Rtos Conveyor.IoDriver

/-- The head of the gate queue is a stop command for the same gate. -/
def StopNext (state : State) (command : GateCommand) : Prop :=
  ∃ stop rest, contents state.gateQueue = stop :: rest ∧
    stop.commandName = gateStopCommand ∧
    stop.position = command.position ∧ stop.gateNo = command.gateNo

/-- An output command that switches the pin off. -/
def OutputCommand.Off (output : OutputCommand) (port : Port) (pin : Pin) :
    Prop :=
  pinIndex output.port output.pin = some (port, pin) ∧ output.state = false

/-- `pcf8574_write_output` has been executed with `state = false` for the
pin. -/
def WrittenOff (port : Port) (pin : Pin) (trace : List Event) : Prop :=
  ∃ output byte good, .wrote output byte good ∈ trace ∧
    OutputCommand.Off output port pin

/-- A step of `gate_controller_task` or `io_scan_task`. -/
def Action.ByTasks : Action → Prop
  | .controller => True
  | .ioScan _ => True
  | _ => False

theorem Action.OfTasks.byTasks {action : Action} (htasks : action.OfTasks) :
    action.ByTasks := by
  cases action with
  | controller | ioScan => trivial
  | _ => exact htasks.elim

/-- The two tasks can write the pin off while its input changes at most
`limit` times. -/
def CanWriteOff (state : State) (port : Port) (pin : Pin) (limit : ℕ) : Prop :=
  ∃ actions final trace, (∀ action ∈ actions, action.ByTasks) ∧
    run state actions = .ok (final, trace) ∧
    changes (state.data.input port pin) (storedLevels port pin trace) ≤ limit ∧
    WrittenOff port pin trace

/-- The two tasks can receive the stop command and then write the pin off while
its input changes at most `limit` times. -/
def CanObeyStop (state : State) (port : Port) (pin : Pin) (limit : ℕ) : Prop :=
  ∃ actions final before after stop, (∀ action ∈ actions, action.ByTasks) ∧
    run state actions = .ok (final, before ++ after) ∧
    changes (state.data.input port pin)
      (storedLevels port pin (before ++ after)) ≤ limit ∧
    stop.commandName = gateStopCommand ∧ stop.index = some (port, pin) ∧
    .took stop ∈ before ∧ WrittenOff port pin after

/-- The states from which the pin can be written off with its input as it is:
an off command is being written, or no change is in flight and either an off
command is queued or the second wait loop has its change. -/
def OffPending (state : State) (port : Port) (pin : Pin) : Prop :=
  (∃ output, state.scan = .writing output ∧
      OutputCommand.Off output port pin) ∨
    ¬ state.scan.InFlight port pin (state.data.input port pin) ∧
      ((∃ output ∈ contents state.ioQueue,
          OutputCommand.Off output port pin) ∨
        ∃ command old, state.controller = .secondWait command old ∧
          state.data.input port pin ≠ old)

/-! ## States that block the stop -/

/-- No off command is on its way and the wait loops still need a change. -/
structure Waiting (state : State) (port : Port) (pin : Pin) (level : UInt8) :
    Prop where
  polls : ∃ command, WaitsAt state command port pin
  looping : state.scan.Looping
  input : state.data.input port pin = level
  noHand : ∀ output, state.scan = .writing output →
    ¬ OutputCommand.Off output port pin
  noQueued : ∀ output ∈ contents state.ioQueue,
    ¬ OutputCommand.Off output port pin
  second : ∀ command old, state.controller = .secondWait command old →
    old = level

/-- The scan loop cannot go on without storing a changed level. -/
structure Flipping (state : State) (port : Port) (pin : Pin) (level : UInt8) :
    Prop where
  flight : state.scan.InFlight port pin level

theorem Waiting.step {state next : State} {action : Action} {now : List Event}
    {port : Port} {pin : Pin} {level : UInt8}
    (hwaiting : Waiting state port pin level) (htasks : action.ByTasks)
    (hstep : step state action = .ok (next, now))
    (hkeep : changes level (storedLevels port pin now) = 0) :
    Waiting next port pin level ∧ ¬ WrittenOff port pin now := by
  obtain ⟨command, hcommand, hindex⟩ := hwaiting.polls
  have hlevel : next.data.input port pin = level := by
    rw [input_step hstep, hwaiting.input]
    exact getLastD_of_changes_eq_zero hkeep
  have hlooping := looping_step hstep hwaiting.looping
  cases move_of_step hstep with
  | scanStart | scanStarted | gateQueueInit | controllerStart
  | controllerStarted | offer => exact htasks.elim
  | controllerAbsent hcontroller | idle queue hcontroller
  | take other queue hcontroller | sample other p k hcontroller
  | enqueue other old queue accepted hcontroller =>
      simp [hcontroller, Controller.waitingFor] at hcommand
  | firstSame | secondSame | scanAbsent =>
      exact ⟨hwaiting, by simp [WrittenOff]⟩
  | firstChange other old p k hcontroller hother hchange =>
      rw [hcontroller, Controller.waitingFor, Option.some.injEq] at hcommand
      subst hcommand
      rw [hindex, Option.some.injEq, Prod.mk.injEq] at hother
      obtain ⟨rfl, rfl⟩ := hother
      refine ⟨{ hwaiting with
        polls := ⟨other, rfl, hindex⟩
        second := fun again fresh hagain => ?_ }, by simp [WrittenOff]⟩
      simp only [Controller.secondWait.injEq] at hagain
      rw [← hagain.2, hwaiting.input]
  | secondChange other old p k hcontroller hother hchange =>
      rw [hcontroller, Controller.waitingFor, Option.some.injEq] at hcommand
      subst hcommand
      rw [hindex, Option.some.injEq, Prod.mk.injEq] at hother
      obtain ⟨rfl, rfl⟩ := hother
      exact absurd (hwaiting.input.trans
        (hwaiting.second _ _ hcontroller).symm) hchange
  | configParam result hscan | installDriver result hscan
  | resetWrite result p k data bus byte hscan | queueInit result hscan =>
      simpa [hscan, Scan.Looping] using hwaiting.looping
  | transfer result phase p hscan
  | nothingQueued result queue hscan hreceive =>
      exact ⟨{ hwaiting with looping := hlooping, noHand := by simp },
        by simp [WrittenOff]⟩
  | store result phase p k value good hscan =>
      exact ⟨{ hwaiting with
        looping := hlooping
        input := hlevel
        noHand := fun output hwriting => absurd hwriting
          (afterStore_ne_writing phase p k value good output) },
        by simp [WrittenOff]⟩
  | dequeue result output queue hscan hreceive =>
      obtain ⟨hon, hrest⟩ :=
        forall_contents_of_receive hreceive hwaiting.noQueued
      refine ⟨{ hwaiting with
        looping := hlooping
        noHand := fun other hother => ?_
        noQueued := hrest }, by simp [WrittenOff]⟩
      rw [Scan.writing.injEq] at hother
      exact hother ▸ hon
  | write result output data bus byte hscan hwrite =>
      obtain ⟨-, -, -, rfl, -, -⟩ := pcf8574WriteOutput_ok hwrite
      refine ⟨{ hwaiting with looping := trivial, noHand := by simp }, ?_⟩
      rintro ⟨other, sent, good, hmem, hoff⟩
      rw [List.mem_singleton, Event.wrote.injEq] at hmem
      exact hwaiting.noHand output hscan (hmem.1 ▸ hoff)

theorem Flipping.step {state next : State} {action : Action}
    {now : List Event} {port : Port} {pin : Pin} {level : UInt8}
    (hflipping : Flipping state port pin level) (htasks : action.ByTasks)
    (hstep : step state action = .ok (next, now))
    (hkeep : changes level (storedLevels port pin now) = 0) :
    Flipping next port pin level ∧ ¬ WrittenOff port pin now := by
  obtain ⟨phase, k, value, good, hscan, hle, hflip⟩ := hflipping.flight
  cases move_of_step hstep with
  | scanStart | scanStarted | gateQueueInit | controllerStart
  | controllerStarted | offer => exact htasks.elim
  | controllerAbsent | idle | firstSame | secondSame | scanAbsent =>
      exact ⟨hflipping, by simp [WrittenOff]⟩
  | take | sample | enqueue | firstChange | secondChange =>
      exact ⟨⟨phase, k, value, good, hscan, hle, hflip⟩,
        by simp [WrittenOff]⟩
  | store result phase' p first value' good' hstore =>
      rw [hstore, Scan.store.injEq] at hscan
      obtain ⟨rfl, rfl, rfl, rfl, rfl⟩ := hscan
      have hne : first ≠ pin := by
        rintro rfl
        rw [storedLevels_stored, if_pos ⟨rfl, rfl⟩, changes_cons,
          if_neg hflip] at hkeep
        omega
      have hlt : first.val < pin.val :=
        lt_of_le_of_ne hle fun heq => hne (Fin.ext heq)
      have hroom : first.val + 1 < 8 := by omega
      refine ⟨⟨phase', ⟨first.val + 1, hroom⟩, value', good', ?_, hlt, hflip⟩,
        by simp [WrittenOff]⟩
      simp [afterStore, nextPin, hroom]
  | configParam result hother | installDriver result hother
  | resetWrite result p first data bus byte hother
  | transfer result phase' p hother | queueInit result hother
  | nothingQueued result queue hother | dequeue result output queue hother
  | write result output data bus byte hother =>
      simp [hscan] at hother

/-- While the input stays as it is, a blocked state leads only to blocked
states and the pin is not written off. -/
theorem not_canWriteOff {state : State} {port : Port} {pin : Pin}
    (hblocked : Waiting state port pin (state.data.input port pin) ∨
      Flipping state port pin (state.data.input port pin)) :
    ¬ CanWriteOff state port pin 0 := by
  rintro ⟨actions, final, trace, htasks, hrun, hkeep, hoff⟩
  have hinv := Runs.run_invariant step (fun _ action => action.ByTasks)
    (fun current past =>
      changes (state.data.input port pin) (storedLevels port pin past) = 0 →
        (Waiting current port pin (state.data.input port pin) ∨
          Flipping current port pin (state.data.input port pin)) ∧
        ¬ WrittenOff port pin past)
    (fun current past action next now hpast htask hstep hzero => ?_)
    (fun _ => ⟨hblocked, by simp [WrittenOff]⟩)
    (Runs.StepsMeet.of_forall (fun action hmem _ => htasks action hmem) _) hrun
  · exact (hinv (by simpa using hkeep)).2 hoff
  · rw [storedLevels_append, changes_append] at hzero
    have hearlier : changes (state.data.input port pin)
        (storedLevels port pin past) = 0 := by omega
    rw [getLastD_of_changes_eq_zero hearlier] at hzero
    obtain ⟨hcurrent, hquiet⟩ := hpast hearlier
    have hnext : (Waiting next port pin (state.data.input port pin) ∨
        Flipping next port pin (state.data.input port pin)) ∧
        ¬ WrittenOff port pin now := by
      rcases hcurrent with hwaiting | hflipping
      · exact (hwaiting.step htask hstep (by omega)).imp_left .inl
      · exact (hflipping.step htask hstep (by omega)).imp_left .inr
    refine ⟨hnext.1, ?_⟩
    rintro ⟨output, byte, good, hmem, hoffNow⟩
    rcases List.mem_append.mp hmem with hold | hnew
    · exact hquiet ⟨output, byte, good, hold, hoffNow⟩
    · exact hnext.2 ⟨output, byte, good, hnew, hoffNow⟩

/-- A waiting state in which nothing is pending is blocked. -/
theorem blocked_of_not_offPending {state : State} {command : GateCommand}
    {port : Port} {pin : Pin} (hsound : Sound state)
    (hwaits : WaitsAt state command port pin)
    (hpending : ¬ OffPending state port pin) :
    Waiting state port pin (state.data.input port pin) ∨
      Flipping state port pin (state.data.input port pin) := by
  by_cases hflight : state.scan.InFlight port pin (state.data.input port pin)
  · exact .inr ⟨hflight⟩
  · refine .inl
      { polls := ⟨command, hwaits⟩
        looping := hsound.looping (hsound.waiting (by simp [hwaits.1]))
        input := rfl
        noHand := fun output hscan hoff => hpending (.inl ⟨output, hscan, hoff⟩)
        noQueued := fun output hmem hoff =>
          hpending (.inr ⟨hflight, .inl ⟨output, hmem, hoff⟩⟩)
        second := fun other old hcontroller => ?_ }
    by_contra hne
    exact hpending (.inr ⟨hflight, .inr ⟨other, old, hcontroller, Ne.symm hne⟩⟩)

end Conveyor.Gate
