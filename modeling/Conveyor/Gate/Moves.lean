import Conveyor.Gate.Tasks

/-!
# What one step can do

`Move` lists every step that does not fault, with its guard, its effect and its
events.  Invariants are proved by cases on it, so no later proof unfolds the
tasks.
-/

namespace Conveyor.Gate

open Conveyor.Core Conveyor.Rtos Conveyor.IoDriver

/-- Every step that does not fault, with its guard, its effect and its
events. -/
inductive Move (state : State) : Action → State → List Event → Prop
  | scanStart (hscan : state.scan = .notCreated) :
      Move state .ioScanTaskStart { state with scan := .configParam } []
  | scanStarted (hscan : state.scan ≠ .notCreated) :
      Move state .ioScanTaskStart state []
  | gateQueueInit (created : Bool) :
      Move state (.gateDrvQueueInit created)
        { state with gateQueue := xQueueCreate created } []
  | controllerStart (hcontroller : state.controller = .notCreated) :
      Move state .gateControllerTaskStart { state with controller := .top } []
  | controllerStarted (hcontroller : state.controller ≠ .notCreated) :
      Move state .gateControllerTaskStart state []
  | offer (command : GateCommand) (queue : QueueHandle GateCommand)
      (accepted : Bool)
      (hsend : xQueueSend state.gateQueue command = .ok (queue, accepted)) :
      Move state (.sendGateCommand command) { state with gateQueue := queue }
        [.offered command accepted]
  | controllerAbsent (hcontroller : state.controller = .notCreated) :
      Move state .controller state []
  | idle (queue : QueueHandle GateCommand)
      (hcontroller : state.controller = .top)
      (hreceive : xQueueReceive state.gateQueue = .ok (none, queue)) :
      Move state .controller state []
  | take (command : GateCommand) (queue : QueueHandle GateCommand)
      (hcontroller : state.controller = .top)
      (hreceive : xQueueReceive state.gateQueue = .ok (some command, queue)) :
      Move state .controller
        { state with gateQueue := queue, controller := .sampling command }
        [.took command]
  | sample (command : GateCommand) (port : Port) (pin : Pin)
      (hcontroller : state.controller = .sampling command)
      (hindex : command.index = some (port, pin)) :
      Move state .controller
        { state with
          controller := .enqueueing command (state.data.input port pin) }
        [.sampled command (state.data.input port pin)]
  | enqueue (command : GateCommand) (old : UInt8)
      (queue : QueueHandle OutputCommand) (accepted : Bool)
      (hcontroller : state.controller = .enqueueing command old)
      (hsend : xQueueSend state.ioQueue command.output =
        .ok (queue, accepted)) :
      Move state .controller
        { state with ioQueue := queue, controller := .firstWait command old }
        [.enqueued command accepted]
  | firstSame (command : GateCommand) (old : UInt8) (port : Port) (pin : Pin)
      (hcontroller : state.controller = .firstWait command old)
      (hindex : command.index = some (port, pin))
      (hsame : state.data.input port pin = old) :
      Move state .controller state [.polled command old]
  | firstChange (command : GateCommand) (old : UInt8) (port : Port) (pin : Pin)
      (hcontroller : state.controller = .firstWait command old)
      (hindex : command.index = some (port, pin))
      (hchange : state.data.input port pin ≠ old) :
      Move state .controller
        { state with
          controller := .secondWait command (state.data.input port pin) }
        [.polled command (state.data.input port pin)]
  | secondSame (command : GateCommand) (old : UInt8) (port : Port) (pin : Pin)
      (hcontroller : state.controller = .secondWait command old)
      (hindex : command.index = some (port, pin))
      (hsame : state.data.input port pin = old) :
      Move state .controller state [.polled command old]
  | secondChange (command : GateCommand) (old : UInt8) (port : Port) (pin : Pin)
      (hcontroller : state.controller = .secondWait command old)
      (hindex : command.index = some (port, pin))
      (hchange : state.data.input port pin ≠ old) :
      Move state .controller { state with controller := .top }
        [.polled command (state.data.input port pin), .finished command]
  | scanAbsent (result : CallResult) (hscan : state.scan = .notCreated) :
      Move state (.ioScan result) state []
  | configParam (result : CallResult) (hscan : state.scan = .configParam) :
      Move state (.ioScan result)
        { state with
          ioState := .init
          scan := if result.succeeded then .installDriver
            else .resetWrite 0 0 } []
  | installDriver (result : CallResult) (hscan : state.scan = .installDriver) :
      Move state (.ioScan result)
        { state with
          i2cInstalled := result.succeeded
          ioState := .ready
          scan := .resetWrite 0 0 } []
  | resetWrite (result : CallResult) (port : Port) (pin : Pin) (data : IoData)
      (bus : Bus) (byte : Byte) (hscan : state.scan = .resetWrite port pin)
      (hwrite : pcf8574WriteOutput state.data state.bus (resetCommand port pin)
        result.succeeded = .ok (data, bus, byte)) :
      Move state (.ioScan result)
        { state with data := data, bus := bus, scan := afterReset port pin }
        [.wrote (resetCommand port pin) byte result.succeeded]
  | transfer (result : CallResult) (phase : ReadPhase) (port : Port)
      (hscan : state.scan = .transfer phase port) :
      Move state (.ioScan result)
        { state with
          scan := .store phase port 0 (readValue result) result.succeeded } []
  | store (result : CallResult) (phase : ReadPhase) (port : Port) (pin : Pin)
      (value : Byte) (good : Bool)
      (hscan : state.scan = .store phase port pin value good) :
      Move state (.ioScan result)
        { state with
          data := { state.data with
            input := setPin state.data.input port pin (pinLevel value pin) }
          scan := afterStore phase port pin value good }
        [.stored port pin (pinLevel value pin) good]
  | queueInit (result : CallResult) (hscan : state.scan = .queueInit) :
      Move state (.ioScan result)
        { state with ioQueue := xQueueCreate result.succeeded, scan := .top } []
  | nothingQueued (result : CallResult) (queue : QueueHandle OutputCommand)
      (hscan : state.scan = .top)
      (hreceive : xQueueReceive state.ioQueue = .ok (none, queue)) :
      Move state (.ioScan result) { state with scan := .transfer .scan 0 } []
  | dequeue (result : CallResult) (command : OutputCommand)
      (queue : QueueHandle OutputCommand) (hscan : state.scan = .top)
      (hreceive : xQueueReceive state.ioQueue = .ok (some command, queue)) :
      Move state (.ioScan result)
        { state with ioQueue := queue, scan := .writing command }
        [.dequeued command]
  | write (result : CallResult) (command : OutputCommand) (data : IoData)
      (bus : Bus) (byte : Byte) (hscan : state.scan = .writing command)
      (hwrite : pcf8574WriteOutput state.data state.bus command
        result.succeeded = .ok (data, bus, byte)) :
      Move state (.ioScan result)
        { state with data := data, bus := bus, scan := .transfer .scan 0 }
        [.wrote command byte result.succeeded]

theorem ioReadPinValue_index (data : IoData) (command : GateCommand) :
    ioReadPinValue data command.position.toUInt8 command.gateNo =
      match command.index with
      | none => .error .outOfBounds
      | some (port, pin) => .ok (data.input port pin) := rfl

private theorem move_of_controllerStep {state next : State} {now : List Event}
    (hstep : controllerStep state = .ok (next, now)) :
    Move state .controller next now := by
  unfold controllerStep at hstep
  cases hcontroller : state.controller with
  | notCreated =>
      simp only [hcontroller, Except.ok.injEq, Prod.mk.injEq] at hstep
      obtain ⟨rfl, rfl⟩ := hstep
      exact .controllerAbsent hcontroller
  | top =>
      simp only [hcontroller] at hstep
      rcases xQueueReceive_cases state.gateQueue with
        ⟨-, hreceive⟩ | ⟨queue, hreceive⟩ | ⟨command, queue, hreceive⟩
      · simp [hreceive] at hstep
      · simp only [hreceive, Except.ok.injEq, Prod.mk.injEq] at hstep
        obtain ⟨rfl, rfl⟩ := hstep
        exact .idle queue hcontroller hreceive
      · simp only [hreceive, Except.ok.injEq, Prod.mk.injEq] at hstep
        obtain ⟨rfl, rfl⟩ := hstep
        exact .take command queue hcontroller hreceive
  | sampling command =>
      simp only [hcontroller, ioReadPinValue_index] at hstep
      cases hindex : command.index with
      | none => simp [hindex] at hstep
      | some place =>
          obtain ⟨port, pin⟩ := place
          simp only [hindex, Except.ok.injEq, Prod.mk.injEq] at hstep
          obtain ⟨rfl, rfl⟩ := hstep
          exact .sample command port pin hcontroller hindex
  | enqueueing command old =>
      simp only [hcontroller] at hstep
      rcases xQueueSend_cases state.ioQueue command.output with
        ⟨-, hsend⟩ | ⟨queue, accepted, hsend⟩
      · simp [hsend] at hstep
      · simp only [hsend, Except.ok.injEq, Prod.mk.injEq] at hstep
        obtain ⟨rfl, rfl⟩ := hstep
        exact .enqueue command old queue accepted hcontroller hsend
  | firstWait command old =>
      simp only [hcontroller, ioReadPinValue_index] at hstep
      cases hindex : command.index with
      | none => simp [hindex] at hstep
      | some place =>
          obtain ⟨port, pin⟩ := place
          by_cases hsame : state.data.input port pin = old
          · simp only [hindex, hsame, ne_eq, not_true_eq_false, if_false,
              Except.ok.injEq, Prod.mk.injEq] at hstep
            obtain ⟨rfl, rfl⟩ := hstep
            exact .firstSame command old port pin hcontroller hindex hsame
          · simp only [hindex, ne_eq, Ne.symm hsame, not_false_eq_true, if_true,
              Except.ok.injEq, Prod.mk.injEq] at hstep
            obtain ⟨rfl, rfl⟩ := hstep
            exact .firstChange command old port pin hcontroller hindex hsame
  | secondWait command old =>
      simp only [hcontroller, ioReadPinValue_index] at hstep
      cases hindex : command.index with
      | none => simp [hindex] at hstep
      | some place =>
          obtain ⟨port, pin⟩ := place
          by_cases hsame : state.data.input port pin = old
          · simp only [hindex, hsame, ne_eq, not_true_eq_false, if_false,
              Except.ok.injEq, Prod.mk.injEq] at hstep
            obtain ⟨rfl, rfl⟩ := hstep
            exact .secondSame command old port pin hcontroller hindex hsame
          · simp only [hindex, ne_eq, Ne.symm hsame, not_false_eq_true, if_true,
              Except.ok.injEq, Prod.mk.injEq] at hstep
            obtain ⟨rfl, rfl⟩ := hstep
            exact .secondChange command old port pin hcontroller hindex hsame

private theorem writeOutput_ok {state next : State} {command : OutputCommand}
    {good : Bool} {after : Scan} {now : List Event}
    (hwrite : writeOutput state command good after = .ok (next, now)) :
    ∃ data bus byte,
      pcf8574WriteOutput state.data state.bus command good =
        .ok (data, bus, byte) ∧
      next = { state with data := data, bus := bus, scan := after } ∧
      now = [.wrote command byte good] := by
  unfold writeOutput at hwrite
  cases hcall : pcf8574WriteOutput state.data state.bus command good with
  | error fault => simp [hcall] at hwrite
  | ok outcome =>
      obtain ⟨data, bus, byte⟩ := outcome
      simp only [hcall, Except.ok.injEq, Prod.mk.injEq] at hwrite
      obtain ⟨rfl, rfl⟩ := hwrite
      exact ⟨data, bus, byte, rfl, rfl, rfl⟩

private theorem move_of_ioScanStep {state next : State} {result : CallResult}
    {now : List Event} (hstep : ioScanStep state result = .ok (next, now)) :
    Move state (.ioScan result) next now := by
  unfold ioScanStep at hstep
  cases hscan : state.scan with
  | notCreated =>
      simp only [hscan, Except.ok.injEq, Prod.mk.injEq] at hstep
      obtain ⟨rfl, rfl⟩ := hstep
      exact .scanAbsent result hscan
  | configParam =>
      simp only [hscan, Except.ok.injEq, Prod.mk.injEq] at hstep
      obtain ⟨rfl, rfl⟩ := hstep
      exact .configParam result hscan
  | installDriver =>
      simp only [hscan, Except.ok.injEq, Prod.mk.injEq] at hstep
      obtain ⟨rfl, rfl⟩ := hstep
      exact .installDriver result hscan
  | resetWrite port pin =>
      simp only [hscan] at hstep
      obtain ⟨data, bus, byte, hwrite, rfl, rfl⟩ := writeOutput_ok hstep
      exact .resetWrite result port pin data bus byte hscan hwrite
  | transfer phase port =>
      simp only [hscan, Except.ok.injEq, Prod.mk.injEq] at hstep
      obtain ⟨rfl, rfl⟩ := hstep
      exact .transfer result phase port hscan
  | store phase port pin value good =>
      simp only [hscan, Except.ok.injEq, Prod.mk.injEq] at hstep
      obtain ⟨rfl, rfl⟩ := hstep
      exact .store result phase port pin value good hscan
  | queueInit =>
      simp only [hscan, Except.ok.injEq, Prod.mk.injEq] at hstep
      obtain ⟨rfl, rfl⟩ := hstep
      exact .queueInit result hscan
  | top =>
      simp only [hscan] at hstep
      rcases xQueueReceive_cases state.ioQueue with
        ⟨-, hreceive⟩ | ⟨queue, hreceive⟩ | ⟨command, queue, hreceive⟩
      · simp [hreceive] at hstep
      · simp only [hreceive, Except.ok.injEq, Prod.mk.injEq] at hstep
        obtain ⟨rfl, rfl⟩ := hstep
        exact .nothingQueued result queue hscan hreceive
      · simp only [hreceive, Except.ok.injEq, Prod.mk.injEq] at hstep
        obtain ⟨rfl, rfl⟩ := hstep
        exact .dequeue result command queue hscan hreceive
  | writing command =>
      simp only [hscan] at hstep
      obtain ⟨data, bus, byte, hwrite, rfl, rfl⟩ := writeOutput_ok hstep
      exact .write result command data bus byte hscan hwrite

theorem move_of_step {state next : State} {action : Action} {now : List Event}
    (hstep : step state action = .ok (next, now)) :
    Move state action next now := by
  cases action with
  | ioScanTaskStart =>
      by_cases hscan : state.scan = .notCreated
      · simp only [step, hscan, if_true, Except.ok.injEq, Prod.mk.injEq] at hstep
        obtain ⟨rfl, rfl⟩ := hstep
        exact .scanStart hscan
      · simp only [step, hscan, if_false, Except.ok.injEq,
          Prod.mk.injEq] at hstep
        obtain ⟨rfl, rfl⟩ := hstep
        exact .scanStarted hscan
  | gateDrvQueueInit created =>
      simp only [step, Except.ok.injEq, Prod.mk.injEq] at hstep
      obtain ⟨rfl, rfl⟩ := hstep
      exact .gateQueueInit created
  | gateControllerTaskStart =>
      by_cases hcontroller : state.controller = .notCreated
      · simp only [step, hcontroller, if_true, Except.ok.injEq,
          Prod.mk.injEq] at hstep
        obtain ⟨rfl, rfl⟩ := hstep
        exact .controllerStart hcontroller
      · simp only [step, hcontroller, if_false, Except.ok.injEq,
          Prod.mk.injEq] at hstep
        obtain ⟨rfl, rfl⟩ := hstep
        exact .controllerStarted hcontroller
  | sendGateCommand command =>
      simp only [step, sendGateCommand] at hstep
      rcases xQueueSend_cases state.gateQueue command with
        ⟨-, hsend⟩ | ⟨queue, accepted, hsend⟩
      · simp [hsend] at hstep
      · simp only [hsend, Except.ok.injEq, Prod.mk.injEq] at hstep
        obtain ⟨rfl, rfl⟩ := hstep
        exact .offer command queue accepted hsend
  | controller => exact move_of_controllerStep hstep
  | ioScan result => exact move_of_ioScanStep hstep

/-- A listed move is the step the tasks take. -/
theorem step_of_move {state next : State} {action : Action} {now : List Event}
    (hmove : Move state action next now) :
    step state action = .ok (next, now) := by
  cases hmove with
  | scanStart hscan => simp [step, hscan]
  | scanStarted hscan => simp [step, hscan]
  | gateQueueInit created => rfl
  | controllerStart hcontroller => simp [step, hcontroller]
  | controllerStarted hcontroller => simp [step, hcontroller]
  | offer command queue accepted hsend => simp [step, sendGateCommand, hsend]
  | controllerAbsent hcontroller => simp [step, controllerStep, hcontroller]
  | idle queue hcontroller hreceive =>
      simp [step, controllerStep, hcontroller, hreceive]
  | take command queue hcontroller hreceive =>
      simp [step, controllerStep, hcontroller, hreceive]
  | sample command port pin hcontroller hindex =>
      simp [step, controllerStep, hcontroller, ioReadPinValue_index, hindex]
  | enqueue command old queue accepted hcontroller hsend =>
      simp [step, controllerStep, hcontroller, hsend]
  | firstSame command old port pin hcontroller hindex hsame =>
      simp [step, controllerStep, hcontroller, ioReadPinValue_index, hindex,
        hsame]
  | firstChange command old port pin hcontroller hindex hchange =>
      simp [step, controllerStep, hcontroller, ioReadPinValue_index, hindex,
        Ne.symm hchange]
  | secondSame command old port pin hcontroller hindex hsame =>
      simp [step, controllerStep, hcontroller, ioReadPinValue_index, hindex,
        hsame]
  | secondChange command old port pin hcontroller hindex hchange =>
      simp [step, controllerStep, hcontroller, ioReadPinValue_index, hindex,
        Ne.symm hchange]
  | scanAbsent result hscan => simp [step, ioScanStep, hscan]
  | configParam result hscan => simp [step, ioScanStep, hscan]
  | installDriver result hscan => simp [step, ioScanStep, hscan]
  | resetWrite result port pin data bus byte hscan hwrite =>
      simp [step, ioScanStep, hscan, writeOutput, hwrite]
  | transfer result phase port hscan => simp [step, ioScanStep, hscan]
  | store result phase port pin value good hscan =>
      simp [step, ioScanStep, hscan]
  | queueInit result hscan => simp [step, ioScanStep, hscan]
  | nothingQueued result queue hscan hreceive =>
      simp [step, ioScanStep, hscan, hreceive]
  | dequeue result command queue hscan hreceive =>
      simp [step, ioScanStep, hscan, hreceive]
  | write result command data bus byte hscan hwrite =>
      simp [step, ioScanStep, hscan, writeOutput, hwrite]

/-! ## Where the scan task goes on -/

theorem afterPort_reset (port : Port) :
    afterPort .reset port = .resetWrite 1 0 ∨
      afterPort .reset port = .queueInit := by
  revert port
  decide

theorem afterPort_scan (port : Port) :
    afterPort .scan port = .transfer .scan 1 ∨ afterPort .scan port = .top := by
  revert port
  decide

/-- After a store comes the next pin of the port, or the port is done. -/
theorem afterStore_cases (phase : ReadPhase) (port : Port) (pin : Pin)
    (value : Byte) (good : Bool) :
    (∃ next, afterStore phase port pin value good =
        .store phase port next value good) ∨
      afterStore phase port pin value good = afterPort phase port := by
  unfold afterStore
  cases nextPin pin with
  | some next => exact .inl ⟨next, rfl⟩
  | none => exact .inr rfl

theorem afterStore_ne_writing (phase : ReadPhase) (port : Port) (pin : Pin)
    (value : Byte) (good : Bool) (output : OutputCommand) :
    afterStore phase port pin value good ≠ .writing output := by
  rcases afterStore_cases phase port pin value good with ⟨next, hafter⟩ | hafter
  · simp [hafter]
  · cases phase with
    | reset =>
        rcases afterPort_reset port with hport | hport <;> simp [hafter, hport]
    | scan =>
        rcases afterPort_scan port with hport | hport <;> simp [hafter, hport]

theorem afterReset_ne_writing (port : Port) (pin : Pin)
    (output : OutputCommand) : afterReset port pin ≠ .writing output := by
  unfold afterReset
  cases nextPin pin <;> simp

end Conveyor.Gate
