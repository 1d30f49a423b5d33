import Conveyor.Gate.Soundness

/-!
# How the two tasks can fault

`Breaks` lists every step that ends in a fault, as `Move` lists those that do
not.
-/

namespace Conveyor.Gate

open Conveyor.Core Conveyor.Rtos Conveyor.IoDriver

/-- Every step that faults, with what makes it fault. -/
inductive Breaks (state : State) : Action → Fault → Prop
  | offer (command : GateCommand) (hqueue : state.gateQueue = none) :
      Breaks state (.sendGateCommand command) .nullQueue
  | take (hcontroller : state.controller = .top)
      (hqueue : state.gateQueue = none) :
      Breaks state .controller .nullQueue
  | sample (command : GateCommand)
      (hcontroller : state.controller = .sampling command)
      (hindex : command.index = none) :
      Breaks state .controller .outOfBounds
  | enqueue (command : GateCommand) (old : UInt8)
      (hcontroller : state.controller = .enqueueing command old)
      (hqueue : state.ioQueue = none) :
      Breaks state .controller .nullQueue
  | poll (command : GateCommand)
      (hwaiting : state.controller.waitingFor = some command)
      (hindex : command.index = none) :
      Breaks state .controller .outOfBounds
  | dequeue (result : CallResult) (hscan : state.scan = .top)
      (hqueue : state.ioQueue = none) :
      Breaks state (.ioScan result) .nullQueue
  | write (result : CallResult) (command : OutputCommand)
      (hscan : state.scan = .writing command)
      (hindex : pinIndex command.port command.pin = none) :
      Breaks state (.ioScan result) .outOfBounds

private theorem breaks_of_controllerStep {state : State} {fault : Fault}
    (hstep : controllerStep state = .error fault) :
    Breaks state .controller fault := by
  unfold controllerStep at hstep
  cases hcontroller : state.controller with
  | notCreated => simp [hcontroller] at hstep
  | top =>
      simp only [hcontroller] at hstep
      rcases xQueueReceive_cases state.gateQueue with
        ⟨hqueue, hreceive⟩ | ⟨queue, hreceive⟩ | ⟨command, queue, hreceive⟩
      · simp only [hreceive, Except.error.injEq] at hstep
        exact hstep ▸ .take hcontroller hqueue
      · simp [hreceive] at hstep
      · simp [hreceive] at hstep
  | sampling command =>
      simp only [hcontroller, ioReadPinValue_index] at hstep
      cases hindex : command.index with
      | none =>
          simp only [hindex, Except.error.injEq] at hstep
          exact hstep ▸ .sample command hcontroller hindex
      | some place => simp [hindex] at hstep
  | enqueueing command old =>
      simp only [hcontroller] at hstep
      rcases xQueueSend_cases state.ioQueue command.output with
        ⟨hqueue, hsend⟩ | ⟨queue, accepted, hsend⟩
      · simp only [hsend, Except.error.injEq] at hstep
        exact hstep ▸ .enqueue command old hcontroller hqueue
      · simp [hsend] at hstep
  | firstWait command old | secondWait command old =>
      simp only [hcontroller, ioReadPinValue_index] at hstep
      cases hindex : command.index with
      | none =>
          simp only [hindex, Except.error.injEq] at hstep
          exact hstep ▸ .poll command (by rw [hcontroller]; rfl) hindex
      | some place =>
          simp only [hindex] at hstep
          split at hstep <;> simp at hstep

private theorem writeOutput_error {state : State} {command : OutputCommand}
    {good : Bool} {after : Scan} {fault : Fault}
    (hwrite : writeOutput state command good after = .error fault) :
    pinIndex command.port command.pin = none ∧ fault = .outOfBounds := by
  cases hindex : pinIndex command.port command.pin with
  | none =>
      simp only [writeOutput, pcf8574WriteOutput, hindex,
        Except.error.injEq] at hwrite
      exact ⟨rfl, hwrite.symm⟩
  | some place =>
      obtain ⟨port, pin⟩ := place
      simp [writeOutput, pcf8574WriteOutput_of_index _ _ _ _ hindex] at hwrite

private theorem breaks_of_ioScanStep {state : State} {result : CallResult}
    {fault : Fault} (hstep : ioScanStep state result = .error fault) :
    Breaks state (.ioScan result) fault := by
  unfold ioScanStep at hstep
  cases hscan : state.scan with
  | resetWrite port pin =>
      simp only [hscan] at hstep
      simpa [pinIndex_resetCommand] using (writeOutput_error hstep).1
  | top =>
      simp only [hscan] at hstep
      rcases xQueueReceive_cases state.ioQueue with
        ⟨hqueue, hreceive⟩ | ⟨queue, hreceive⟩ | ⟨command, queue, hreceive⟩
      · simp only [hreceive, Except.error.injEq] at hstep
        exact hstep ▸ .dequeue result hscan hqueue
      · simp [hreceive] at hstep
      · simp [hreceive] at hstep
  | writing command =>
      simp only [hscan] at hstep
      obtain ⟨hindex, rfl⟩ := writeOutput_error hstep
      exact .write result command hscan hindex
  | _ => simp [hscan] at hstep

theorem breaks_of_step {state : State} {action : Action} {fault : Fault}
    (hstep : step state action = .error fault) : Breaks state action fault := by
  cases action with
  | ioScanTaskStart | gateControllerTaskStart =>
      simp only [step] at hstep
      split at hstep <;> simp at hstep
  | gateDrvQueueInit => simp [step] at hstep
  | sendGateCommand command =>
      simp only [step, sendGateCommand] at hstep
      rcases xQueueSend_cases state.gateQueue command with
        ⟨hqueue, hsend⟩ | ⟨queue, accepted, hsend⟩
      · simp only [hsend, Except.error.injEq] at hstep
        exact hstep ▸ .offer command hqueue
      · simp [hsend] at hstep
  | controller => exact breaks_of_controllerStep hstep
  | ioScan result => exact breaks_of_ioScanStep hstep

/-! ## Queues and the driver state -/

theorem gateQueue_isSome_step {state next : State} {action : Action}
    {now : List Event} (hstep : step state action = .ok (next, now))
    (hcreated : ∀ created, action = .gateDrvQueueInit created → created = true)
    (hsome : state.gateQueue.isSome) : next.gateQueue.isSome := by
  cases move_of_step hstep with
  | gateQueueInit created => rw [hcreated created rfl]; rfl
  | offer command queue accepted hsend => exact (xQueueSend_ok hsend).2.1
  | take command queue hcontroller hreceive =>
      exact (xQueueReceive_some hreceive).2.1
  | _ => exact hsome

theorem not_looping_afterReset (port : Port) (pin : Pin) :
    ¬ (afterReset port pin).Looping := by
  unfold afterReset
  cases nextPin pin <;> simp [Scan.Looping]

theorem not_looping_afterStore_reset (port : Port) (pin : Pin) (value : Byte)
    (good : Bool) : ¬ (afterStore .reset port pin value good).Looping := by
  rcases afterStore_cases .reset port pin value good with
    ⟨next, hafter⟩ | hafter
  · simp [hafter, Scan.Looping]
  · rcases afterPort_reset port with hport | hport <;>
      simp [hafter, hport, Scan.Looping]

/-- The loop of `io_scan_task` is entered from `queue_init` only. -/
theorem looping_before_step {state next : State} {action : Action}
    {now : List Event} (hstep : step state action = .ok (next, now))
    (hlooping : next.scan.Looping) :
    state.scan.Looping ∨
      state.scan = .queueInit ∧ ∃ result, action = .ioScan result := by
  cases move_of_step hstep with
  | scanStart | installDriver => exact hlooping.elim
  | configParam result hscan => cases result <;> exact hlooping.elim
  | resetWrite result port pin =>
      exact absurd hlooping (not_looping_afterReset port pin)
  | transfer result phase port hscan =>
      cases phase with
      | reset => exact hlooping.elim
      | scan => exact .inl (by rw [hscan]; trivial)
  | store result phase port pin value good hscan =>
      cases phase with
      | reset =>
          exact absurd hlooping
            (not_looping_afterStore_reset port pin value good)
      | scan => exact .inl (by rw [hscan]; trivial)
  | queueInit result hscan => exact .inr ⟨hscan, result, rfl⟩
  | nothingQueued result queue hscan | dequeue result command queue hscan
  | write result command data bus byte hscan =>
      exact .inl (by rw [hscan]; trivial)
  | _ => exact .inl hlooping

theorem ioQueue_isSome_step {state next : State} {action : Action}
    {now : List Event} (hstep : step state action = .ok (next, now))
    (hcreated : ∀ result, action = .ioScan result → state.scan = .queueInit →
      result.succeeded = true)
    (hsome : state.scan.Looping → state.ioQueue.isSome)
    (hlooping : next.scan.Looping) : next.ioQueue.isSome := by
  have hbefore := looping_before_step hstep hlooping
  cases move_of_step hstep with
  | enqueue command old queue accepted hcontroller hsend =>
      exact (xQueueSend_ok hsend).2.1
  | dequeue result command queue hscan hreceive =>
      exact (xQueueReceive_some hreceive).2.1
  | queueInit result hscan => rw [hcreated result rfl hscan]; rfl
  | _ =>
      apply hsome
      rcases hbefore with hloops | ⟨hscan, result, haction⟩
      · exact hloops
      · simp_all

/-- Only `i2c_driver_install` is followed by `READY`. -/
theorem ready_before_step {state next : State} {action : Action}
    {now : List Event} (hstep : step state action = .ok (next, now))
    (hstate : next.ioState = .ready) :
    state.ioState = .ready ∨
      state.scan = .installDriver ∧ ∃ result, action = .ioScan result := by
  cases move_of_step hstep with
  | configParam => simp at hstate
  | installDriver result hscan => exact .inr ⟨hscan, result, rfl⟩
  | _ => exact .inl hstate

end Conveyor.Gate
