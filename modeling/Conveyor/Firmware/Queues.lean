import Conveyor.Firmware.Commands

/-!
# Queues before they are used

`app_main` creates three of the four queues before it starts the tasks that use
them.  The output queue is created by the scan task after it has set up the bus
and reset the ports, while the controller that sends to it and the state that
says `READY` do not wait for it.
-/

namespace Conveyor.Firmware

open Conveyor.Core Conveyor.Rtos Conveyor.IoDriver Conveyor.ProcessData

/-- The `xQueueCreate` of the step fails. -/
def CreationFails (state : State) : Action → Prop
  | .main created =>
      created = false ∧ (state.main = .gateDrvQueueInit ∨
        state.main = .tcpTxQueueInit ∨ state.main = .tcpRxQueueInit)
  | .ioScan result => result = .error ∧ state.gate.scan = .queueInit
  | _ => False

instance decidableCreationFails (state : State) :
    ∀ action, Decidable (CreationFails state action)
  | .main _ => inferInstanceAs (Decidable (_ ∧ _))
  | .ioScan _ => inferInstanceAs (Decidable (_ ∧ _))
  | .gateController | .tcpClientRx _ | .tcpClientTx _ => isFalse id

/-- Every queue exists once the call that creates it has been made. -/
structure QueuesReady (state : State) : Prop where
  gateQueue : 2 ≤ state.main.started → state.gate.gateQueue.isSome
  txQueue : 4 ≤ state.main.started → state.tcp.txQueue.isSome
  rxQueue : 5 ≤ state.main.started → state.tcp.rxQueue.isSome
  ioQueue : state.gate.scan.Looping → state.gate.ioQueue.isSome

theorem queuesReady_powerOn : QueuesReady State.powerOn where
  gateQueue := by simp [State.powerOn, Main.started]
  txQueue := by simp [State.powerOn, Main.started]
  rxQueue := by simp [State.powerOn, Main.started]
  ioQueue := fun hlooping => hlooping.elim

theorem QueuesReady.gate {state : State} {action : Action} {main : Main}
    {call : Gate.Action} {gate : Gate.State} {now : List Gate.Event}
    (hready : QueuesReady state) (hcreated : ¬ CreationFails state action)
    (hcall : GateCall state action main call)
    (hgate : Gate.step state.gate call = .ok (gate, now)) :
    QueuesReady { state with main := main, gate := gate } := by
  have hio : gate.scan.Looping → gate.ioQueue.isSome := by
    apply Gate.ioQueue_isSome_step hgate _ hready.ioQueue
    rintro result rfl hscan
    cases hcall with
    | ioScan result =>
        cases result with
        | ok value => rfl
        | error => exact absurd ⟨rfl, hscan⟩ hcreated
  have hstays : (∀ created, call ≠ .gateDrvQueueInit created) →
      state.gate.gateQueue.isSome → gate.gateQueue.isSome := fun hother =>
    Gate.gateQueue_isSome_step hgate
      fun created hinit => absurd hinit (hother created)
  obtain ⟨hgateQueue, htxQueue, hrxQueue, -⟩ := hready
  cases hcall with
  | scanStart created hmain =>
      exact ⟨by simp [Main.started], by simp [Main.started],
        by simp [Main.started], hio⟩
  | queueInit created hmain =>
      refine ⟨fun _ => ?_, by simp [Main.started], by simp [Main.started], hio⟩
      cases created with
      | true =>
          cases Gate.move_of_step hgate
          rfl
      | false => exact absurd ⟨rfl, .inl hmain⟩ hcreated
  | controllerStart created hmain =>
      refine ⟨fun _ => hstays (by simp) (hgateQueue ?_), by simp [Main.started],
        by simp [Main.started], hio⟩
      rw [hmain]
      exact Nat.le_refl 2
  | pass created command effects hmain =>
      have hstarted : state.main.started = 6 := by rw [hmain]; rfl
      exact ⟨fun _ => hstays (by simp) (hgateQueue (by omega)),
        fun _ => htxQueue (by omega), fun _ => hrxQueue (by omega), hio⟩
  | controller | ioScan =>
      exact ⟨fun hle => hstays (by simp) (hgateQueue hle), htxQueue, hrxQueue,
        hio⟩

theorem QueuesReady.tcp {state : State} {action : Action} {main : Main}
    {call : Tcp.Action} {tcp : Tcp.State} {now : List Tcp.Event}
    (hready : QueuesReady state) (hcreated : ¬ CreationFails state action)
    (hcall : TcpCall state action main call)
    (htcp : Tcp.step state.tcp call = .ok (tcp, now)) :
    QueuesReady { state with main := main, tcp := tcp } := by
  have htx : (∀ created, call ≠ .tcpTxQueueInit created) →
      state.tcp.txQueue.isSome → tcp.txQueue.isSome := fun hother =>
    Tcp.txQueue_isSome_step htcp
      fun created hinit => absurd hinit (hother created)
  have hrx : (∀ created, call ≠ .tcpRxQueueInit created) →
      state.tcp.rxQueue.isSome → tcp.rxQueue.isSome := fun hother =>
    Tcp.rxQueue_isSome_step htcp
      fun created hinit => absurd hinit (hother created)
  obtain ⟨hgateQueue, htxQueue, hrxQueue, hio⟩ := hready
  cases hcall with
  | txQueueInit created hmain =>
      have hstarted : state.main.started = 3 := by rw [hmain]; rfl
      refine ⟨fun _ => hgateQueue (by omega), fun _ => ?_,
        by simp [Main.started], hio⟩
      cases created with
      | true =>
          cases Tcp.move_of_step htcp
          rfl
      | false => exact absurd ⟨rfl, .inr (.inl hmain)⟩ hcreated
  | rxQueueInit created hmain =>
      have hstarted : state.main.started = 4 := by rw [hmain]; rfl
      refine ⟨fun _ => hgateQueue (by omega),
        fun _ => htx (by simp) (htxQueue (by omega)), fun _ => ?_, hio⟩
      cases created with
      | true =>
          cases Tcp.move_of_step htcp
          rfl
      | false => exact absurd ⟨rfl, .inr (.inr hmain)⟩ hcreated
  | txStart created hmain =>
      have hstarted : state.main.started = 5 := by rw [hmain]; rfl
      exact ⟨fun _ => hgateQueue (by omega),
        fun _ => htx (by simp) (htxQueue (by omega)),
        fun _ => hrx (by simp) (hrxQueue (by omega)), hio⟩
  | rx | tx =>
      exact ⟨hgateQueue, fun hle => htx (by simp) (htxQueue hle),
        fun hle => hrx (by simp) (hrxQueue hle), hio⟩

theorem QueuesReady.step {state next : State} {action : Action}
    {now : List Event} (hready : QueuesReady state)
    (hcreated : ¬ CreationFails state action)
    (hstep : step state action = .ok (next, now)) : QueuesReady next := by
  cases move_of_step hstep with
  | gate action main call gate events hcall hgate =>
      exact hready.gate hcreated hcall hgate
  | tcp action main call tcp events hcall htcp =>
      exact hready.tcp hcreated hcall htcp
  | nothingTaken => exact hready
  | take created msg queue effects hmain hreceive hprocess =>
      have hstarted : state.main.started = 6 := by rw [hmain]; rfl
      exact ⟨fun _ => hready.gateQueue (by omega),
        fun _ => hready.txQueue (by omega),
        fun _ => (xQueueReceive_some hreceive).2.1, hready.ioQueue⟩
  | finish created hmain | delete created effects hmain =>
      have hstarted : state.main.started = 6 := by rw [hmain]; rfl
      exact ⟨fun _ => hready.gateQueue (by omega),
        fun _ => hready.txQueue (by omega),
        fun _ => hready.rxQueue (by omega), hready.ioQueue⟩

/-! ## The one early use -/

/-- The controller is about to call `command_enqueue`. -/
def AtEnqueue : Gate.Controller → Prop
  | .enqueueing _ _ => True
  | _ => False

instance : DecidablePred AtEnqueue
  | .enqueueing _ _ => isTrue trivial
  | .notCreated | .top | .sampling _ | .firstWait _ _ | .secondWait _ _ =>
      isFalse id

/-- The controller calls `command_enqueue` before `queue_init`. -/
def EnqueuesEarly (state : State) : Action → Prop
  | .gateController =>
      AtEnqueue state.gate.controller ∧ ¬ state.gate.scan.Looping
  | _ => False

instance decidableEnqueuesEarly (state : State) :
    ∀ action, Decidable (EnqueuesEarly state action)
  | .gateController => inferInstanceAs (Decidable (_ ∧ _))
  | .main _ | .ioScan _ | .tcpClientRx _ | .tcpClientTx _ => isFalse id

/-- The scan task executes `i2c_driver_install`. -/
def InstallsDriver (state : State) : Action → Prop
  | .ioScan _ => state.gate.scan = .installDriver
  | _ => False

instance decidableInstallsDriver (state : State) :
    ∀ action, Decidable (InstallsDriver state action)
  | .ioScan _ => inferInstanceAs (Decidable (_ = _))
  | .main _ | .gateController | .tcpClientRx _ | .tcpClientTx _ => isFalse id

/-- If every queue exists once created, only an early enqueue uses one that
does not. -/
theorem QueuesReady.enqueuesEarly {state : State} {action : Action}
    (hready : QueuesReady state) (horder : StartOrder state)
    (hfault : Firmware.step state action = .error .nullQueue) :
    EnqueuesEarly state action := by
  cases breaks_of_step hfault with
  | gate action main call fault hcall hbreaks =>
      cases hbreaks with
      | offer command hqueue =>
          cases hcall with
          | pass created command effects hmain =>
              have hsome := hready.gateQueue (by simp [hmain, Main.started])
              simp [hqueue] at hsome
      | take hcontroller hqueue =>
          have hstarted : ¬ state.main.started ≤ 2 := fun hle => by
            simpa [hcontroller] using horder.controller hle
          have hsome := hready.gateQueue (by omega)
          simp [hqueue] at hsome
      | enqueue command old hcontroller hqueue =>
          cases hcall with
          | controller =>
              refine ⟨by rw [hcontroller]; trivial, fun hlooping => ?_⟩
              simpa [hqueue] using hready.ioQueue hlooping
      | dequeue result hscan hqueue =>
          have hsome := hready.ioQueue (by rw [hscan]; trivial)
          simp [hqueue] at hsome
  | tcp action main call fault hcall hbreaks =>
      cases hbreaks with
      | take hqueue => cases hcall
      | queue outcome msg hrx hqueue =>
          have hstarted : ¬ state.main.started ≤ 5 := fun hle => by
            simpa [hrx] using horder.rx hle
          have hsome := hready.rxQueue (by omega)
          simp [hqueue] at hsome
      | dequeue result htx hqueue =>
          have hstarted : ¬ state.main.started ≤ 5 := fun hle => by
            simpa [htx] using horder.tx hle
          have hsome := hready.txQueue (by omega)
          simp [hqueue] at hsome
  | receive created hmain hqueue =>
      have hsome := hready.rxQueue (by simp [hmain, Main.started])
      simp [hqueue] at hsome
  | process created msg queue fault hmain hreceive hprocess =>
      simpa using processMessage_error hprocess

/-! ## Ready before usable -/

/-- No queue is used before it exists, and `READY` means that the bus driver is
installed and the output queue exists. -/
def QueuesExistWhenUsed (actions : List Action) : Prop :=
  run State.powerOn actions ≠ .error .nullQueue ∧
    ∀ before after state past, actions = before ++ after →
      run State.powerOn before = .ok (state, past) →
      state.gate.ioState = .ready →
        state.gate.i2cInstalled = true ∧ state.gate.ioQueue.isSome

/-- Only `i2c_driver_install` is followed by `READY`. -/
theorem ready_before_step {state next : State} {action : Action}
    {now : List Event} (hstep : step state action = .ok (next, now))
    (hstate : next.gate.ioState = .ready) :
    state.gate.ioState = .ready ∨ InstallsDriver state action := by
  rcases gate_of_step hstep with ⟨hsame, -⟩ | ⟨main, call, hcall, hgate⟩
  · exact .inl (hsame ▸ hstate)
  · rcases Gate.ready_before_step hgate hstate with
      hready | ⟨hscan, result, rfl⟩
    · exact .inl hready
    · cases hcall
      exact .inr hscan

/-- After `i2c_driver_install` the state is `READY` and there is no queue. -/
theorem install_step {state : State} {action : Action}
    (hsound : Gate.Sound state.gate) (hinstalls : InstallsDriver state action) :
    ∃ next, step state action = .ok (next, []) ∧
      next.gate.ioState = .ready ∧ next.gate.ioQueue = none := by
  cases action with
  | ioScan result =>
      have hscan : state.gate.scan = .installDriver := hinstalls
      have hnone := hsound.ioQueue_eq_none (by simp [hscan, Gate.Scan.Looping])
      have hmove := Gate.step_of_move (.installDriver result hscan)
      have hstep : step state (.ioScan result) =
          .ok ({ state with gate := { state.gate with
            ioState := .ready
            i2cInstalled := result.succeeded
            scan := .resetWrite 0 0 } }, []) := by
        simp only [step, gateStep, hmove]
        rfl
      exact ⟨_, hstep, rfl, hnone⟩
  | _ => exact hinstalls.elim

/-- An early enqueue uses a queue that does not exist. -/
theorem early_step {state : State} {action : Action}
    (hsound : Gate.Sound state.gate) (hearly : EnqueuesEarly state action) :
    step state action = .error .nullQueue := by
  cases action with
  | gateController =>
      obtain ⟨hcontroller, hstarting⟩ := hearly
      have hnone := hsound.ioQueue_eq_none hstarting
      cases hpoint : state.gate.controller with
      | enqueueing command old =>
          simp [step, gateStep, Gate.step, Gate.controllerStep, hpoint, hnone,
            xQueueSend]
      | _ => simp [hpoint, AtEnqueue] at hcontroller
  | _ => exact hearly.elim

theorem sound_of_run {final : State} {actions : List Action}
    {trace : List Event}
    (hrun : run State.powerOn actions = .ok (final, trace)) :
    Gate.Sound final.gate := by
  obtain ⟨calls, hgate⟩ := gate_run hrun
  exact Gate.sound_of_run hgate

/-- If all queues are created, a run uses only existing queues and means what
`READY` says exactly if the bus driver is never installed and the controller
enqueues nothing before `queue_init`. -/
theorem queues_exist_iff {actions : List Action}
    (hcreated : Runs.StepsMeet step
      (fun state action => ¬ CreationFails state action)
      State.powerOn actions) :
    QueuesExistWhenUsed actions ↔
      Runs.StepsMeet step (fun state action =>
          ¬ InstallsDriver state action ∧ ¬ EnqueuesEarly state action)
        State.powerOn actions := by
  constructor
  · rintro ⟨hsafe, hready⟩
    apply Runs.StepsMeet.of_arrivals
    rintro before action after middle past rfl hbefore
    have hsound := sound_of_run hbefore
    constructor
    · intro hinstalls
      obtain ⟨next, hstep, hstate, hnone⟩ := install_step hsound hinstalls
      have hsome := (hready (before ++ [action]) after next (past ++ [])
        (by simp) (Runs.run_append hbefore (Runs.run_one hstep)) hstate).2
      simp [hnone] at hsome
    · intro hearly
      apply hsafe
      apply Runs.run_append_error hbefore
      simp only [Runs.run, early_step hsound hearly]
  · intro hmeets
    have hboth := hcreated.and hmeets
    have hkeep := fun (state : State) (action : Action) (next : State)
        (now : List Event) (hstate : StartOrder state ∧ QueuesReady state)
        (hguard : ¬ CreationFails state action ∧
          ¬ InstallsDriver state action ∧ ¬ EnqueuesEarly state action)
        (hstep : step state action = .ok (next, now)) =>
      And.intro (hstate.1.step hstep) (hstate.2.step hguard.1 hstep)
    refine ⟨Runs.run_ne_error step _ _ .nullQueue hkeep
      (fun state action hstate hguard hfault =>
        hguard.2.2 (hstate.2.enqueuesEarly hstate.1 hfault))
      ⟨startOrder_powerOn, queuesReady_powerOn⟩ hboth, ?_⟩
    rintro before after state past rfl hrun hstate
    refine absurd hstate (Runs.run_invariant step _
      (fun current _ => current.gate.ioState ≠ .ready)
      (fun current past action next now hcurrent hguard hstep hnext => ?_)
      (by simp [State.powerOn, Gate.State.powerOn]) hmeets.append_left hrun)
    exact (ready_before_step hstep hnext).elim hcurrent hguard.1

/-- The bus cannot be configured, and every other call succeeds up to the
loop of the scan task. -/
def busNotConfigured : List Action :=
  connect ++ .ioScan .error :: List.replicate 36 (.ioScan (.ok 0xff#8))

theorem queues_exist_iff_busNotConfigured :
    QueuesExistWhenUsed busNotConfigured :=
  (queues_exist_iff (by decide +kernel)).mpr (by decide +kernel)

/-- Every call succeeds, and the driver state is `READY` before the ports are
reset and the queue is created; in another run the controller enqueues a
command before that. -/
theorem ready_before_queue :
    (∃ state past, run State.powerOn
        [.main true, .ioScan (.ok 0xff#8), .ioScan (.ok 0xff#8)] =
          .ok (state, past) ∧
      state.gate.ioState = .ready ∧ state.gate.ioQueue = none ∧
      ¬ QueuesExistWhenUsed
        [.main true, .ioScan (.ok 0xff#8), .ioScan (.ok 0xff#8)]) ∧
    run State.powerOn (connect ++ (receive coalesced ++ forward) ++
      [.gateController, .gateController]) = .error .nullQueue := by
  constructor
  · refine ⟨_, _, rfl, rfl, rfl, fun hexist => ?_⟩
    have hsome := (hexist.2 _ [] _ _ (List.append_nil _).symm rfl rfl).2
    simp [State.powerOn, Gate.State.powerOn] at hsome
  · exact Runs.run_append_error run_coalesced rfl

end Conveyor.Firmware
