import Conveyor.Gate.NoRunaway
import Conveyor.Gate.OutputQueue

/-!
# Waiting for a gate that is driven

"Wait sensor pin is change when motor start run": the wait loops make sense
only while the motor runs.  A stop command enters them as well, after switching
its motor off, and a failed write leaves a motor off that the shadow shows as
running.  Apart from these two the controller never waits in vain.
-/

namespace Conveyor.Gate

open Conveyor.Core Conveyor.Rtos Conveyor.IoDriver

/-- An output command that switches the pin on. -/
def OutputCommand.On (output : OutputCommand) (port : Port) (pin : Pin) :
    Prop :=
  pinIndex output.port output.pin = some (port, pin) ∧ output.state = true

/-- A pin that is waited for is about to be switched on, or its expander drives
it. -/
def WaitsDriven (state : State) : Prop :=
  ∀ command port pin, WaitsAt state command port pin →
    (∃ output ∈ contents state.ioQueue, OutputCommand.On output port pin) ∨
      (∃ output, state.scan = .writing output ∧
        OutputCommand.On output port pin) ∨
      state.bus.drives port pin

/-- The transfer fails that was to switch on the pin the controller waits for,
and neither the expander nor another queued command makes up for it. -/
def LosesWrite (state : State) (action : Action) : Prop :=
  action = .ioScan .error ∧ ∃ command port pin output,
    WaitsAt state command port pin ∧ state.scan = .writing output ∧
    OutputCommand.On output port pin ∧ ¬ state.bus.drives port pin ∧
    ∀ other ∈ contents state.ioQueue, ¬ OutputCommand.On other port pin

/-- What holds while no stop command is carried and no write is lost. -/
structure Driven (state : State) : Prop where
  sound : Sound state
  bound : OutputBound state
  carries : Carries (fun command => ¬ command.IsStop) state
  starting : ¬ state.scan.Looping → ∀ port pin, state.data.output port pin = 0
  shadowed : ∀ port pin, state.bus.drives port pin →
    state.data.output port pin ≠ 0
  waits : WaitsDriven state

theorem driven_powerOn : Driven State.powerOn where
  sound := sound_powerOn
  bound := outputBound_of_empty rfl
  carries := carries_powerOn _
  starting := fun _ _ _ => rfl
  shadowed := fun port pin hdrives =>
    absurd hdrives (Bus.not_drives_powerOn port pin)
  waits := by
    rintro command port pin ⟨hwaiting, -⟩
    simp [State.powerOn, Controller.waitingFor] at hwaiting

theorem Driven.on_of_inHand {state : State} (hdriven : Driven state)
    {output : OutputCommand} (hscan : state.scan = .writing output) :
    output.state = true := by
  obtain ⟨command, hname, rfl⟩ := hdriven.carries.inHand output hscan
  exact command.output_state.mpr hname

/-- While no output command is being written, a pin that is waited for is about
to be switched on or already driven. -/
theorem WaitsDriven.queued_or_drives {state : State}
    (hdriven : WaitsDriven state)
    (hscan : ∀ output, state.scan ≠ .writing output) {command : GateCommand}
    {port : Port} {pin : Pin} (hwaits : WaitsAt state command port pin) :
    (∃ output ∈ contents state.ioQueue, OutputCommand.On output port pin) ∨
      state.bus.drives port pin := by
  rcases hdriven command port pin hwaits with
    hqueued | ⟨output, hwriting, -⟩ | hdrives
  · exact .inl hqueued
  · exact absurd hwriting (hscan output)
  · exact .inr hdrives

/-- A write that switches an output on keeps the shadow above the latch. -/
theorem shadowed_write_on {data : IoData} {bus : Bus}
    (hshadowed : ∀ p k, bus.drives p k → data.output p k ≠ 0)
    (port : Port) (pin : Pin) (good : Bool) (p : Port) (k : Pin)
    (hdrives : Bus.drives (if good then
      Function.update bus (outputAddress port)
        (outputByte (data.output port) pin true) else bus) p k) :
    setPin data.output port pin 1 p k ≠ 0 := by
  rw [setPin_apply]
  split
  · simp
  · rename_i hother
    cases good with
    | false => exact hshadowed p k hdrives
    | true =>
        rw [if_pos rfl, Bus.drives_write] at hdrives
        by_cases hport : p = port
        · subst hport
          have hpin : k ≠ pin := fun heq => hother ⟨rfl, heq⟩
          simpa [hpin] using hdrives
        · rw [if_neg hport] at hdrives
          exact hshadowed p k hdrives

/-- The off writes of `reset_port` leave everything off. -/
theorem off_write {data : IoData} {bus : Bus}
    (hshadowed : ∀ p k, bus.drives p k → data.output p k ≠ 0)
    (hoff : ∀ p k, data.output p k = 0) (port : Port) (pin : Pin) (good : Bool)
    (p : Port) (k : Pin) :
    setPin data.output port pin 0 p k = 0 ∧
      ¬ Bus.drives (if good then
        Function.update bus (outputAddress port)
          (outputByte (data.output port) pin false) else bus) p k := by
  have hundriven : ∀ q j, ¬ bus.drives q j := fun q j hdrives =>
    hshadowed q j hdrives (hoff q j)
  constructor
  · rw [setPin_apply]
    split
    · rfl
    · exact hoff p k
  · cases good with
    | false => exact hundriven p k
    | true =>
        rw [if_pos rfl, Bus.drives_write]
        split
        · split <;> simp [hoff]
        · exact hundriven p k

/-- A write keeps every wait driven unless it is lost. -/
theorem Driven.waits_write {state : State} (hdriven : Driven state)
    {output : OutputCommand} {result : CallResult} {port : Port} {pin : Pin}
    (hscan : state.scan = .writing output)
    (hindex : pinIndex output.port output.pin = some (port, pin))
    (hkept : ¬ LosesWrite state (.ioScan result)) {command : GateCommand}
    {p : Port} {k : Pin} (hwaits : WaitsAt state command p k) :
    (∃ other ∈ contents state.ioQueue, OutputCommand.On other p k) ∨
      Bus.drives (if result.succeeded then
        Function.update state.bus (outputAddress port)
          (outputByte (state.data.output port) pin true) else state.bus) p k := by
  by_cases hqueued :
      ∃ other ∈ contents state.ioQueue, OutputCommand.On other p k
  · exact .inl hqueued
  · refine .inr ?_
    have hbefore := (hdriven.waits command p k hwaits).resolve_left hqueued
    have hon := hdriven.on_of_inHand hscan
    cases result with
    | ok value =>
        rw [CallResult.succeeded, if_pos rfl, Bus.drives_write]
        rcases hbefore with ⟨other, hother, hindexOther, -⟩ | hdrives
        · rw [hscan, Scan.writing.injEq] at hother
          subst hother
          rw [hindex, Option.some.injEq, Prod.mk.injEq] at hindexOther
          simp [hindexOther.1, hindexOther.2]
        · by_cases hport : p = port
          · subst hport
            have hshadow := hdriven.shadowed p k hdrives
            by_cases hpin : k = pin <;> simp [hpin, hshadow]
          · rwa [if_neg hport]
    | error =>
        rcases hbefore with ⟨other, hother, hindexOther, -⟩ | hdrives
        · rw [hscan, Scan.writing.injEq] at hother
          subst hother
          by_contra hundriven
          exact hkept ⟨rfl, command, p, k, output, hwaits, hscan,
            ⟨hindexOther, hon⟩, hundriven,
            fun other hmem hother => hqueued ⟨other, hmem, hother⟩⟩
        · exact hdrives

theorem Driven.starting_step {state next : State} {action : Action}
    {now : List Event} (hdriven : Driven state)
    (hstep : step state action = .ok (next, now))
    (hstarting : ¬ next.scan.Looping) (port : Port) (pin : Pin) :
    next.data.output port pin = 0 := by
  have hbefore := hdriven.starting (mt (looping_step hstep) hstarting)
  cases move_of_step hstep with
  | resetWrite result first last data bus byte hscan hwrite =>
      obtain ⟨p, k, -, rfl, rfl, rfl⟩ := pcf8574WriteOutput_ok hwrite
      exact (off_write hdriven.shadowed hbefore p k result.succeeded port pin).1
  | write => exact absurd trivial hstarting
  | _ => exact hbefore port pin

theorem Driven.shadowed_step {state next : State} {action : Action}
    {now : List Event} (hdriven : Driven state)
    (hstep : step state action = .ok (next, now)) (port : Port) (pin : Pin)
    (hdrives : next.bus.drives port pin) : next.data.output port pin ≠ 0 := by
  cases move_of_step hstep with
  | resetWrite result first last data bus byte hscan hwrite =>
      obtain ⟨p, k, -, rfl, rfl, rfl⟩ := pcf8574WriteOutput_ok hwrite
      have hoff := off_write hdriven.shadowed
        (hdriven.starting (by simp [hscan, Scan.Looping])) p k result.succeeded
      exact absurd hdrives (hoff port pin).2
  | write result output data bus byte hscan hwrite =>
      obtain ⟨p, k, -, rfl, rfl, rfl⟩ := pcf8574WriteOutput_ok hwrite
      have hon := hdriven.on_of_inHand hscan
      rw [hon] at hdrives ⊢
      exact shadowed_write_on hdriven.shadowed p k result.succeeded port pin
        hdrives
  | _ => exact hdriven.shadowed port pin hdrives

theorem Driven.waits_step {state next : State} {action : Action}
    {now : List Event} (hdriven : Driven state)
    (hkept : ¬ LosesWrite state action)
    (hstep : step state action = .ok (next, now)) : WaitsDriven next := by
  intro waited p k hwaits
  cases move_of_step hstep with
  | scanStart hscan | configParam result hscan | installDriver result hscan
  | resetWrite result first last data bus byte hscan | queueInit result hscan =>
      -- nothing waits before the output queue exists
      have hnone := hdriven.sound.ioQueue_eq_none
        (by simp [hscan, Scan.Looping])
      have hsome := hdriven.sound.waiting (by simp [hwaits.1])
      simp [hnone] at hsome
  | controllerStart | take | sample | secondChange =>
      simp [WaitsAt, Controller.waitingFor] at hwaits
  | enqueue command old queue accepted hcontroller hsend =>
      obtain ⟨-, -, -, hcontents⟩ := xQueueSend_ok hsend
      rw [hdriven.bound.accepts hsend, if_pos rfl] at hcontents
      obtain ⟨hwaiting, hindex⟩ := hwaits
      rw [Controller.waitingFor, Option.some.injEq] at hwaiting
      subst hwaiting
      have hname : ¬ command.IsStop :=
        hdriven.carries.held command (by simp [hcontroller, Controller.held])
      exact .inl ⟨command.output, by simp [hcontents], hindex,
        command.output_state.mpr hname⟩
  | firstChange command old port pin hcontroller hindex hchange =>
      exact hdriven.waits waited p k
        ⟨by rw [hcontroller]; exact hwaits.1, hwaits.2⟩
  | transfer result phase port hscan
  | store result phase port pin value good hscan
  | nothingQueued result queue hscan hreceive =>
      exact (hdriven.waits.queued_or_drives (by simp [hscan]) hwaits).imp_right
        .inr
  | dequeue result command queue hscan hreceive =>
      obtain ⟨-, -, hcontents⟩ := xQueueReceive_some hreceive
      rcases hdriven.waits.queued_or_drives (by simp [hscan]) hwaits with
        ⟨output, hmem, hon⟩ | hdrives
      · rw [hcontents, List.mem_cons] at hmem
        rcases hmem with rfl | hlater
        · exact .inr (.inl ⟨output, rfl, hon⟩)
        · exact .inl ⟨output, hlater, hon⟩
      · exact .inr (.inr hdrives)
  | write result output data bus byte hscan hwrite =>
      obtain ⟨port, pin, hindex, rfl, rfl, rfl⟩ := pcf8574WriteOutput_ok hwrite
      rw [hdriven.on_of_inHand hscan]
      exact (hdriven.waits_write hscan hindex hkept hwaits).imp_right .inr
  | _ => exact hdriven.waits waited p k hwaits

theorem Driven.step {state next : State} {action : Action} {now : List Event}
    (hdriven : Driven state)
    (hoffer : ∀ command, action.offer = some command → ¬ command.IsStop)
    (hkept : ¬ LosesWrite state action)
    (hstep : step state action = .ok (next, now)) : Driven next where
  sound := hdriven.sound.step hstep
  bound := hdriven.bound.step hdriven.sound hstep
  carries := hdriven.carries.step hoffer hstep
  starting := hdriven.starting_step hstep
  shadowed := hdriven.shadowed_step hstep
  waits := hdriven.waits_step hkept hstep

/-- The controller waits for a motor that was switched off by the stop command
being processed. -/
theorem Moving.not_waitsDriven {state : State} {command : GateCommand}
    {port : Port} {pin : Pin} (hmoving : Moving state command port pin)
    (hstop : command.IsStop) : ¬ WaitsDriven state := by
  intro hwaits
  obtain ⟨old, hcontroller, -⟩ := hmoving.controller
  have hundriven : ¬ state.bus.drives port pin := fun hdrives =>
    command.output_state.mp (hmoving.driven.mp hdrives) hstop
  rcases hwaits command port pin
      ⟨by rw [hcontroller, Controller.waitingFor], hmoving.index⟩ with
    ⟨output, hmem, -⟩ | ⟨output, hwriting, -⟩ | hdrives
  · simp [hmoving.ioEmpty] at hmem
  · simp [hmoving.scan] at hwriting
  · exact hundriven hdrives

/-- A lost write leaves the controller waiting for a gate that nothing
drives. -/
theorem LosesWrite.not_waitsDriven {state next : State} {action : Action}
    {now : List Event} (hloses : LosesWrite state action)
    (hstep : step state action = .ok (next, now)) : ¬ WaitsDriven next := by
  obtain ⟨rfl, command, port, pin, output, hwaits, hscan, -, hundriven,
    hqueued⟩ := hloses
  intro hdriven
  cases move_of_step hstep with
  | write result written data bus byte hwriting hwrite =>
      obtain ⟨p, k, -, rfl, rfl, rfl⟩ := pcf8574WriteOutput_ok hwrite
      rcases hdriven.queued_or_drives (by simp) hwaits with
        ⟨other, hmem, hon⟩ | hdrives
      · exact hqueued other hmem hon
      · exact hundriven hdrives
  | scanAbsent result hother | configParam result hother
  | installDriver result hother
  | resetWrite result p k data bus byte hother | transfer result phase p hother
  | store result phase p k value good hother | queueInit result hother
  | nothingQueued result queue hother
  | dequeue result other queue hother => simp [hscan] at hother

/-- Where all transfers succeed, no write is lost. -/
theorem losesNoWrite_of_succeeds {actions : List Action}
    (hsucceeds : ∀ action ∈ actions, action ≠ .ioScan .error) (state : State) :
    Runs.StepsMeet step (fun current action => ¬ LosesWrite current action)
      state actions := by
  apply Runs.StepsMeet.of_forall
  intro action haction current hloses
  exact hsucceeds action haction hloses.1

/-- For the commands of a session: the controller waits only for driven gates,
in every run that processes some of them and loses no write, exactly when none
of them is a stop command. -/
theorem waits_driven_iff_no_stops {commands : List GateCommand}
    (hrange : ∀ command ∈ commands, command.InRange) :
    (∀ actions state past, commandsOf actions <+: commands →
      Runs.StepsMeet step (fun current action => ¬ LosesWrite current action)
        State.powerOn actions →
      run State.powerOn actions = .ok (state, past) → WaitsDriven state) ↔
      ∀ command ∈ commands, ¬ command.IsStop := by
  constructor
  · intro hdriven command hmem hstop
    obtain ⟨before, after, rfl⟩ := List.append_of_mem hmem
    obtain ⟨port, pin, actions, state, past, hserves, hrun, hmoving, -⟩ :=
      exists_moving before
        (fun earlier hearlier => hrange earlier (by simp [hearlier]))
        (hrange command hmem)
    refine hmoving.not_waitsDriven hstop
      (hdriven actions state past ?_ ?_ hrun)
    · rw [hserves.offers]
      exact ⟨after, by simp⟩
    · exact losesNoWrite_of_succeeds hserves.succeeds _
  · intro hnames actions state past hinitial hkept hrun
    have hoffers : ∀ action ∈ actions, ∀ command,
        action.offer = some command → ¬ command.IsStop :=
      fun action haction command hoffer => hnames command
        (hinitial.subset (List.mem_filterMap.mpr ⟨action, haction, hoffer⟩))
    have hinv := Runs.run_invariant step
      (fun current action => ¬ LosesWrite current action ∧
        ∀ command, action.offer = some command → ¬ command.IsStop)
      (fun current _ => Driven current)
      (fun _ _ _ _ _ hcurrent hguard hstep =>
        hcurrent.step hguard.2 hguard.1 hstep)
      driven_powerOn
      (hkept.and (Runs.StepsMeet.of_forall
        (fun action haction _ => hoffers action haction) _)) hrun
    exact hinv.waits

/-- A trigger command up to the first poll of its sensor. -/
def triggerOnly : List Action :=
  startUp ++
    .sendGateCommand ⟨0, gateTriggerCommand, rightGate⟩ ::
      List.replicate 3 .controller

theorem waits_driven_iff_no_stops_trigger :
    ∃ state past, run State.powerOn triggerOnly = .ok (state, past) ∧
      state.controller = .firstWait ⟨0, gateTriggerCommand, rightGate⟩ 0 ∧
      WaitsDriven state := by
  obtain ⟨state, past, hrun, hcontroller⟩ :
      ∃ state past, run State.powerOn triggerOnly = .ok (state, past) ∧
        state.controller =
          .firstWait ⟨0, gateTriggerCommand, rightGate⟩ 0 := ⟨_, _, rfl, rfl⟩
  have hrange : ∀ command : GateCommand,
      command ∈ [⟨0, gateTriggerCommand, rightGate⟩] → command.InRange := by
    decide
  have hdriven := (waits_driven_iff_no_stops hrange).mpr (by decide)
  exact ⟨state, past, hrun, hcontroller, hdriven triggerOnly state past
    (by decide) (losesNoWrite_of_succeeds (by decide) _) hrun⟩

/-- A stop command written while the controller waits for its sensor. -/
def stopOnly : List Action :=
  startUp ++
    .sendGateCommand ⟨0, gateStopCommand, rightGate⟩ ::
      List.replicate 3 .controller ++ List.replicate 2 (.ioScan (.ok 0xff#8))

/-- The controller waits for the sensor of a motor that it has just switched
off. -/
theorem stopOnly_waits_undriven :
    ∃ state past, run State.powerOn stopOnly = .ok (state, past) ∧
      (∀ command ∈ commandsOf stopOnly, command.InRange) ∧
      ¬ WaitsDriven state := by
  obtain ⟨state, past, hrun, hcontroller, hempty, hscan, hbus⟩ :
      ∃ state past, run State.powerOn stopOnly = .ok (state, past) ∧
        state.controller = .firstWait ⟨0, gateStopCommand, rightGate⟩ 0 ∧
        contents state.ioQueue = [] ∧ state.scan = .transfer .scan 0 ∧
        state.bus (outputAddress 0) = 0xff#8 :=
    ⟨_, _, rfl, rfl, rfl, rfl, rfl⟩
  refine ⟨state, past, hrun, by decide, fun hwaits => ?_⟩
  rcases hwaits ⟨0, gateStopCommand, rightGate⟩ 0 0
      ⟨by rw [hcontroller, Controller.waitingFor], by decide⟩ with
    ⟨output, hmem, -⟩ | ⟨output, hwriting, -⟩ | hdrives
  · simp [hempty] at hmem
  · simp [hscan] at hwriting
  · rw [Bus.drives, hbus] at hdrives
    exact absurd hdrives (by decide)

end Conveyor.Gate
