import Conveyor.Gate.Carrying
import Conveyor.Gate.Processing

/-!
# Motors that keep running

The comment in `gate_controller_task` starts the motor "util receive sensor
signal", but nothing in the task produces the off command.  Once a command
other than a stop has been processed its output stays on.
-/

namespace Conveyor.Gate

open Conveyor.Core Conveyor.Rtos Conveyor.IoDriver

/-- With the controller at the top of its loop, nothing queued and no write in
progress, every output pin that was switched on is off again. -/
def NoRunaway (state : State) (past : List Event) : Prop :=
  state.controller = .top → contents state.ioQueue = [] →
    (∀ output, state.scan ≠ .writing output) →
    ∀ output byte good port pin, .wrote output byte good ∈ past →
      output.state = true → pinIndex output.port output.pin = some (port, pin) →
      state.data.output port pin = 0

def GateCommand.IsStop (command : GateCommand) : Prop :=
  command.commandName = gateStopCommand

instance (command : GateCommand) : Decidable command.IsStop :=
  inferInstanceAs (Decidable (_ = _))

theorem GateCommand.output_state (command : GateCommand) :
    command.output.state = true ↔ ¬ command.IsStop := by
  simp [GateCommand.output, GateCommand.IsStop, gateStopCommand]

/-- While only stop commands are carried, nothing is switched on. -/
theorem wrote_off_of_carries {state next : State} {action : Action}
    {now : List Event} (hcarries : Carries GateCommand.IsStop state)
    (hstep : step state action = .ok (next, now)) {output : OutputCommand}
    {byte : Byte} {good : Bool} (hwrote : .wrote output byte good ∈ now) :
    output.state = false := by
  cases move_of_step hstep with
  | resetWrite result port pin data bus sent hscan hwrite =>
      rw [List.mem_singleton, Event.wrote.injEq] at hwrote
      rw [hwrote.1]
      rfl
  | write result command data bus sent hscan hwrite =>
      obtain ⟨source, hstop, hsource⟩ := hcarries.inHand command hscan
      rw [List.mem_singleton, Event.wrote.injEq] at hwrote
      rw [hwrote.1, hsource, ← Bool.not_eq_true, source.output_state]
      exact not_not_intro hstop
  | _ => simp at hwrote

/-- In a run that is offered stop commands only, nothing is switched on. -/
theorem wrote_off_of_stops {actions : List Action} {state : State}
    {past : List Event}
    (hstops : ∀ command ∈ commandsOf actions, command.IsStop)
    (hrun : run State.powerOn actions = .ok (state, past))
    {output : OutputCommand} {byte : Byte} {good : Bool}
    (hwrote : .wrote output byte good ∈ past) : output.state = false := by
  have hinv := Runs.run_invariant step
    (fun _ action => ∀ command, action.offer = some command →
      command.IsStop)
    (fun current seen => Carries GateCommand.IsStop current ∧
      ∀ sent byte good, .wrote sent byte good ∈ seen → sent.state = false)
    (fun current seen action next now hcurrent hoffer hstep => ?_)
    ⟨carries_powerOn _, by simp⟩
    (Runs.StepsMeet.of_forall (fun action hmem _ command hoffer =>
      hstops command (List.mem_filterMap.mpr ⟨action, hmem, hoffer⟩)) _) hrun
  · exact hinv.2 output byte good hwrote
  · refine ⟨hcurrent.1.step hoffer hstep, fun sent byte good hmem => ?_⟩
    rcases List.mem_append.mp hmem with hold | hnew
    · exact hcurrent.2 sent byte good hold
    · exact wrote_off_of_carries hcurrent.1 hstep hnew

/-- After any in-range commands, a command other than a stop leaves its motor
running. -/
theorem exists_runaway (before : List GateCommand) {command : GateCommand}
    (hbefore : ∀ earlier ∈ before, earlier.InRange)
    (hrange : command.InRange) (hname : ¬ command.IsStop) :
    ∃ actions state past, Serves (before ++ [command]) actions ∧
      run State.powerOn actions = .ok (state, past) ∧
      ¬ NoRunaway state past := by
  obtain ⟨port, pin, moving, middle, first, hserves, hrun, hmoving, byte,
    hwrote⟩ := exists_moving before hbefore hrange
  obtain ⟨finishing, final, second, hnone, hfinish, hrest, hoff⟩ :=
    hmoving.finish
  refine ⟨moving ++ finishing, final, first ++ second, ?_,
    Runs.run_append hrun hfinish, fun hrunaway => ?_⟩
  · simpa using hserves.append hnone
  · have hon := command.output_state.mpr hname
    have hzero := hrunaway hrest.controller hrest.ioEmpty
      (by simp [hrest.scan]) command.output byte true port pin
      (List.mem_append_left _ hwrote) hon hmoving.index
    rw [hoff, hmoving.shadow, if_pos hon] at hzero
    exact absurd hzero (by decide)

/-- For the commands of a session: in every run that processes some of them, no
motor runs away exactly when all of them are stop commands. -/
theorem no_runaway_iff_stops {commands : List GateCommand}
    (hrange : ∀ command ∈ commands, command.InRange) :
    (∀ actions state past, commandsOf actions <+: commands →
      (∀ action ∈ actions, action ≠ .ioScan .error) →
      run State.powerOn actions = .ok (state, past) →
      NoRunaway state past) ↔
      ∀ command ∈ commands, command.IsStop := by
  constructor
  · intro hnone command hmem
    by_contra hname
    obtain ⟨before, after, rfl⟩ := List.append_of_mem hmem
    obtain ⟨actions, state, past, hserves, hrun, hrunaway⟩ :=
      exists_runaway before
        (fun earlier hearlier => hrange earlier (by simp [hearlier]))
        (hrange command hmem) hname
    refine hrunaway (hnone actions state past ?_ hserves.succeeds hrun)
    rw [hserves.offers]
    exact ⟨after, by simp⟩
  · intro hstops actions state past hinitial _ hrun _ _ _ output byte good port
      pin hwrote hon _
    have hoff := wrote_off_of_stops
      (fun command hmem => hstops command (hinitial.subset hmem)) hrun hwrote
    simp [hoff] at hon

theorem no_runaway_iff_stops_trigger :
    ¬ (∀ actions state past,
      commandsOf actions <+: [⟨0, gateTriggerCommand, rightGate⟩] →
      (∀ action ∈ actions, action ≠ .ioScan .error) →
      run State.powerOn actions = .ok (state, past) →
      NoRunaway state past) := by
  rw [no_runaway_iff_stops (by decide)]
  decide

/-- One trigger command, during which the sensor becomes active and inactive
again. -/
def oneTrigger : List Action :=
  startUp ++
    .sendGateCommand ⟨0, gateTriggerCommand, rightGate⟩ ::
      List.replicate 3 .controller ++ List.replicate 20 (.ioScan (.ok 0xfe#8)) ++
      .controller :: List.replicate 19 (.ioScan (.ok 0xff#8)) ++ [.controller]

/-- The trigger command has been processed and its motor still runs. -/
theorem oneTrigger_runs_away :
    ∃ state past, run State.powerOn oneTrigger = .ok (state, past) ∧
      (∀ action ∈ oneTrigger, action ≠ .ioScan .error) ∧
      (∀ command ∈ commandsOf oneTrigger, command.InRange) ∧
      ¬ NoRunaway state past := by
  obtain ⟨state, past, hrun, hcontroller, hempty, hscan, houtput, hwrote⟩ :
      ∃ state past, run State.powerOn oneTrigger = .ok (state, past) ∧
        state.controller = .top ∧ contents state.ioQueue = [] ∧
        state.scan = .top ∧ state.data.output 0 0 = 1 ∧
        .wrote ⟨0, 0, true⟩ 0xfe#8 true ∈ past :=
    ⟨_, _, rfl, rfl, rfl, rfl, rfl, by decide⟩
  refine ⟨state, past, hrun, by decide, by decide, fun hrunaway => ?_⟩
  have hzero := hrunaway hcontroller hempty (by simp [hscan]) _ _ _ 0 0 hwrote
    rfl rfl
  rw [houtput] at hzero
  exact absurd hzero (by decide)

end Conveyor.Gate
