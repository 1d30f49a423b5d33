import Conveyor.Gate.Passes

/-!
# Processing one command after another

Between commands both tasks can come to rest: the controller and the scan loop
at the tops of their loops and nothing queued.  From rest any in-range command
can be processed to the end, so every list of in-range commands has a run that
processes them in order.
-/

namespace Conveyor.Gate

open Conveyor.Core Conveyor.Rtos Conveyor.IoDriver

/-- The actions offer exactly these commands and every transfer succeeds. -/
structure Serves (commands : List GateCommand) (actions : List Action) :
    Prop where
  offers : commandsOf actions = commands
  succeeds : ∀ action ∈ actions, action ≠ .ioScan .error

theorem Serves.append {first second : List GateCommand}
    {here there : List Action} (hfirst : Serves first here)
    (hsecond : Serves second there) :
    Serves (first ++ second) (here ++ there) where
  offers := by rw [commandsOf_append, hfirst.offers, hsecond.offers]
  succeeds := fun action hmem => (List.mem_append.mp hmem).elim
    (hfirst.succeeds action) (hsecond.succeeds action)

/-- Steps of the tasks offer nothing. -/
theorem serves_of_tasks {actions : List Action}
    (htasks : ∀ action ∈ actions, action.OfTasks) : Serves [] actions where
  offers := by
    refine List.filterMap_eq_nil_iff.mpr fun action hmem => ?_
    have htask := htasks action hmem
    cases action with
    | controller | ioScan => rfl
    | _ => exact htask.elim
  succeeds := by
    rintro action hmem rfl
    exact htasks _ hmem

theorem serves_startUp : Serves [] startUp where
  offers := rfl
  succeeds := by decide

/-- Both tasks at rest. -/
structure AtRest (state : State) : Prop where
  sound : Sound state
  controller : state.controller = .top
  scan : state.scan = .top
  ioReady : state.ioQueue.isSome
  ioEmpty : contents state.ioQueue = []
  gateReady : state.gateQueue.isSome
  gateEmpty : contents state.gateQueue = []

theorem startUp_atRest :
    ∃ state trace, run State.powerOn startUp = .ok (state, trace) ∧
      AtRest state := by
  obtain ⟨state, trace, hrun, hcontroller, hscan, hio, hgate⟩ :
      ∃ state trace, run State.powerOn startUp = .ok (state, trace) ∧
        state.controller = .top ∧ state.scan = .top ∧
        state.ioQueue = some .empty ∧ state.gateQueue = some .empty :=
    ⟨_, _, rfl, rfl, rfl, rfl, rfl⟩
  exact ⟨state, trace, hrun,
    { sound := sound_of_run hrun
      controller := hcontroller
      scan := hscan
      ioReady := by rw [hio]; rfl
      ioEmpty := by rw [hio]; rfl
      gateReady := by rw [hgate]; rfl
      gateEmpty := by rw [hgate]; rfl }⟩

/-- The output command of `command` has been written and the controller waits
for its pin, which has moved since the sample. -/
structure Moving (state : State) (command : GateCommand) (port : Port)
    (pin : Pin) : Prop where
  sound : Sound state
  index : command.index = some (port, pin)
  controller : ∃ old, state.controller = .firstWait command old ∧
    state.data.input port pin ≠ old
  scan : state.scan = .top
  ioReady : state.ioQueue.isSome
  ioEmpty : contents state.ioQueue = []
  gateReady : state.gateQueue.isSome
  gateEmpty : contents state.gateQueue = []
  shadow : state.data.output port pin =
    if command.output.state then 1 else 0
  driven : state.bus.drives port pin ↔ command.output.state = true

/-- From rest a command can be offered, received and written. -/
theorem AtRest.start {state : State} (hrest : AtRest state)
    {command : GateCommand} (hrange : command.InRange) :
    ∃ port pin actions middle trace, Serves [command] actions ∧
      run state actions = .ok (middle, trace) ∧
      Moving middle command port pin ∧
      ∃ byte, .wrote command.output byte true ∈ trace := by
  obtain ⟨⟨port, pin⟩, hindex⟩ :=
    Option.isSome_iff_exists.mp (GateCommand.index_isSome hrange)
  obtain ⟨offered, hsend, hsendable, hoffered⟩ :=
    xQueueSend_of_room command hrest.gateReady (by simp [hrest.gateEmpty])
  have hoffer := step_of_move (.offer command offered true hsend)
  rw [hrest.gateEmpty, List.nil_append] at hoffered
  obtain ⟨gateQueue, ioQueue, received, hgate, hgateEmpty, hio, hsent,
    hreceive, -, -⟩ := path_receive { state with
      gateQueue := offered } hrest.controller hoffered hindex hrest.ioReady
      (by simp [hrest.ioEmpty])
  simp only [hrest.ioEmpty, List.nil_append] at hsent
  have hsound := hreceive.sound (hrest.sound.step hoffer)
  obtain ⟨target, htarget, hflip⟩ :=
    exists_flipped hrest.sound.levels port pin
  obtain ⟨queue, passed, hready, hempty, hpass, -, byte, hwrote⟩ :=
    path_pass_write htarget { state with
      gateQueue := gateQueue
      ioQueue := ioQueue
      controller := .firstWait command (state.data.input port pin) }
      hrest.scan hsent hindex
  obtain ⟨actions, htasks, hrun⟩ := hreceive.trans hpass
  refine ⟨port, pin, .sendGateCommand command :: actions, _, _,
    (Serves.append ⟨rfl, by simp⟩ (serves_of_tasks htasks) :
      Serves ([command] ++ []) ([.sendGateCommand command] ++ actions)),
    Runs.run_cons hoffer hrun, ?_, byte, by simp [hwrote]⟩
  exact
    { sound := hpass.sound hsound
      index := hindex
      controller := ⟨state.data.input port pin, rfl, hflip⟩
      scan := rfl
      ioReady := hready
      ioEmpty := hempty
      gateReady := hgate
      gateEmpty := hgateEmpty
      shadow := setPin_same ..
      driven := by simp [written, Bus.drives_write] }

/-- A second change brings the tasks back to rest. -/
theorem Moving.finish {state : State} {command : GateCommand} {port : Port}
    {pin : Pin} (hmoving : Moving state command port pin) :
    ∃ actions final trace, Serves [] actions ∧
      run state actions = .ok (final, trace) ∧ AtRest final ∧
      final.data.output = state.data.output := by
  obtain ⟨old, hcontroller, hchange⟩ := hmoving.controller
  have hfirst := Path.of_move (Move.firstChange command old port pin
    hcontroller hmoving.index hchange) trivial
  obtain ⟨target, htarget, hflip⟩ :=
    exists_flipped hmoving.sound.levels port pin
  obtain ⟨trace, hpass, -⟩ := path_pass htarget { state with
    controller := .secondWait command (state.data.input port pin) }
    hmoving.scan hmoving.ioReady hmoving.ioEmpty
  have hsecond := Path.of_move
    (Move.secondChange command _ port pin rfl hmoving.index hflip :
      Move { state with
        controller := .secondWait command (state.data.input port pin)
        data := { state.data with input := target }
        scan := .top } _ _ _) trivial
  have hpath := (hfirst.trans hpass).trans hsecond
  obtain ⟨actions, htasks, hrun⟩ := hpath
  refine ⟨actions, _, _, serves_of_tasks htasks, hrun, ?_, rfl⟩
  exact
    { sound := hmoving.sound.run hrun
      controller := rfl
      scan := rfl
      ioReady := hmoving.ioReady
      ioEmpty := hmoving.ioEmpty
      gateReady := hmoving.gateReady
      gateEmpty := hmoving.gateEmpty }

/-- From rest any list of in-range commands can be processed. -/
theorem AtRest.process {state : State} (hrest : AtRest state)
    {commands : List GateCommand}
    (hrange : ∀ command ∈ commands, command.InRange) :
    ∃ actions final trace, Serves commands actions ∧
      run state actions = .ok (final, trace) ∧ AtRest final := by
  induction commands generalizing state with
  | nil => exact ⟨[], state, [], ⟨rfl, by simp⟩, rfl, hrest⟩
  | cons command commands ih =>
      obtain ⟨port, pin, starting, middle, first, hstart, hrunStart, hmoving,
        -⟩ := hrest.start (hrange command (by simp))
      obtain ⟨finishing, idle, second, hfinish, hrunFinish, hidle, -⟩ :=
        hmoving.finish
      obtain ⟨actions, final, third, hserves, hrun, hfinal⟩ :=
        ih hidle (fun later hlater => hrange later (by simp [hlater]))
      exact ⟨starting ++ finishing ++ actions, final, first ++ second ++ third,
        (hstart.append hfinish).append hserves,
        Runs.run_append (Runs.run_append hrunStart hrunFinish) hrun, hfinal⟩

/-- The commands before `command` are processed and `command` is written. -/
theorem exists_moving (before : List GateCommand) {command : GateCommand}
    (hbefore : ∀ earlier ∈ before, earlier.InRange)
    (hrange : command.InRange) :
    ∃ port pin actions state trace, Serves (before ++ [command]) actions ∧
      run State.powerOn actions = .ok (state, trace) ∧
      Moving state command port pin ∧
      ∃ byte, .wrote command.output byte true ∈ trace := by
  obtain ⟨rested, first, hstartUp, hrested⟩ := startUp_atRest
  obtain ⟨processing, idle, second, hserves, hprocess, hidle⟩ :=
    hrested.process hbefore
  obtain ⟨port, pin, starting, state, third, hone, hstart, hmoving, byte,
    hwrote⟩ := hidle.start hrange
  refine ⟨port, pin, startUp ++ processing ++ starting, state,
    first ++ second ++ third,
    (serves_startUp.append hserves).append hone,
    Runs.run_append (Runs.run_append hstartUp hprocess) hstart, hmoving, byte,
    List.mem_append_right _ hwrote⟩

end Conveyor.Gate
