import Conveyor.Gate.Stop

/-!
# Ways to a queued stop command

From every state that waits with a stop command next, the two tasks can reach
the stop and write the pin off.  The ways are built backwards: first from a
second wait loop that has its change, then from either loop at the top of a
pass, and last from anywhere inside a pass.
-/

namespace Conveyor.Gate

open Conveyor.Core Conveyor.Rtos Conveyor.IoDriver

theorem Path.outputBound {state final : State} {trace : List Event}
    (hpath : Path state trace final) (hsound : Sound state)
    (hbound : OutputBound state) : OutputBound final := by
  obtain ⟨actions, -, hrun⟩ := hpath
  have hinv := Runs.run_state_invariant step
    (fun current => Sound current ∧ OutputBound current)
    (fun _ _ _ _ hcurrent hstep => ⟨hcurrent.1.step hstep,
      hcurrent.2.step hcurrent.1 hstep⟩) ⟨hsound, hbound⟩ hrun
  exact hinv.2

theorem CanWriteOff.of_path {state middle : State} {port : Port} {pin : Pin}
    {trace : List Event} (here there : ℕ) (hpath : Path state trace middle)
    (hchanges : changes (state.data.input port pin)
      (storedLevels port pin trace) ≤ here)
    (hcan : CanWriteOff middle port pin there) :
    CanWriteOff state port pin (here + there) := by
  obtain ⟨first, hfirst, hrunFirst⟩ := hpath
  obtain ⟨second, final, later, hsecond, hrunSecond, hlater, output, byte, good,
    hmem, hoff⟩ := hcan
  refine ⟨first ++ second, final, trace ++ later, fun action haction => ?_,
    Runs.run_append hrunFirst hrunSecond, ?_, output, byte, good,
    List.mem_append_right _ hmem, hoff⟩
  · exact (List.mem_append.mp haction).elim
      (fun hmem => (hfirst action hmem).byTasks) (hsecond action)
  · rw [changes_run hrunFirst]
    exact Nat.add_le_add hchanges hlater

theorem CanObeyStop.of_path {state middle : State} {port : Port} {pin : Pin}
    {trace : List Event} (here there : ℕ) (hpath : Path state trace middle)
    (hchanges : changes (state.data.input port pin)
      (storedLevels port pin trace) ≤ here)
    (hcan : CanObeyStop middle port pin there) :
    CanObeyStop state port pin (here + there) := by
  obtain ⟨first, hfirst, hrunFirst⟩ := hpath
  obtain ⟨second, final, before, after, stop, hsecond, hrunSecond, hlater,
    hname, hindex, htook, hoff⟩ := hcan
  refine ⟨first ++ second, final, trace ++ before, after, stop,
    fun action haction => ?_, ?_, ?_, hname, hindex,
    List.mem_append_right _ htook, hoff⟩
  · exact (List.mem_append.mp haction).elim
      (fun hmem => (hfirst action hmem).byTasks) (hsecond action)
  · rw [List.append_assoc]
    exact Runs.run_append hrunFirst hrunSecond
  · rw [List.append_assoc, changes_run hrunFirst]
    exact Nat.add_le_add hchanges hlater

theorem CanObeyStop.canWriteOff {state : State} {port : Port} {pin : Pin}
    {limit : ℕ} (hcan : CanObeyStop state port pin limit) :
    CanWriteOff state port pin limit := by
  obtain ⟨actions, final, before, after, stop, htasks, hrun, hchanges, -, -, -,
    output, byte, good, hmem, hoff⟩ := hcan
  exact ⟨actions, final, before ++ after, htasks, hrun, hchanges, output, byte,
    good, List.mem_append_right _ hmem, hoff⟩

theorem CanObeyStop.mono {state : State} {port : Port} {pin : Pin}
    {limit larger : ℕ} (hcan : CanObeyStop state port pin limit)
    (hle : limit ≤ larger) : CanObeyStop state port pin larger := by
  obtain ⟨actions, final, before, after, stop, htasks, hrun, hchanges, hrest⟩ :=
    hcan
  exact ⟨actions, final, before, after, stop, htasks, hrun,
    hchanges.trans hle, hrest⟩

/-- A reachable state with a stop command for the watched pin next. -/
structure StopReady (state : State) (port : Port) (pin : Pin) : Prop where
  sound : Sound state
  bound : OutputBound state
  next : ∃ stop rest, contents state.gateQueue = stop :: rest ∧
    stop.commandName = gateStopCommand ∧ stop.index = some (port, pin)

theorem StopReady.path {state final : State} {port : Port} {pin : Pin}
    {trace : List Event} (hready : StopReady state port pin)
    (hpath : Path state trace final)
    (hgate : final.gateQueue = state.gateQueue) : StopReady final port pin where
  sound := hpath.sound hready.sound
  bound := hpath.outputBound hready.sound hready.bound
  next := hgate ▸ hready.next

theorem StopNext.index {state : State} {command : GateCommand} {port : Port}
    {pin : Pin} (hstop : StopNext state command)
    (hindex : command.index = some (port, pin)) :
    ∃ stop rest, contents state.gateQueue = stop :: rest ∧
      stop.commandName = gateStopCommand ∧
      stop.index = some (port, pin) := by
  obtain ⟨stop, rest, hcontents, hname, hposition, hgate⟩ := hstop
  refine ⟨stop, rest, hcontents, hname, ?_⟩
  rw [← hindex, GateCommand.index, GateCommand.index, hposition, hgate]

theorem off_output {stop : GateCommand} {port : Port} {pin : Pin}
    (hname : stop.commandName = gateStopCommand)
    (hindex : stop.index = some (port, pin)) :
    OutputCommand.Off stop.output port pin :=
  ⟨hindex, by simp [GateCommand.output, hname, gateStopCommand]⟩

/-- From the tops of both loops the stop command is received, its output
command enqueued and written, all with the inputs as they are. -/
theorem canObeyStop_of_top {state : State} {port : Port} {pin : Pin}
    (hready : StopReady state port pin) (hcontroller : state.controller = .top)
    (hscan : state.scan = .top) (hqueue : state.ioQueue.isSome) :
    CanObeyStop state port pin 0 := by
  obtain ⟨stop, rest, hcontents, hname, hindex⟩ := hready.next
  have hroom : (contents state.ioQueue).length < queueLength :=
    lt_of_le_of_lt hready.bound.length_le_two (by decide)
  obtain ⟨gateQueue, ioQueue, before, -, -, -, hsent, hstart, hnone, htook⟩ :=
    path_receive state hcontroller hcontents hindex hqueue hroom
  obtain ⟨final, after, hdrain, hkeep, byte, hwrote⟩ :=
    path_drain (hstart.sound hready.sound) hscan
      (show stop.output ∈ contents ioQueue by simp [hsent])
  obtain ⟨actions, htasks, hrun⟩ := hstart.trans hdrain
  refine ⟨actions, final, before, after, stop,
    fun action hmem => (htasks action hmem).byTasks, hrun, ?_, hname, hindex,
    htook, stop.output, byte, true, hwrote, off_output hname hindex⟩
  rw [hstart.changes, hkeep, hnone, changes_nil]

/-- A second wait loop that has its change is left at the next poll. -/
theorem canObeyStop_of_changed {state : State} {command : GateCommand}
    {old : UInt8} {port : Port} {pin : Pin}
    (hready : StopReady state port pin)
    (hcontroller : state.controller = .secondWait command old)
    (hindex : command.index = some (port, pin)) (hscan : state.scan = .top)
    (hchange : state.data.input port pin ≠ old) :
    CanObeyStop state port pin 0 := by
  have hpoll := Path.of_move
    (Move.secondChange command old port pin hcontroller hindex hchange) trivial
  have hqueue := hready.sound.waiting (by simp [hcontroller,
    Controller.waitingFor])
  exact CanObeyStop.of_path 0 _ hpoll (Nat.le_refl 0)
    (canObeyStop_of_top (hready.path hpoll rfl) rfl hscan hqueue)

/-- One pass in which the pin takes its other level. -/
theorem path_flip {state : State} {port : Port} {pin : Pin}
    (hready : StopReady state port pin) (hscan : state.scan = .top)
    (hqueue : state.ioQueue.isSome) :
    ∃ final trace, Path state trace final ∧ StopReady final port pin ∧
      final.scan = .top ∧ final.controller = state.controller ∧
      final.data.input port pin ≠ state.data.input port pin ∧
      changes (state.data.input port pin)
        (storedLevels port pin trace) = 1 := by
  obtain ⟨target, htarget, hflip⟩ :=
    exists_flipped hready.sound.levels port pin
  obtain ⟨final, trace, hpath, htop, hcontroller, hgate, hinput, hstored⟩ :=
    path_pass_any htarget hready.sound hscan hqueue
  refine ⟨final, trace, hpath, hready.path hpath hgate, htop, hcontroller, ?_,
    ?_⟩
  · rwa [hinput]
  · rw [hstored, changes_cons, if_neg hflip, changes_nil]

theorem canObeyStop_of_second {state : State} {command : GateCommand}
    {old : UInt8} {port : Port} {pin : Pin}
    (hready : StopReady state port pin)
    (hcontroller : state.controller = .secondWait command old)
    (hindex : command.index = some (port, pin)) (hscan : state.scan = .top) :
    CanObeyStop state port pin 1 := by
  by_cases hsame : state.data.input port pin = old
  · have hqueue := hready.sound.waiting (by simp [hcontroller,
      Controller.waitingFor])
    obtain ⟨final, trace, hpath, hlater, htop, hstays, hflip, hone⟩ :=
      path_flip hready hscan hqueue
    exact CanObeyStop.of_path _ _ hpath hone.le
      (canObeyStop_of_changed hlater (hstays.trans hcontroller) hindex htop
        (hsame ▸ hflip))
  · exact (canObeyStop_of_changed hready hcontroller hindex hscan hsame).mono
      (Nat.zero_le 1)

/-- The first wait loop with its change goes over to the second. -/
theorem path_firstChange {state : State} {command : GateCommand} {old : UInt8}
    {port : Port} {pin : Pin} (hready : StopReady state port pin)
    (hcontroller : state.controller = .firstWait command old)
    (hindex : command.index = some (port, pin))
    (hchange : state.data.input port pin ≠ old) :
    ∃ final trace, Path state trace final ∧ StopReady final port pin ∧
      final.scan = state.scan ∧
      final.controller =
        .secondWait command (state.data.input port pin) ∧
      storedLevels port pin trace = [] := by
  have hpoll := Path.of_move
    (Move.firstChange command old port pin hcontroller hindex hchange) trivial
  exact ⟨_, _, hpoll, hready.path hpoll rfl, rfl, rfl, rfl⟩

theorem canObeyStop_of_first {state : State} {command : GateCommand}
    {old : UInt8} {port : Port} {pin : Pin}
    (hready : StopReady state port pin)
    (hcontroller : state.controller = .firstWait command old)
    (hindex : command.index = some (port, pin)) (hscan : state.scan = .top) :
    CanObeyStop state port pin
      (if state.data.input port pin = old then 2 else 1) := by
  by_cases hsame : state.data.input port pin = old
  · have hqueue := hready.sound.waiting (by simp [hcontroller,
      Controller.waitingFor])
    obtain ⟨middle, first, hpath, hlater, htop, hstays, hflip, hone⟩ :=
      path_flip hready hscan hqueue
    obtain ⟨final, second, hpoll, hpolled, hsameScan, hsecond, hnone⟩ :=
      path_firstChange hlater (hstays.trans hcontroller) hindex (hsame ▸ hflip)
    rw [if_pos hsame]
    refine CanObeyStop.of_path 1 1 hpath hone.le ?_
    exact CanObeyStop.of_path 0 _ hpoll (by simp [hnone])
      (canObeyStop_of_second hpolled hsecond hindex (hsameScan.trans htop))
  · obtain ⟨final, trace, hpoll, hpolled, hsameScan, hsecond, hnone⟩ :=
      path_firstChange hready hcontroller hindex hsame
    rw [if_neg hsame]
    exact CanObeyStop.of_path 0 _ hpoll (by simp [hnone])
      (canObeyStop_of_second hpolled hsecond hindex (hsameScan.trans hscan))

/-- The pass in progress is finished first. -/
theorem path_finish_ready {state : State} {port : Port} {pin : Pin}
    (hready : StopReady state port pin) (hlooping : state.scan.Looping) :
    ∃ final trace, Path state trace final ∧ StopReady final port pin ∧
      final.scan = .top ∧ final.controller = state.controller ∧
      changes (state.data.input port pin) (storedLevels port pin trace) ≤ 1 ∧
      (¬ state.scan.InFlight port pin (state.data.input port pin) →
        changes (state.data.input port pin)
          (storedLevels port pin trace) = 0) := by
  obtain ⟨final, trace, hpath, htop, hcontroller, hgate, -, hone, hquiet, -⟩ :=
    path_finish hready.sound hlooping port pin
  exact ⟨final, trace, hpath, hready.path hpath hgate, htop, hcontroller, hone,
    hquiet⟩

theorem canObeyStop_of_second_any {state : State} {command : GateCommand}
    {old : UInt8} {port : Port} {pin : Pin}
    (hready : StopReady state port pin)
    (hcontroller : state.controller = .secondWait command old)
    (hindex : command.index = some (port, pin))
    (hlooping : state.scan.Looping) : CanObeyStop state port pin 2 := by
  obtain ⟨final, trace, hpath, hlater, htop, hstays, hone, -⟩ :=
    path_finish_ready hready hlooping
  exact CanObeyStop.of_path _ _ hpath hone
    (canObeyStop_of_second hlater (hstays.trans hcontroller) hindex htop)

/-- Two changes of the input always suffice. -/
theorem canObeyStop_of_waits {state : State} {command : GateCommand}
    {port : Port} {pin : Pin} (hready : StopReady state port pin)
    (hwaits : WaitsAt state command port pin) :
    CanObeyStop state port pin 2 := by
  obtain ⟨hwaiting, hindex⟩ := hwaits
  have hlooping : state.scan.Looping :=
    hready.sound.looping (hready.sound.waiting (by simp [hwaiting]))
  cases hcontroller : state.controller with
  | notCreated | top | sampling | enqueueing =>
      simp [hcontroller, Controller.waitingFor] at hwaiting
  | secondWait other old =>
      rw [hcontroller, Controller.waitingFor, Option.some.injEq] at hwaiting
      subst hwaiting
      exact canObeyStop_of_second_any hready hcontroller hindex hlooping
  | firstWait other old =>
      rw [hcontroller, Controller.waitingFor, Option.some.injEq] at hwaiting
      subst hwaiting
      by_cases hsame : state.data.input port pin = old
      · obtain ⟨final, trace, hpath, hlater, htop, hstays, hone, -⟩ :=
          path_finish_ready hready hlooping
        have hfirst := canObeyStop_of_first hlater
          (hstays.trans hcontroller) hindex htop
        rw [hpath.input port pin] at hfirst
        by_cases hback : (storedLevels port pin trace).getLastD
            (state.data.input port pin) = old
        · rw [if_pos hback] at hfirst
          have hnot := changes_ne_one (hback.trans hsame.symm)
          exact CanObeyStop.of_path 0 _ hpath (by omega) hfirst
        · rw [if_neg hback] at hfirst
          exact CanObeyStop.of_path _ _ hpath hone hfirst
      · obtain ⟨final, trace, hpoll, hpolled, hsameScan, hsecond, hnone⟩ :=
          path_firstChange hready hcontroller hindex hsame
        exact CanObeyStop.of_path 0 _ hpoll (by simp [hnone])
          (canObeyStop_of_second_any hpolled hsecond hindex
            (hsameScan ▸ hlooping))

/-- What is pending can be written with the input as it is. -/
theorem canWriteOff_of_offPending {state : State} {command : GateCommand}
    {port : Port} {pin : Pin} (hready : StopReady state port pin)
    (hwaits : WaitsAt state command port pin)
    (hpending : OffPending state port pin) : CanWriteOff state port pin 0 := by
  obtain ⟨hwaiting, hindex⟩ := hwaits
  have hlooping : state.scan.Looping :=
    hready.sound.looping (hready.sound.waiting (by simp [hwaiting]))
  obtain ⟨final, trace, hpath, htop, hcontroller, hgate, hqueue, -, hquiet,
    hwrote⟩ := path_finish hready.sound hlooping port pin
  rcases hpending with ⟨output, hscan, hoff⟩ | ⟨hflight, hlater⟩
  · have hzero := hquiet (by simp [hscan, Scan.InFlight])
    obtain ⟨byte, hmem⟩ := hwrote output hscan
    obtain ⟨actions, htasks, hrun⟩ := hpath
    exact ⟨actions, final, trace, fun action haction =>
      (htasks action haction).byTasks, hrun, hzero.le, output, byte, true, hmem,
      hoff⟩
  · have hzero := hquiet hflight
    rcases hlater with ⟨output, hqueued, hoff⟩ | ⟨other, old, hsecond, hchange⟩
    · obtain ⟨last, rest, hdrain, hkeep, byte, hmem⟩ :=
        path_drain (hpath.sound hready.sound) htop (hqueue ▸ hqueued)
      obtain ⟨actions, htasks, hrun⟩ := hdrain
      exact CanWriteOff.of_path 0 0 hpath hzero.le
        ⟨actions, last, rest, fun action haction =>
          (htasks action haction).byTasks, hrun, (hkeep port pin).le, output,
          byte, true, hmem, hoff⟩
    · have hsame : final.data.input port pin = state.data.input port pin := by
        rw [hpath.input, getLastD_of_changes_eq_zero hzero]
      rw [hsecond, Controller.waitingFor, Option.some.injEq] at hwaiting
      subst hwaiting
      exact CanWriteOff.of_path 0 0 hpath hzero.le
        (canObeyStop_of_changed (hready.path hpath hgate)
          (hcontroller.trans hsecond) hindex htop
          (hsame ▸ hchange)).canWriteOff

/-- A stop command behind a wait for its own gate: the gate can be switched
off with the sensor as it is exactly when an off command or the last change is
already pending, and after at most two changes of the sensor in any case. -/
theorem stop_takes_effect {state : State} {actions : List Action}
    {past : List Event} {command : GateCommand} {port : Port} {pin : Pin}
    (hrun : run State.powerOn actions = .ok (state, past))
    (hwaits : WaitsAt state command port pin)
    (hstop : StopNext state command) :
    (CanWriteOff state port pin 0 ↔ OffPending state port pin) ∧
      CanObeyStop state port pin 2 := by
  have hready : StopReady state port pin :=
    { sound := sound_of_run hrun
      bound := outputBound_of_run hrun
      next := hstop.index hwaits.2 }
  refine ⟨⟨fun hcan => ?_, canWriteOff_of_offPending hready hwaits⟩,
    canObeyStop_of_waits hready hwaits⟩
  by_contra hpending
  exact not_canWriteOff
    (blocked_of_not_offPending hready.sound hwaits hpending) hcan

/-- A trigger command and a stop command for the same gate, received up to the
first poll. -/
def jammedGate : List Action :=
  startUp ++ [.sendGateCommand ⟨0, gateTriggerCommand, rightGate⟩,
    .sendGateCommand ⟨0, gateStopCommand, rightGate⟩,
    .controller, .controller, .controller]

theorem stop_takes_effect_jammedGate :
    ∃ state past, run State.powerOn jammedGate = .ok (state, past) ∧
      CanObeyStop state 0 0 2 := by
  obtain ⟨state, past, hrun, hcontroller, hgate⟩ :
      ∃ state past, run State.powerOn jammedGate = .ok (state, past) ∧
        state.controller =
          .firstWait ⟨0, gateTriggerCommand, rightGate⟩ 0 ∧
        contents state.gateQueue = [⟨0, gateStopCommand, rightGate⟩] :=
    ⟨_, _, rfl, rfl, rfl⟩
  have hwaits : WaitsAt state ⟨0, gateTriggerCommand, rightGate⟩ 0 0 :=
    ⟨by rw [hcontroller, Controller.waitingFor], by decide⟩
  exact ⟨state, past, hrun,
    (stop_takes_effect hrun hwaits ⟨_, [], hgate, rfl, rfl, rfl⟩).2⟩

/-- While the sensor of a jammed gate does not move, the stop command queued
for it never takes effect. -/
theorem jammedGate_blocks_stop :
    ∃ state past command, run State.powerOn jammedGate = .ok (state, past) ∧
      WaitsAt state command 0 0 ∧ StopNext state command ∧
      ¬ CanWriteOff state 0 0 0 := by
  obtain ⟨state, past, hrun, hcontroller, hgate, hio, hscan⟩ :
      ∃ state past, run State.powerOn jammedGate = .ok (state, past) ∧
        state.controller =
          .firstWait ⟨0, gateTriggerCommand, rightGate⟩ 0 ∧
        contents state.gateQueue = [⟨0, gateStopCommand, rightGate⟩] ∧
        contents state.ioQueue = [⟨0, 0, true⟩] ∧ state.scan = .top :=
    ⟨_, _, rfl, rfl, rfl, rfl, rfl⟩
  have hwaits : WaitsAt state ⟨0, gateTriggerCommand, rightGate⟩ 0 0 :=
    ⟨by rw [hcontroller, Controller.waitingFor], by decide⟩
  refine ⟨state, past, _, hrun, hwaits, ⟨_, [], hgate, rfl, rfl, rfl⟩, ?_⟩
  refine not_canWriteOff
    (blocked_of_not_offPending (sound_of_run hrun) hwaits ?_)
  rintro (⟨output, hwriting, -⟩ | ⟨-, ⟨output, hmem, -, hoff⟩ | ⟨_, _, hsecond, -⟩⟩)
  · simp [hscan] at hwriting
  · rw [hio, List.mem_singleton] at hmem
    simp [hmem] at hoff
  · simp [hcontroller] at hsecond

end Conveyor.Gate
