import Conveyor.Gate.Observations

/-!
# Failed reads

`pcf8574_read_port` stores the inactive byte it was initialised with when its
transfer fails, so a failed read looks to the controller like a sensor that was
released.  Only on a port without active inputs does that go unnoticed, and
then the edges the controller counts are edges that successful reads delivered.
-/

namespace Conveyor.Gate

open Conveyor.Core Conveyor.Rtos Conveyor.IoDriver

/-- The level a successful read delivers for the pin. -/
def Event.goodLevel (port : Port) (pin : Pin) : Event → Option UInt8
  | .stored p k level true => if p = port ∧ k = pin then some level else none
  | _ => none

/-- The levels successful reads delivered for the pin; a read has delivered a
level once it is stored. -/
def goodLevels (port : Port) (pin : Pin) (trace : List Event) : List UInt8 :=
  trace.filterMap (Event.goodLevel port pin)

theorem goodLevels_append (port : Port) (pin : Pin)
    (first second : List Event) :
    goodLevels port pin (first ++ second) =
      goodLevels port pin first ++ goodLevels port pin second :=
  List.filterMap_append

theorem goodLevels_stored (port p : Port) (pin k : Pin) (level : UInt8)
    (good : Bool) :
    goodLevels port pin [.stored p k level good] =
      if good ∧ p = port ∧ k = pin then [level] else [] := by
  cases good with
  | false => rfl
  | true =>
      by_cases hsame : p = port ∧ k = pin <;>
        simp [goodLevels, Event.goodLevel, hsame]

/-- A transfer that fails does so on a port whose inputs are all inactive. -/
def FailsUnnoticed (state : State) (action : Action) : Prop :=
  action = .ioScan .error → ∀ phase port, state.scan = .transfer phase port →
    ∀ pin, state.data.input port pin = 0

instance (state : State) (action : Action) :
    Decidable (FailsUnnoticed state action) :=
  match action, hscan : state.scan with
  | .ioScan .error, .transfer _ port =>
      decidable_of_iff (∀ pin, state.data.input port pin = 0)
        (by simp [FailsUnnoticed, hscan])
  | .ioScan .error, .notCreated | .ioScan .error, .configParam
  | .ioScan .error, .installDriver | .ioScan .error, .resetWrite _ _
  | .ioScan .error, .store _ _ _ _ _ | .ioScan .error, .queueInit
  | .ioScan .error, .top | .ioScan .error, .writing _ =>
      isTrue (by simp [FailsUnnoticed, hscan])
  | .ioScan (.ok _), _ | .ioScanTaskStart, _ | .gateDrvQueueInit _, _
  | .gateControllerTaskStart, _ | .sendGateCommand _, _ | .controller, _ =>
      isTrue (by simp [FailsUnnoticed])

/-- The shadow of every pin is the level delivered last, also while a failed
read is being stored. -/
structure Faithful (state : State) (past : List Event) : Prop where
  failing : ∀ phase port pin value,
    state.scan = .store phase port pin value false →
      value = readValue .error ∧ ∀ k, state.data.input port k = 0
  shadow : ∀ port pin,
    state.data.input port pin = (goodLevels port pin past).getLastD 0

theorem faithful_powerOn : Faithful State.powerOn [] where
  failing := by simp [State.powerOn]
  shadow := fun _ _ => rfl

/-- Storing the inactive levels of a failed read changes nothing. -/
theorem Faithful.setPin_failed {state : State} {past : List Event}
    (hfaithful : Faithful state past) {phase : ReadPhase} {port : Port}
    {pin : Pin} {value : Byte}
    (hscan : state.scan = .store phase port pin value false) :
    setPin state.data.input port pin (pinLevel value pin) =
      state.data.input := by
  obtain ⟨rfl, hzero⟩ := hfaithful.failing phase port pin value hscan
  rw [pinLevel_readValue_error, ← hzero pin, setPin_self]

/-- A step that stores nothing keeps the shadow faithful. -/
theorem Faithful.of_quiet {state next : State} {past now : List Event}
    (hfaithful : Faithful state past)
    (hinput : next.data.input = state.data.input)
    (hnow : ∀ port pin, goodLevels port pin now = [])
    (hfailing : ∀ phase port pin value,
      next.scan = .store phase port pin value false →
        value = readValue .error ∧ ∀ k, next.data.input port k = 0) :
    Faithful next (past ++ now) where
  failing := hfailing
  shadow := fun port pin => by
    rw [hinput, hfaithful.shadow, goodLevels_append, hnow, List.append_nil]

theorem store_of_afterStore {phase after : ReadPhase} {port p : Port}
    {pin k : Pin} {value byte : Byte} {good flag : Bool}
    (hstore : afterStore phase port pin value good =
      .store after p k byte flag) :
    p = port ∧ byte = value ∧ flag = good := by
  rcases afterStore_cases phase port pin value good with ⟨next, hafter⟩ | hafter
  · rw [hafter, Scan.store.injEq] at hstore
    obtain ⟨-, rfl, -, rfl, rfl⟩ := hstore
    exact ⟨rfl, rfl, rfl⟩
  · rw [hafter] at hstore
    cases phase with
    | reset =>
        rcases afterPort_reset port with hport | hport <;> simp [hport] at hstore
    | scan =>
        rcases afterPort_scan port with hport | hport <;> simp [hport] at hstore

theorem Faithful.step {state next : State} {action : Action}
    {past now : List Event} (hfaithful : Faithful state past)
    (hunnoticed : FailsUnnoticed state action)
    (hstep : step state action = .ok (next, now)) :
    Faithful next (past ++ now) := by
  cases move_of_step hstep with
  | scanStarted | gateQueueInit | controllerStart | controllerStarted | offer
  | controllerAbsent | idle | take | sample | enqueue | firstSame | firstChange
  | secondSame | secondChange | scanAbsent =>
      exact hfaithful.of_quiet rfl (fun _ _ => rfl) hfaithful.failing
  | scanStart | installDriver | queueInit | nothingQueued | dequeue =>
      exact hfaithful.of_quiet rfl (fun _ _ => rfl) (by simp)
  | configParam result hscan =>
      refine hfaithful.of_quiet rfl (fun _ _ => rfl)
        fun phase port pin value hstore => ?_
      simp only at hstore
      split at hstore <;> simp at hstore
  | resetWrite result port pin data bus byte hscan hwrite =>
      obtain ⟨p, k, -, rfl, -, -⟩ := pcf8574WriteOutput_ok hwrite
      refine hfaithful.of_quiet rfl (fun _ _ => rfl)
        fun phase q j value hstore => ?_
      simp only [afterReset] at hstore
      split at hstore <;> simp at hstore
  | transfer result phase port hscan =>
      refine hfaithful.of_quiet rfl (fun _ _ => rfl)
        fun after p k value hstore => ?_
      rw [Scan.store.injEq] at hstore
      obtain ⟨-, rfl, -, rfl, hfailed⟩ := hstore
      cases result with
      | ok value => simp [CallResult.succeeded] at hfailed
      | error => exact ⟨rfl, hunnoticed rfl phase port hscan⟩
  | store result phase port pin value good hscan =>
      constructor
      · intro after p k byte hstore
        obtain ⟨rfl, rfl, rfl⟩ := store_of_afterStore hstore
        have hsame := hfaithful.setPin_failed hscan
        simp only [hsame]
        exact hfaithful.failing phase p pin byte hscan
      · intro p k
        rw [goodLevels_append, goodLevels_stored, getLastD_append,
          ← hfaithful.shadow]
        cases good with
        | false =>
            have hsame := hfaithful.setPin_failed hscan
            simp [hsame]
        | true =>
            by_cases hhere : p = port ∧ k = pin
            · obtain ⟨rfl, rfl⟩ := hhere
              simp
            · have hother : ¬(port = p ∧ pin = k) := fun heq =>
                hhere ⟨heq.1.symm, heq.2.symm⟩
              simp [setPin_apply, hhere, hother]
  | write result command data bus byte hscan hwrite =>
      obtain ⟨p, k, -, rfl, -, -⟩ := pcf8574WriteOutput_ok hwrite
      exact hfaithful.of_quiet rfl (fun _ _ => rfl) (by simp)

theorem faithful_of_run {actions : List Action} {state : State}
    {past : List Event}
    (hmeets : Runs.StepsMeet step FailsUnnoticed State.powerOn actions)
    (hrun : run State.powerOn actions = .ok (state, past)) :
    Faithful state past :=
  Runs.run_invariant step FailsUnnoticed Faithful
    (fun _ _ _ _ _ hfaithful hunnoticed hstep =>
      hfaithful.step hunnoticed hstep) faithful_powerOn hmeets hrun

/-! ## Edges between the sample and the finish -/

/-- How far the command sampled at `level` has come: the second wait loop is
entered with one change delivered. -/
def Counting (command : GateCommand) (port : Port) (pin : Pin) (level : UInt8)
    (state : State) (during : List Event) : Prop :=
  state.controller = .enqueueing command level ∨
    state.controller = .firstWait command level ∨
    ∃ old first second, during = first ++ second ∧
      state.controller = .secondWait command old ∧
      0 < changes level (goodLevels port pin first) ∧
      (goodLevels port pin first).getLastD level = old

theorem Counting.of_controller {command : GateCommand} {port : Port} {pin : Pin}
    {level : UInt8} {state next : State} {during now : List Event}
    (hcounting : Counting command port pin level state during)
    (hcontroller : next.controller = state.controller) :
    Counting command port pin level next (during ++ now) := by
  rcases hcounting with henqueue | hfirst | ⟨old, first, second, rfl, hrest⟩
  · exact .inl (hcontroller.trans henqueue)
  · exact .inr (.inl (hcontroller.trans hfirst))
  · refine .inr (.inr ⟨old, first, second ++ now, ?_, ?_, hrest.2⟩)
    · rw [List.append_assoc]
    · exact hcontroller.trans hrest.1

/-- The shadow after a sample is the level delivered last since then. -/
def Follows (port : Port) (pin : Pin) (level : UInt8) (state : State)
    (during : List Event) : Prop :=
  state.data.input port pin = (goodLevels port pin during).getLastD level

theorem Faithful.follows {state current : State} {past seen : List Event}
    {command : GateCommand} {level : UInt8} (hbefore : Faithful state past)
    (hafter : Faithful current (past ++ [.sampled command level] ++ seen))
    (port : Port) (pin : Pin) :
    Follows port pin (state.data.input port pin) current seen := by
  have hnone : goodLevels port pin [.sampled command level] = [] := rfl
  rw [Follows, hafter.shadow, goodLevels_append, goodLevels_append, hnone,
    List.append_nil, getLastD_append, ← hbefore.shadow]

theorem Counting.step {command : GateCommand} {port : Port} {pin : Pin}
    {level : UInt8} {state next : State} {action : Action}
    {during now : List Event}
    (hcounting : Counting command port pin level state during)
    (hindex : command.index = some (port, pin))
    (hfollows : Follows port pin level state during)
    (hstep : step state action = .ok (next, now)) :
    .finished command ∈ now ∨
      Counting command port pin level next (during ++ now) := by
  cases move_of_step hstep with
  | scanStart | scanStarted | gateQueueInit | controllerStarted | offer
  | controllerAbsent | idle | firstSame | secondSame | scanAbsent
  | configParam | installDriver | resetWrite | transfer | store | queueInit
  | nothingQueued | dequeue | write =>
      exact .inr (hcounting.of_controller rfl)
  | controllerStart hcontroller | take other queue hcontroller
  | sample other p k hcontroller =>
      simp [Counting, hcontroller] at hcounting
  | enqueue other old queue accepted hcontroller hsend =>
      simp only [Counting, hcontroller, Controller.enqueueing.injEq, reduceCtorEq,
        false_and, and_false, exists_false, or_false] at hcounting
      obtain ⟨rfl, rfl⟩ := hcounting
      exact .inr (.inr (.inl rfl))
  | firstChange other old p k hcontroller hother hchange =>
      simp only [Counting, hcontroller, Controller.firstWait.injEq, reduceCtorEq,
        false_and, and_false, exists_false, false_or, or_false] at hcounting
      obtain ⟨rfl, rfl⟩ := hcounting
      rw [hindex, Option.some.injEq, Prod.mk.injEq] at hother
      obtain ⟨rfl, rfl⟩ := hother
      refine .inr (.inr (.inr ⟨_, during, _, rfl, rfl, ?_, hfollows.symm⟩))
      exact changes_pos (hfollows ▸ hchange)
  | secondChange other old p k hcontroller =>
      simp only [Counting, hcontroller, Controller.secondWait.injEq, reduceCtorEq,
        false_or] at hcounting
      obtain ⟨_, first, second, -, ⟨rfl, -⟩, -⟩ := hcounting
      exact .inl (by simp)

/-- No failed read changes the input shadow in the states these actions pass
through. -/
def FailedReadsUnseen (actions : List Action) : Prop :=
  ∀ before after state past action next now port pin level,
    actions = before ++ action :: after →
    run State.powerOn before = .ok (state, past) →
    step state action = .ok (next, now) →
    .stored port pin level false ∈ now → next.data.input = state.data.input

/-- Between the sample and the finish of a command the level of its pin that
successful reads deliver changes at least twice, counted from the level
delivered last before the sample. -/
def FinishesOnMovement (actions : List Action) : Prop :=
  ∀ before between after command port pin level sampling waiting state next past
      during now,
    actions = before ++ .controller :: between ++ .controller :: after →
    command.index = some (port, pin) →
    run State.powerOn before = .ok (sampling, past) →
    step sampling .controller = .ok (waiting, [.sampled command level]) →
    run waiting between = .ok (state, during) →
    .finished command ∉ during →
    step state .controller = .ok (next, now) → .finished command ∈ now →
    2 ≤ changes ((goodLevels port pin past).getLastD 0)
      (goodLevels port pin during)

/-- While failed transfers go unnoticed, so do failed reads. -/
theorem failedReadsUnseen_of_meets {actions : List Action}
    (hmeets : Runs.StepsMeet step FailsUnnoticed State.powerOn actions) :
    FailedReadsUnseen actions := by
  rintro before after state past action next now port pin level rfl hrun hstep
    hstored
  have hfaithful := faithful_of_run hmeets.append_left hrun
  cases move_of_step hstep with
  | store result phase p k value good hscan =>
      rw [List.mem_singleton, Event.stored.injEq] at hstored
      obtain ⟨-, -, -, rfl⟩ := hstored
      exact hfaithful.setPin_failed hscan
  | _ => simp at hstored

/-- The state that follows a sample. -/
theorem sampled_state {state next : State} {action : Action}
    {command : GateCommand} {level : UInt8} {port : Port} {pin : Pin}
    (hindex : command.index = some (port, pin))
    (hstep : step state action = .ok (next, [.sampled command level])) :
    next.controller = .enqueueing command level ∧
      next.data = state.data ∧ level = state.data.input port pin := by
  generalize hnow : [Event.sampled command level] = now at hstep
  cases move_of_step hstep with
  | sample other p k hcontroller hother =>
      rw [List.cons.injEq, Event.sampled.injEq] at hnow
      obtain ⟨⟨rfl, rfl⟩, -⟩ := hnow
      rw [hindex, Option.some.injEq, Prod.mk.injEq] at hother
      obtain ⟨rfl, rfl⟩ := hother
      exact ⟨rfl, rfl, rfl⟩
  | _ => simp at hnow

/-- A step that finishes a command leaves its second wait loop. -/
theorem finished_step {state next : State} {action : Action}
    {now : List Event} {command : GateCommand} {port : Port} {pin : Pin}
    (hindex : command.index = some (port, pin))
    (hstep : step state action = .ok (next, now))
    (hfinished : .finished command ∈ now) :
    ∃ old, state.controller = .secondWait command old ∧
      state.data.input port pin ≠ old ∧
      next = { state with controller := .top } ∧
      now = [.polled command (state.data.input port pin),
        .finished command] := by
  cases move_of_step hstep with
  | secondChange other old p k hcontroller hother hchange =>
      simp only [List.mem_cons, reduceCtorEq, Event.finished.injEq,
        List.not_mem_nil, or_false, false_or] at hfinished
      subst hfinished
      rw [hindex, Option.some.injEq, Prod.mk.injEq] at hother
      obtain ⟨rfl, rfl⟩ := hother
      exact ⟨old, hcontroller, hchange, rfl, rfl⟩
  | _ => simp at hfinished

theorem finishesOnMovement_of_meets {actions : List Action}
    (hmeets : Runs.StepsMeet step FailsUnnoticed State.powerOn actions) :
    FinishesOnMovement actions := by
  rintro before between after command port pin level sampling waiting state next
    past during now rfl hindex hbefore hsample hbetween hnone hfinish hfinished
  rw [List.append_assoc] at hmeets
  have hstart := Runs.run_append hbefore (Runs.run_one hsample)
  have hsampling := faithful_of_run hmeets.append_left hbefore
  obtain ⟨hcontroller, hdata, rfl⟩ := sampled_state hindex hsample
  have hlater := (hmeets.append_right hbefore).2 waiting _ hsample
  have hinv := Runs.run_invariant step FailsUnnoticed
    (fun current seen => Faithful current (past ++
        [.sampled command (sampling.data.input port pin)] ++ seen) ∧
      (.finished command ∈ seen ∨
        Counting command port pin (sampling.data.input port pin) current seen))
    (fun current seen action later here hcurrent hguard hstep => ?_)
    ⟨?_, .inr (.inl hcontroller)⟩ hlater.append_left hbetween
  · obtain ⟨hfaithful, hcounted⟩ := hinv
    obtain ⟨old, hsecond, hchange, -⟩ :=
      finished_step hindex hfinish hfinished
    have hcounting := hcounted.resolve_left hnone
    have hinput := hsampling.follows hfaithful port pin
    simp only [Counting, hsecond, reduceCtorEq, Controller.secondWait.injEq,
      true_and, false_or] at hcounting hinput
    obtain ⟨_, first, second, rfl, rfl, hpos, rfl⟩ := hcounting
    rw [Follows, goodLevels_append, getLastD_append] at hinput
    have hback := changes_pos (hinput ▸ hchange)
    rw [← hsampling.shadow, goodLevels_append, changes_append]
    omega
  · obtain ⟨hfaithful, hcounted⟩ := hcurrent
    refine ⟨?_, ?_⟩
    · rw [← List.append_assoc]
      exact hfaithful.step hguard hstep
    · rcases hcounted with hfinished | hcounting
      · exact .inl (List.mem_append_left _ hfinished)
      · exact (hcounting.step hindex (hsampling.follows hfaithful port pin)
          hstep).imp_left (List.mem_append_right _)
  · rw [List.append_nil]
    exact hsampling.step (hmeets.append_right hbefore).1 hsample

/-- While transfers fail only on ports without active inputs, bus errors never
look like sensor edges. -/
theorem bus_errors_unseen {actions : List Action}
    (hmeets : Runs.StepsMeet step FailsUnnoticed State.powerOn actions) :
    FailedReadsUnseen actions ∧ FinishesOnMovement actions :=
  ⟨failedReadsUnseen_of_meets hmeets, finishesOnMovement_of_meets hmeets⟩

/-- A trigger command finishes on two changes of its sensor while every transfer
of the other port fails. -/
def otherPortFails : List Action :=
  startUp ++ List.replicate 10 (.ioScan (.ok 0xfe#8)) ++
    List.replicate 9 (.ioScan (.ok 0xff#8)) ++
    .sendGateCommand ⟨0, gateTriggerCommand, rightGate⟩ ::
      List.replicate 3 .controller ++
    List.replicate 11 (.ioScan (.ok 0xff#8)) ++
    List.replicate 9 (.ioScan .error) ++
    .controller :: List.replicate 10 (.ioScan (.ok 0xfe#8)) ++
    List.replicate 9 (.ioScan .error) ++ [.controller]

theorem bus_errors_unseen_otherPort :
    (∃ final trace, run State.powerOn otherPortFails = .ok (final, trace) ∧
      .stored 1 0 0 false ∈ trace ∧
      .sampled ⟨0, gateTriggerCommand, rightGate⟩ 1 ∈ trace ∧
      .finished ⟨0, gateTriggerCommand, rightGate⟩ ∈ trace) ∧
      FailedReadsUnseen otherPortFails ∧ FinishesOnMovement otherPortFails :=
  ⟨⟨_, _, rfl, by decide, by decide, by decide⟩,
    bus_errors_unseen (by decide +kernel)⟩

/-- Up to the sample of a trigger command, with the sensor active. -/
def activeSample : List Action :=
  startUp ++ List.replicate 19 (.ioScan (.ok 0xfe#8)) ++
    [.sendGateCommand ⟨0, gateTriggerCommand, rightGate⟩, .controller]

/-- The motor is switched on, one pass of reads fails, and the next pass finds
the sensor as it was. -/
def failedPass : List Action :=
  .controller :: List.replicate 2 (.ioScan (.ok 0xff#8)) ++
    List.replicate 18 (.ioScan .error) ++
    .controller :: List.replicate 19 (.ioScan (.ok 0xfe#8))

/-- One pass of failed reads zeroes an active input and completes the command
without any movement. -/
theorem failedPass_looks_like_edges :
    ¬ FinishesOnMovement
      (activeSample ++ .controller :: failedPass ++ .controller :: []) := by
  intro hmovement
  have htwo := hmovement activeSample failedPass []
    ⟨0, gateTriggerCommand, rightGate⟩ 0 0 1 _ _ _ _ _ _ _ rfl (by decide) rfl
    rfl rfl (by decide) rfl (by decide)
  exact absurd htwo (by decide)

end Conveyor.Gate
