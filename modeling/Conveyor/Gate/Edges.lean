import Conveyor.Gate.BusErrors

/-!
# The edge law

The controller finishes a command when it has seen its sensor leave the sampled
level and come back.  What it sees is what it polls, so the law is about the
polls and the changes between them: a poll finds the level of the last change,
and if the pin changes at most once between two polls, no change is missed.
-/

namespace Conveyor.Gate

open Conveyor.Core Conveyor.Rtos Conveyor.IoDriver

/-- How often the pin has changed since it was sampled at `level`. -/
abbrev flips (port : Port) (pin : Pin) (level : UInt8) (during : List Event) :
    ℕ :=
  changes level (storedLevels port pin during)

/-- Since the sample the wait loops have polled between any two changes of the
pin: a stretch without a poll holds at most one. -/
def PolledBetween (command : GateCommand) (port : Port) (pin : Pin)
    (level : UInt8) (during : List Event) : Prop :=
  ∀ first middle last, during = first ++ middle ++ last →
    (∀ seen, .polled command seen ∉ middle) →
    flips port pin ((storedLevels port pin first).getLastD level) middle ≤ 1

/-- What the controller does with a command between its sample at `level` and
its finish, `during` being what has happened since the sample. -/
structure EdgeLaw (command : GateCommand) (port : Port) (pin : Pin)
    (level : UInt8) (state : State) (during : List Event) : Prop where
  /-- The second wait loop is left only by a poll that finds the sampled level
  again after two changes, and for the top of the task. -/
  leaves : ∀ action next now, step state action = .ok (next, now) →
    .finished command ∈ now →
    next = { state with controller := .top } ∧
      now = [.polled command level, .finished command] ∧
      2 ≤ flips port pin level during
  takesNothing : ∀ other, .took other ∉ during
  /-- After the second change the next poll leaves the second wait loop. -/
  exact : PolledBetween command port pin level during →
    2 ≤ flips port pin level during →
    step state .controller = .ok ({ state with controller := .top },
      [.polled command level, .finished command])
  /-- There has been no poll since the second change. -/
  firstPoll : PolledBetween command port pin level during →
    ∀ first second, during = first ++ second →
      2 ≤ flips port pin level first → ∀ seen, .polled command seen ∉ second

theorem flips_append (port : Port) (pin : Pin) (level : UInt8)
    (first second : List Event) :
    flips port pin level (first ++ second) =
      flips port pin level first +
        flips port pin ((storedLevels port pin first).getLastD level)
          second := by
  rw [flips, storedLevels_append, changes_append]

/-- A poll stores nothing. -/
theorem storedLevels_append_polled (port : Port) (pin : Pin)
    (during : List Event) (command : GateCommand) (value : UInt8) :
    storedLevels port pin (during ++ [.polled command value]) =
      storedLevels port pin during := by
  rw [storedLevels_append]
  exact List.append_nil _

theorem PolledBetween.append_left {command : GateCommand} {port : Port}
    {pin : Pin} {level : UInt8} {first second : List Event}
    (hpolled : PolledBetween command port pin level (first ++ second)) :
    PolledBetween command port pin level first := by
  rintro before middle last rfl hsilent
  exact hpolled before middle (last ++ second) (by simp) hsilent

/-- Where the controller stands that compares the pin with `old`. -/
def Controller.ComparesWith (command : GateCommand) (level old : UInt8) :
    Controller → Prop
  | .enqueueing current value | .firstWait current value =>
      current = command ∧ value = level ∧ old = level
  | .secondWait current value => current = command ∧ value = old ∧ old ≠ level
  | _ => False

/-- The last poll has seen `old` at the end of `first`, or there was none and
`old` is the sample; `second` has happened since. -/
structure LastPoll (command : GateCommand) (port : Port) (pin : Pin)
    (level : UInt8) (state : State) (first second : List Event) (old : UInt8) :
    Prop where
  compares : state.controller.ComparesWith command level old
  seen : (storedLevels port pin first).getLastD level = old
  silent : ∀ value, .polled command value ∉ second
  missed : PolledBetween command port pin level (first ++ second) →
    flips port pin level first = if old = level then 0 else 1
  takesNothing : ∀ other, .took other ∉ first ++ second

/-- The command sampled at `level` is being waited for. -/
def Awaited (command : GateCommand) (port : Port) (pin : Pin) (level : UInt8)
    (state : State) (during : List Event) : Prop :=
  ∃ first second old, during = first ++ second ∧
    LastPoll command port pin level state first second old

section Polls

variable {command : GateCommand} {port : Port} {pin : Pin} {level old : UInt8}
variable {state : State} {first second : List Event}

/-- Without a poll the pin changes at most once. -/
theorem LastPoll.flips_le_one
    (hlast : LastPoll command port pin level state first second old)
    (hpolled : PolledBetween command port pin level (first ++ second)) :
    flips port pin old second ≤ 1 := by
  have hone := hpolled first second [] (by simp) hlast.silent
  rwa [hlast.seen] at hone

/-- All changes are those before the last poll and those since. -/
theorem LastPoll.flips_append
    (hlast : LastPoll command port pin level state first second old) :
    flips port pin level (first ++ second) =
      flips port pin level first + flips port pin old second := by
  rw [Gate.flips_append, hlast.seen]

/-- The pin has the level of its last change since the last poll. -/
theorem LastPoll.input_eq
    (hlast : LastPoll command port pin level state first second old)
    (hinput : state.data.input port pin =
      (storedLevels port pin (first ++ second)).getLastD level) :
    (storedLevels port pin second).getLastD old =
      state.data.input port pin := by
  rw [hinput, storedLevels_append, getLastD_append, hlast.seen]

/-- A step that neither moves the controller nor polls. -/
theorem LastPoll.of_quiet {next : State} {now : List Event}
    (hlast : LastPoll command port pin level state first second old)
    (hcompares : next.controller.ComparesWith command level old)
    (hsilent : ∀ value, .polled command value ∉ now)
    (htook : ∀ other, .took other ∉ now) :
    Awaited command port pin level next (first ++ second ++ now) := by
  refine ⟨first, second ++ now, old, List.append_assoc _ _ _, hcompares,
    hlast.seen, ?_, ?_, ?_⟩
  · intro value hmem
    rcases List.mem_append.mp hmem with hbefore | hnow
    · exact hlast.silent value hbefore
    · exact hsilent value hnow
  · intro hpolled
    rw [← List.append_assoc] at hpolled
    exact hlast.missed hpolled.append_left
  · intro other hmem
    rw [← List.append_assoc] at hmem
    rcases List.mem_append.mp hmem with hbefore | hnow
    · exact hlast.takesNothing other hbefore
    · exact htook other hnow

/-- A poll that does not finish the command. -/
theorem LastPoll.of_poll {next : State} {value : UInt8}
    (hlast : LastPoll command port pin level state first second old)
    (hinput : state.data.input port pin =
      (storedLevels port pin (first ++ second)).getLastD level)
    (hvalue : state.data.input port pin = value)
    (hcompares : next.controller.ComparesWith command level value)
    (hfirst : value ≠ old → old = level) :
    Awaited command port pin level next
      (first ++ second ++ [.polled command value]) := by
  refine ⟨first ++ second ++ [.polled command value], [], value, by simp,
    hcompares, ?_, by simp, ?_, ?_⟩
  · rw [storedLevels_append_polled, ← hinput, hvalue]
  · intro hpolled
    rw [List.append_nil] at hpolled
    have hbefore := hpolled.append_left
    have hone := hlast.flips_le_one hbefore
    have hmissed := hlast.missed hbefore
    have hlevel := hlast.input_eq hinput
    have htotal : flips port pin level
        (first ++ second ++ [.polled command value]) =
          (if old = level then 0 else 1) + flips port pin old second := by
      rw [flips, storedLevels_append_polled, ← hmissed, ← hlast.flips_append]
    rw [htotal]
    by_cases hsame : value = old
    · -- The poll finds what the last one found.
      have hzero : flips port pin old second = 0 :=
        changes_eq_zero_of_le_one hone (by rw [hlevel, hvalue, hsame])
      rw [hzero, hsame, Nat.add_zero]
    · -- The poll finds the one change since the sample.
      obtain rfl := hfirst hsame
      have hchange : flips port pin old second = 1 :=
        changes_eq_one_of_le_one hone (by rwa [hlevel, hvalue])
      rw [hchange, if_pos rfl, if_neg hsame]
  · intro other hmem
    simp only [List.append_nil, List.mem_append, List.mem_singleton,
      reduceCtorEq, or_false] at hmem
    exact hlast.takesNothing other (List.mem_append.mpr hmem)

end Polls

theorem Awaited.step {command : GateCommand} {port : Port} {pin : Pin}
    {level : UInt8} {state next : State} {action : Action}
    {during now : List Event}
    (hawaited : Awaited command port pin level state during)
    (hindex : command.index = some (port, pin))
    (hinput : state.data.input port pin =
      (storedLevels port pin during).getLastD level)
    (hstep : step state action = .ok (next, now)) :
    .finished command ∈ now ∨
      Awaited command port pin level next (during ++ now) := by
  obtain ⟨first, second, old, rfl, hlast⟩ := hawaited
  have hcompares := hlast.compares
  cases move_of_step hstep with
  | scanStart | scanStarted | gateQueueInit | controllerStarted | offer
  | controllerAbsent | idle | scanAbsent | configParam | installDriver
  | resetWrite | transfer | store | queueInit | nothingQueued | dequeue
  | write =>
      exact .inr (hlast.of_quiet hcompares (by simp) (by simp))
  | controllerStart hcontroller | take other queue hcontroller
  | sample other p k hcontroller =>
      rw [hcontroller] at hcompares
      exact hcompares.elim
  | enqueue other value queue accepted hcontroller hsend =>
      rw [hcontroller] at hcompares
      exact .inr (hlast.of_quiet hcompares (by simp) (by simp))
  | firstSame other value p k hcontroller hother hsame =>
      rw [hcontroller] at hcompares
      obtain ⟨rfl, rfl, rfl⟩ := hcompares
      rw [hindex, Option.some.injEq, Prod.mk.injEq] at hother
      obtain ⟨rfl, rfl⟩ := hother
      exact .inr (hlast.of_poll hinput hsame hlast.compares fun _ => rfl)
  | firstChange other value p k hcontroller hother hchange =>
      rw [hcontroller] at hcompares
      obtain ⟨rfl, rfl, rfl⟩ := hcompares
      rw [hindex, Option.some.injEq, Prod.mk.injEq] at hother
      obtain ⟨rfl, rfl⟩ := hother
      exact .inr (hlast.of_poll hinput rfl ⟨rfl, rfl, hchange⟩ fun _ => rfl)
  | secondSame other value p k hcontroller hother hsame =>
      rw [hcontroller] at hcompares
      obtain ⟨rfl, rfl, hleft⟩ := hcompares
      rw [hindex, Option.some.injEq, Prod.mk.injEq] at hother
      obtain ⟨rfl, rfl⟩ := hother
      exact .inr (hlast.of_poll hinput hsame hlast.compares
        fun hchange => absurd rfl hchange)
  | secondChange other value p k hcontroller =>
      rw [hcontroller] at hcompares
      obtain ⟨rfl, -⟩ := hcompares
      exact .inl (by simp)

theorem awaited_sampled {command : GateCommand} {level : UInt8} {state : State}
    (port : Port) (pin : Pin)
    (hcontroller : state.controller = .enqueueing command level) :
    Awaited command port pin level state [] := by
  refine ⟨[], [], level, rfl, ?_, rfl, by simp, ?_, by simp⟩
  · rw [hcontroller]
    exact ⟨rfl, rfl, rfl⟩
  · intro _
    rw [if_pos rfl]
    rfl

/-- The wait that begins with a sample lasts until the command is finished. -/
theorem awaited_run {command : GateCommand} {port : Port} {pin : Pin}
    {level : UInt8} {sampling waiting state : State} {between : List Action}
    {during : List Event} (hindex : command.index = some (port, pin))
    (hsample : step sampling .controller =
      .ok (waiting, [.sampled command level]))
    (hbetween : run waiting between = .ok (state, during))
    (hnone : .finished command ∉ during) :
    Awaited command port pin level state during ∧
      state.data.input port pin =
        (storedLevels port pin during).getLastD level := by
  obtain ⟨hcontroller, hdata, rfl⟩ := sampled_state hindex hsample
  have hinv := Runs.run_history_invariant step
    (fun current seen =>
      current.data.input port pin = (storedLevels port pin seen).getLastD
        (sampling.data.input port pin) ∧
      (.finished command ∈ seen ∨ Awaited command port pin
        (sampling.data.input port pin) current seen))
    (fun current seen action next now hcurrent hstep => ?_)
    ⟨by rw [hdata]; rfl, .inr (awaited_sampled port pin hcontroller)⟩ hbetween
  · exact ⟨hinv.2.resolve_left hnone, hinv.1⟩
  · obtain ⟨hinput, hwaited⟩ := hcurrent
    refine ⟨?_, ?_⟩
    · rw [input_step hstep, hinput, storedLevels_append, getLastD_append]
    · rcases hwaited with hfinished | hawaited
      · exact .inl (List.mem_append_left _ hfinished)
      · exact (hawaited.step hindex hinput hstep).imp_left
          (List.mem_append_right _)

/-! ## Levels are 0 or 1 -/

theorem storedLevels_step {state next : State} {action : Action}
    {now : List Event} (hstep : step state action = .ok (next, now))
    (port : Port) (pin : Pin) :
    ∀ level ∈ storedLevels port pin now, level = 0 ∨ level = 1 := by
  cases move_of_step hstep with
  | store result phase p k value good hscan =>
      rw [storedLevels_stored]
      intro level hmem
      split at hmem
      · rw [List.mem_singleton.mp hmem]
        exact pinLevel_zero_or_one value k
      · simp at hmem
  | _ => simp [storedLevels, Event.storedLevel]

theorem storedLevels_run {state final : State} {actions : List Action}
    {trace : List Event} (hrun : run state actions = .ok (final, trace))
    (port : Port) (pin : Pin) :
    ∀ level ∈ storedLevels port pin trace, level = 0 ∨ level = 1 := by
  refine Runs.run_history_invariant step
    (fun _ past => ∀ level ∈ storedLevels port pin past, level = 0 ∨ level = 1)
    (fun current past action next now hpast hstep => ?_) (by simp) hrun
  intro level hmem
  rw [storedLevels_append] at hmem
  rcases List.mem_append.mp hmem with hbefore | hnow
  · exact hpast level hbefore
  · exact storedLevels_step hstep port pin level hnow

/-- Of two levels, what differs from the second is the first. -/
theorem eq_of_levels {level old current : UInt8}
    (hlevel : level = 0 ∨ level = 1) (hold : old = 0 ∨ old = 1)
    (hcurrent : current = 0 ∨ current = 1) (hleft : old ≠ level)
    (hchange : current ≠ old) : current = level := by
  rcases hlevel with rfl | rfl <;> rcases hold with rfl | rfl <;>
    rcases hcurrent with rfl | rfl <;> simp_all

/-! ## The law -/

section Law

variable {command : GateCommand} {port : Port} {pin : Pin} {level old : UInt8}
variable {state : State} {first second : List Event}

/-- What the last poll has seen is a level. -/
theorem LastPoll.isLevel
    (hlast : LastPoll command port pin level state first second old)
    (hlevel : level = 0 ∨ level = 1)
    (hstored : ∀ value ∈ storedLevels port pin (first ++ second),
      value = 0 ∨ value = 1) : old = 0 ∨ old = 1 := by
  have hmem : old ∈ level :: storedLevels port pin first :=
    hlast.seen ▸ List.getLastD_mem_cons
  rcases List.mem_cons.mp hmem with rfl | hbefore
  · exact hlevel
  · refine hstored old ?_
    rw [storedLevels_append]
    exact List.mem_append_left _ hbefore

/-- The controller compares with another level than the sampled one only in
its second wait loop. -/
theorem LastPoll.controller_eq
    (hlast : LastPoll command port pin level state first second old)
    (hleft : old ≠ level) : state.controller = .secondWait command old := by
  have hcompares := hlast.compares
  cases hcontroller : state.controller with
  | notCreated | top | sampling =>
      rw [hcontroller] at hcompares
      exact hcompares.elim
  | enqueueing current value | firstWait current value =>
      rw [hcontroller] at hcompares
      exact absurd hcompares.2.2 hleft
  | secondWait current value =>
      rw [hcontroller] at hcompares
      obtain ⟨rfl, rfl, -⟩ := hcompares
      rfl

/-- Seen in the second wait loop, the level has changed twice. -/
theorem LastPoll.two_le_flips
    (hlast : LastPoll command port pin level state first second old)
    (hleft : old ≠ level)
    (hmoved : (storedLevels port pin second).getLastD old ≠ old) :
    2 ≤ flips port pin level (first ++ second) := by
  have hsecond : 0 < flips port pin old second := changes_pos hmoved
  have hfirst : 0 < flips port pin level first :=
    changes_pos (by rwa [hlast.seen])
  rw [hlast.flips_append]
  omega

/-- Seen polled, the second change has happened since the last poll. -/
theorem LastPoll.second_change
    (hlast : LastPoll command port pin level state first second old)
    (hpolled : PolledBetween command port pin level (first ++ second))
    (htwo : 2 ≤ flips port pin level (first ++ second)) :
    old ≠ level ∧ (storedLevels port pin second).getLastD old ≠ old := by
  have hone := hlast.flips_le_one hpolled
  rw [hlast.flips_append, hlast.missed hpolled] at htwo
  constructor
  · rintro rfl
    rw [if_pos rfl] at htwo
    omega
  · intro hsame
    have hnot : flips port pin old second ≠ 1 := changes_ne_one hsame
    split at htwo <;> omega

/-- A poll that finds the second wait's level changed finds the sampled one. -/
theorem LastPoll.back
    (hlast : LastPoll command port pin level state first second old)
    (hlevel : level = 0 ∨ level = 1)
    (hstored : ∀ value ∈ storedLevels port pin (first ++ second),
      value = 0 ∨ value = 1)
    (hlevels : IsLevels state.data.input) (hleft : old ≠ level)
    (hchange : state.data.input port pin ≠ old) :
    state.data.input port pin = level :=
  eq_of_levels hlevel (hlast.isLevel hlevel hstored) (hlevels port pin) hleft
    hchange

/-- Up to the last poll the pin has changed at most once. -/
theorem LastPoll.flips_first_le_one
    (hlast : LastPoll command port pin level state first second old)
    (hpolled : PolledBetween command port pin level (first ++ second)) :
    flips port pin level first ≤ 1 := by
  rw [hlast.missed hpolled]
  split <;> omega

/-- No poll follows the second change. -/
theorem LastPoll.not_polled_after
    (hlast : LastPoll command port pin level state first second old)
    (hpolled : PolledBetween command port pin level (first ++ second))
    {before after : List Event} (hsplit : first ++ second = before ++ after)
    (htwo : 2 ≤ flips port pin level before) (seen : UInt8) :
    .polled command seen ∉ after := by
  rcases List.append_eq_append_iff.mp hsplit with
    ⟨middle, rfl, rfl⟩ | ⟨middle, rfl, rfl⟩
  · intro hmem
    exact hlast.silent seen (List.mem_append_right _ hmem)
  · have hone := hlast.flips_first_le_one hpolled
    rw [Gate.flips_append] at hone
    omega

end Law

/-- The controller leaves its second wait loop only at a poll that finds the
sampled level again after two changes; if it polls between any two changes, it
leaves at the first poll after the second change.  It takes no other command
before. -/
theorem edgeLaw {before between : List Action} {command : GateCommand}
    {port : Port} {pin : Pin} {level : UInt8} {sampling waiting state : State}
    {past during : List Event} (hindex : command.index = some (port, pin))
    (hbefore : run State.powerOn before = .ok (sampling, past))
    (hsample : step sampling .controller =
      .ok (waiting, [.sampled command level]))
    (hbetween : run waiting between = .ok (state, during))
    (hnone : .finished command ∉ during) :
    EdgeLaw command port pin level state during := by
  obtain ⟨⟨first, second, old, rfl, hlast⟩, hinput⟩ :=
    awaited_run hindex hsample hbetween hnone
  have hsound := sound_of_run hbefore
  have hlevels := ((hsound.step hsample).run hbetween).levels
  have hstored := storedLevels_run hbetween port pin
  have hlevel : level = 0 ∨ level = 1 := by
    obtain ⟨-, -, rfl⟩ := sampled_state hindex hsample
    exact hsound.levels port pin
  have hlater := hlast.input_eq hinput
  refine ⟨?_, hlast.takesNothing, ?_, ?_⟩
  · intro action next now hstep hfinished
    obtain ⟨value, hcontroller, hchange, rfl, rfl⟩ :=
      finished_step hindex hstep hfinished
    obtain ⟨rfl, hleft⟩ : value = old ∧ old ≠ level := by
      have hcompares := hlast.compares
      rw [hcontroller] at hcompares
      exact hcompares.2
    rw [hlast.back hlevel hstored hlevels hleft hchange]
    exact ⟨rfl, rfl, hlast.two_le_flips hleft (by rwa [hlater])⟩
  · intro hpolled htwo
    obtain ⟨hleft, hmoved⟩ := hlast.second_change hpolled htwo
    rw [hlater] at hmoved
    have hback := hlast.back hlevel hstored hlevels hleft hmoved
    have hmove := Move.secondChange command old port pin
      (hlast.controller_eq hleft) hindex hmoved
    rw [hback] at hmove
    exact step_of_move hmove
  · intro hpolled before after hsplit htwo seen
    exact hlast.not_polled_after hpolled hsplit htwo seen

/-- A sensor is released in one pass and active again in the next, with a poll
in between. -/
theorem edgeLaw_failedPass :
    ∃ sampling waiting state past during,
      run State.powerOn activeSample = .ok (sampling, past) ∧
      step sampling .controller = .ok (waiting,
        [.sampled ⟨0, gateTriggerCommand, rightGate⟩ 1]) ∧
      run waiting failedPass = .ok (state, during) ∧
      2 ≤ flips 0 0 1 during ∧
      EdgeLaw ⟨0, gateTriggerCommand, rightGate⟩ 0 0 1 state during :=
  ⟨_, _, _, _, _, rfl, rfl, rfl, by decide,
    @edgeLaw activeSample failedPass _ _ _ _ _ _ _ _ _ (by decide) rfl rfl rfl
      (by decide)⟩

end Conveyor.Gate
