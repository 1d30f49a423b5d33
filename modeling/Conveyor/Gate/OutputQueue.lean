import Conveyor.Gate.Soundness

/-!
# The output queue stays short

Nothing in the code pushes back on the controller.  What bounds the output
queue is that a command finishes only after its pin has changed twice since
the sample, that a scan pass stores each pin once, and that every pass starts
with a dequeue.  A change that is already in the shadow before the enqueue lets
the controller run one command ahead, and no further.
-/

namespace Conveyor.Gate

open Conveyor.Core Conveyor.Rtos Conveyor.IoDriver

/-- The current pass has stored the pin, so the next store of it comes after
the next dequeue. -/
def Scan.Passed (port : Port) (pin : Pin) : Scan → Prop
  | .top => True
  | .transfer .scan p => port < p
  | .store .scan p k _ _ => port < p ∨ port = p ∧ pin < k
  | _ => False

theorem passed_afterStore {port p : Port} {pin k : Pin} {value : Byte}
    {good : Bool}
    (hpassed : port < p ∨ port = p ∧ pin ≤ k) :
    (afterStore .scan p k value good).Passed port pin := by
  unfold afterStore nextPin
  by_cases hlast : k.val + 1 < 8
  · rw [dif_pos hlast]
    refine hpassed.imp_right fun hsame => ⟨hsame.1, ?_⟩
    exact Nat.lt_succ_of_le hsame.2
  · rw [dif_neg hlast]
    match p with
    | 0 =>
        rcases hpassed with hlt | ⟨rfl, -⟩
        · exact absurd hlt (by simp)
        · exact Nat.zero_lt_one
    | 1 => trivial

/-- How many output commands may wait at each point of the controller. -/
def OutputBound (state : State) : Prop :=
  match state.controller with
  | .enqueueing command old =>
      (contents state.ioQueue).length = 0 ∨
        (contents state.ioQueue).length ≤ 1 ∧
          ∀ port pin, command.index = some (port, pin) →
            state.data.input port pin = old ∨ state.scan.Passed port pin
  | .firstWait command old =>
      (contents state.ioQueue).length ≤ 1 ∨
        (contents state.ioQueue).length ≤ 2 ∧
          ∀ port pin, command.index = some (port, pin) →
            state.data.input port pin = old ∨ state.scan.Passed port pin
  | .secondWait command old =>
      (contents state.ioQueue).length ≤ 1 ∨
        (contents state.ioQueue).length ≤ 2 ∧
          ∀ port pin, command.index = some (port, pin) →
            state.data.input port pin = old ∧ state.scan.Passed port pin
  | _ => (contents state.ioQueue).length ≤ 1

theorem OutputBound.length_le_two {state : State} (hbound : OutputBound state) :
    (contents state.ioQueue).length ≤ 2 := by
  unfold OutputBound at hbound
  split at hbound <;> omega

/-- A bounded queue accepts what `command_enqueue` sends. -/
theorem OutputBound.accepts {state : State} (hbound : OutputBound state)
    {output : OutputCommand} {queue : QueueHandle OutputCommand}
    {accepted : Bool}
    (hsend : xQueueSend state.ioQueue output = .ok (queue, accepted)) :
    accepted = true := by
  obtain ⟨-, -, haccepted, -⟩ := xQueueSend_ok hsend
  rw [haccepted, decide_eq_true_eq]
  exact lt_of_le_of_lt hbound.length_le_two (by decide)

/-- Before `queue_init` there is nothing to bound. -/
theorem outputBound_of_empty {state : State}
    (hempty : contents state.ioQueue = []) : OutputBound state := by
  unfold OutputBound
  split <;> simp [hempty]

/-- A scan step that neither takes from the queue nor stores a pin. -/
theorem OutputBound.of_scan {state next : State} (hbound : OutputBound state)
    (hcontroller : next.controller = state.controller)
    (hqueue : contents next.ioQueue = contents state.ioQueue)
    (hinput : next.data.input = state.data.input)
    (hpassed : ∀ port pin, state.scan.Passed port pin →
      next.scan.Passed port pin) : OutputBound next := by
  unfold OutputBound at hbound ⊢
  rw [hcontroller, hqueue, hinput]
  cases hpoint : state.controller with
  | notCreated | top | sampling => simpa [hpoint] using hbound
  | enqueueing command old | firstWait command old | secondWait command old =>
      simp only [hpoint] at hbound ⊢
      exact hbound.imp_right fun hpending =>
        ⟨hpending.1, fun port pin hindex =>
          (hpending.2 port pin hindex).imp_right (hpassed port pin)⟩

/-- A pass that starts takes a command if there is one. -/
theorem OutputBound.of_dequeue {state next : State} (hbound : OutputBound state)
    (hcontroller : next.controller = state.controller)
    (hqueue : (contents next.ioQueue).length =
      (contents state.ioQueue).length - 1) : OutputBound next := by
  unfold OutputBound at hbound ⊢
  rw [hcontroller, hqueue]
  cases hpoint : state.controller with
  | notCreated | top | sampling =>
      simp only [hpoint] at hbound ⊢
      omega
  | enqueueing command old | firstWait command old | secondWait command old =>
      simp only [hpoint] at hbound ⊢
      exact .inl (by omega)

/-- Storing a pin leaves the other pins alone and passes the stored one. -/
theorem OutputBound.of_store {state next : State} {port : Port} {pin : Pin}
    {value : Byte} {good : Bool} (hbound : OutputBound state)
    (hscan : state.scan = .store .scan port pin value good)
    (hcontroller : next.controller = state.controller)
    (hqueue : next.ioQueue = state.ioQueue)
    (hinput : next.data.input =
      setPin state.data.input port pin (pinLevel value pin))
    (hnext : next.scan = afterStore .scan port pin value good) :
    OutputBound next := by
  have hstays : ∀ p k, state.scan.Passed p k →
      next.data.input p k = state.data.input p k ∧ next.scan.Passed p k := by
    intro p k hpassed
    rw [hscan] at hpassed
    rw [hinput, hnext, setPin_apply, if_neg]
    · exact ⟨rfl, passed_afterStore
        (hpassed.imp_right fun hsame => ⟨hsame.1, le_of_lt hsame.2⟩)⟩
    · rintro ⟨rfl, rfl⟩
      rcases hpassed with hlt | ⟨-, hlt⟩
      · exact lt_irrefl _ hlt
      · exact lt_irrefl _ hlt
  have heither : ∀ p k old, state.data.input p k = old ∨ state.scan.Passed p k →
      next.data.input p k = old ∨ next.scan.Passed p k := by
    intro p k old hfresh
    by_cases hhere : p = port ∧ k = pin
    · obtain ⟨rfl, rfl⟩ := hhere
      exact .inr (hnext ▸ passed_afterStore (.inr ⟨rfl, le_refl _⟩))
    · rcases hfresh with hsame | hpassed
      · refine .inl ?_
        rw [hinput, setPin_apply, if_neg hhere, hsame]
      · exact .inr (hstays p k hpassed).2
  unfold OutputBound at hbound ⊢
  rw [hcontroller, hqueue]
  cases hpoint : state.controller with
  | notCreated | top | sampling => simpa [hpoint] using hbound
  | enqueueing command old | firstWait command old =>
      simp only [hpoint] at hbound ⊢
      exact hbound.imp_right fun hpending =>
        ⟨hpending.1, fun p k hindex =>
          heither p k old (hpending.2 p k hindex)⟩
  | secondWait command old =>
      simp only [hpoint] at hbound ⊢
      refine hbound.imp_right fun hpending =>
        ⟨hpending.1, fun p k hindex => ?_⟩
      obtain ⟨hsame, hpassed⟩ := hpending.2 p k hindex
      obtain ⟨hinputs, hafter⟩ := hstays p k hpassed
      exact ⟨hinputs.trans hsame, hafter⟩

theorem OutputBound.step {state next : State} {action : Action}
    {now : List Event} (hsound : Sound state) (hbound : OutputBound state)
    (hstep : step state action = .ok (next, now)) : OutputBound next := by
  have hstarting : ¬ state.scan.Looping → contents state.ioQueue = [] :=
    fun hscan => by rw [hsound.ioQueue_eq_none hscan, contents_none]
  cases move_of_step hstep with
  | scanStarted | controllerStarted | controllerAbsent | idle | firstSame
  | secondSame | scanAbsent | gateQueueInit | offer => exact hbound
  | scanStart hscan | configParam result hscan | installDriver result hscan
  | resetWrite result port pin data bus byte hscan hwrite =>
      exact outputBound_of_empty (hstarting (by simp [hscan, Scan.Looping]))
  | queueInit => exact outputBound_of_empty (contents_xQueueCreate _)
  | controllerStart hcontroller | take command queue hcontroller hreceive =>
      simpa [OutputBound, hcontroller] using hbound
  | sample command port pin hcontroller hindex =>
      simp only [OutputBound, hcontroller] at hbound ⊢
      refine .inr ⟨hbound, fun p k hother => ?_⟩
      rw [hindex, Option.some.injEq, Prod.mk.injEq] at hother
      obtain ⟨rfl, rfl⟩ := hother
      exact .inl rfl
  | enqueue command old queue accepted hcontroller hsend =>
      obtain ⟨-, -, -, hcontents⟩ := xQueueSend_ok hsend
      have hlength : (contents queue).length ≤
          (contents state.ioQueue).length + 1 := by
        rw [hcontents]
        split <;> simp
      simp only [OutputBound, hcontroller] at hbound ⊢
      rcases hbound with hempty | ⟨hone, hfresh⟩
      · exact .inl (by omega)
      · exact .inr ⟨by omega, hfresh⟩
  | firstChange command old port pin hcontroller hindex hchange =>
      simp only [OutputBound, hcontroller] at hbound ⊢
      refine hbound.imp_right fun hpending =>
        ⟨hpending.1, fun p k hother => ?_⟩
      have hpassed :=
        (hpending.2 port pin hindex).resolve_left hchange
      rw [hindex, Option.some.injEq, Prod.mk.injEq] at hother
      obtain ⟨rfl, rfl⟩ := hother
      exact ⟨rfl, hpassed⟩
  | secondChange command old port pin hcontroller hindex hchange =>
      simp only [OutputBound, hcontroller] at hbound ⊢
      exact hbound.resolve_right fun hpending =>
        hchange (hpending.2 port pin hindex).1
  | transfer result phase port hscan =>
      cases phase with
      | reset =>
          exact outputBound_of_empty (hstarting (by simp [hscan, Scan.Looping]))
      | scan =>
          refine hbound.of_scan rfl rfl rfl fun p k hpassed => ?_
          rw [hscan] at hpassed
          exact .inl hpassed
  | store result phase port pin value good hscan =>
      cases phase with
      | reset =>
          exact outputBound_of_empty (hstarting (by simp [hscan, Scan.Looping]))
      | scan => exact hbound.of_store hscan rfl rfl rfl rfl
  | nothingQueued result queue hscan hreceive =>
      exact outputBound_of_empty (xQueueReceive_none hreceive).1
  | dequeue result command queue hscan hreceive =>
      obtain ⟨-, -, hcontents⟩ := xQueueReceive_some hreceive
      exact hbound.of_dequeue rfl (by simp [hcontents])
  | write result command data bus byte hscan hwrite =>
      obtain ⟨-, -, -, rfl, -, -⟩ := pcf8574WriteOutput_ok hwrite
      refine hbound.of_scan rfl rfl rfl fun p k hpassed => ?_
      rw [hscan] at hpassed
      exact hpassed.elim

/-- The bound holds in the states the two tasks can reach from power-on. -/
theorem outputBound_of_run {final : State} {actions : List Action}
    {trace : List Event}
    (hrun : run State.powerOn actions = .ok (final, trace)) :
    OutputBound final := by
  have hinv := Runs.run_state_invariant step
    (fun state => Sound state ∧ OutputBound state)
    (fun _ _ _ _ hstate hstep => ⟨hstate.1.step hstep,
      hstate.2.step hstate.1 hstep⟩)
    ⟨sound_powerOn, outputBound_of_empty rfl⟩ hrun
  exact hinv.2

/-- At most two output commands ever wait, so `command_enqueue` never fails. -/
theorem outputQueue_never_overflows {final : State} {actions : List Action}
    {trace : List Event}
    (hrun : run State.powerOn actions = .ok (final, trace)) :
    (contents final.ioQueue).length ≤ 2 ∧
      ∀ command accepted, .enqueued command accepted ∈ trace →
        accepted = true := by
  have hinv := Runs.run_history_invariant step
    (fun state past => Sound state ∧ OutputBound state ∧
      ∀ command accepted, .enqueued command accepted ∈ past → accepted = true)
    (fun state past action next now hpast hstep => ?_)
    ⟨sound_powerOn, outputBound_of_empty rfl, by simp⟩ hrun
  · exact ⟨hinv.2.1.length_le_two, hinv.2.2⟩
  · obtain ⟨hsound, hbound, haccepted⟩ := hpast
    refine ⟨hsound.step hstep, hbound.step hsound hstep,
      fun command accepted hmem => ?_⟩
    rcases List.mem_append.mp hmem with hold | hnew
    · exact haccepted command accepted hold
    · cases move_of_step hstep with
      | enqueue sent old queue flag hcontroller hsend =>
          rw [List.mem_singleton, Event.enqueued.injEq] at hnew
          exact hnew.2.trans (hbound.accepts hsend)
      | _ => simp at hnew

/-- The sensor changes after the sample of a trigger command and back in the pass
in which its output command is enqueued, so that it is still queued when the
next command is enqueued. -/
def staleEdge : List Action :=
  startUp ++ .sendGateCommand ⟨0, gateTriggerCommand, rightGate⟩ ::
      .sendGateCommand ⟨0, gateStopCommand, rightGate⟩ ::
      List.replicate 2 .controller ++
    List.replicate 19 (.ioScan (.ok 0xfe#8)) ++
    .ioScan (.ok 0xff#8) :: List.replicate 2 .controller ++
    List.replicate 2 (.ioScan (.ok 0xff#8)) ++ List.replicate 4 .controller

theorem outputQueue_never_overflows_staleEdge :
    ∃ final trace, run State.powerOn staleEdge = .ok (final, trace) ∧
      contents final.ioQueue = [⟨0, 0, true⟩, ⟨0, 0, false⟩] ∧
      (contents final.ioQueue).length ≤ 2 ∧
      ∀ command accepted, .enqueued command accepted ∈ trace →
        accepted = true := by
  obtain ⟨final, trace, hrun, hqueue⟩ :
      ∃ final trace, run State.powerOn staleEdge = .ok (final, trace) ∧
        contents final.ioQueue = [⟨0, 0, true⟩, ⟨0, 0, false⟩] :=
    ⟨_, _, rfl, rfl⟩
  exact ⟨final, trace, hrun, hqueue, outputQueue_never_overflows hrun⟩

end Conveyor.Gate
