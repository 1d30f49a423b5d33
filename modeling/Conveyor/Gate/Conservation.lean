import Conveyor.Gate.Carrying
import Conveyor.Gate.OutputQueue

/-!
# Nothing is lost between the queues and the pins

The accepted commands are those finished, the one the controller holds and
those queued, in this order.  The output commands taken by the scan loop and
those queued are the images of the commands whose enqueue was executed.  The
bytes written are those of the reset and then one for every output command
taken.
-/

namespace Conveyor.Gate

open Conveyor.Core Conveyor.Rtos Conveyor.IoDriver

/-! ## What a trace shows of the queues -/

def Event.offeredCommand : Event → Option GateCommand
  | .offered command _ => some command
  | _ => none

def Event.acceptedCommand : Event → Option GateCommand
  | .offered command true => some command
  | _ => none

def Event.finishedCommand : Event → Option GateCommand
  | .finished command => some command
  | _ => none

def Event.enqueuedCommand : Event → Option GateCommand
  | .enqueued command _ => some command
  | _ => none

def Event.dequeuedOutput : Event → Option OutputCommand
  | .dequeued output => some output
  | _ => none

def Event.writtenOutput : Event → Option OutputCommand
  | .wrote output _ _ => some output
  | _ => none

/-- The commands `send_gate_command` was called with. -/
def offeredCommands (trace : List Event) : List GateCommand :=
  trace.filterMap Event.offeredCommand

/-- The commands the gate queue accepted. -/
def acceptedCommands (trace : List Event) : List GateCommand :=
  trace.filterMap Event.acceptedCommand

/-- The commands whose second wait loop was left. -/
def finishedCommands (trace : List Event) : List GateCommand :=
  trace.filterMap Event.finishedCommand

/-- The commands `command_enqueue` was called for. -/
def enqueuedCommands (trace : List Event) : List GateCommand :=
  trace.filterMap Event.enqueuedCommand

/-- The output commands the scan loop took. -/
def dequeuedOutputs (trace : List Event) : List OutputCommand :=
  trace.filterMap Event.dequeuedOutput

/-- The output commands `pcf8574_write_output` was executed for. -/
def writtenOutputs (trace : List Event) : List OutputCommand :=
  trace.filterMap Event.writtenOutput

/-- The output command the scan loop has taken and not written. -/
def Scan.inHand : Scan → List OutputCommand
  | .writing output => [output]
  | _ => []

theorem offeredCommands_append (first second : List Event) :
    offeredCommands (first ++ second) =
      offeredCommands first ++ offeredCommands second :=
  List.filterMap_append

theorem acceptedCommands_append (first second : List Event) :
    acceptedCommands (first ++ second) =
      acceptedCommands first ++ acceptedCommands second :=
  List.filterMap_append

theorem finishedCommands_append (first second : List Event) :
    finishedCommands (first ++ second) =
      finishedCommands first ++ finishedCommands second :=
  List.filterMap_append

theorem enqueuedCommands_append (first second : List Event) :
    enqueuedCommands (first ++ second) =
      enqueuedCommands first ++ enqueuedCommands second :=
  List.filterMap_append

theorem dequeuedOutputs_append (first second : List Event) :
    dequeuedOutputs (first ++ second) =
      dequeuedOutputs first ++ dequeuedOutputs second :=
  List.filterMap_append

theorem writtenOutputs_append (first second : List Event) :
    writtenOutputs (first ++ second) =
      writtenOutputs first ++ writtenOutputs second :=
  List.filterMap_append

/-- A step offers the command of its action. -/
theorem offeredCommands_step {state next : State} {action : Action}
    {now : List Event} (hstep : step state action = .ok (next, now)) :
    offeredCommands now = action.offer.toList := by
  cases move_of_step hstep <;> rfl

/-- Only offered commands are accepted, in the order they are offered. -/
theorem acceptedCommands_sublist (trace : List Event) :
    (acceptedCommands trace).Sublist (offeredCommands trace) := by
  induction trace with
  | nil => exact List.Sublist.refl []
  | cons event trace ih =>
      cases event with
      | offered command accepted =>
          cases accepted with
          | false => exact ih.cons command
          | true => exact ih.cons_cons command
      | _ => exact ih

/-! ## Gate commands -/

/-- Every accepted command is finished, held or queued, and the finished ones
and the one waited for are those enqueued. -/
structure CommandsConserved (state : State) (past : List Event) : Prop where
  accepted : acceptedCommands past =
    finishedCommands past ++ state.controller.held.toList ++
      contents state.gateQueue
  enqueued : enqueuedCommands past =
    finishedCommands past ++ state.controller.waitingFor.toList

theorem commandsConserved_powerOn : CommandsConserved State.powerOn [] where
  accepted := rfl
  enqueued := rfl

/-- What a step adds on one side it adds on the other. -/
theorem CommandsConserved.balance {state next : State} {past now : List Event}
    (hconserved : CommandsConserved state past)
    (hheld : state.controller.held.toList ++ contents state.gateQueue ++
        acceptedCommands now =
      finishedCommands now ++
        (next.controller.held.toList ++ contents next.gateQueue))
    (hwaiting : state.controller.waitingFor.toList ++ enqueuedCommands now =
      finishedCommands now ++ next.controller.waitingFor.toList) :
    CommandsConserved next (past ++ now) where
  accepted := by
    have hbefore := hconserved.accepted
    rw [List.append_assoc] at hbefore
    calc acceptedCommands (past ++ now)
        = finishedCommands past ++ (state.controller.held.toList ++
            contents state.gateQueue ++ acceptedCommands now) := by
          rw [acceptedCommands_append, hbefore, List.append_assoc]
      _ = finishedCommands past ++ (finishedCommands now ++
            (next.controller.held.toList ++ contents next.gateQueue)) := by
          rw [hheld]
      _ = finishedCommands (past ++ now) ++ next.controller.held.toList ++
            contents next.gateQueue := by
          simp only [finishedCommands_append, List.append_assoc]
  enqueued := by
    calc enqueuedCommands (past ++ now)
        = finishedCommands past ++ (state.controller.waitingFor.toList ++
            enqueuedCommands now) := by
          rw [enqueuedCommands_append, hconserved.enqueued, List.append_assoc]
      _ = finishedCommands past ++ (finishedCommands now ++
            next.controller.waitingFor.toList) := by rw [hwaiting]
      _ = finishedCommands (past ++ now) ++
            next.controller.waitingFor.toList := by
          rw [finishedCommands_append, List.append_assoc]

/-- A step without queue events that leaves the controller and its queue. -/
theorem CommandsConserved.of_quiet {state next : State} {past now : List Event}
    (hconserved : CommandsConserved state past)
    (haccepted : acceptedCommands now = [])
    (hfinished : finishedCommands now = [])
    (henqueued : enqueuedCommands now = [])
    (hcontroller : next.controller = state.controller)
    (hqueue : next.gateQueue = state.gateQueue) :
    CommandsConserved next (past ++ now) := by
  refine hconserved.balance ?_ ?_
  · rw [haccepted, hfinished, hcontroller, hqueue, List.append_nil,
      List.nil_append]
  · rw [henqueued, hfinished, hcontroller, List.append_nil, List.nil_append]

theorem CommandsConserved.step {state next : State} {action : Action}
    {past now : List Event} (hconserved : CommandsConserved state past)
    (hinit : ∀ created, action = .gateDrvQueueInit created →
      contents state.gateQueue = [])
    (hstep : step state action = .ok (next, now)) :
    CommandsConserved next (past ++ now) := by
  cases move_of_step hstep with
  | gateQueueInit created =>
      refine hconserved.balance ?_ ?_
      · rw [hinit created rfl, contents_xQueueCreate]
        exact List.append_nil _
      · exact List.append_nil _
  | controllerStart hcontroller =>
      refine hconserved.balance ?_ ?_ <;> rw [hcontroller]
      · exact List.append_nil _
      · rfl
  | offer command queue accepted hsend =>
      obtain ⟨-, -, -, hcontents⟩ := xQueueSend_ok hsend
      refine hconserved.balance ?_ (List.append_nil _)
      rw [hcontents, List.append_assoc]
      cases accepted with
      | false => exact congrArg _ (List.append_nil _)
      | true => rfl
  | take command queue hcontroller hreceive =>
      obtain ⟨-, -, hcontents⟩ := xQueueReceive_some hreceive
      refine hconserved.balance ?_ (by rw [hcontroller]; rfl)
      rw [hcontroller, hcontents]
      exact List.append_nil _
  | sample command port pin hcontroller hindex
  | firstChange command old port pin hcontroller hindex hchange =>
      refine hconserved.balance ?_ ?_ <;> rw [hcontroller]
      · exact List.append_nil _
      · rfl
  | enqueue command old queue flag hcontroller hsend =>
      refine hconserved.balance ?_ ?_ <;> rw [hcontroller]
      · exact List.append_nil _
      · rfl
  | secondChange command old port pin hcontroller hindex hchange =>
      refine hconserved.balance ?_ ?_ <;> rw [hcontroller]
      · exact List.append_nil _
      · rfl
  | _ => exact hconserved.of_quiet rfl rfl rfl rfl rfl

/-! ## Output commands -/

/-- What a gate command asks of the outputs: its side is the port and its gate
the pin, and every command but `GATE_STOP_COMMAND`, which is 0, switches on. -/
def GateCommand.image (command : GateCommand) : OutputCommand where
  port := command.position.toUInt8
  pin := command.gateNo
  state := decide (command.commandName ≠ 0)

/-- The controller enqueues what its command asks for. -/
theorem GateCommand.output_eq_image (command : GateCommand) :
    command.output = command.image := by
  have hstate : (command.commandName != 0) = decide (command.commandName ≠ 0) := by
    by_cases hstop : command.commandName = 0 <;> simp [hstop]
  simp only [GateCommand.output, GateCommand.image, hstate]

/-- Every output command enqueued is taken or queued. -/
def OutputsConserved (state : State) (past : List Event) : Prop :=
  dequeuedOutputs past ++ contents state.ioQueue =
    (enqueuedCommands past).map GateCommand.image

theorem OutputsConserved.balance {state next : State} {past now : List Event}
    (hconserved : OutputsConserved state past)
    (hqueue : contents state.ioQueue ++
        (enqueuedCommands now).map GateCommand.image =
      dequeuedOutputs now ++ contents next.ioQueue) :
    OutputsConserved next (past ++ now) := by
  calc dequeuedOutputs (past ++ now) ++ contents next.ioQueue
      = dequeuedOutputs past ++ (contents state.ioQueue ++
          (enqueuedCommands now).map GateCommand.image) := by
        rw [dequeuedOutputs_append, List.append_assoc, hqueue]
    _ = (enqueuedCommands past).map GateCommand.image ++
          (enqueuedCommands now).map GateCommand.image := by
        rw [← List.append_assoc, hconserved]
    _ = (enqueuedCommands (past ++ now)).map GateCommand.image := by
        rw [enqueuedCommands_append, List.map_append]

/-- A step that enqueues and takes nothing. -/
theorem OutputsConserved.of_quiet {state next : State} {past now : List Event}
    (hconserved : OutputsConserved state past)
    (henqueued : enqueuedCommands now = [])
    (hdequeued : dequeuedOutputs now = [])
    (hqueue : contents next.ioQueue = contents state.ioQueue) :
    OutputsConserved next (past ++ now) := by
  refine hconserved.balance ?_
  rw [henqueued, hdequeued, hqueue, List.map_nil, List.append_nil,
    List.nil_append]

theorem OutputsConserved.step {state next : State} {action : Action}
    {past now : List Event} (hsound : Sound state) (hbound : OutputBound state)
    (hconserved : OutputsConserved state past)
    (hstep : step state action = .ok (next, now)) :
    OutputsConserved next (past ++ now) := by
  cases move_of_step hstep with
  | enqueue command old queue flag hcontroller hsend =>
      obtain ⟨-, -, -, hcontents⟩ := xQueueSend_ok hsend
      rw [hbound.accepts hsend, if_pos rfl] at hcontents
      refine hconserved.balance ?_
      rw [hcontents, command.output_eq_image]
      rfl
  | queueInit result hscan =>
      have hnone := hsound.ioQueue_eq_none (by simp [hscan, Scan.Looping])
      refine hconserved.of_quiet rfl rfl ?_
      rw [contents_xQueueCreate, hnone, contents_none]
  | dequeue result command queue hscan hreceive =>
      obtain ⟨-, -, hcontents⟩ := xQueueReceive_some hreceive
      refine hconserved.balance ?_
      rw [hcontents]
      exact List.append_nil _
  | _ => exact hconserved.of_quiet rfl rfl rfl

/-! ## Writes -/

/-- The writes are those of the reset, then one for each output command
taken. -/
structure WritesConserved (state : State) (past : List Event) : Prop where
  written : ∃ resets : List (Port × Pin),
    writtenOutputs past ++ state.scan.inHand =
      resets.map (fun place => resetCommand place.1 place.2) ++
        dequeuedOutputs past
  starting : ¬ state.scan.Looping → dequeuedOutputs past = []

theorem writesConserved_powerOn : WritesConserved State.powerOn [] where
  written := ⟨[], rfl⟩
  starting := fun _ => rfl

/-- A step inside the loop of `io_scan_task` that writes what it has taken. -/
theorem WritesConserved.balance {state next : State} {past now : List Event}
    (hconserved : WritesConserved state past)
    (hhand : state.scan.inHand ++ dequeuedOutputs now =
      writtenOutputs now ++ next.scan.inHand)
    (hlooping : next.scan.Looping) : WritesConserved next (past ++ now) where
  written := by
    obtain ⟨resets, hsame⟩ := hconserved.written
    refine ⟨resets, ?_⟩
    calc writtenOutputs (past ++ now) ++ next.scan.inHand
        = writtenOutputs past ++
            (state.scan.inHand ++ dequeuedOutputs now) := by
          rw [writtenOutputs_append, List.append_assoc, hhand]
      _ = resets.map (fun place => resetCommand place.1 place.2) ++
            dequeuedOutputs (past ++ now) := by
          rw [← List.append_assoc, hsame, List.append_assoc,
            dequeuedOutputs_append]
  starting := fun hstarting => absurd hlooping hstarting

/-- A step that writes and takes nothing. -/
theorem WritesConserved.of_quiet {state next : State} {past now : List Event}
    (hconserved : WritesConserved state past)
    (hwritten : writtenOutputs now = []) (hdequeued : dequeuedOutputs now = [])
    (hhand : next.scan.inHand = state.scan.inHand)
    (hlooping : state.scan.Looping → next.scan.Looping) :
    WritesConserved next (past ++ now) where
  written := by
    obtain ⟨resets, hsame⟩ := hconserved.written
    refine ⟨resets, ?_⟩
    rw [writtenOutputs_append, dequeuedOutputs_append, hwritten, hdequeued,
      List.append_nil, List.append_nil, hhand, hsame]
  starting := fun hstarting => by
    have hnone := hconserved.starting fun hbefore =>
      hstarting (hlooping hbefore)
    rw [dequeuedOutputs_append, hnone, hdequeued, List.append_nil]

theorem inHand_afterStore (phase : ReadPhase) (port : Port) (pin : Pin)
    (value : Byte) (good : Bool) :
    (afterStore phase port pin value good).inHand = [] := by
  cases hafter : afterStore phase port pin value good with
  | writing output =>
      exact absurd hafter (afterStore_ne_writing phase port pin value good
        output)
  | _ => rfl

theorem inHand_afterReset (port : Port) (pin : Pin) :
    (afterReset port pin).inHand = [] := by
  cases hafter : afterReset port pin with
  | writing output => exact absurd hafter (afterReset_ne_writing port pin output)
  | _ => rfl

theorem WritesConserved.step {state next : State} {action : Action}
    {past now : List Event} (hconserved : WritesConserved state past)
    (hstep : step state action = .ok (next, now)) :
    WritesConserved next (past ++ now) := by
  have hlooping := looping_step hstep
  cases move_of_step hstep with
  | scanStart hscan | installDriver result hscan | queueInit result hscan
  | transfer result phase port hscan | nothingQueued result queue hscan =>
      exact hconserved.of_quiet rfl rfl (by rw [hscan]; rfl) hlooping
  | configParam result hscan =>
      refine hconserved.of_quiet rfl rfl ?_ hlooping
      rw [hscan]
      cases result <;> rfl
  | store result phase port pin value good hscan =>
      refine hconserved.of_quiet rfl rfl ?_ hlooping
      rw [hscan, inHand_afterStore]
      rfl
  | resetWrite result port pin data bus byte hscan hwrite =>
      have hnone : dequeuedOutputs past = [] :=
        hconserved.starting (by simp [hscan, Scan.Looping])
      obtain ⟨resets, hsame⟩ := hconserved.written
      have hstill : dequeuedOutputs
          (past ++ [.wrote (resetCommand port pin) byte result.succeeded]) =
            [] := by
        rw [dequeuedOutputs_append, hnone]
        rfl
      refine ⟨⟨resets ++ [(port, pin)], ?_⟩, fun _ => hstill⟩
      have hhand : state.scan.inHand = [] := by rw [hscan]; rfl
      rw [hhand, hnone, List.append_nil, List.append_nil] at hsame
      rw [hstill, inHand_afterReset, List.append_nil, List.append_nil,
        List.map_append, ← hsame, writtenOutputs_append]
      rfl
  | dequeue result command queue hscan hreceive =>
      exact hconserved.balance (by rw [hscan]; rfl) trivial
  | write result command data bus byte hscan hwrite =>
      exact hconserved.balance (by rw [hscan]; rfl) trivial
  | _ => exact hconserved.of_quiet rfl rfl rfl id

/-! ## Whole runs -/

theorem outputsConserved_of_run {final : State} {actions : List Action}
    {trace : List Event}
    (hrun : run State.powerOn actions = .ok (final, trace)) :
    OutputsConserved final trace := by
  have hinv := Runs.run_history_invariant step
    (fun state past => Sound state ∧ OutputBound state ∧
      OutputsConserved state past)
    (fun _ _ _ _ _ hpast hstep => ⟨hpast.1.step hstep,
      hpast.2.1.step hpast.1 hstep, hpast.2.2.step hpast.1 hpast.2.1 hstep⟩)
    ⟨sound_powerOn, outputBound_of_empty rfl, rfl⟩ hrun
  exact hinv.2.2

theorem writesConserved_of_run {final : State} {actions : List Action}
    {trace : List Event}
    (hrun : run State.powerOn actions = .ok (final, trace)) :
    WritesConserved final trace :=
  Runs.run_history_invariant step WritesConserved
    (fun _ _ _ _ _ hpast hstep => hpast.step hstep) writesConserved_powerOn hrun

/-- The output commands taken belong to accepted commands, in their order and
once each. -/
theorem CommandsConserved.dequeued_prefix {state : State} {past : List Event}
    (hcommands : CommandsConserved state past)
    (houtputs : OutputsConserved state past) :
    dequeuedOutputs past <+:
      (acceptedCommands past).map GateCommand.image := by
  have hheld : state.controller.waitingFor.toList <+:
      state.controller.held.toList := by
    cases hwaiting : state.controller.waitingFor with
    | none => exact List.nil_prefix
    | some command =>
        simp [held_of_waitingFor hwaiting]
  have henqueued : enqueuedCommands past <+: acceptedCommands past := by
    rw [hcommands.enqueued, hcommands.accepted, List.append_assoc]
    apply (List.prefix_append_right_inj _).mpr
    exact hheld.trans (List.prefix_append _ _)
  have htaken : dequeuedOutputs past <+:
      (enqueuedCommands past).map GateCommand.image := by
    rw [← houtputs]
    exact List.prefix_append _ _
  exact htaken.trans (henqueued.map GateCommand.image)

end Conveyor.Gate
