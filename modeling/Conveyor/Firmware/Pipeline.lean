import Conveyor.Firmware.IndexSafety
import Conveyor.Firmware.Queues

/-!
# From messages to output commands

After start-up, and as long as `recv` reports no error and every message is
well formed, no task faults.  At every moment each message taken, each command
offered, accepted and finished and each output command enqueued, taken and
written is accounted for, in order and once.
-/

namespace Conveyor.Firmware

open Conveyor.Core Conveyor.Rtos Conveyor.IoDriver Conveyor.ProcessData
open Conveyor.Json (cJSONParse memberValueint)
open Conveyor.Gate (GateCommand acceptedCommands dequeuedOutputs
  enqueuedCommands finishedCommands offeredCommands resetCommand writtenOutputs)
open Conveyor.Tcp (Chunk TcpMsg takenMessages)

/-- A message for a command, a gate and a side that exist. -/
def WellFormed (data : Text) : Prop :=
  ∃ root command gateNo position, cJSONParse data = some root ∧
    memberValueint root "command" = some command ∧
    (0 ≤ command ∧ command ≤ 3) ∧
    memberValueint root "gateNo" = some gateNo ∧ (0 ≤ gateNo ∧ gateNo ≤ 7) ∧
    memberValueint root "gatePo" = some position ∧
    (0 ≤ position ∧ position ≤ 1)

/-- Only the string a buffer starts with matters. -/
theorem WellFormed.of_cString {left right : Text}
    (hsame : cString left = cString right) (hformed : WellFormed left) :
    WellFormed right := by
  unfold WellFormed cJSONParse at *
  rwa [← hsame]

/-- The command carries the three numbers of the message. -/
def Decodes (data : Text) (command : GateCommand) : Prop :=
  ∃ root, cJSONParse data = some root ∧
    memberValueint root "command" = some (command.commandName.toNat : ℤ) ∧
    memberValueint root "gateNo" = some (command.gateNo.toNat : ℤ) ∧
    memberValueint root "gatePo" = some (command.position.toNat : ℤ)

/-- A well-formed message asks for the command with its numbers, and that
command selects a pin. -/
theorem WellFormed.messageCommand {data : Text} (hformed : WellFormed data) :
    ∃ command, ProcessData.messageCommand data = some command ∧
      Decodes data command ∧ command.index.isSome := by
  obtain ⟨root, command, gateNo, position, hparse, hcommand, hnumber, hgateNo,
    hgate, hposition, hside⟩ := hformed
  have hcommandNat := toNat_uint32_ofInt command
  have hgateNat := toNat_uint8_ofInt gateNo
  have hpositionNat := toNat_uint32_ofInt position
  rw [Int.emod_eq_of_lt (by omega) (by omega)] at hcommandNat hgateNat hpositionNat
  refine ⟨_, messageCommand_eq_some_iff.mpr ⟨root, command, gateNo, position,
    hparse, hcommand, hnumber, hgateNo, hposition, rfl⟩,
    ⟨root, hparse, ?_, ?_, ?_⟩, ?_⟩
  · rw [hcommand, hcommandNat]
  · rw [hgateNo, hgateNat]
  · rw [hposition, hpositionNat]
  · rw [index_isSome_iff]
    omega

/-- The command of a well-formed message has a side and a gate that exist. -/
theorem Decodes.inRange {data : Text} {command : GateCommand}
    (hdecodes : Decodes data command) (hformed : WellFormed data) :
    command.InRange := by
  obtain ⟨root, hroot, -, hgateNo, hposition⟩ := hdecodes
  obtain ⟨other, _, gateNo, position, hparse, -, -, hgateNo', hgate, hposition',
    hside⟩ := hformed
  obtain rfl := Option.some.inj (hroot.symm.trans hparse)
  have hgateNat := Option.some.inj (hgateNo.symm.trans hgateNo')
  have hpositionNat := Option.some.inj (hposition.symm.trans hposition')
  refine ⟨UInt32.lt_iff_toNat_lt.mpr ?_, UInt8.lt_iff_toNat_lt.mpr ?_⟩
  · have hlt : command.position.toNat < 2 := by omega
    exact hlt
  · have hlt : command.gateNo.toNat < 8 := by omega
    exact hlt

/-- `recv` reports no error and delivers well-formed messages. -/
structure Undisturbed (action : Action) : Prop where
  noError : action ≠ .tcpClientRx .error
  formed : ∀ chunk, action.chunk = some chunk → WellFormed chunk.bytes

/-- All tasks are in their loops, or about to enter them, and all queues
exist. -/
structure StartedUp (state : State) : Prop where
  main : state.main.started = 6
  scan : state.gate.scan.Looping
  gateQueue : state.gate.gateQueue.isSome
  ioQueue : state.gate.ioQueue.isSome
  txQueue : state.tcp.txQueue.isSome
  rxQueue : state.tcp.rxQueue.isSome

theorem StartedUp.queuesReady {state : State} (hstarted : StartedUp state) :
    QueuesReady state where
  gateQueue := fun _ => hstarted.gateQueue
  txQueue := fun _ => hstarted.txQueue
  rxQueue := fun _ => hstarted.rxQueue
  ioQueue := fun _ => hstarted.ioQueue

theorem StartedUp.not_creationFails {state : State}
    (hstarted : StartedUp state) (action : Action) :
    ¬ CreationFails state action := by
  obtain ⟨hmain, hscan, -⟩ := hstarted
  cases action with
  | main created =>
      rintro ⟨-, hinit | hinit | hinit⟩ <;> simp [hinit, Main.started] at hmain
  | ioScan result =>
      rintro ⟨-, hinit⟩
      simp [hinit, Gate.Scan.Looping] at hscan
  | _ => exact id

theorem started_step {state next : State} {action : Action} {now : List Event}
    (hstep : step state action = .ok (next, now))
    (hstarted : state.main.started = 6) : next.main.started = 6 := by
  cases move_of_step hstep with
  | gate action main call gate events hcall hgate =>
      cases hcall with
      | scanStart created hmain | queueInit created hmain
      | controllerStart created hmain => simp [hmain, Main.started] at hstarted
      | pass => rfl
      | controller | ioScan => exact hstarted
  | tcp action main call tcp events hcall htcp =>
      cases hcall with
      | txQueueInit created hmain | rxQueueInit created hmain =>
          simp [hmain, Main.started] at hstarted
      | txStart => rfl
      | rx | tx => exact hstarted
  | nothingTaken => exact hstarted
  | take | finish | delete => rfl

theorem StartedUp.step {state next : State} {action : Action}
    {now : List Event} (hstarted : StartedUp state)
    (hstep : step state action = .ok (next, now)) : StartedUp next := by
  have hready := hstarted.queuesReady.step
    (hstarted.not_creationFails action) hstep
  have hmain := started_step hstep hstarted.main
  have hscan : next.gate.scan.Looping := by
    rcases gate_of_step hstep with ⟨hsame, -⟩ | ⟨main, call, -, hgate⟩
    · rw [hsame]
      exact hstarted.scan
    · exact Gate.looping_step hgate hstarted.scan
  exact ⟨hmain, hscan, hready.gateQueue (by omega), hready.ioQueue hscan,
    hready.txQueue (by omega), hready.rxQueue (by omega)⟩

/-! ## Nothing faults -/

/-- In a system that carries well-formed messages every command selects a
pin. -/
theorem index_isSome_of_asked {command : GateCommand}
    (hasked : Asked (fun chunk => WellFormed chunk.bytes) command) :
    command.index.isSome := by
  obtain ⟨chunk, hformed, hcommand⟩ := hasked
  obtain ⟨sent, hsent, -, hindex⟩ := hformed.messageCommand
  rw [hcommand, Option.some.injEq] at hsent
  exact hsent ▸ hindex

theorem StartedUp.gate_ok {state : State} {call : Gate.Action} {fault : Fault}
    (hstarted : StartedUp state)
    (hcarries : Carries (fun chunk => WellFormed chunk.bytes) state) :
    ¬ Gate.Breaks state.gate call fault := by
  intro hbreaks
  cases hbreaks with
  | offer command hqueue => simpa [hqueue] using hstarted.gateQueue
  | take hcontroller hqueue => simpa [hqueue] using hstarted.gateQueue
  | sample command hcontroller hindex =>
      have hsome := index_isSome_of_asked
        (hcarries.gate.held command (by rw [hcontroller]; rfl))
      simp [hindex] at hsome
  | enqueue command old hcontroller hqueue =>
      simpa [hqueue] using hstarted.ioQueue
  | poll command hwaiting hindex =>
      have hsome := index_isSome_of_asked
        (hcarries.gate.held command (Gate.held_of_waitingFor hwaiting))
      simp [hindex] at hsome
  | dequeue result hscan hqueue => simpa [hqueue] using hstarted.ioQueue
  | write result output hscan hindex =>
      obtain ⟨command, hasked, rfl⟩ := hcarries.gate.inHand output hscan
      have hsome := index_isSome_of_asked hasked
      rw [Gate.GateCommand.index_output] at hindex
      simp [hindex] at hsome

theorem StartedUp.tcp_ok {state : State} {action : Action} {main : Main}
    {call : Tcp.Action} {fault : Fault} (hstarted : StartedUp state)
    (hcall : TcpCall state action main call) (hgood : Undisturbed action) :
    ¬ Tcp.Breaks state.tcp call fault := by
  intro hbreaks
  cases hbreaks with
  | take => cases hcall
  | recv hrx =>
      cases hcall
      exact hgood.noError rfl
  | queue outcome msg hrx hqueue => simpa [hqueue] using hstarted.rxQueue
  | dequeue result htx hqueue => simpa [hqueue] using hstarted.txQueue

theorem StartedUp.step_ok {state : State} {action : Action}
    (hstarted : StartedUp state)
    (hcarries : Carries (fun chunk => WellFormed chunk.bytes) state)
    (hgood : Undisturbed action) :
    ∃ next now, Firmware.step state action = .ok (next, now) := by
  cases hstep : Firmware.step state action with
  | ok outcome => exact ⟨outcome.1, outcome.2, rfl⟩
  | error fault =>
      exfalso
      cases breaks_of_step hstep with
      | gate action main call fault hcall hbreaks =>
          exact hstarted.gate_ok hcarries hbreaks
      | tcp action main call fault hcall hbreaks =>
          exact hstarted.tcp_ok hcall hgood hbreaks
      | receive created hmain hqueue => simpa [hqueue] using hstarted.rxQueue
      | process created msg queue fault hmain hreceive hprocess =>
          obtain ⟨⟨chunk, hformed, rfl⟩, -⟩ :=
            forall_contents_of_receive hreceive hcarries.messages.queued
          obtain ⟨command, hcommand, -⟩ := hformed.messageCommand
          rw [processMessage_of_messageCommand
            ((messageCommand_ofChunk chunk).trans hcommand)] at hprocess
          simp at hprocess

/-- After start-up a run on well-formed messages does not fault. -/
theorem StartedUp.run_ok {state : State} {actions : List Action}
    (hstarted : StartedUp state)
    (hcarries : Carries (fun chunk => WellFormed chunk.bytes) state)
    (hgood : ∀ action ∈ actions, Undisturbed action) :
    ∃ final trace, run state actions = .ok (final, trace) := by
  apply Runs.run_succeeds Firmware.step (fun _ action => Undisturbed action)
    (fun current => StartedUp current ∧
      Carries (fun chunk => WellFormed chunk.bytes) current)
  · rintro current action ⟨hcurrent, hcurrently⟩ hundisturbed
    obtain ⟨next, now, hstep⟩ := hcurrent.step_ok hcurrently hundisturbed
    exact ⟨next, now, hstep, hcurrent.step hstep,
      hcurrently.step hundisturbed.formed hstep⟩
  · exact ⟨hstarted, hcarries⟩
  · exact Runs.StepsMeet.of_forall (fun action haction _ =>
      hgood action haction) state

/-! ## Everything is accounted for -/

/-- The message loop holds at most one command. -/
theorem pending_length_step {state next : State} {action : Action}
    {now : List Event} (hone : state.main.pending.length ≤ 1)
    (hstep : step state action = .ok (next, now)) :
    next.main.pending.length ≤ 1 := by
  cases move_of_step hstep with
  | gate action main call gate events hcall hgate =>
      rw [hcall.pending_eq, List.length_append] at hone
      exact (Nat.le_add_left _ _).trans hone
  | tcp action main call tcp events hcall htcp =>
      rw [hcall.pending_eq]
      exact hone
  | nothingTaken => exact hone
  | take created msg queue effects hmain hreceive hprocess =>
      rw [Main.pending, passedCommands_processMessage hprocess]
      exact Option.length_toList_le
  | finish => exact Nat.zero_le 1
  | delete created effects hmain =>
      rw [hmain] at hone
      exact hone

/-- Every message taken is well formed. -/
def TakenFormed (past : List Event) : Prop :=
  ∀ msg ∈ takenMessages (tcpEvents past), WellFormed msg.data

theorem TakenFormed.step {state next : State} {action : Action}
    {past now : List Event} (hformed : TakenFormed past)
    (hcarries : Carries (fun chunk => WellFormed chunk.bytes) state)
    (hstep : Firmware.step state action = .ok (next, now)) :
    TakenFormed (past ++ now) := by
  intro msg hmem
  rw [tcpEvents_append, Tcp.takenMessages_append, List.mem_append] at hmem
  apply hmem.elim (hformed msg)
  intro hnow
  cases move_of_step hstep with
  | gate action main call gate events hcall hgate =>
      rw [tcpEvents_gate] at hnow
      cases hnow
  | tcp action main call tcp events hcall htcp =>
      have hother : call ≠ .takeMessage := by
        cases hcall <;> simp
      rw [tcpEvents_tcp, Tcp.takenMessages_step htcp hother] at hnow
      cases hnow
  | take created taken queue effects hmain hreceive hprocess =>
      obtain rfl : msg = taken := List.mem_singleton.mp hnow
      obtain ⟨⟨chunk, hchunk, rfl⟩, -⟩ :=
        forall_contents_of_receive hreceive hcarries.messages.queued
      exact hchunk.of_cString (TcpMsg.cString_ofChunk chunk).symm
  | nothingTaken | finish | delete => cases hnow

/-- Every accepted command is finished, held or queued, along runs of the
firmware. -/
theorem commandsConserved_of_run {final : State} {actions : List Action}
    {trace : List Event}
    (hrun : run State.powerOn actions = .ok (final, trace)) :
    Gate.CommandsConserved final.gate (gateEvents trace) := by
  have hinv := Runs.run_history_invariant step
    (fun state past => StartOrder state ∧
      Gate.CommandsConserved state.gate (gateEvents past))
    (fun state past action next now hpast hstep => ?_)
    ⟨startOrder_powerOn, Gate.commandsConserved_powerOn⟩ hrun
  · exact hinv.2
  · obtain ⟨horder, hconserved⟩ := hpast
    refine ⟨horder.step hstep, ?_⟩
    rw [gateEvents_append]
    rcases gate_of_step hstep with ⟨hsame, hquiet⟩ | ⟨main, call, hcall, hgate⟩
    · rw [hsame, hquiet, List.append_nil]
      exact hconserved
    · apply hconserved.step _ hgate
      rintro created rfl
      cases hcall with
      | queueInit created hmain =>
          rw [horder.gateQueue (by simp [hmain, Main.started])]
          rfl

/-- Each message, command and output command is where it should be. -/
structure Conserved (state : State) (past : List Event) : Prop where
  decoded : List.Forall₂ (fun msg command => Decodes (TcpMsg.data msg) command)
    (takenMessages (tcpEvents past))
    (offeredCommands (gateEvents past) ++ state.main.pending)
  oneInHand : state.main.pending.length ≤ 1
  inRange : ∀ command ∈ offeredCommands (gateEvents past), command.InRange
  accepted : (acceptedCommands (gateEvents past)).Sublist
    (offeredCommands (gateEvents past))
  commands : Gate.CommandsConserved state.gate (gateEvents past)
  outputs : Gate.OutputsConserved state.gate (gateEvents past)
  writes : Gate.WritesConserved state.gate (gateEvents past)
  origin : dequeuedOutputs (gateEvents past) <+:
    (acceptedCommands (gateEvents past)).map GateCommand.image

/-- Well-formed messages are decoded one by one. -/
theorem forall₂_decodes {messages : List TcpMsg}
    (hformed : ∀ msg ∈ messages, WellFormed msg.data) :
    List.Forall₂ (fun msg command => Decodes (TcpMsg.data msg) command) messages
      (commandsOfMessages messages) := by
  induction messages with
  | nil => exact .nil
  | cons msg messages ih =>
      obtain ⟨command, hcommand, hdecodes, -⟩ :=
        (hformed msg (by simp)).messageCommand
      have hone : commandsOfMessages (msg :: messages) =
          command :: commandsOfMessages messages := by
        rw [commandsOfMessages, List.flatMap_cons, handledCommands_eq, hcommand]
        rfl
      rw [hone]
      exact .cons hdecodes
        (ih fun later hlater => hformed later (by simp [hlater]))

theorem takenFormed_of_run {final : State} {actions : List Action}
    {trace : List Event}
    (hrun : run State.powerOn actions = .ok (final, trace))
    (hformed : ∀ chunk ∈ chunksOf actions, WellFormed chunk.bytes) :
    TakenFormed trace := by
  have hinv := Runs.run_invariant step _
    (fun state past =>
      Carries (fun chunk => WellFormed chunk.bytes) state ∧ TakenFormed past)
    (fun _ _ _ _ _ hpast hchunk hstep =>
      ⟨hpast.1.step hchunk hstep, hpast.2.step hpast.1 hstep⟩)
    ⟨carries_powerOn _, by simp [TakenFormed, tcpEvents, takenMessages]⟩
    (stepsMeet_of_chunks hformed _) hrun
  exact hinv.2

/-- The commands passed on have a side and a gate that exist. -/
theorem inRange_of_offered {final : State} {actions : List Action}
    {trace : List Event}
    (hrun : run State.powerOn actions = .ok (final, trace))
    (hformed : TakenFormed trace) :
    ∀ command ∈ offeredCommands (gateEvents trace), command.InRange := by
  intro command hoffered
  have hmem : command ∈ commandsOfMessages (takenMessages (tcpEvents trace)) := by
    rw [passedOn_of_run hrun]
    exact List.mem_append_left _ hoffered
  obtain ⟨msg, hmsg, hcommand⟩ := List.mem_flatMap.mp hmem
  obtain ⟨sent, hsent, hdecodes, -⟩ := (hformed msg hmsg).messageCommand
  rw [handledCommands_eq, hsent] at hcommand
  obtain rfl := List.mem_singleton.mp hcommand
  exact hdecodes.inRange (hformed msg hmsg)

theorem conserved_of_run {final : State} {actions : List Action}
    {trace : List Event}
    (hrun : run State.powerOn actions = .ok (final, trace))
    (hformed : ∀ chunk ∈ chunksOf actions, WellFormed chunk.bytes) :
    Conserved final trace := by
  obtain ⟨calls, hgate⟩ := gate_run hrun
  have hcommands := commandsConserved_of_run hrun
  have houtputs := Gate.outputsConserved_of_run hgate
  have htaken := takenFormed_of_run hrun hformed
  exact
    { decoded := by
        rw [← passedOn_of_run hrun]
        exact forall₂_decodes htaken
      oneInHand := Runs.run_state_invariant step
        (fun state => state.main.pending.length ≤ 1)
        (fun _ _ _ _ hone hstep => pending_length_step hone hstep)
        (show State.powerOn.main.pending.length ≤ 1 from Nat.zero_le 1) hrun
      inRange := inRange_of_offered hrun htaken
      accepted := Gate.acceptedCommands_sublist _
      commands := hcommands
      outputs := houtputs
      writes := Gate.writesConserved_of_run hgate
      origin := hcommands.dequeued_prefix houtputs }

/-- From every state that start-up leads to, a run on well-formed messages does
not fault, and everything in it is accounted for. -/
theorem pipeline_conserved {before after : List Action} {state : State}
    {past : List Event}
    (hstart : run State.powerOn before = .ok (state, past))
    (hstarted : StartedUp state)
    (hgood : ∀ action ∈ before ++ after, Undisturbed action) :
    ∃ final later, run state after = .ok (final, later) ∧
      Conserved final (past ++ later) := by
  have hformed : ∀ chunk ∈ chunksOf (before ++ after),
      WellFormed chunk.bytes := by
    intro chunk hmem
    obtain ⟨action, haction, hchunk⟩ := List.mem_filterMap.mp hmem
    exact (hgood action haction).formed chunk hchunk
  have hcarries : Carries (fun chunk => WellFormed chunk.bytes) state :=
    carries_of_run hstart fun chunk hmem =>
      hformed chunk (by
        rw [chunksOf, List.filterMap_append]
        exact List.mem_append_left _ hmem)
  obtain ⟨final, later, hrun⟩ := hstarted.run_ok hcarries fun action haction =>
    hgood action (List.mem_append_right _ haction)
  exact ⟨final, later, hrun,
    conserved_of_run (Runs.run_append hstart hrun) hformed⟩

/-- All queues are created, a connection is made and the scan task gets to its
loop. -/
def startUp : List Action :=
  connect ++ List.replicate 37 (.ioScan (.ok 0xff#8))

/-- The trigger message as a chunk of its own. -/
def triggerChunk : Chunk where
  bytes := triggerText
  length_pos := by decide
  length_lt := by decide

/-- What `app_control_gate` reads of a message decides whether it is well
formed. -/
theorem wellFormed_of_read {data : Text} {command gateNo position : ℤ}
    (hread : (cJSONParse data).map (fun root =>
      (memberValueint root "command", memberValueint root "gateNo",
        memberValueint root "gatePo")) =
      some (some command, some gateNo, some position))
    (hcommand : 0 ≤ command ∧ command ≤ 3) (hgateNo : 0 ≤ gateNo ∧ gateNo ≤ 7)
    (hposition : 0 ≤ position ∧ position ≤ 1) : WellFormed data := by
  obtain ⟨root, hparse, hmembers⟩ := Option.map_eq_some_iff.mp hread
  simp only [Prod.mk.injEq] at hmembers
  exact ⟨root, command, gateNo, position, hparse, hmembers.1, hcommand,
    hmembers.2.1, hgateNo, hmembers.2.2, hposition⟩

theorem wellFormed_triggerText : WellFormed triggerText := by
  have hread : (cJSONParse triggerText).map (fun root =>
      (memberValueint root "command", memberValueint root "gateNo",
        memberValueint root "gatePo")) = some (some 1, some 0, some 0) := by
    decide +kernel
  exact wellFormed_of_read hread (by decide) (by decide) (by decide)

theorem wellFormed_stopText : WellFormed stopText := by
  have hread : (cJSONParse stopText).map (fun root =>
      (memberValueint root "command", memberValueint root "gateNo",
        memberValueint root "gatePo")) = some (some 0, some 0, some 0) := by
    decide +kernel
  exact wellFormed_of_read hread (by decide) (by decide) (by decide)

/-- A trigger message and a stop message are received and handled.  The
controller enqueues the output command of the first, and the scan task writes
it. -/
def triggerThenStop : List Action :=
  receive triggerChunk ++ (forward ++ .main true ::
    (receive stopChunk ++ (List.replicate 3 (.main true) ++
      [.gateController, .gateController, .ioScan (.ok 0xff#8),
        .ioScan (.ok 0xff#8)])))

theorem undisturbed_triggerThenStop :
    ∀ action ∈ startUp ++ triggerThenStop, Undisturbed action := by
  have hnoError : ∀ action ∈ startUp ++ triggerThenStop,
      action ≠ .tcpClientRx .error := by decide
  have hchunks : chunksOf (startUp ++ triggerThenStop) =
      [triggerChunk, stopChunk] := rfl
  refine fun action haction => ⟨hnoError action haction, fun chunk hchunk => ?_⟩
  have hmem : chunk ∈ [triggerChunk, stopChunk] := by
    rw [← hchunks]
    exact List.mem_filterMap.mpr ⟨action, haction, hchunk⟩
  rcases List.mem_pair.mp hmem with rfl | rfl
  · exact wellFormed_triggerText
  · exact wellFormed_stopText

/-- After start-up both commands are passed on.  The first is waited for and its
output command written, the second is queued behind it. -/
theorem pipeline_conserved_triggerThenStop :
    ∃ state past final later, run State.powerOn startUp = .ok (state, past) ∧
      run state triggerThenStop = .ok (final, later) ∧
      Conserved final (past ++ later) ∧
      offeredCommands (gateEvents (past ++ later)) = [triggerGate, stopGate] ∧
      contents final.gate.gateQueue = [stopGate] ∧
      dequeuedOutputs (gateEvents (past ++ later)) = [⟨0, 0, true⟩] ∧
      (writtenOutputs (gateEvents (past ++ later))).getLast? =
        some ⟨0, 0, true⟩ := by
  obtain ⟨state, past, hstart, hmain, hscan, hqueues⟩ :
      ∃ state past, run State.powerOn startUp = .ok (state, past) ∧
        state.main = .receiving ∧ state.gate.scan = .top ∧
        (state.gate.gateQueue.isSome ∧ state.gate.ioQueue.isSome ∧
          state.tcp.txQueue.isSome ∧ state.tcp.rxQueue.isSome) :=
    ⟨_, _, rfl, rfl, rfl, rfl, rfl, rfl, rfl⟩
  have hstarted : StartedUp state :=
    { main := by rw [hmain]; rfl
      scan := by rw [hscan]; trivial
      gateQueue := hqueues.1
      ioQueue := hqueues.2.1
      txQueue := hqueues.2.2.1
      rxQueue := hqueues.2.2.2 }
  obtain ⟨final, later, hrun, hconserved⟩ :=
    pipeline_conserved hstart hstarted undisturbed_triggerThenStop
  have hread : (run State.powerOn (startUp ++ triggerThenStop)).toOption.map
      (fun outcome => (offeredCommands (gateEvents outcome.2),
        contents outcome.1.gate.gateQueue,
        dequeuedOutputs (gateEvents outcome.2),
        (writtenOutputs (gateEvents outcome.2)).getLast?)) =
      some ([triggerGate, stopGate], [stopGate], [⟨0, 0, true⟩],
        some ⟨0, 0, true⟩) := by
    decide +kernel
  have hwhole : run State.powerOn (startUp ++ triggerThenStop) =
      .ok (final, past ++ later) := Runs.run_append hstart hrun
  rw [hwhole] at hread
  simp only [Except.toOption, Option.map_some, Option.some.injEq,
    Prod.mk.injEq] at hread
  exact ⟨state, past, final, later, hstart, hrun, hconserved, hread⟩

end Conveyor.Firmware
