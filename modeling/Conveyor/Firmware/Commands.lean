import Conveyor.Firmware.Delivery

/-!
# Chunks and commands

TCP hands over a stream of bytes, and every `recv` makes a text of its own out
of the chunk it gets.  So the commands passed on are those of the chunks,
handled one at a time: a message is understood when a chunk starts with it, and
whatever follows it in the chunk is lost.
-/

namespace Conveyor.Firmware

open Conveyor.Core Conveyor.Rtos Conveyor.IoDriver Conveyor.ProcessData
open Conveyor.Json (cJSONParse cJSONIsObject)
open Conveyor.Gate (GateCommand offeredCommands)
open Conveyor.Tcp (Chunk TcpMsg receivedChunks queuedMessages takenMessages)

/-- The commands of a list of messages, handled one at a time. -/
def commandsOfMessages (messages : List TcpMsg) : List GateCommand :=
  messages.flatMap fun msg => handledCommands msg.data

/-- The commands passed on and pending are those of the messages taken. -/
def PassedOn (state : State) (past : List Event) : Prop :=
  commandsOfMessages (takenMessages (tcpEvents past)) =
    offeredCommands (gateEvents past) ++ state.main.pending

/-- What a step adds on one side it adds on the other. -/
theorem PassedOn.balance {state next : State} {past now : List Event}
    (hpassed : PassedOn state past)
    (hpending : state.main.pending ++
        commandsOfMessages (takenMessages (tcpEvents now)) =
      offeredCommands (gateEvents now) ++ next.main.pending) :
    PassedOn next (past ++ now) := by
  unfold PassedOn at hpassed ⊢
  calc commandsOfMessages (takenMessages (tcpEvents (past ++ now)))
      = commandsOfMessages (takenMessages (tcpEvents past)) ++
          commandsOfMessages (takenMessages (tcpEvents now)) := by
        rw [tcpEvents_append, Tcp.takenMessages_append]
        exact List.flatMap_append
    _ = offeredCommands (gateEvents past) ++
          (offeredCommands (gateEvents now) ++ next.main.pending) := by
        rw [hpassed, List.append_assoc, hpending]
    _ = offeredCommands (gateEvents (past ++ now)) ++ next.main.pending := by
        rw [gateEvents_append, Gate.offeredCommands_append, List.append_assoc]

theorem PassedOn.step {state next : State} {action : Action}
    {past now : List Event} (hpassed : PassedOn state past)
    (hstep : step state action = .ok (next, now)) :
    PassedOn next (past ++ now) := by
  apply hpassed.balance
  cases move_of_step hstep with
  | gate action main call gate events hcall hgate =>
      rw [tcpEvents_gate, gateEvents_gate, Gate.offeredCommands_step hgate,
        ← hcall.pending_eq]
      exact List.append_nil _
  | tcp action main call tcp events hcall htcp =>
      have hother : call ≠ .takeMessage := by
        cases hcall <;> simp
      rw [tcpEvents_tcp, gateEvents_tcp, Tcp.takenMessages_step htcp hother,
        hcall.pending_eq]
      exact List.append_nil _
  | nothingTaken created queue hmain hreceive => exact List.append_nil _
  | take created msg queue effects hmain hreceive hprocess =>
      have htaken : commandsOfMessages (takenMessages
          (tcpEvents [.tcp (.taken msg)])) = passedCommands effects := by
        rw [← handledCommands_of_ok hprocess]
        exact List.flatMap_singleton ..
      rw [hmain, htaken]
      rfl
  | finish created hmain => rw [hmain]; rfl
  | delete created effects hmain =>
      rw [hmain]
      exact List.append_nil _

theorem passedOn_of_run {final : State} {actions : List Action}
    {trace : List Event}
    (hrun : run State.powerOn actions = .ok (final, trace)) :
    PassedOn final trace :=
  Runs.run_history_invariant step PassedOn
    (fun _ _ _ _ _ hpast hstep => hpast.step hstep)
    (show PassedOn State.powerOn [] from rfl) hrun

/-- Every accepted message is taken or queued, along runs of the firmware. -/
theorem messagesConserved_of_run {final : State} {actions : List Action}
    {trace : List Event}
    (hrun : run State.powerOn actions = .ok (final, trace)) :
    Tcp.MessagesConserved final.tcp (tcpEvents trace) := by
  have hinv := Runs.run_history_invariant step
    (fun state past => StartOrder state ∧
      Tcp.MessagesConserved state.tcp (tcpEvents past))
    (fun state past action next now hpast hstep => ?_)
    ⟨startOrder_powerOn, rfl⟩ hrun
  · exact hinv.2
  · obtain ⟨horder, hconserved⟩ := hpast
    refine ⟨horder.step hstep, ?_⟩
    rw [tcpEvents_append]
    rcases tcp_of_step hstep with ⟨hsame, hquiet⟩ | ⟨call, htcp, hcall⟩
    · rw [hsame, hquiet, List.append_nil]
      exact hconserved
    · apply hconserved.step _ htcp
      rintro created rfl
      rcases hcall with ⟨main, hcall⟩ | htake
      · cases hcall with
        | rxQueueInit created hmain =>
            rw [horder.rxQueue (by simp [hmain, Main.started])]
            rfl
      · simp at htake

/-! ## Chunks -/

/-- The commands of the message being handled, of the messages queued and of
the message the receive task holds. -/
def State.inFlight (state : State) : List GateCommand :=
  state.main.pending ++
    commandsOfMessages (contents state.tcp.rxQueue ++ state.tcp.rx.inHand)

/-- `tcp_rx_queue` was never full when a message was sent to it. -/
def NothingRefused (trace : List Event) : Prop :=
  ∀ msg accepted, .queued msg accepted ∈ tcpEvents trace → accepted = true

theorem nothingRefused_of_all {trace : List Event}
    (hall : (tcpEvents trace).all fun event =>
      match event with
      | .queued _ accepted => accepted
      | _ => true) : NothingRefused trace :=
  fun _ _ hqueued => List.all_eq_true.mp hall _ hqueued

/-- The commands of a list of texts, handled one at a time. -/
def commandsOfTexts (texts : List Text) : List GateCommand :=
  texts.flatMap handledCommands

theorem commandsOfMessages_ofChunk (chunks : List Chunk) :
    commandsOfMessages (chunks.map TcpMsg.ofChunk) =
      commandsOfTexts (chunks.map Chunk.bytes) := by
  unfold commandsOfMessages commandsOfTexts
  rw [List.flatMap_map, List.flatMap_map]
  apply List.flatMap_congr
  intro chunk _
  rw [handledCommands_eq, handledCommands_eq, messageCommand_ofChunk]

/-- The commands passed on or in flight are those of the chunks received. -/
theorem commands_of_chunks {final : State} {actions : List Action}
    {trace : List Event}
    (hrun : run State.powerOn actions = .ok (final, trace))
    (haccepted : NothingRefused trace) :
    offeredCommands (gateEvents trace) ++ final.inFlight =
      commandsOfTexts
        ((receivedChunks (tcpEvents trace)).map Chunk.bytes) := by
  obtain ⟨calls, htcp⟩ := tcp_run hrun
  have hreceived := (Tcp.received_of_run htcp).messages
  have hconserved := messagesConserved_of_run hrun
  have hpassed := passedOn_of_run hrun
  rw [← Tcp.acceptedMessages_eq haccepted, hconserved] at hreceived
  calc offeredCommands (gateEvents trace) ++ final.inFlight
      = commandsOfMessages (takenMessages (tcpEvents trace)) ++
          commandsOfMessages
            (contents final.tcp.rxQueue ++ final.tcp.rx.inHand) := by
        rw [hpassed, State.inFlight, List.append_assoc]
    _ = commandsOfMessages (takenMessages (tcpEvents trace) ++
          contents final.tcp.rxQueue ++ final.tcp.rx.inHand) := by
        rw [List.append_assoc]
        exact List.flatMap_append.symm
    _ = commandsOfTexts
          ((receivedChunks (tcpEvents trace)).map Chunk.bytes) := by
        rw [← hreceived, commandsOfMessages_ofChunk]

/-! ## Messages -/

/-- The chunk starts with a complete message. -/
structure Begins (message : Text) (chunk : Chunk) : Prop where
  noNul : (0 : UInt8) ∉ message
  isObject : (cJSONParse message).any cJSONIsObject
  starts : message <+: chunk.bytes

/-- Such a chunk asks for what its message asks for, whatever follows. -/
theorem Begins.messageCommand_eq {message : Text} {chunk : Chunk}
    (hbegins : Begins message chunk) :
    messageCommand chunk.bytes = messageCommand message := by
  obtain ⟨more, hbytes⟩ := hbegins.starts
  obtain ⟨root, hparse, hobject⟩ :=
    (Option.any_eq_true _ _).mp hbegins.isObject
  cases root with
  | object members =>
      rw [← hbytes, messageCommand_append hbegins.noNul hparse]
  | _ => simp [cJSONIsObject] at hobject

theorem commandsOfTexts_of_begins {messages : List Text} {chunks : List Chunk}
    (hbegins : List.Forall₂ Begins messages chunks) :
    commandsOfTexts (chunks.map Chunk.bytes) = commandsOfTexts messages := by
  unfold commandsOfTexts
  induction hbegins with
  | nil => rfl
  | cons hfirst hrest ih =>
      rw [List.map_cons, List.flatMap_cons, List.flatMap_cons,
        handledCommands_eq, hfirst.messageCommand_eq, ← handledCommands_eq, ih]

/-- Each chunk is handled as one text, and as the message it starts with if
that message is complete. -/
theorem chunks_handled_as_messages {final : State} {actions : List Action}
    {trace : List Event}
    (hrun : run State.powerOn actions = .ok (final, trace))
    (haccepted : NothingRefused trace) :
    offeredCommands (gateEvents trace) ++ final.inFlight =
        commandsOfTexts
          ((receivedChunks (tcpEvents trace)).map Chunk.bytes) ∧
      ∀ messages, List.Forall₂ Begins messages
          (receivedChunks (tcpEvents trace)) →
        offeredCommands (gateEvents trace) ++ final.inFlight =
          commandsOfTexts messages := by
  have hchunks := commands_of_chunks hrun haccepted
  refine ⟨hchunks, fun messages hbegins => ?_⟩
  rw [hchunks, commandsOfTexts_of_begins hbegins]

/-- Start gate 0 on the right side. -/
def triggerText : Text :=
  text "\x7b\"command\":1,\"gateNo\":0,\"gatePo\":0\x7d"

/-- Stop gate 0 on the right side. -/
def stopText : Text :=
  text "\x7b\"command\":0,\"gateNo\":0,\"gatePo\":0\x7d"

def triggerGate : GateCommand :=
  ⟨0, Gate.gateTriggerCommand, Gate.rightGate⟩

def stopGate : GateCommand := ⟨0, Gate.gateStopCommand, Gate.rightGate⟩

theorem messageCommand_triggerText :
    messageCommand triggerText = some triggerGate := by
  decide +kernel

theorem messageCommand_stopText : messageCommand stopText = some stopGate := by
  decide +kernel

/-- Both messages arrive in one chunk. -/
def coalesced : Chunk where
  bytes := triggerText ++ stopText
  length_pos := by decide
  length_lt := by decide

theorem begins_coalesced : Begins triggerText coalesced where
  noNul := by decide
  isObject := by decide +kernel
  starts := List.prefix_append _ _

/-- The chunk is received and its message passed on. -/
theorem run_coalesced :
    run State.powerOn (connect ++ (receive coalesced ++ forward)) =
      .ok (forwarded triggerGate,
        [.tcp (.connected 3), .tcp (.greeted 8), .tcp (.received coalesced),
          .tcp (.queued (.ofChunk coalesced) true),
          .tcp (.taken (.ofChunk coalesced)), .gate (.offered triggerGate true),
          .gate (.took triggerGate)]) :=
  Runs.run_append run_connect (Runs.run_append (run_receive coalesced)
    (run_forward
      (begins_coalesced.messageCommand_eq.trans messageCommand_triggerText)))

theorem nothingRefused_coalesced :
    NothingRefused [.tcp (.connected 3), .tcp (.greeted 8),
      .tcp (.received coalesced), .tcp (.queued (.ofChunk coalesced) true),
      .tcp (.taken (.ofChunk coalesced)), .gate (.offered triggerGate true),
      .gate (.took triggerGate)] :=
  nothingRefused_of_all rfl

/-- The stop message in a chunk of its own. -/
def stopChunk : Chunk where
  bytes := stopText
  length_pos := by decide
  length_lt := by decide

theorem begins_stopChunk : Begins stopText stopChunk where
  noNul := by decide
  isObject := by decide +kernel
  starts := List.prefix_rfl

/-- A chunk of two messages and one of a single message are received, and the
first is handled. -/
def twoChunks : List Action :=
  connect ++ (receive coalesced ++ (receive stopChunk ++ forward))

def twoChunksTrace : List Event :=
  [.tcp (.connected 3), .tcp (.greeted 8), .tcp (.received coalesced),
    .tcp (.queued (.ofChunk coalesced) true), .tcp (.received stopChunk),
    .tcp (.queued (.ofChunk stopChunk) true), .tcp (.taken (.ofChunk coalesced)),
    .gate (.offered triggerGate true), .gate (.took triggerGate)]

/-- The trigger of the first chunk is passed on and the stop of the second is in
flight. -/
theorem run_twoChunks :
    ∃ final, run State.powerOn twoChunks = .ok (final, twoChunksTrace) ∧
      final.inFlight = [stopGate] := by
  have hread : (run State.powerOn twoChunks).toOption.map
      (fun outcome => (outcome.2, outcome.1.inFlight)) =
        some (twoChunksTrace, [stopGate]) := by
    decide +kernel
  cases hrun : run State.powerOn twoChunks with
  | error fault => simp [hrun, Except.toOption] at hread
  | ok outcome =>
      obtain ⟨final, trace⟩ := outcome
      rw [hrun] at hread
      obtain ⟨htrace, hflight⟩ := Prod.mk.inj (Option.some.inj hread)
      exact ⟨final, congrArg (fun trace => Except.ok (final, trace)) htrace,
        hflight⟩

/-- The stop behind the trigger in the first chunk is not among the commands. -/
theorem chunks_handled_as_messages_twoChunks :
    ∃ final, run State.powerOn twoChunks = .ok (final, twoChunksTrace) ∧
      offeredCommands (gateEvents twoChunksTrace) ++ final.inFlight =
        commandsOfTexts [triggerText, stopText] ∧
      offeredCommands (gateEvents twoChunksTrace) = [triggerGate] ∧
      final.inFlight = [stopGate] := by
  obtain ⟨final, hrun, hflight⟩ := run_twoChunks
  have haccepted : NothingRefused twoChunksTrace := nothingRefused_of_all rfl
  refine ⟨final, hrun, ?_, rfl, hflight⟩
  apply (chunks_handled_as_messages hrun haccepted).2
  exact .cons begins_coalesced (.cons begins_stopChunk .nil)

/-- Of two messages in one chunk only the first is handled. -/
theorem coalesced_loses_stop :
    ∃ actions final trace, run State.powerOn actions = .ok (final, trace) ∧
      NothingRefused trace ∧
      Gate.acceptedCommands (gateEvents trace) =
        offeredCommands (gateEvents trace) ∧
      final.inFlight = [] ∧
      (receivedChunks (tcpEvents trace)).flatMap Chunk.bytes =
        triggerText ++ stopText ∧
      offeredCommands (gateEvents trace) ≠
        commandsOfTexts [triggerText, stopText] := by
  refine ⟨_, _, _, run_coalesced, nothingRefused_coalesced, rfl, rfl, rfl, ?_⟩
  have hboth : commandsOfTexts [triggerText, stopText] =
      [triggerGate, stopGate] := by
    simp [commandsOfTexts, handledCommands_eq, messageCommand_triggerText,
      messageCommand_stopText]
  rw [hboth]
  decide

end Conveyor.Firmware
