import Conveyor.Firmware.Components

/-!
# Where commands come from

Every command inside the firmware was asked for by a received chunk: it is the
command of a message queued or in hand, passed on by the message loop, held by
the controller or the origin of an output command.
-/

namespace Conveyor.Firmware

open Conveyor.Core Conveyor.Rtos Conveyor.IoDriver Conveyor.ProcessData
open Conveyor.Gate (GateCommand)
open Conveyor.Tcp (Chunk TcpMsg)

/-- The chunk a step receives. -/
def Action.chunk : Action → Option Chunk
  | .tcpClientRx (.data chunk) => some chunk
  | _ => none

def chunksOf (actions : List Action) : List Chunk :=
  actions.filterMap Action.chunk

/-- The commands of the message being handled that are not passed on yet. -/
def Main.pending : Main → List GateCommand
  | .working effects => passedCommands effects
  | _ => []

/-- What a gate step offers is the next pending command. -/
theorem GateCall.pending_eq {state : State} {action : Action} {main : Main}
    {call : Gate.Action} (hcall : GateCall state action main call) :
    state.main.pending = call.offer.toList ++ main.pending := by
  cases hcall with
  | controller | ioScan => rfl
  | scanStart created hmain | queueInit created hmain
  | controllerStart created hmain | pass created command effects hmain =>
      rw [hmain]
      rfl

theorem TcpCall.pending_eq {state : State} {action : Action} {main : Main}
    {call : Tcp.Action} (hcall : TcpCall state action main call) :
    main.pending = state.main.pending := by
  cases hcall with
  | rx | tx => rfl
  | txQueueInit created hmain | rxQueueInit created hmain
  | txStart created hmain =>
      rw [hmain]
      rfl

theorem TcpCall.chunk_eq {state : State} {action : Action} {main : Main}
    {call : Tcp.Action} (hcall : TcpCall state action main call) :
    call.chunk = action.chunk := by
  cases hcall with
  | rx outcome => cases outcome <;> rfl
  | _ => rfl

/-- An allowed chunk asks for the command. -/
def Asked (allowed : Chunk → Prop) (command : GateCommand) : Prop :=
  ∃ chunk, allowed chunk ∧ messageCommand chunk.bytes = some command

/-- Everything in the firmware comes from allowed chunks. -/
structure Carries (allowed : Chunk → Prop) (state : State) : Prop where
  messages : Tcp.Carries allowed state.tcp
  pending : ∀ command ∈ state.main.pending, Asked allowed command
  gate : Gate.Carries (Asked allowed) state.gate

theorem carries_powerOn (allowed : Chunk → Prop) :
    Carries allowed State.powerOn where
  messages := Tcp.carries_powerOn allowed
  pending := by simp [State.powerOn, Main.pending]
  gate := Gate.carries_powerOn _

/-- The message of a chunk asks for what the chunk asks for. -/
theorem messageCommand_ofChunk (chunk : Chunk) :
    messageCommand (TcpMsg.ofChunk chunk).data =
      messageCommand chunk.bytes :=
  messageCommand_of_cString (TcpMsg.cString_ofChunk chunk)

theorem Carries.step {allowed : Chunk → Prop} {state next : State}
    {action : Action} {now : List Event} (hcarries : Carries allowed state)
    (hchunk : ∀ chunk, action.chunk = some chunk → allowed chunk)
    (hstep : step state action = .ok (next, now)) : Carries allowed next := by
  cases move_of_step hstep with
  | gate action main call gate events hcall hgate =>
      have hpending := hcarries.pending
      rw [hcall.pending_eq] at hpending
      refine ⟨hcarries.messages, fun command hmem =>
        hpending command (List.mem_append_right _ hmem), ?_⟩
      refine hcarries.gate.step (fun command hoffer => ?_) hgate
      exact hpending command (by simp [hoffer])
  | tcp action main call tcp events hcall htcp =>
      refine ⟨hcarries.messages.step (hcall.chunk_eq ▸ hchunk) htcp, ?_,
        hcarries.gate⟩
      rw [hcall.pending_eq]
      exact hcarries.pending
  | nothingTaken => exact hcarries
  | take created msg queue effects hmain hreceive hprocess =>
      obtain ⟨⟨chunk, hallowed, rfl⟩, hrest⟩ :=
        forall_contents_of_receive hreceive hcarries.messages.queued
      refine ⟨⟨hrest, hcarries.messages.inHand⟩, fun command hmem => ?_,
        hcarries.gate⟩
      rw [Main.pending, passedCommands_processMessage hprocess,
        messageCommand_ofChunk, Option.mem_toList] at hmem
      exact ⟨chunk, hallowed, hmem⟩
  | finish created hmain =>
      exact ⟨hcarries.messages, by simp [Main.pending], hcarries.gate⟩
  | delete created effects hmain =>
      have hpending := hcarries.pending
      rw [hmain] at hpending
      exact ⟨hcarries.messages, hpending, hcarries.gate⟩

/-- A run that receives only allowed chunks does so step by step. -/
theorem stepsMeet_of_chunks {allowed : Chunk → Prop} {actions : List Action}
    (hchunks : ∀ chunk ∈ chunksOf actions, allowed chunk) (state : State) :
    Runs.StepsMeet step (fun _ action =>
      ∀ chunk, Action.chunk action = some chunk → allowed chunk)
      state actions := by
  apply Runs.StepsMeet.of_forall
  intro action haction _ chunk hchunk
  exact hchunks chunk (List.mem_filterMap.mpr ⟨action, haction, hchunk⟩)

theorem carries_of_run {allowed : Chunk → Prop} {final : State}
    {actions : List Action} {trace : List Event}
    (hrun : run State.powerOn actions = .ok (final, trace))
    (hchunks : ∀ chunk ∈ chunksOf actions, allowed chunk) :
    Carries allowed final :=
  Runs.run_invariant step _ (fun current _ => Carries allowed current)
    (fun _ _ _ _ _ hcarries hchunk hstep => hcarries.step hchunk hstep)
    (carries_powerOn allowed) (stepsMeet_of_chunks hchunks _) hrun

end Conveyor.Firmware
