import Conveyor.Firmware.Carrying

/-!
# Delivering one message

A run that connects, receives a chunk and lets the controller take its command.
-/

namespace Conveyor.Firmware

open Conveyor.Core Conveyor.Rtos Conveyor.IoDriver Conveyor.ProcessData
open Conveyor.Gate (GateCommand)
open Conveyor.Tcp (Chunk TcpMsg)

/-- The calls of `app_main` up to its loop, and a connection on socket 3. -/
def connect : List Action :=
  List.replicate 6 (.main true) ++
    [.tcpClientTx 3, .tcpClientTx 0, .tcpClientTx 8, .tcpClientTx 0]

/-- After `connect` the controller runs and the scan task has not yet. -/
def connected : State where
  main := .receiving
  gate :=
    { Gate.State.powerOn with
      gateQueue := xQueueCreate true
      controller := .top
      scan := .configParam }
  tcp :=
    { txQueue := xQueueCreate true
      rxQueue := xQueueCreate true
      sockFd := 3
      rx := .receiving
      tx := .looping }

theorem run_connect :
    run State.powerOn connect =
      .ok (connected, [.tcp (.connected 3), .tcp (.greeted 8)]) := rfl

/-- Receive a chunk and queue its message. -/
def receive (chunk : Chunk) : List Action :=
  [.tcpClientRx (.data chunk), .tcpClientRx .closed]

/-- Take the message, pass its command on and let the controller take it. -/
def forward : List Action := [.main true, .main true, .gateController]

/-- The message of the chunk is queued. -/
def received (chunk : Chunk) : State where
  main := .receiving
  gate := connected.gate
  tcp := { connected.tcp with
    rxQueue := some ⟨[.ofChunk chunk], by simp [queueLength]⟩ }

/-- The controller is about to sample the sensor of the command. -/
def forwarded (command : GateCommand) : State where
  main := .working [.deleted]
  gate := { connected.gate with controller := .sampling command }
  tcp := connected.tcp

theorem run_receive (chunk : Chunk) :
    run connected (receive chunk) = .ok (received chunk,
      [.tcp (.received chunk), .tcp (.queued (.ofChunk chunk) true)]) := by
  have hrecv : step connected (.tcpClientRx (.data chunk)) =
      .ok ({ connected with
        tcp := { connected.tcp with rx := .sending (.ofChunk chunk) } },
        [.tcp (.received chunk)]) := by
    simp [step, tcpStep, Tcp.step, Tcp.rxStep, Tcp.receiveMessage_data,
      connected, Tcp.RecvOutcome.received]
  exact Runs.run_cons hrecv rfl

theorem run_forward {chunk : Chunk} {command : GateCommand}
    (hcommand : messageCommand chunk.bytes = some command) :
    run (received chunk) forward = .ok (forwarded command,
      [.tcp (.taken (.ofChunk chunk)), .gate (.offered command true),
        .gate (.took command)]) := by
  have hprocess := processMessage_of_messageCommand
    ((messageCommand_ofChunk chunk).trans hcommand)
  have htake : step (received chunk) (.main true) =
      .ok ({ connected with main := .working [.passed command, .deleted] },
        [.tcp (.taken (.ofChunk chunk))]) := by
    simp [step, mainStep, received, receiveStep, connected, xQueueReceive,
      BoundedQueue.receive, hprocess, xQueueCreate, BoundedQueue.empty]
  exact Runs.run_cons htake rfl

end Conveyor.Firmware
