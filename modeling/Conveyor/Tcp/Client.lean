import Conveyor.Tcp.Moves
import Mathlib.Algebra.Group.Nat.Defs

/-!
# The started client and its callers

After `tcp_client_start_task` the two tasks run next to any number of calls of
`tcp_send_data`.  Besides the events of the tasks a history records these calls,
the creation of `tcp_client_rx_task` and the end of what the peer sends.
-/

namespace Conveyor.Tcp

open Conveyor.Core Conveyor.Rtos

/-- The `len` bytes at `data` with which `tcp_send_data` is called. -/
structure Payload where
  bytes : Text
  length_lt : bytes.length < 2 ^ 32
  deriving DecidableEq

def Payload.len (payload : Payload) : UInt32 := .ofNat payload.bytes.length

@[simp]
theorem Payload.toNat_len (payload : Payload) :
    payload.len.toNat = payload.bytes.length :=
  UInt32.toNat_ofNat_of_lt' payload.length_lt

/-- `msg` in `tcp_send_data` after the `memset` and the `memcpy`. -/
def TcpMsg.ofPayload (payload : Payload)
    (hfits : payload.bytes.length < tcpMsgMaxLen) : TcpMsg where
  data := payload.bytes ++
    List.replicate (tcpMsgMaxLen - payload.bytes.length) 0
  len := payload.len
  length_data := by
    rw [List.length_append, List.length_replicate]
    omega

/-- The bytes `send` is asked to send for a message. -/
def TcpMsg.bytes (msg : TcpMsg) : Text := msg.data.take msg.len.toNat

@[simp]
theorem TcpMsg.bytes_ofPayload (payload : Payload)
    (hfits : payload.bytes.length < tcpMsgMaxLen) :
    (ofPayload payload hfits).bytes = payload.bytes :=
  List.take_left' payload.toNat_len.symm

inductive ClientEvent
  | task (event : Event)
  /-- `tcp_send_data` was called, and the queue accepted the message or not. -/
  | offered (payload : Payload) (accepted : Bool)
  | rxTaskCreated
  /-- `recv` returned 0. -/
  | peerClosed
  deriving DecidableEq

inductive ClientAction
  | tcpSendData (payload : Payload)
  | takeMessage
  | tcpClientRx (outcome : RecvOutcome)
  | tcpClientTx (result : ℤ)
  deriving DecidableEq

/-- `tcp_send_data`. -/
def tcpSendData (state : State) (payload : Payload) :
    Except Fault (State × List ClientEvent) :=
  if hlong : tcpMsgMaxLen ≤ payload.len.toNat then
    .ok (state, [.offered payload false])
  else
    have hfits : payload.bytes.length < tcpMsgMaxLen := by
      rw [← payload.toNat_len]
      exact Nat.lt_of_not_le hlong
    match xQueueSend state.txQueue (.ofPayload payload hfits) with
    | .error fault => .error fault
    | .ok (queue, accepted) =>
        .ok ({ state with txQueue := queue }, [.offered payload accepted])

/-- A step of one of the tasks and what else the history records of it. -/
def taskStep (state : State) (action : Action) (noticed : List ClientEvent) :
    Except Fault (State × List ClientEvent) :=
  match step state action with
  | .error fault => .error fault
  | .ok (next, now) => .ok (next, now.map .task ++ noticed)

def clientStep : Runs.Step State ClientAction ClientEvent Fault
  | state, .tcpSendData payload => tcpSendData state payload
  | state, .takeMessage => taskStep state .takeMessage []
  | state, .tcpClientRx outcome =>
      taskStep state (.tcpClientRx outcome)
        (if state.rx = .receiving ∧ outcome = .closed then [.peerClosed]
          else [])
  | state, .tcpClientTx result =>
      taskStep state (.tcpClientTx result)
        (if state.tx = .startRx then [.rxTaskCreated] else [])

/-- After `tcp_client_start_task`, which creates both queues. -/
def State.started : State where
  txQueue := xQueueCreate true
  rxQueue := xQueueCreate true
  sockFd := 0
  rx := .notCreated
  tx := .socket

/-- The started client is where `tcp_client_start_task` leads. -/
theorem run_tcpClientStartTask :
    run State.powerOn [.tcpTxQueueInit true, .tcpRxQueueInit true,
      .tcpClientTxTaskStart] = .ok (State.started, []) := rfl

abbrev clientRun := Runs.run clientStep

/-! ## What one step of the started client can do -/

inductive ClientMove (state : State) :
    ClientAction → State → List ClientEvent → Prop
  | refuse (payload : Payload)
      (hlong : tcpMsgMaxLen ≤ payload.bytes.length) :
      ClientMove state (.tcpSendData payload) state [.offered payload false]
  | offer (payload : Payload) (hfits : payload.bytes.length < tcpMsgMaxLen)
      (queue : QueueHandle TcpMsg) (accepted : Bool)
      (hsend : xQueueSend state.txQueue (.ofPayload payload hfits) =
        .ok (queue, accepted)) :
      ClientMove state (.tcpSendData payload) { state with txQueue := queue }
        [.offered payload accepted]
  | take {next : State} {now : List Event}
      (hmove : Move state .takeMessage next now) :
      ClientMove state .takeMessage next (now.map .task)
  | receive {next : State} {now : List Event} (outcome : RecvOutcome)
      (hmove : Move state (.tcpClientRx outcome) next now) :
      ClientMove state (.tcpClientRx outcome) next (now.map .task ++
        if state.rx = .receiving ∧ outcome = .closed then [.peerClosed]
        else [])
  | transmit {next : State} {now : List Event} (result : ℤ)
      (hmove : Move state (.tcpClientTx result) next now) :
      ClientMove state (.tcpClientTx result) next (now.map .task ++
        if state.tx = .startRx then [.rxTaskCreated] else [])

private theorem taskStep_ok {state next : State} {action : Action}
    {noticed now : List ClientEvent}
    (hstep : taskStep state action noticed = .ok (next, now)) :
    ∃ here, Move state action next here ∧ now = here.map .task ++ noticed := by
  unfold taskStep at hstep
  cases hmove : step state action with
  | error fault => simp [hmove] at hstep
  | ok outcome =>
      simp only [hmove, Except.ok.injEq, Prod.mk.injEq] at hstep
      obtain ⟨rfl, rfl⟩ := hstep
      exact ⟨outcome.2, move_of_step hmove, rfl⟩

private theorem move_of_tcpSendData {state next : State} {payload : Payload}
    {now : List ClientEvent}
    (hstep : tcpSendData state payload = .ok (next, now)) :
    ClientMove state (.tcpSendData payload) next now := by
  unfold tcpSendData at hstep
  split at hstep
  case isTrue hlong =>
    rw [Except.ok.injEq, Prod.mk.injEq] at hstep
    obtain ⟨rfl, rfl⟩ := hstep
    exact .refuse payload (payload.toNat_len ▸ hlong)
  case isFalse hlong =>
    have hfits : payload.bytes.length < tcpMsgMaxLen := by
      rw [← payload.toNat_len]
      exact Nat.lt_of_not_le hlong
    rcases xQueueSend_cases state.txQueue (.ofPayload payload hfits) with
      ⟨-, hsend⟩ | ⟨queue, accepted, hsend⟩
    · simp [hsend] at hstep
    · simp only [hsend, Except.ok.injEq, Prod.mk.injEq] at hstep
      obtain ⟨rfl, rfl⟩ := hstep
      exact .offer payload hfits queue accepted hsend

theorem clientMove_of_step {state next : State} {action : ClientAction}
    {now : List ClientEvent}
    (hstep : clientStep state action = .ok (next, now)) :
    ClientMove state action next now := by
  cases action with
  | tcpSendData payload => exact move_of_tcpSendData hstep
  | takeMessage =>
      obtain ⟨here, hmove, rfl⟩ := taskStep_ok hstep
      rw [List.append_nil]
      exact .take hmove
  | tcpClientRx outcome =>
      obtain ⟨here, hmove, rfl⟩ := taskStep_ok hstep
      exact .receive outcome hmove
  | tcpClientTx result =>
      obtain ⟨here, hmove, rfl⟩ := taskStep_ok hstep
      exact .transmit result hmove

end Conveyor.Tcp
