import Conveyor.Core.Runs
import Conveyor.Rtos
import Conveyor.Text
import Mathlib.Data.Int.Notation

/-!
# The TCP client

`tcp_client_tx_task` connects, starts `tcp_client_rx_task` once and then sends
what is queued; `tcp_client_rx_task` turns every `recv` into a message on
`tcp_rx_queue`.  The result of `recv` is stored in the unsigned `len` before it
is tested.
-/

namespace Conveyor.Tcp

open Conveyor.Core Conveyor.Rtos

/-- `TCP_MSG_MAX_LEN`. -/
def tcpMsgMaxLen : ℕ := 256

/-- `tcp_msg_t`. -/
structure TcpMsg where
  data : Text
  len : UInt32
  length_data : data.length = tcpMsgMaxLen
  deriving DecidableEq

/-- The bytes one `recv` delivers: at least one, and at most one less than the
buffer has. -/
structure Chunk where
  bytes : Text
  length_pos : 0 < bytes.length
  length_lt : bytes.length < tcpMsgMaxLen
  deriving DecidableEq

inductive RecvOutcome
  | error
  /-- The peer has closed the connection. -/
  | closed
  | data (chunk : Chunk)
  deriving DecidableEq

def RecvOutcome.result : RecvOutcome → ℤ
  | .error => -1
  | .closed => 0
  | .data chunk => chunk.bytes.length

/-- `rx_msg.data` after the `memset` and the `recv`. -/
def RecvOutcome.buffer : RecvOutcome → Text
  | .error => List.replicate tcpMsgMaxLen 0
  | .closed => List.replicate tcpMsgMaxLen 0
  | .data chunk =>
      chunk.bytes ++ List.replicate (tcpMsgMaxLen - chunk.bytes.length) 0

theorem RecvOutcome.length_buffer (outcome : RecvOutcome) :
    outcome.buffer.length = tcpMsgMaxLen := by
  cases outcome with
  | error | closed => simp [buffer]
  | data chunk =>
      have hlt := chunk.length_lt
      simp only [buffer, List.length_append, List.length_replicate]
      omega

/-- The message `tcp_client_rx_task` sends on after a `recv`, if any. -/
def receiveMessage (outcome : RecvOutcome) : Except Fault (Option TcpMsg) :=
  let len := UInt32.ofInt outcome.result
  if 0 < len then
    if len.toNat < tcpMsgMaxLen then
      .ok (some
        { data := outcome.buffer.set len.toNat 0
          len := len
          length_data := by rw [List.length_set, outcome.length_buffer] })
    else .error .rxOverflow
  else .ok none

/-! ## The tasks -/

inductive RxTask
  | notCreated
  /-- About to call `recv`. -/
  | receiving
  /-- About to send the message to `tcp_rx_queue`. -/
  | sending (msg : TcpMsg)
  deriving DecidableEq

inductive TxTask
  | notCreated
  /-- About to call `socket`. -/
  | socket
  /-- About to call `connect`. -/
  | connect
  /-- About to send the greeting. -/
  | greeting
  /-- About to create `tcp_client_rx_task`. -/
  | startRx
  /-- At the top of the send loop. -/
  | looping
  /-- About to send a message it has dequeued. -/
  | sending (msg : TcpMsg)
  deriving DecidableEq

structure State where
  txQueue : QueueHandle TcpMsg
  rxQueue : QueueHandle TcpMsg
  sockFd : ℤ
  rx : RxTask
  tx : TxTask
  deriving DecidableEq

/-- Before `tcp_client_start_task`. -/
def State.powerOn : State where
  txQueue := none
  rxQueue := none
  sockFd := 0
  rx := .notCreated
  tx := .notCreated

inductive Event
  /-- `recv` delivered a chunk. -/
  | received (chunk : Chunk)
  /-- `tcp_client_rx_task` sent a message to `tcp_rx_queue`. -/
  | queued (msg : TcpMsg) (accepted : Bool)
  /-- A message was received from `tcp_rx_queue`. -/
  | taken (msg : TcpMsg)
  | connected (sockFd : ℤ)
  | closed (sockFd : ℤ)
  | greeted (result : ℤ)
  /-- `send` was called for a message of `tcp_tx_queue`. -/
  | sent (msg : TcpMsg) (result : ℤ)
  deriving DecidableEq

inductive Action
  | tcpTxQueueInit (created : Bool)
  | tcpRxQueueInit (created : Bool)
  | tcpClientTxTaskStart
  /-- The consumer calls `xQueueReceive` on `tcp_rx_queue`. -/
  | takeMessage
  | tcpClientRx (outcome : RecvOutcome)
  /-- A step of `tcp_client_tx_task` with the result of its call. -/
  | tcpClientTx (result : ℤ)
  deriving DecidableEq

/-- The event of a `recv`. -/
def RecvOutcome.received : RecvOutcome → List Event
  | .data chunk => [.received chunk]
  | _ => []

/-- One step of `tcp_client_rx_task`. -/
def rxStep (state : State) (outcome : RecvOutcome) :
    Except Fault (State × List Event) :=
  match state.rx with
  | .notCreated => .ok (state, [])
  | .receiving =>
      match receiveMessage outcome with
      | .error fault => .error fault
      | .ok none => .ok (state, outcome.received)
      | .ok (some msg) =>
          .ok ({ state with rx := .sending msg }, outcome.received)
  | .sending msg =>
      match xQueueSend state.rxQueue msg with
      | .error fault => .error fault
      | .ok (queue, accepted) =>
          .ok ({ state with rxQueue := queue, rx := .receiving },
            [.queued msg accepted])

/-- One step of `tcp_client_tx_task`. -/
def txStep (state : State) (result : ℤ) : Except Fault (State × List Event) :=
  match state.tx with
  | .notCreated => .ok (state, [])
  | .socket => .ok ({ state with sockFd := result, tx := .connect }, [])
  | .connect =>
      if result ≠ 0 then
        .ok ({ state with tx := .socket },
          if state.sockFd ≠ -1 then [.closed state.sockFd] else [])
      else .ok ({ state with tx := .greeting }, [.connected state.sockFd])
  | .greeting => .ok ({ state with tx := .startRx }, [.greeted result])
  | .startRx => .ok ({ state with rx := .receiving, tx := .looping }, [])
  | .looping =>
      match xQueueReceive state.txQueue with
      | .error fault => .error fault
      | .ok (none, _) => .ok (state, [])
      | .ok (some msg, queue) =>
          .ok ({ state with txQueue := queue, tx := .sending msg }, [])
  | .sending msg => .ok ({ state with tx := .looping }, [.sent msg result])

/-- The consumer's `xQueueReceive`. -/
def takeMessage (state : State) : Except Fault (State × List Event) :=
  match xQueueReceive state.rxQueue with
  | .error fault => .error fault
  | .ok (none, _) => .ok (state, [])
  | .ok (some msg, queue) => .ok ({ state with rxQueue := queue }, [.taken msg])

def step : Runs.Step State Action Event Fault
  | state, .tcpTxQueueInit created =>
      .ok ({ state with txQueue := xQueueCreate created }, [])
  | state, .tcpRxQueueInit created =>
      .ok ({ state with rxQueue := xQueueCreate created }, [])
  | state, .tcpClientTxTaskStart =>
      if state.tx = .notCreated then .ok ({ state with tx := .socket }, [])
      else .ok (state, [])
  | state, .takeMessage => takeMessage state
  | state, .tcpClientRx outcome => rxStep state outcome
  | state, .tcpClientTx result => txStep state result

abbrev run := Runs.run step

/-! ## What a receive makes of its outcome -/

/-- The message of a chunk: the chunk, zeroes, and its length. -/
def TcpMsg.ofChunk (chunk : Chunk) : TcpMsg where
  data := (RecvOutcome.data chunk).buffer
  len := .ofNat chunk.bytes.length
  length_data := RecvOutcome.length_buffer _

theorem TcpMsg.data_ofChunk (chunk : Chunk) :
    (ofChunk chunk).data = chunk.bytes ++
      List.replicate (tcpMsgMaxLen - chunk.bytes.length) 0 := rfl

theorem receiveMessage_error :
    receiveMessage .error = .error .rxOverflow := rfl

theorem receiveMessage_closed : receiveMessage .closed = .ok none := rfl

theorem TcpMsg.len_ofChunk (chunk : Chunk) :
    (ofChunk chunk).len.toNat = chunk.bytes.length := by
  have hlt : chunk.bytes.length < 256 := chunk.length_lt
  exact UInt32.toNat_ofNat_of_lt' (hlt.trans (by decide))

private theorem ofInt_result (chunk : Chunk) :
    UInt32.ofInt (RecvOutcome.data chunk).result = (TcpMsg.ofChunk chunk).len := by
  have hlt : chunk.bytes.length < 256 := chunk.length_lt
  have hmod : ((chunk.bytes.length : ℤ) % 2 ^ 32).toNat = chunk.bytes.length := by
    omega
  rw [UInt32.ofInt, RecvOutcome.result, hmod]
  rfl

/-- The terminator overwrites a zero. -/
private theorem set_buffer (chunk : Chunk) :
    (RecvOutcome.data chunk).buffer.set chunk.bytes.length 0 =
      (RecvOutcome.data chunk).buffer := by
  rw [RecvOutcome.buffer, List.set_append_right _ _ (Nat.le_refl _),
    Nat.sub_self]
  cases tcpMsgMaxLen - chunk.bytes.length <;> rfl

theorem receiveMessage_data (chunk : Chunk) :
    receiveMessage (.data chunk) = .ok (some (.ofChunk chunk)) := by
  have hlen := TcpMsg.len_ofChunk chunk
  have hpositive : 0 < (TcpMsg.ofChunk chunk).len := by
    rw [UInt32.lt_iff_toNat_lt, hlen]
    exact chunk.length_pos
  simp only [receiveMessage, ofInt_result, hpositive, if_true, hlen,
    chunk.length_lt, set_buffer]
  rfl

/-- The string in a message is the one its chunk starts with. -/
theorem TcpMsg.cString_ofChunk (chunk : Chunk) :
    cString (ofChunk chunk).data = cString chunk.bytes :=
  cString_append_zeros _ _

end Conveyor.Tcp
