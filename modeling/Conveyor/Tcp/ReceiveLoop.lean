import Conveyor.Tcp.Moves

/-!
# The receive loop

Every chunk `recv` delivers becomes one message, in order and with its length
and a terminator.  An error of `recv` becomes the length `2 ^ 32 - 1` and the
terminator is written far outside the message.
-/

namespace Conveyor.Tcp

open Conveyor.Core Conveyor.Rtos

/-- The message holds the chunk, its length and a terminator. -/
structure Holds (chunk : Chunk) (msg : TcpMsg) : Prop where
  len : msg.len.toNat = chunk.bytes.length
  bytes : msg.data.take chunk.bytes.length = chunk.bytes
  terminator : msg.data[chunk.bytes.length]? = some 0

theorem holds_ofChunk (chunk : Chunk) : Holds chunk (.ofChunk chunk) where
  len := TcpMsg.len_ofChunk chunk
  bytes := List.take_left' rfl
  terminator := by
    have hlt := chunk.length_lt
    rw [TcpMsg.data_ofChunk,
      List.getElem?_append_right (Nat.le_refl _), Nat.sub_self,
      List.getElem?_replicate, if_pos (by omega)]

def Event.chunk : Event → Option Chunk
  | .received chunk => some chunk
  | _ => none

/-- The chunks received along a trace. -/
def receivedChunks (trace : List Event) : List Chunk :=
  trace.filterMap Event.chunk

def Event.queuedMessage : Event → Option TcpMsg
  | .queued msg _ => some msg
  | _ => none

/-- The messages sent to `tcp_rx_queue` along a trace, accepted or not. -/
def queuedMessages (trace : List Event) : List TcpMsg :=
  trace.filterMap Event.queuedMessage

/-- The message the receive task has not sent on yet. -/
def RxTask.inHand : RxTask → List TcpMsg
  | .notCreated => []
  | .receiving => []
  | .sending msg => [msg]

/-- The receive loop does what it should along these actions: no terminator is
written out of range, the messages are the chunks in order, and only a full
queue drops one. -/
def ReceivesFaithfully (actions : List Action) : Prop :=
  run State.powerOn actions ≠ .error .rxOverflow ∧
    ∀ before after state past, actions = before ++ after →
      run State.powerOn before = .ok (state, past) →
      List.Forall₂ Holds (receivedChunks past)
          (queuedMessages past ++ state.rx.inHand) ∧
        ∀ action next now msg accepted, step state action = .ok (next, now) →
          .queued msg accepted ∈ now →
          contents next.rxQueue =
              (if accepted then contents state.rxQueue ++ [msg]
                else contents state.rxQueue) ∧
            (accepted = false →
              (contents state.rxQueue).length = queueLength)

/-- `recv` reports an error. -/
def RecvFails (state : State) (action : Action) : Prop :=
  state.rx = .receiving ∧ action = .tcpClientRx .error

/-- The receive task has been created. -/
def TxTask.RxStarted : TxTask → Prop
  | .looping => True
  | .sending _ => True
  | _ => False

/-- The chunks received so far are the messages queued or in hand. -/
structure Received (state : State) (past : List Event) : Prop where
  created : ¬ state.tx.RxStarted → state.rx = .notCreated
  messages : (receivedChunks past).map TcpMsg.ofChunk =
    queuedMessages past ++ state.rx.inHand

theorem received_powerOn : Received State.powerOn [] where
  created := fun _ => rfl
  messages := rfl

theorem receivedChunks_append (first second : List Event) :
    receivedChunks (first ++ second) =
      receivedChunks first ++ receivedChunks second :=
  List.filterMap_append

theorem queuedMessages_append (first second : List Event) :
    queuedMessages (first ++ second) =
      queuedMessages first ++ queuedMessages second :=
  List.filterMap_append

/-- What a step adds on one side it adds on the other. -/
theorem Received.balance {state next : State} {past now : List Event}
    (hreceived : Received state past)
    (hcreated : ¬ next.tx.RxStarted → next.rx = .notCreated)
    (hinHand : state.rx.inHand ++ (receivedChunks now).map TcpMsg.ofChunk =
      queuedMessages now ++ next.rx.inHand) :
    Received next (past ++ now) where
  created := hcreated
  messages := by
    calc (receivedChunks (past ++ now)).map TcpMsg.ofChunk
        = queuedMessages past ++ (state.rx.inHand ++
            (receivedChunks now).map TcpMsg.ofChunk) := by
          rw [receivedChunks_append, List.map_append, hreceived.messages,
            List.append_assoc]
      _ = queuedMessages (past ++ now) ++ next.rx.inHand := by
          rw [hinHand, queuedMessages_append, List.append_assoc]

/-- A step without receive events that leaves the receive task alone. -/
theorem Received.of_quiet {state next : State} {past now : List Event}
    (hreceived : Received state past) (hrx : next.rx = state.rx)
    (htx : state.tx.RxStarted → next.tx.RxStarted)
    (hchunks : receivedChunks now = []) (hqueued : queuedMessages now = []) :
    Received next (past ++ now) := by
  apply hreceived.balance
  · intro hnext
    rw [hrx]
    exact hreceived.created (mt htx hnext)
  · rw [hchunks, hqueued, hrx]
    exact List.append_nil _

/-- A receive task that runs has been started. -/
theorem Received.rxStarted {state : State} {past : List Event}
    (hreceived : Received state past) (hrx : state.rx ≠ .notCreated) :
    state.tx.RxStarted := by
  by_contra hstarted
  exact hrx (hreceived.created hstarted)

theorem Received.step {state next : State} {action : Action}
    {past now : List Event} (hreceived : Received state past)
    (hstep : step state action = .ok (next, now)) :
    Received next (past ++ now) := by
  cases move_of_step hstep with
  | txQueueInit | rxQueueInit | txStarted | nothingTaken | take | rxAbsent
  | recvClosed | txAbsent | nothingToSend =>
      exact hreceived.of_quiet rfl id rfl rfl
  | txStart htx | socket result htx | connect htx | greet result htx
  | dequeue result msg queue htx | send result msg htx =>
      exact hreceived.of_quiet rfl (by simp [htx, TxTask.RxStarted]) rfl rfl
  | connectFailed result htx =>
      refine hreceived.of_quiet rfl (by simp [htx, TxTask.RxStarted]) ?_ ?_ <;>
        split <;> rfl
  | recv chunk hrx | queue outcome msg queue accepted hrx hsend =>
      have hstarted := hreceived.rxStarted (by simp [hrx])
      refine hreceived.balance (fun hnext => absurd hstarted hnext) ?_
      rw [hrx]
      rfl
  | rxStart result htx =>
      have hrx := hreceived.created (by simp [htx, TxTask.RxStarted])
      refine hreceived.balance (fun hnext => absurd trivial hnext) ?_
      rw [hrx]
      rfl

theorem received_of_run {actions : List Action} {state : State}
    {past : List Event} (hrun : run State.powerOn actions = .ok (state, past)) :
    Received state past :=
  Runs.run_history_invariant step Received
    (fun _ _ _ _ _ hreceived hstep => hreceived.step hstep)
    received_powerOn hrun

/-- What the receive task does with a message. -/
theorem queued_step {state next : State} {action : Action} {now : List Event}
    {msg : TcpMsg} {accepted : Bool}
    (hstep : step state action = .ok (next, now))
    (hqueued : .queued msg accepted ∈ now) :
    contents next.rxQueue =
        (if accepted then contents state.rxQueue ++ [msg]
          else contents state.rxQueue) ∧
      (accepted = false → (contents state.rxQueue).length = queueLength) := by
  cases move_of_step hstep with
  | queue outcome sent queue flag hrx hsend =>
      rw [List.mem_singleton, Event.queued.injEq] at hqueued
      obtain ⟨rfl, rfl⟩ := hqueued
      obtain ⟨-, -, hflag, hcontents⟩ := xQueueSend_ok hsend
      refine ⟨hcontents, fun hfull => ?_⟩
      rw [hflag, decide_eq_false_iff_not] at hfull
      have hle := length_contents_le state.rxQueue
      omega
  | connectFailed result htx =>
      split at hqueued <;> simp at hqueued
  | _ => simp at hqueued

/-- The messages of the chunks hold them. -/
theorem forall₂_holds (chunks : List Chunk) :
    List.Forall₂ Holds chunks (chunks.map TcpMsg.ofChunk) := by
  induction chunks with
  | nil => exact .nil
  | cons chunk chunks ih => exact .cons (holds_ofChunk chunk) ih

/-- The receive loop works exactly in the runs in which no `recv` reports an
error. -/
theorem receives_faithfully_iff (actions : List Action) :
    ReceivesFaithfully actions ↔
      Runs.StepsMeet step (fun state action => ¬ RecvFails state action)
        State.powerOn actions := by
  constructor
  · rintro ⟨hsafe, -⟩
    refine Runs.stepsMeet_of_ne_error .rxOverflow ?_ hsafe
    rintro state action hfails
    obtain ⟨hrx, rfl⟩ := not_not.mp hfails
    exact step_recv_error hrx
  · intro hmeets
    refine ⟨?_, fun before after state past _ hrun => ⟨?_, fun action next now
      msg accepted hstep hqueued => queued_step hstep hqueued⟩⟩
    · exact Runs.run_ne_error step
        (fun state action => ¬ RecvFails state action) (fun _ => True)
        .rxOverflow
        (fun _ _ _ _ _ _ _ => trivial)
        (fun state action _ hguard hfault =>
          hguard (rxOverflow_of_step hfault)) trivial hmeets
    · rw [← (received_of_run hrun).messages]
      exact forall₂_holds _

/-- `recv` reports an error at once after the receive task was started. -/
def recvError : List Action :=
  [.tcpTxQueueInit true, .tcpRxQueueInit true, .tcpClientTxTaskStart,
    .tcpClientTx 3, .tcpClientTx 0, .tcpClientTx 8, .tcpClientTx 0,
    .tcpClientRx .error]

/-- The terminator of a failed `recv` is written outside the message. -/
theorem recvError_overflows :
    run State.powerOn recvError = .error .rxOverflow ∧
      ¬ ReceivesFaithfully recvError :=
  ⟨rfl, fun hfaithful => hfaithful.1 rfl⟩

end Conveyor.Tcp
