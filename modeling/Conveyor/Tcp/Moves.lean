import Conveyor.Tcp.Tasks

/-!
# What one step of the TCP client can do

As for the gate tasks, `Move` lists every step that does not fault.
-/

namespace Conveyor.Tcp

open Conveyor.Core Conveyor.Rtos

inductive Move (state : State) : Action → State → List Event → Prop
  | txQueueInit (created : Bool) :
      Move state (.tcpTxQueueInit created)
        { state with txQueue := xQueueCreate created } []
  | rxQueueInit (created : Bool) :
      Move state (.tcpRxQueueInit created)
        { state with rxQueue := xQueueCreate created } []
  | txStart (htx : state.tx = .notCreated) :
      Move state .tcpClientTxTaskStart { state with tx := .socket } []
  | txStarted (htx : state.tx ≠ .notCreated) :
      Move state .tcpClientTxTaskStart state []
  | nothingTaken (queue : QueueHandle TcpMsg)
      (hreceive : xQueueReceive state.rxQueue = .ok (none, queue)) :
      Move state .takeMessage state []
  | take (msg : TcpMsg) (queue : QueueHandle TcpMsg)
      (hreceive : xQueueReceive state.rxQueue = .ok (some msg, queue)) :
      Move state .takeMessage { state with rxQueue := queue } [.taken msg]
  | rxAbsent (outcome : RecvOutcome) (hrx : state.rx = .notCreated) :
      Move state (.tcpClientRx outcome) state []
  | recvClosed (hrx : state.rx = .receiving) :
      Move state (.tcpClientRx .closed) state []
  | recv (chunk : Chunk) (hrx : state.rx = .receiving) :
      Move state (.tcpClientRx (.data chunk))
        { state with rx := .sending (.ofChunk chunk) } [.received chunk]
  | queue (outcome : RecvOutcome) (msg : TcpMsg) (queue : QueueHandle TcpMsg)
      (accepted : Bool) (hrx : state.rx = .sending msg)
      (hsend : xQueueSend state.rxQueue msg = .ok (queue, accepted)) :
      Move state (.tcpClientRx outcome)
        { state with rxQueue := queue, rx := .receiving }
        [.queued msg accepted]
  | txAbsent (result : ℤ) (htx : state.tx = .notCreated) :
      Move state (.tcpClientTx result) state []
  | socket (result : ℤ) (htx : state.tx = .socket) :
      Move state (.tcpClientTx result)
        { state with sockFd := result, tx := .connect } []
  | connectFailed (result : ℤ) (htx : state.tx = .connect)
      (hfailed : result ≠ 0) :
      Move state (.tcpClientTx result) { state with tx := .socket }
        (if state.sockFd ≠ -1 then [.closed state.sockFd] else [])
  | connect (htx : state.tx = .connect) :
      Move state (.tcpClientTx 0) { state with tx := .greeting }
        [.connected state.sockFd]
  | greet (result : ℤ) (htx : state.tx = .greeting) :
      Move state (.tcpClientTx result) { state with tx := .startRx }
        [.greeted result]
  | rxStart (result : ℤ) (htx : state.tx = .startRx) :
      Move state (.tcpClientTx result)
        { state with rx := .receiving, tx := .looping } []
  | nothingToSend (result : ℤ) (queue : QueueHandle TcpMsg)
      (htx : state.tx = .looping)
      (hreceive : xQueueReceive state.txQueue = .ok (none, queue)) :
      Move state (.tcpClientTx result) state []
  | dequeue (result : ℤ) (msg : TcpMsg) (queue : QueueHandle TcpMsg)
      (htx : state.tx = .looping)
      (hreceive : xQueueReceive state.txQueue = .ok (some msg, queue)) :
      Move state (.tcpClientTx result)
        { state with txQueue := queue, tx := .sending msg } []
  | send (result : ℤ) (msg : TcpMsg) (htx : state.tx = .sending msg) :
      Move state (.tcpClientTx result) { state with tx := .looping }
        [.sent msg result]

private theorem move_of_rxStep {state next : State} {outcome : RecvOutcome}
    {now : List Event} (hstep : rxStep state outcome = .ok (next, now)) :
    Move state (.tcpClientRx outcome) next now := by
  unfold rxStep at hstep
  cases hrx : state.rx with
  | notCreated =>
      simp only [hrx, Except.ok.injEq, Prod.mk.injEq] at hstep
      obtain ⟨rfl, rfl⟩ := hstep
      exact .rxAbsent outcome hrx
  | receiving =>
      cases outcome with
      | error => simp [hrx, receiveMessage_error] at hstep
      | closed =>
          simp only [hrx, receiveMessage_closed, Except.ok.injEq,
            Prod.mk.injEq] at hstep
          obtain ⟨rfl, rfl⟩ := hstep
          exact .recvClosed hrx
      | data chunk =>
          simp only [hrx, receiveMessage_data, Except.ok.injEq,
            Prod.mk.injEq] at hstep
          obtain ⟨rfl, rfl⟩ := hstep
          exact .recv chunk hrx
  | sending msg =>
      simp only [hrx] at hstep
      rcases xQueueSend_cases state.rxQueue msg with
        ⟨-, hsend⟩ | ⟨queue, accepted, hsend⟩
      · simp [hsend] at hstep
      · simp only [hsend, Except.ok.injEq, Prod.mk.injEq] at hstep
        obtain ⟨rfl, rfl⟩ := hstep
        exact .queue outcome msg queue accepted hrx hsend

private theorem move_of_txStep {state next : State} {result : ℤ}
    {now : List Event} (hstep : txStep state result = .ok (next, now)) :
    Move state (.tcpClientTx result) next now := by
  unfold txStep at hstep
  cases htx : state.tx with
  | notCreated =>
      simp only [htx, Except.ok.injEq, Prod.mk.injEq] at hstep
      obtain ⟨rfl, rfl⟩ := hstep
      exact .txAbsent result htx
  | socket =>
      simp only [htx, Except.ok.injEq, Prod.mk.injEq] at hstep
      obtain ⟨rfl, rfl⟩ := hstep
      exact .socket result htx
  | connect =>
      by_cases hfailed : result ≠ 0
      · simp only [htx, hfailed, if_true, ne_eq, not_false_eq_true,
          Except.ok.injEq, Prod.mk.injEq] at hstep
        obtain ⟨rfl, rfl⟩ := hstep
        exact .connectFailed result htx hfailed
      · simp only [htx, hfailed, if_false, Except.ok.injEq,
          Prod.mk.injEq] at hstep
        obtain ⟨rfl, rfl⟩ := hstep
        rw [not_not.mp hfailed]
        exact .connect htx
  | greeting =>
      simp only [htx, Except.ok.injEq, Prod.mk.injEq] at hstep
      obtain ⟨rfl, rfl⟩ := hstep
      exact .greet result htx
  | startRx =>
      simp only [htx, Except.ok.injEq, Prod.mk.injEq] at hstep
      obtain ⟨rfl, rfl⟩ := hstep
      exact .rxStart result htx
  | looping =>
      simp only [htx] at hstep
      rcases xQueueReceive_cases state.txQueue with
        ⟨-, hreceive⟩ | ⟨queue, hreceive⟩ | ⟨msg, queue, hreceive⟩
      · simp [hreceive] at hstep
      · simp only [hreceive, Except.ok.injEq, Prod.mk.injEq] at hstep
        obtain ⟨rfl, rfl⟩ := hstep
        exact .nothingToSend result queue htx hreceive
      · simp only [hreceive, Except.ok.injEq, Prod.mk.injEq] at hstep
        obtain ⟨rfl, rfl⟩ := hstep
        exact .dequeue result msg queue htx hreceive
  | sending msg =>
      simp only [htx, Except.ok.injEq, Prod.mk.injEq] at hstep
      obtain ⟨rfl, rfl⟩ := hstep
      exact .send result msg htx

theorem move_of_step {state next : State} {action : Action} {now : List Event}
    (hstep : step state action = .ok (next, now)) :
    Move state action next now := by
  cases action with
  | tcpTxQueueInit created =>
      simp only [step, Except.ok.injEq, Prod.mk.injEq] at hstep
      obtain ⟨rfl, rfl⟩ := hstep
      exact .txQueueInit created
  | tcpRxQueueInit created =>
      simp only [step, Except.ok.injEq, Prod.mk.injEq] at hstep
      obtain ⟨rfl, rfl⟩ := hstep
      exact .rxQueueInit created
  | tcpClientTxTaskStart =>
      by_cases htx : state.tx = .notCreated
      · simp only [step, htx, if_true, Except.ok.injEq, Prod.mk.injEq] at hstep
        obtain ⟨rfl, rfl⟩ := hstep
        exact .txStart htx
      · simp only [step, htx, if_false, Except.ok.injEq, Prod.mk.injEq] at hstep
        obtain ⟨rfl, rfl⟩ := hstep
        exact .txStarted htx
  | takeMessage =>
      simp only [step, takeMessage] at hstep
      rcases xQueueReceive_cases state.rxQueue with
        ⟨-, hreceive⟩ | ⟨queue, hreceive⟩ | ⟨msg, queue, hreceive⟩
      · simp [hreceive] at hstep
      · simp only [hreceive, Except.ok.injEq, Prod.mk.injEq] at hstep
        obtain ⟨rfl, rfl⟩ := hstep
        exact .nothingTaken queue hreceive
      · simp only [hreceive, Except.ok.injEq, Prod.mk.injEq] at hstep
        obtain ⟨rfl, rfl⟩ := hstep
        exact .take msg queue hreceive
  | tcpClientRx outcome => exact move_of_rxStep hstep
  | tcpClientTx result => exact move_of_txStep hstep

/-- Every step that faults, with what makes it fault. -/
inductive Breaks (state : State) : Action → Fault → Prop
  | take (hqueue : state.rxQueue = none) :
      Breaks state .takeMessage .nullQueue
  | recv (hrx : state.rx = .receiving) :
      Breaks state (.tcpClientRx .error) .rxOverflow
  | queue (outcome : RecvOutcome) (msg : TcpMsg)
      (hrx : state.rx = .sending msg) (hqueue : state.rxQueue = none) :
      Breaks state (.tcpClientRx outcome) .nullQueue
  | dequeue (result : ℤ) (htx : state.tx = .looping)
      (hqueue : state.txQueue = none) :
      Breaks state (.tcpClientTx result) .nullQueue

theorem breaks_of_step {state : State} {action : Action} {fault : Fault}
    (hstep : step state action = .error fault) : Breaks state action fault := by
  cases action with
  | tcpTxQueueInit | tcpRxQueueInit => simp [step] at hstep
  | tcpClientTxTaskStart =>
      simp only [step] at hstep
      split at hstep <;> simp at hstep
  | takeMessage =>
      simp only [step, takeMessage] at hstep
      rcases xQueueReceive_cases state.rxQueue with
        ⟨hqueue, hreceive⟩ | ⟨queue, hreceive⟩ | ⟨msg, queue, hreceive⟩
      · simp only [hreceive, Except.error.injEq] at hstep
        exact hstep ▸ .take hqueue
      · simp [hreceive] at hstep
      · simp [hreceive] at hstep
  | tcpClientRx outcome =>
      cases hrx : state.rx with
      | notCreated => simp [step, rxStep, hrx] at hstep
      | receiving =>
          cases outcome with
          | error =>
              simp only [step, rxStep, hrx, receiveMessage_error,
                Except.error.injEq] at hstep
              exact hstep ▸ .recv hrx
          | closed => simp [step, rxStep, hrx, receiveMessage_closed] at hstep
          | data chunk =>
              simp [step, rxStep, hrx, receiveMessage_data] at hstep
      | sending msg =>
          simp only [step, rxStep, hrx] at hstep
          rcases xQueueSend_cases state.rxQueue msg with
            ⟨hqueue, hsend⟩ | ⟨queue, accepted, hsend⟩
          · simp only [hsend, Except.error.injEq] at hstep
            exact hstep ▸ .queue outcome msg hrx hqueue
          · simp [hsend] at hstep
  | tcpClientTx result =>
      cases htx : state.tx with
      | looping =>
          simp only [step, txStep, htx] at hstep
          rcases xQueueReceive_cases state.txQueue with
            ⟨hqueue, hreceive⟩ | ⟨queue, hreceive⟩ | ⟨msg, queue, hreceive⟩
          · simp only [hreceive, Except.error.injEq] at hstep
            exact hstep ▸ .dequeue result htx hqueue
          · simp [hreceive] at hstep
          · simp [hreceive] at hstep
      | connect =>
          by_cases hfailed : result = 0 <;>
            simp [step, txStep, htx, hfailed] at hstep
      | _ => simp [step, txStep, htx] at hstep

/-- Only the receive task writes a terminator out of range, and only after a
failed `recv`. -/
theorem rxOverflow_of_step {state : State} {action : Action}
    (hstep : step state action = .error .rxOverflow) :
    state.rx = .receiving ∧ action = .tcpClientRx .error := by
  cases breaks_of_step hstep with
  | recv hrx => exact ⟨hrx, rfl⟩

theorem txQueue_isSome_step {state next : State} {action : Action}
    {now : List Event} (hstep : step state action = .ok (next, now))
    (hcreated : ∀ created, action = .tcpTxQueueInit created → created = true)
    (hsome : state.txQueue.isSome) : next.txQueue.isSome := by
  cases move_of_step hstep with
  | txQueueInit created => rw [hcreated created rfl]; rfl
  | dequeue result msg queue htx hreceive =>
      exact (xQueueReceive_some hreceive).2.1
  | _ => exact hsome

theorem rxQueue_isSome_step {state next : State} {action : Action}
    {now : List Event} (hstep : step state action = .ok (next, now))
    (hcreated : ∀ created, action = .tcpRxQueueInit created → created = true)
    (hsome : state.rxQueue.isSome) : next.rxQueue.isSome := by
  cases move_of_step hstep with
  | rxQueueInit created => rw [hcreated created rfl]; rfl
  | take msg queue hreceive => exact (xQueueReceive_some hreceive).2.1
  | queue outcome msg queue accepted hrx hsend => exact (xQueueSend_ok hsend).2.1
  | _ => exact hsome

/-- A failed `recv` overflows. -/
theorem step_recv_error {state : State} (hrx : state.rx = .receiving) :
    step state (.tcpClientRx .error) = .error .rxOverflow := by
  simp [step, rxStep, hrx, receiveMessage_error]

end Conveyor.Tcp
