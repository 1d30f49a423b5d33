import Conveyor.Tcp.Client

/-!
# The transmitted stream

The bytes the socket takes after the greeting should be a prefix of what
`tcp_send_data` accepted.  The send loop calls `send` once for each message, so
the law holds as long as a `send` that took less than its message is the last
one to take anything.
-/

namespace Conveyor.Tcp

open Conveyor.Core Conveyor.Rtos

/-- A call of `send` in the send loop. -/
structure SendCall where
  msg : TcpMsg
  result : ℤ
  deriving DecidableEq

/-- The bytes of the message that the socket took. -/
def SendCall.taken (call : SendCall) : Text :=
  call.msg.bytes.take call.result.toNat

/-- The socket took the whole message. -/
def SendCall.Whole (call : SendCall) : Prop := call.taken = call.msg.bytes

instance (call : SendCall) : Decidable call.Whole :=
  inferInstanceAs (Decidable (_ = _))

def ClientEvent.sendCall : ClientEvent → Option SendCall
  | .task (.sent msg result) => some ⟨msg, result⟩
  | _ => none

def sendCalls (history : List ClientEvent) : List SendCall :=
  history.filterMap ClientEvent.sendCall

/-- The bytes the socket took after the greeting. -/
def transmitted (history : List ClientEvent) : Text :=
  (sendCalls history).flatMap SendCall.taken

def ClientEvent.acceptedPayload : ClientEvent → Option Text
  | .offered payload true => some payload.bytes
  | _ => none

/-- The payloads `tcp_send_data` accepted, one after the other. -/
def acceptedStream (history : List ClientEvent) : Text :=
  (history.filterMap ClientEvent.acceptedPayload).flatten

/-- At every moment the socket has taken a prefix of what was accepted. -/
def NoGap (actions : List ClientAction) : Prop :=
  ∀ before after state history, actions = before ++ after →
    clientRun State.started before = .ok (state, history) →
    transmitted history <+: acceptedStream history

/-- Once a `send` has taken less than its message, no later one takes a byte. -/
def ShortSendIsLast (actions : List ClientAction) : Prop :=
  ∀ before after state history, actions = before ++ after →
    clientRun State.started before = .ok (state, history) →
    (sendCalls history).Pairwise fun earlier later =>
      earlier.Whole ∨ later.taken = []

/-- The message the send loop has dequeued and not sent yet. -/
def TxTask.inHand : TxTask → List TcpMsg
  | .sending msg => [msg]
  | _ => []

/-- The bytes accepted and not passed to `send` yet. -/
def State.held (state : State) : Text :=
  (state.tx.inHand ++ contents state.txQueue).flatMap TcpMsg.bytes

/-- The bytes `send` was called with. -/
def requested (history : List ClientEvent) : Text :=
  (sendCalls history).flatMap fun call => call.msg.bytes

/-- What was accepted has been passed to `send` or is still held. -/
def StreamConserved (state : State) (history : List ClientEvent) : Prop :=
  acceptedStream history = requested history ++ state.held

theorem sendCalls_append (first second : List ClientEvent) :
    sendCalls (first ++ second) = sendCalls first ++ sendCalls second :=
  List.filterMap_append

theorem requested_append (first second : List ClientEvent) :
    requested (first ++ second) = requested first ++ requested second := by
  rw [requested, sendCalls_append, List.flatMap_append]
  rfl

theorem acceptedStream_append (first second : List ClientEvent) :
    acceptedStream (first ++ second) =
      acceptedStream first ++ acceptedStream second := by
  rw [acceptedStream, List.filterMap_append, List.flatten_append]
  rfl

theorem acceptedStream_offered (payload : Payload) (accepted : Bool) :
    acceptedStream [.offered payload accepted] =
      if accepted then payload.bytes else [] := by
  cases accepted with
  | false => rfl
  | true => exact List.append_nil _

theorem requested_sent (msg : TcpMsg) (result : ℤ) :
    requested [.task (.sent msg result)] = msg.bytes :=
  List.append_nil _

/-- What a step adds on one side it adds on the other. -/
theorem StreamConserved.balance {state next : State}
    {past now : List ClientEvent} (hconserved : StreamConserved state past)
    (hheld : state.held ++ acceptedStream now = requested now ++ next.held) :
    StreamConserved next (past ++ now) := by
  calc acceptedStream (past ++ now)
      = requested past ++ (state.held ++ acceptedStream now) := by
        rw [acceptedStream_append, hconserved, List.append_assoc]
    _ = requested (past ++ now) ++ next.held := by
        rw [hheld, requested_append, List.append_assoc]

theorem streamConserved_started : StreamConserved State.started [] := rfl

/-- The tasks accept nothing. -/
theorem acceptedStream_map_task (now : List Event) :
    acceptedStream (now.map .task) = [] := by
  have hnone : (now.map ClientEvent.task).filterMap
      ClientEvent.acceptedPayload = [] := by
    rw [List.filterMap_map, List.filterMap_eq_nil_iff]
    exact fun _ _ => rfl
  rw [acceptedStream, hnone, List.flatten_nil]

/-- A step of a task passes on what it no longer holds. -/
theorem held_of_move {state next : State} {action : Action} {now : List Event}
    (hmove : Move state action next now)
    (haction : ∀ created, action ≠ .tcpTxQueueInit created) :
    state.held = requested (now.map .task) ++ next.held := by
  cases hmove with
  | txQueueInit created => exact absurd rfl (haction created)
  | dequeue result msg queue htx hreceive =>
      obtain ⟨-, -, hcontents⟩ := xQueueReceive_some hreceive
      simp only [State.held, htx, hcontents]
      rfl
  | send result msg htx =>
      simp only [State.held, htx, List.map_cons, List.map_nil, requested_sent]
      rfl
  | connectFailed result htx hfailed =>
      simp only [State.held, htx]
      split <;> rfl
  | txStart htx | socket result htx | connect htx | greet result htx
  | rxStart result htx =>
      simp only [State.held, htx]
      rfl
  | _ => rfl

/-- A step of a task keeps the balance, whatever else is noticed of it. -/
theorem StreamConserved.of_move {state next : State} {action : Action}
    {past noticed : List ClientEvent} {now : List Event}
    (hconserved : StreamConserved state past)
    (hmove : Move state action next now)
    (haction : ∀ created, action ≠ .tcpTxQueueInit created)
    (haccepted : acceptedStream noticed = [])
    (hrequested : requested noticed = []) :
    StreamConserved next (past ++ (now.map .task ++ noticed)) := by
  refine hconserved.balance ?_
  rw [acceptedStream_append, acceptedStream_map_task, haccepted,
    requested_append, hrequested, List.append_nil, List.append_nil,
    List.append_nil]
  exact held_of_move hmove haction

theorem StreamConserved.step {state next : State} {action : ClientAction}
    {past now : List ClientEvent} (hconserved : StreamConserved state past)
    (hstep : clientStep state action = .ok (next, now)) :
    StreamConserved next (past ++ now) := by
  cases clientMove_of_step hstep with
  | refuse payload hlong => exact hconserved.balance (List.append_nil _)
  | offer payload hfits queue accepted hsend =>
      obtain ⟨-, -, -, hcontents⟩ := xQueueSend_ok hsend
      refine hconserved.balance ?_
      have hrequested : requested [.offered payload accepted] = [] := rfl
      rw [hrequested, acceptedStream_offered, State.held, State.held, hcontents]
      cases accepted <;> simp
  | take hmove =>
      rw [← List.append_nil (List.map _ _)]
      exact hconserved.of_move hmove (by simp) rfl rfl
  | receive outcome hmove =>
      refine hconserved.of_move hmove (by simp) ?_ ?_ <;> split <;> rfl
  | transmit result hmove =>
      refine hconserved.of_move hmove (by simp) ?_ ?_ <;> split <;> rfl

theorem streamConserved_of_run {actions : List ClientAction} {state : State}
    {history : List ClientEvent}
    (hrun : clientRun State.started actions = .ok (state, history)) :
    StreamConserved state history :=
  Runs.run_history_invariant clientStep StreamConserved
    (fun _ _ _ _ _ hconserved hstep => hconserved.step hstep)
    streamConserved_started hrun

/-- Calls of which only the last to take anything is short take a prefix of
what they were called with. -/
theorem taken_prefix {calls : List SendCall}
    (hshort : calls.Pairwise fun earlier later =>
      earlier.Whole ∨ later.taken = []) :
    calls.flatMap SendCall.taken <+:
      calls.flatMap fun call => call.msg.bytes := by
  induction hshort with
  | nil => exact List.prefix_rfl
  | @cons call calls hlater _ ih =>
      rw [List.flatMap_cons, List.flatMap_cons]
      by_cases hwhole : call.Whole
      · rw [hwhole]
        exact (List.prefix_append_right_inj _).mpr ih
      · -- Everything after a short call takes nothing.
        have hnothing : calls.flatMap SendCall.taken = [] :=
          List.flatMap_eq_nil_iff.mpr fun later hmem =>
            (hlater later hmem).resolve_left hwhole
        rw [hnothing, List.append_nil]
        exact (List.take_prefix _ _).trans (List.prefix_append _ _)

/-- The stream has no gap in the runs in which no `send` takes a byte after one
that took less than its message. -/
theorem noGap_of_shortSendIsLast {actions : List ClientAction}
    (hshort : ShortSendIsLast actions) : NoGap actions := by
  intro before after state history hsplit hrun
  have hprefix : transmitted history <+: requested history :=
    taken_prefix (hshort before after state history hsplit hrun)
  refine hprefix.trans ?_
  rw [streamConserved_of_run hrun]
  exact List.prefix_append _ _

/-- It is enough to look at the whole run. -/
theorem shortSendIsLast_of_run {actions : List ClientAction} {state : State}
    {history : List ClientEvent}
    (hrun : clientRun State.started actions = .ok (state, history))
    (hshort : (sendCalls history).Pairwise fun earlier later =>
      earlier.Whole ∨ later.taken = []) : ShortSendIsLast actions := by
  rintro before after middle past rfl hbefore
  obtain ⟨reached, now, later, hfirst, -, rfl⟩ := Runs.run_append_ok hrun
  obtain ⟨rfl, rfl⟩ : reached = middle ∧ now = past := by
    simpa using hfirst.symm.trans hbefore
  rw [sendCalls_append] at hshort
  exact hshort.sublist (List.sublist_append_left _ _)

/-- Two one-byte payloads are accepted before the client connects, and both are
passed to `send`, which answers as given. -/
def sendTwo (first second : ℤ) : List ClientAction :=
  [.tcpSendData ⟨[97], by decide⟩, .tcpSendData ⟨[98], by decide⟩,
    .tcpClientTx 3, .tcpClientTx 0, .tcpClientTx 8, .tcpClientTx 0,
    .tcpClientTx 0, .tcpClientTx first, .tcpClientTx 0, .tcpClientTx second]

/-- Here only the second `send` fails. -/
theorem noGap_sendTwo : NoGap (sendTwo 1 (-1)) :=
  noGap_of_shortSendIsLast (shortSendIsLast_of_run rfl (by decide))

/-- After a failed `send` the next one leaves a gap. -/
theorem gap_sendTwo : ¬ NoGap (sendTwo (-1) 1) := by
  intro hgap
  have hprefix := hgap (sendTwo (-1) 1) [] _ _ (List.append_nil _).symm rfl
  revert hprefix
  decide

end Conveyor.Tcp
