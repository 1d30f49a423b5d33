import Conveyor.Tcp.ReceiveLoop

/-!
# Messages between the receive task and its consumer

The messages `tcp_rx_queue` accepted are those taken and those queued, in this
order, and every one of them holds a received chunk.
-/

namespace Conveyor.Tcp

open Conveyor.Core Conveyor.Rtos

def Event.acceptedMessage : Event → Option TcpMsg
  | .queued msg true => some msg
  | _ => none

def Event.takenMessage : Event → Option TcpMsg
  | .taken msg => some msg
  | _ => none

/-- The messages `tcp_rx_queue` accepted. -/
def acceptedMessages (trace : List Event) : List TcpMsg :=
  trace.filterMap Event.acceptedMessage

/-- The messages received from `tcp_rx_queue`. -/
def takenMessages (trace : List Event) : List TcpMsg :=
  trace.filterMap Event.takenMessage

theorem acceptedMessages_append (first second : List Event) :
    acceptedMessages (first ++ second) =
      acceptedMessages first ++ acceptedMessages second :=
  List.filterMap_append

theorem takenMessages_append (first second : List Event) :
    takenMessages (first ++ second) =
      takenMessages first ++ takenMessages second :=
  List.filterMap_append

/-- Every accepted message is taken or queued. -/
def MessagesConserved (state : State) (past : List Event) : Prop :=
  acceptedMessages past = takenMessages past ++ contents state.rxQueue

/-- What a step adds on one side it adds on the other. -/
theorem MessagesConserved.balance {state next : State} {past now : List Event}
    (hconserved : MessagesConserved state past)
    (hqueue : contents state.rxQueue ++ acceptedMessages now =
      takenMessages now ++ contents next.rxQueue) :
    MessagesConserved next (past ++ now) := by
  calc acceptedMessages (past ++ now)
      = takenMessages past ++
          (contents state.rxQueue ++ acceptedMessages now) := by
        rw [acceptedMessages_append, hconserved, List.append_assoc]
    _ = takenMessages past ++
          (takenMessages now ++ contents next.rxQueue) := by rw [hqueue]
    _ = takenMessages (past ++ now) ++ contents next.rxQueue := by
        rw [takenMessages_append, List.append_assoc]

/-- A step that neither queues nor takes a message. -/
theorem MessagesConserved.of_quiet {state next : State} {past now : List Event}
    (hconserved : MessagesConserved state past)
    (haccepted : acceptedMessages now = []) (htaken : takenMessages now = [])
    (hqueue : next.rxQueue = state.rxQueue) :
    MessagesConserved next (past ++ now) := by
  refine hconserved.balance ?_
  rw [haccepted, htaken, hqueue, List.append_nil, List.nil_append]

theorem MessagesConserved.step {state next : State} {action : Action}
    {past now : List Event} (hconserved : MessagesConserved state past)
    (hinit : ∀ created, action = .tcpRxQueueInit created →
      contents state.rxQueue = [])
    (hstep : step state action = .ok (next, now)) :
    MessagesConserved next (past ++ now) := by
  cases move_of_step hstep with
  | rxQueueInit created =>
      refine hconserved.balance ?_
      rw [hinit created rfl, contents_xQueueCreate]
      rfl
  | take msg queue hreceive =>
      obtain ⟨-, -, hcontents⟩ := xQueueReceive_some hreceive
      refine hconserved.balance ?_
      rw [hcontents]
      exact List.append_nil _
  | queue outcome msg queue accepted hrx hsend =>
      obtain ⟨-, -, -, hcontents⟩ := xQueueSend_ok hsend
      refine hconserved.balance ?_
      rw [hcontents]
      cases accepted with
      | false => exact List.append_nil _
      | true => rfl
  | connectFailed result htx hfailed =>
      refine hconserved.of_quiet ?_ ?_ rfl <;> split <;> rfl
  | _ => exact hconserved.of_quiet rfl rfl rfl

/-- A queue that never refused a message has accepted all of them. -/
theorem acceptedMessages_eq {trace : List Event}
    (haccepted : ∀ msg accepted, .queued msg accepted ∈ trace →
      accepted = true) :
    acceptedMessages trace = queuedMessages trace := by
  refine List.filterMap_congr fun event hevent => ?_
  cases event with
  | queued msg accepted => rw [haccepted msg accepted hevent]; rfl
  | _ => rfl

/-- Only the consumer takes messages. -/
theorem takenMessages_step {state next : State} {action : Action}
    {now : List Event} (hstep : step state action = .ok (next, now))
    (haction : action ≠ .takeMessage) : takenMessages now = [] := by
  cases move_of_step hstep with
  | take => exact absurd rfl haction
  | connectFailed => split <;> rfl
  | _ => rfl

/-! ## What the messages hold -/

/-- Every message queued or in hand holds an allowed chunk. -/
structure Carries (allowed : Chunk → Prop) (state : State) : Prop where
  queued : ∀ msg ∈ contents state.rxQueue,
    ∃ chunk, allowed chunk ∧ msg = .ofChunk chunk
  inHand : ∀ msg ∈ state.rx.inHand,
    ∃ chunk, allowed chunk ∧ msg = .ofChunk chunk

theorem carries_powerOn (allowed : Chunk → Prop) :
    Carries allowed State.powerOn where
  queued := by simp [State.powerOn]
  inHand := by simp [State.powerOn, RxTask.inHand]

/-- The chunk a `recv` delivers. -/
def Action.chunk : Action → Option Chunk
  | .tcpClientRx (.data chunk) => some chunk
  | _ => none

theorem Carries.step {allowed : Chunk → Prop} {state next : State}
    {action : Action} {now : List Event} (hcarries : Carries allowed state)
    (hchunk : ∀ chunk, action.chunk = some chunk → allowed chunk)
    (hstep : step state action = .ok (next, now)) : Carries allowed next := by
  cases move_of_step hstep with
  | rxQueueInit => exact { hcarries with queued := by simp }
  | rxStart => exact { hcarries with inHand := by simp [RxTask.inHand] }
  | take msg queue hreceive =>
      exact { hcarries with
        queued := (forall_contents_of_receive hreceive hcarries.queued).2 }
  | recv chunk hrx =>
      refine { hcarries with inHand := fun msg hmsg => ?_ }
      rw [RxTask.inHand, List.mem_singleton] at hmsg
      exact ⟨chunk, hchunk chunk rfl, hmsg⟩
  | queue outcome msg queue accepted hrx hsend =>
      exact
        { queued := forall_contents_of_send hsend hcarries.queued
            (hcarries.inHand msg (by simp [hrx, RxTask.inHand]))
          inHand := by simp [RxTask.inHand] }
  | _ => exact ⟨hcarries.queued, hcarries.inHand⟩

end Conveyor.Tcp
