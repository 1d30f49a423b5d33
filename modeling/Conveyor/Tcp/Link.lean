import Conveyor.Tcp.Client
import Conveyor.Tcp.ReceiveLoop

/-!
# Recovering the link

`tcp_client_tx_task` calls `socket` and `connect` until a `connect` succeeds and
never again.  Any number of failed attempts is recovered from, but once the
connection it made has failed there is no way back to an open socket.
-/

namespace Conveyor.Tcp

open Conveyor.Core Conveyor.Rtos

/-! ## The link as the history tells it -/

/-- The event ends the connection: `send` reports an error on it or the peer
has closed it. -/
def ClientEvent.linkFails : ClientEvent → Bool
  | .task (.greeted result) => result < 0
  | .task (.sent _ result) => result < 0
  | .peerClosed => true
  | _ => false

/-- The connected socket after an event, given the one before. -/
def ClientEvent.link (event : ClientEvent) (before : Option ℤ) : Option ℤ :=
  match event with
  | .task (.connected sockFd) => some sockFd
  | .task (.closed _) => none
  | _ => if event.linkFails then none else before

/-- The socket that was connected last, unless it has been closed or its
connection has failed since. -/
def openSocket (history : List ClientEvent) : Option ℤ :=
  history.foldl (fun before event => event.link before) none

theorem openSocket_append_one (history : List ClientEvent)
    (event : ClientEvent) :
    openSocket (history ++ [event]) = event.link (openSocket history) :=
  List.foldl_concat ..

/-! ## Recoverable states -/

/-- `socket` returns a descriptor, and `connect` succeeds if it is given one. -/
def CallsSucceed (state : State) (action : ClientAction) : Prop :=
  ∀ result, action = .tcpClientTx result →
    (state.tx = .socket → 0 ≤ result) ∧
      (state.tx = .connect → (result = 0 ↔ 0 ≤ state.sockFd))

/-- `sock_fd` is connected and open, and the one receive task there is reads
it. -/
structure Usable (state : State) (history : List ClientEvent) : Prop where
  connected : openSocket history = some state.sockFd
  reading : state.rx = .receiving
  once : history.count .rxTaskCreated = 1

/-- With successful calls of `socket` and `connect` the client can get to a
usable connection. -/
def Recoverable (state : State) (past : List ClientEvent) : Prop :=
  ∃ more final later, Runs.StepsMeet clientStep CallsSucceed state more ∧
    clientRun state more = .ok (final, later) ∧ Usable final (past ++ later)

/-! ## Before and after the connection is made -/

/-- `connect` has succeeded. -/
def TxTask.Connected : TxTask → Prop
  | .notCreated => False
  | .socket => False
  | .connect => False
  | _ => True

/-- The history neither connects nor closes a socket. -/
def Steady (history : List ClientEvent) : Prop :=
  ∀ sockFd, .task (.connected sockFd) ∉ history ∧
    .task (.closed sockFd) ∉ history

/-- The connection made by `connect` is open until it fails. -/
def OpenUntilFailure (sockFd : ℤ) (history : List ClientEvent) : Prop :=
  openSocket history =
    if history.any ClientEvent.linkFails then none else some sockFd

theorem Steady.link {event : ClientEvent} (hsteady : Steady [event])
    (before : Option ℤ) :
    event.link before = if event.linkFails then none else before := by
  cases event with
  | task event =>
      cases event with
      | connected sockFd => exact absurd (by simp) (hsteady sockFd).1
      | closed sockFd => exact absurd (by simp) (hsteady sockFd).2
      | _ => rfl
  | _ => rfl

theorem OpenUntilFailure.append {sockFd : ℤ} {past now : List ClientEvent}
    (hopen : OpenUntilFailure sockFd past) (hsteady : Steady now) :
    OpenUntilFailure sockFd (past ++ now) := by
  induction now generalizing past with
  | nil => rwa [List.append_nil]
  | cons event events ih =>
      simp only [Steady, List.mem_cons, not_or] at hsteady
      have hevent : Steady [event] := fun sockFd => by
        simpa using ⟨(hsteady sockFd).1.1, (hsteady sockFd).2.1⟩
      rw [List.append_cons]
      refine ih ?_ fun sockFd => ⟨(hsteady sockFd).1.2, (hsteady sockFd).2.2⟩
      unfold OpenUntilFailure at hopen ⊢
      rw [openSocket_append_one, hevent.link, hopen, List.any_append]
      cases hfails : event.linkFails <;> simp [hfails]

/-- Where the client stands and what its history tells of the link. -/
structure Linked (state : State) (history : List ClientEvent) : Prop where
  connected : state.tx.Connected → OpenUntilFailure state.sockFd history
  searching : ¬ state.tx.Connected →
    history.any ClientEvent.linkFails = false

theorem steady_append {first second : List ClientEvent}
    (hfirst : Steady first) (hsecond : Steady second) :
    Steady (first ++ second) := by
  intro sockFd
  simp only [List.mem_append, not_or]
  exact ⟨⟨(hfirst sockFd).1, (hsecond sockFd).1⟩,
    (hfirst sockFd).2, (hsecond sockFd).2⟩

/-- A connected client stays with its socket. -/
theorem connected_move {state next : State} {action : Action}
    {now : List Event} (hmove : Move state action next now)
    (hconnected : state.tx.Connected) :
    next.tx.Connected ∧ next.sockFd = state.sockFd ∧
      Steady (now.map .task) := by
  cases hmove with
  | txStart htx | socket result htx | connectFailed result htx hfailed
  | connect htx => simp [htx, TxTask.Connected] at hconnected
  | greet | rxStart | dequeue | send =>
      exact ⟨trivial, rfl, fun _ => by simp⟩
  | _ => exact ⟨hconnected, rfl, fun _ => by simp⟩

theorem connected_step {state next : State} {action : ClientAction}
    {now : List ClientEvent} (hstep : clientStep state action = .ok (next, now))
    (hconnected : state.tx.Connected) :
    next.tx.Connected ∧ next.sockFd = state.sockFd ∧ Steady now := by
  cases clientMove_of_step hstep with
  | refuse | offer =>
      exact ⟨hconnected, rfl, fun sockFd => by simp⟩
  | take hmove => exact connected_move hmove hconnected
  | receive outcome hmove | transmit result hmove =>
      obtain ⟨hnext, hsockFd, hsteady⟩ := connected_move hmove hconnected
      refine ⟨hnext, hsockFd, steady_append hsteady fun sockFd => ?_⟩
      split <;> simp

/-- The receive task is created once, after the connection was made. -/
structure ReceivesOnce (state : State) (history : List ClientEvent) : Prop where
  queue : state.rxQueue.isSome
  running : state.tx ≠ .notCreated
  created : state.tx.RxStarted →
    state.rx ≠ .notCreated ∧ history.count .rxTaskCreated = 1
  notCreated : ¬ state.tx.RxStarted →
    state.rx = .notCreated ∧ history.count .rxTaskCreated = 0

theorem receivesOnce_started : ReceivesOnce State.started [] where
  queue := rfl
  running := by simp [State.started]
  created := False.elim
  notCreated := fun _ => ⟨rfl, rfl⟩

theorem count_map_task (now : List Event) :
    (now.map ClientEvent.task).count .rxTaskCreated = 0 := by
  rw [List.count_eq_zero]
  simp

/-- A step that does not create the receive task. -/
theorem ReceivesOnce.of_quiet {state next : State}
    {past now : List ClientEvent} (honce : ReceivesOnce state past)
    (hqueue : next.rxQueue.isSome) (hrunning : next.tx ≠ .notCreated)
    (htx : next.tx.RxStarted ↔ state.tx.RxStarted)
    (hrx : next.rx = .notCreated ↔ state.rx = .notCreated)
    (hnow : now.count .rxTaskCreated = 0) :
    ReceivesOnce next (past ++ now) where
  queue := hqueue
  running := hrunning
  created := fun hnext => by
    have hstate := honce.created (htx.mp hnext)
    rw [List.count_append, hnow, ne_eq, hrx]
    exact hstate
  notCreated := fun hnext => by
    have hstate := honce.notCreated (mt htx.mpr hnext)
    rw [List.count_append, hnow, hrx]
    exact hstate

/-- The steps of the tasks other than the creation of the receive task. -/
theorem quiet_move {state next : State} {action : Action} {now : List Event}
    (hmove : Move state action next now)
    (hinit : ∀ created, action ≠ .tcpRxQueueInit created)
    (hqueue : state.rxQueue.isSome) (hrunning : state.tx ≠ .notCreated)
    (hstart : state.tx = .startRx → ∀ result, action ≠ .tcpClientTx result) :
    next.rxQueue.isSome ∧ next.tx ≠ .notCreated ∧
      (next.tx.RxStarted ↔ state.tx.RxStarted) ∧
      (next.rx = .notCreated ↔ state.rx = .notCreated) := by
  cases hmove with
  | rxQueueInit created => exact absurd rfl (hinit created)
  | txStart htx => exact absurd htx hrunning
  | rxStart result htx => exact absurd rfl (hstart htx result)
  | take msg queue hreceive =>
      exact ⟨(xQueueReceive_some hreceive).2.1, hrunning, .rfl, .rfl⟩
  | queue outcome msg queue accepted hrx hsend =>
      exact ⟨(xQueueSend_ok hsend).2.1, hrunning, .rfl, by simp [hrx]⟩
  | recv chunk hrx => exact ⟨hqueue, hrunning, .rfl, by simp [hrx]⟩
  | socket result htx | connectFailed result htx hfailed | connect htx
  | greet result htx | dequeue result msg queue htx hreceive
  | send result msg htx =>
      exact ⟨hqueue, by simp, by simp [htx, TxTask.RxStarted], .rfl⟩
  | _ => exact ⟨hqueue, hrunning, .rfl, .rfl⟩

/-- The creation of the receive task. -/
theorem startRx_move {state next : State} {result : ℤ} {now : List Event}
    (hmove : Move state (.tcpClientTx result) next now)
    (htx : state.tx = .startRx) :
    next = { state with rx := .receiving, tx := .looping } ∧ now = [] := by
  cases hmove with
  | rxStart => exact ⟨rfl, rfl⟩
  | _ => simp_all

theorem ReceivesOnce.step {state next : State} {action : ClientAction}
    {past now : List ClientEvent} (honce : ReceivesOnce state past)
    (hstep : clientStep state action = .ok (next, now)) :
    ReceivesOnce next (past ++ now) := by
  cases clientMove_of_step hstep with
  | refuse | offer =>
      exact honce.of_quiet honce.queue honce.running .rfl .rfl rfl
  | take hmove =>
      obtain ⟨hqueue, hrunning, htx, hrx⟩ := quiet_move hmove (by simp)
        honce.queue honce.running (by simp)
      exact honce.of_quiet hqueue hrunning htx hrx (count_map_task _)
  | receive outcome hmove =>
      obtain ⟨hqueue, hrunning, htx, hrx⟩ := quiet_move hmove (by simp)
        honce.queue honce.running (by simp)
      refine honce.of_quiet hqueue hrunning htx hrx ?_
      rw [List.count_append, count_map_task]
      split <;> rfl
  | transmit result hmove =>
      by_cases hstart : state.tx = .startRx
      · obtain ⟨rfl, rfl⟩ := startRx_move hmove hstart
        obtain ⟨-, hnone⟩ :=
          honce.notCreated (by simp [hstart, TxTask.RxStarted])
        exact
          { queue := honce.queue
            running := by simp
            created := fun _ => ⟨by simp, by simp [hstart, hnone]⟩
            notCreated := fun hnext => absurd trivial hnext }
      · obtain ⟨hqueue, hrunning, htx, hrx⟩ := quiet_move hmove (by simp)
          honce.queue honce.running (fun htx => absurd htx hstart)
        refine honce.of_quiet hqueue hrunning htx hrx ?_
        rw [if_neg hstart, List.append_nil, count_map_task]

/-! ## The link along a run -/

theorem linked_started : Linked State.started [] where
  connected := False.elim
  searching := fun _ => rfl

/-- A client without a connection has nothing that can fail, and the step that
gives it one only connects. -/
theorem searching_move {state next : State} {action : Action}
    {now : List Event} (hmove : Move state action next now)
    (hsearching : ¬ state.tx.Connected) (hrx : state.rx = .notCreated) :
    (now.map ClientEvent.task).any ClientEvent.linkFails = false ∧
      (next.tx.Connected → now = [.connected next.sockFd]) := by
  cases hmove with
  | greet result htx | rxStart result htx | nothingToSend result queue htx
  | dequeue result msg queue htx | send result msg htx =>
      exact absurd (by rw [htx]; trivial) hsearching
  | recvClosed hreceiving | recv chunk hreceiving
  | queue outcome msg queue accepted hreceiving =>
      simp [hrx] at hreceiving
  | connectFailed result htx hfailed =>
      refine ⟨?_, False.elim⟩
      split <;> rfl
  | connect htx => exact ⟨rfl, fun _ => rfl⟩
  | txStart htx | socket result htx => exact ⟨rfl, False.elim⟩
  | _ => exact ⟨rfl, fun hnext => absurd hnext hsearching⟩

theorem searching_step {state next : State} {action : ClientAction}
    {now : List ClientEvent} (hstep : clientStep state action = .ok (next, now))
    (hsearching : ¬ state.tx.Connected) (hrx : state.rx = .notCreated) :
    now.any ClientEvent.linkFails = false ∧
      (next.tx.Connected → now = [.task (.connected next.sockFd)]) := by
  cases clientMove_of_step hstep with
  | refuse | offer => exact ⟨rfl, fun hnext => absurd hnext hsearching⟩
  | take hmove =>
      obtain ⟨hfails, hnext⟩ := searching_move hmove hsearching hrx
      exact ⟨hfails, fun hconnected => by rw [hnext hconnected]; rfl⟩
  | receive outcome hmove =>
      obtain ⟨hfails, hnext⟩ := searching_move hmove hsearching hrx
      rw [if_neg (by simp [hrx]), List.append_nil]
      exact ⟨hfails, fun hconnected => by rw [hnext hconnected]; rfl⟩
  | transmit result hmove =>
      obtain ⟨hfails, hnext⟩ := searching_move hmove hsearching hrx
      have hstart : state.tx ≠ .startRx := by
        rintro htx
        exact hsearching (by rw [htx]; trivial)
      rw [if_neg hstart, List.append_nil]
      exact ⟨hfails, fun hconnected => by rw [hnext hconnected]; rfl⟩

theorem Linked.step {state next : State} {action : ClientAction}
    {past now : List ClientEvent} (hlinked : Linked state past)
    (honce : ReceivesOnce state past)
    (hstep : clientStep state action = .ok (next, now)) :
    Linked next (past ++ now) := by
  by_cases hconnected : state.tx.Connected
  · obtain ⟨hnext, hsockFd, hsteady⟩ := connected_step hstep hconnected
    refine ⟨fun _ => ?_, fun hsearching => absurd hnext hsearching⟩
    rw [hsockFd]
    exact (hlinked.connected hconnected).append hsteady
  · have hwaiting : ¬ state.tx.RxStarted := by
      cases htx : state.tx <;> simp_all [TxTask.RxStarted, TxTask.Connected]
    obtain ⟨hfails, hnext⟩ := searching_step hstep hconnected
      (honce.notCreated hwaiting).1
    have hnone : (past ++ now).any ClientEvent.linkFails = false := by
      rw [List.any_append, hlinked.searching hconnected, hfails]
      rfl
    refine ⟨fun hmade => ?_, fun _ => hnone⟩
    rw [OpenUntilFailure, hnone, hnext hmade, openSocket_append_one]
    rfl

/-- What holds of the started client after any run. -/
theorem linked_of_run {actions : List ClientAction} {state : State}
    {past : List ClientEvent}
    (hrun : clientRun State.started actions = .ok (state, past)) :
    Linked state past ∧ ReceivesOnce state past :=
  Runs.run_history_invariant clientStep
    (fun state past => Linked state past ∧ ReceivesOnce state past)
    (fun _ _ _ _ _ hinv hstep =>
      ⟨hinv.1.step hinv.2 hstep, hinv.2.step hstep⟩)
    ⟨linked_started, receivesOnce_started⟩ hrun

/-! ## The way to a usable connection -/

/-- A reachable state whose connection, if there is one, has not failed. -/
structure Sound (state : State) (past : List ClientEvent) : Prop where
  linked : Linked state past
  once : ReceivesOnce state past
  alive : past.any ClientEvent.linkFails = false

/-- One step further on the way. -/
theorem Sound.recoverable_of_step {state next : State} {action : ClientAction}
    {past now : List ClientEvent} (hsound : Sound state past)
    (hcalls : CallsSucceed state action)
    (hstep : clientStep state action = .ok (next, now))
    (hfails : now.any ClientEvent.linkFails = false)
    (hnext : Sound next (past ++ now) → Recoverable next (past ++ now)) :
    Recoverable state past := by
  obtain ⟨more, final, later, hmeets, hrun, husable⟩ := hnext
    { linked := hsound.linked.step hsound.once hstep
      once := hsound.once.step hstep
      alive := by rw [List.any_append, hsound.alive, hfails]; rfl }
  rw [List.append_assoc] at husable
  exact ⟨action :: more, final, now ++ later,
    (Runs.stepsMeet_cons_of_ok hstep).mpr ⟨hcalls, hmeets⟩,
    Runs.run_cons hstep hrun, husable⟩

theorem TxTask.RxStarted.connected {tx : TxTask} (hstarted : tx.RxStarted) :
    tx.Connected := by
  cases tx <;> trivial

theorem Sound.recoverable_of_receiving {state : State}
    {past : List ClientEvent} (hsound : Sound state past)
    (hstarted : state.tx.RxStarted) (hrx : state.rx = .receiving) :
    Recoverable state past := by
  refine ⟨[], state, [], trivial, rfl, ?_⟩
  rw [List.append_nil]
  refine ⟨?_, hrx, (hsound.once.created hstarted).2⟩
  rw [hsound.linked.connected hstarted.connected, hsound.alive]
  rfl

theorem Sound.recoverable_of_rxStarted {state : State}
    {past : List ClientEvent} (hsound : Sound state past)
    (hstarted : state.tx.RxStarted) : Recoverable state past := by
  cases hrx : state.rx with
  | notCreated => exact absurd hrx (hsound.once.created hstarted).1
  | receiving => exact hsound.recoverable_of_receiving hstarted hrx
  | sending msg =>
      rcases xQueueSend_cases state.rxQueue msg with
        ⟨hnone, -⟩ | ⟨queue, accepted, hsend⟩
      · exact absurd hsound.once.queue (by simp [hnone])
      · have hstep : clientStep state (.tcpClientRx .closed) =
            .ok ({ state with rxQueue := queue, rx := .receiving },
              [.task (.queued msg accepted)]) := by
          simp [clientStep, taskStep, Tcp.step, rxStep, hrx, hsend]
        apply hsound.recoverable_of_step (by simp [CallsSucceed]) hstep rfl
        exact fun hnext => hnext.recoverable_of_receiving hstarted rfl

theorem Sound.recoverable_of_startRx {state : State} {past : List ClientEvent}
    (hsound : Sound state past) (htx : state.tx = .startRx) :
    Recoverable state past := by
  have hstep : clientStep state (.tcpClientTx 0) =
      .ok ({ state with rx := .receiving, tx := .looping },
        [.rxTaskCreated]) := by
    simp [clientStep, taskStep, Tcp.step, txStep, htx]
  refine hsound.recoverable_of_step ?_ hstep rfl fun hnext =>
    hnext.recoverable_of_rxStarted trivial
  simp [CallsSucceed, htx]

theorem Sound.recoverable_of_greeting {state : State} {past : List ClientEvent}
    (hsound : Sound state past) (htx : state.tx = .greeting) :
    Recoverable state past := by
  have hstep : clientStep state (.tcpClientTx 8) =
      .ok ({ state with tx := .startRx }, [.task (.greeted 8)]) := by
    simp [clientStep, taskStep, Tcp.step, txStep, htx]
  refine hsound.recoverable_of_step ?_ hstep rfl fun hnext =>
    hnext.recoverable_of_startRx rfl
  simp [CallsSucceed, htx]

/-- `connect` succeeds on a descriptor. -/
theorem Sound.recoverable_of_descriptor {state : State}
    {past : List ClientEvent} (hsound : Sound state past)
    (htx : state.tx = .connect) (hsockFd : 0 ≤ state.sockFd) :
    Recoverable state past := by
  have hstep : clientStep state (.tcpClientTx 0) =
      .ok ({ state with tx := .greeting },
        [.task (.connected state.sockFd)]) := by
    simp [clientStep, taskStep, Tcp.step, txStep, htx]
  refine hsound.recoverable_of_step ?_ hstep rfl fun hnext =>
    hnext.recoverable_of_greeting rfl
  simp [CallsSucceed, htx, hsockFd]

theorem Sound.recoverable_of_socket {state : State} {past : List ClientEvent}
    (hsound : Sound state past) (htx : state.tx = .socket) :
    Recoverable state past := by
  have hstep : clientStep state (.tcpClientTx 3) =
      .ok ({ state with sockFd := 3, tx := .connect }, []) := by
    simp [clientStep, taskStep, Tcp.step, txStep, htx]
  refine hsound.recoverable_of_step ?_ hstep rfl fun hnext =>
    hnext.recoverable_of_descriptor rfl (show (0 : ℤ) ≤ 3 by decide)
  simp [CallsSucceed, htx]

/-- After a failed `socket` the `connect` has to fail as well. -/
theorem Sound.recoverable_of_connect {state : State} {past : List ClientEvent}
    (hsound : Sound state past) (htx : state.tx = .connect) :
    Recoverable state past := by
  by_cases hsockFd : 0 ≤ state.sockFd
  · exact hsound.recoverable_of_descriptor htx hsockFd
  · have hstep : clientStep state (.tcpClientTx (-1)) =
        .ok ({ state with tx := .socket },
          (if state.sockFd ≠ -1 then [.closed state.sockFd] else []).map .task
        ) := by
      simp [clientStep, taskStep, Tcp.step, txStep, htx]
    refine hsound.recoverable_of_step ?_ hstep ?_ fun hnext =>
      hnext.recoverable_of_socket rfl
    · simp [CallsSucceed, htx, hsockFd]
    · split <;> rfl

theorem Sound.recoverable {state : State} {past : List ClientEvent}
    (hsound : Sound state past) : Recoverable state past := by
  cases htx : state.tx with
  | notCreated => exact absurd htx hsound.once.running
  | socket => exact hsound.recoverable_of_socket htx
  | connect => exact hsound.recoverable_of_connect htx
  | greeting => exact hsound.recoverable_of_greeting htx
  | startRx => exact hsound.recoverable_of_startRx htx
  | looping | sending =>
      exact hsound.recoverable_of_rxStarted (by rw [htx]; trivial)

/-! ## Exactly the failures after the connection are fatal -/

/-- After a link failure no socket is open again. -/
theorem openSocket_of_linkFails {actions : List ClientAction} {state : State}
    {past : List ClientEvent}
    (hrun : clientRun State.started actions = .ok (state, past))
    (hfails : past.any ClientEvent.linkFails = true) :
    openSocket past = none := by
  obtain ⟨hlinked, -⟩ := linked_of_run hrun
  by_cases hconnected : state.tx.Connected
  · rw [hlinked.connected hconnected, hfails]
    rfl
  · rw [hlinked.searching hconnected] at hfails
    contradiction

theorem not_recoverable_of_linkFails {actions : List ClientAction}
    {state : State} {past : List ClientEvent}
    (hrun : clientRun State.started actions = .ok (state, past))
    (hfails : past.any ClientEvent.linkFails = true) :
    ¬ Recoverable state past := by
  rintro ⟨more, final, later, -, hmore, husable⟩
  have hnone : openSocket (past ++ later) = none :=
    openSocket_of_linkFails (Runs.run_append hrun hmore)
      (by rw [List.any_append, hfails, Bool.true_or])
  simp [husable.connected] at hnone

/-- A connected client keeps its socket for ever. -/
theorem connected_run {state final : State} {actions : List ClientAction}
    {later : List ClientEvent}
    (hrun : clientRun state actions = .ok (final, later))
    (hconnected : state.tx.Connected) :
    final.sockFd = state.sockFd ∧ Steady later := by
  have hinv : final.tx.Connected ∧ final.sockFd = state.sockFd ∧
      Steady later :=
    Runs.run_history_invariant clientStep
      (fun current past => current.tx.Connected ∧
        current.sockFd = state.sockFd ∧ Steady past)
      (fun current past action next now hcurrent hstep => by
        obtain ⟨hnext, hsockFd, hsteady⟩ := connected_step hstep hcurrent.1
        exact ⟨hnext, hsockFd.trans hcurrent.2.1,
          steady_append hcurrent.2.2 hsteady⟩)
      ⟨hconnected, rfl, fun _ => by simp⟩ hrun
  exact hinv.2

/-- However many attempts to connect have failed, the link is recoverable until
the connection that was made has failed; the client never makes another. -/
theorem recoverable_iff {actions : List ClientAction} {state : State}
    {past : List ClientEvent}
    (hrun : clientRun State.started actions = .ok (state, past)) :
    (Recoverable state past ↔ ∀ event ∈ past, ¬ event.linkFails) ∧
      (state.tx.Connected → ∀ more final later,
        clientRun state more = .ok (final, later) →
          final.sockFd = state.sockFd ∧ Steady later) := by
  obtain ⟨hlinked, honce⟩ := linked_of_run hrun
  refine ⟨⟨fun hrecoverable => ?_, fun halive => ?_⟩,
    fun hconnected more final later hmore => connected_run hmore hconnected⟩
  · rw [← List.any_eq_false]
    by_contra hfails
    exact not_recoverable_of_linkFails hrun ((Bool.not_eq_false _).mp hfails)
      hrecoverable
  · exact Sound.recoverable ⟨hlinked, honce, List.any_eq_false.mpr halive⟩

/-- A `recv` that returns -1 writes behind the message.  By then the other task
is past its last `connect`, so whatever it goes on to do it does not replace the
connection. -/
theorem recvError_not_replaced {actions : List ClientAction} {state : State}
    {past : List ClientEvent}
    (hrun : clientRun State.started actions = .ok (state, past))
    (hrx : state.rx = .receiving) :
    step state (.tcpClientRx .error) = .error .rxOverflow ∧
      ∀ more final later, clientRun state more = .ok (final, later) →
        final.sockFd = state.sockFd ∧ Steady later := by
  obtain ⟨hlinked, honce⟩ := linked_of_run hrun
  have hstarted : state.tx.RxStarted := by
    by_contra hnot
    have hnone := (honce.notCreated hnot).1
    rw [hrx] at hnone
    contradiction
  exact ⟨step_recv_error hrx, fun more final later hmore =>
    connected_run hmore hstarted.connected⟩

/-- `connect` fails once before it succeeds, and then the peer closes the
connection. -/
def peerCloses : List ClientAction :=
  [.tcpClientTx 3, .tcpClientTx (-1), .tcpClientTx 4, .tcpClientTx 0,
    .tcpClientTx 8, .tcpClientTx 0, .tcpClientRx .closed]

/-- Up to the end of the peer's stream that run can be continued well. -/
theorem recoverable_before_peerCloses : ∃ state past,
    clientRun State.started (peerCloses.take 6) = .ok (state, past) ∧
      Recoverable state past :=
  ⟨_, _, rfl, (@recoverable_iff (peerCloses.take 6) _ _ rfl).1.mpr (by decide)⟩

/-- After it there is no way back. -/
theorem not_recoverable_after_peerCloses : ∃ state past,
    clientRun State.started peerCloses = .ok (state, past) ∧
      ¬ Recoverable state past :=
  ⟨_, _, rfl, @not_recoverable_of_linkFails peerCloses _ _ rfl rfl⟩

end Conveyor.Tcp
