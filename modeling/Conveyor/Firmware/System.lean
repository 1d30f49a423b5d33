import Conveyor.Gate.Faults
import Conveyor.ProcessData
import Conveyor.Tcp.Moves

/-!
# The whole firmware

`app_main` starts the other tasks one after the other and then calls
`app_process_data_loop` for ever: it takes a message, handles it and passes the
command on to the gate controller.  A step of the firmware is a step of
`app_main`, of one of the two gate tasks or of one of the two TCP tasks.
-/

namespace Conveyor.Firmware

open Conveyor.Core Conveyor.Rtos Conveyor.IoDriver Conveyor.ProcessData
open Conveyor.Tcp (TcpMsg RecvOutcome)

/-- Where `app_main` stands; up to `receiving`, the call it makes next. -/
inductive Main
  | ioScanTaskStart
  | gateDrvQueueInit
  | gateControllerTaskStart
  | tcpTxQueueInit
  | tcpRxQueueInit
  | tcpClientTxTaskStart
  /-- About to call `xQueueReceive` in `app_process_data_loop`. -/
  | receiving
  /-- Handling a message, with these effects left. -/
  | working (effects : List Effect)
  deriving DecidableEq

structure State where
  main : Main
  gate : Gate.State
  tcp : Tcp.State

def State.powerOn : State where
  main := .ioScanTaskStart
  gate := .powerOn
  tcp := .powerOn

inductive Event
  | gate (event : Gate.Event)
  | tcp (event : Tcp.Event)
  /-- `cJSON_Delete` was called on the tree of the message. -/
  | deleted
  deriving DecidableEq

inductive Action
  /-- A step of `app_main`; `created` is the outcome of an `xQueueCreate` it
  makes there. -/
  | main (created : Bool)
  | gateController
  | ioScan (result : CallResult)
  | tcpClientRx (outcome : RecvOutcome)
  | tcpClientTx (result : ℤ)
  deriving DecidableEq

/-- A step of the gate tasks, after which `app_main` stands at `main`. -/
def gateStep (state : State) (main : Main) (action : Gate.Action) :
    Except Fault (State × List Event) :=
  match Gate.step state.gate action with
  | .error fault => .error fault
  | .ok (gate, now) =>
      .ok ({ state with main := main, gate := gate }, now.map .gate)

/-- A step of the TCP client, after which `app_main` stands at `main`. -/
def tcpStep (state : State) (main : Main) (action : Tcp.Action) :
    Except Fault (State × List Event) :=
  match Tcp.step state.tcp action with
  | .error fault => .error fault
  | .ok (tcp, now) =>
      .ok ({ state with main := main, tcp := tcp }, now.map .tcp)

/-- The start of `app_process_data_loop`: take a message and work out what
handling it does. -/
def receiveStep (state : State) : Except Fault (State × List Event) :=
  match xQueueReceive state.tcp.rxQueue with
  | .error fault => .error fault
  | .ok (none, _) => .ok (state, [])
  | .ok (some msg, queue) =>
      match processMessage msg.data with
      | .error fault => .error fault
      | .ok effects =>
          .ok ({ state with
            main := .working effects
            tcp := { state.tcp with rxQueue := queue } }, [.tcp (.taken msg)])

/-- One step of `app_main`. -/
def mainStep (state : State) (created : Bool) :
    Except Fault (State × List Event) :=
  match state.main with
  | .ioScanTaskStart => gateStep state .gateDrvQueueInit .ioScanTaskStart
  | .gateDrvQueueInit =>
      gateStep state .gateControllerTaskStart (.gateDrvQueueInit created)
  | .gateControllerTaskStart =>
      gateStep state .tcpTxQueueInit .gateControllerTaskStart
  | .tcpTxQueueInit => tcpStep state .tcpRxQueueInit (.tcpTxQueueInit created)
  | .tcpRxQueueInit =>
      tcpStep state .tcpClientTxTaskStart (.tcpRxQueueInit created)
  | .tcpClientTxTaskStart => tcpStep state .receiving .tcpClientTxTaskStart
  | .receiving => receiveStep state
  | .working [] => .ok ({ state with main := .receiving }, [])
  | .working (.passed command :: effects) =>
      gateStep state (.working effects) (.sendGateCommand command)
  | .working (.deleted :: effects) =>
      .ok ({ state with main := .working effects }, [.deleted])

def step : Runs.Step State Action Event Fault
  | state, .main created => mainStep state created
  | state, .gateController => gateStep state state.main .controller
  | state, .ioScan result => gateStep state state.main (.ioScan result)
  | state, .tcpClientRx outcome =>
      tcpStep state state.main (.tcpClientRx outcome)
  | state, .tcpClientTx result =>
      tcpStep state state.main (.tcpClientTx result)

abbrev run := Runs.run step

/-! ## What one step can do -/

/-- The firmware step is this step of the gate tasks, and `app_main` goes on at
this point. -/
inductive GateCall (state : State) : Action → Main → Gate.Action → Prop
  | scanStart (created : Bool) (hmain : state.main = .ioScanTaskStart) :
      GateCall state (.main created) .gateDrvQueueInit .ioScanTaskStart
  | queueInit (created : Bool) (hmain : state.main = .gateDrvQueueInit) :
      GateCall state (.main created) .gateControllerTaskStart
        (.gateDrvQueueInit created)
  | controllerStart (created : Bool)
      (hmain : state.main = .gateControllerTaskStart) :
      GateCall state (.main created) .tcpTxQueueInit .gateControllerTaskStart
  | pass (created : Bool) (command : Gate.GateCommand) (effects : List Effect)
      (hmain : state.main = .working (.passed command :: effects)) :
      GateCall state (.main created) (.working effects)
        (.sendGateCommand command)
  | controller : GateCall state .gateController state.main .controller
  | ioScan (result : CallResult) :
      GateCall state (.ioScan result) state.main (.ioScan result)

/-- The firmware step is this step of the TCP client, and `app_main` goes on at
this point. -/
inductive TcpCall (state : State) : Action → Main → Tcp.Action → Prop
  | txQueueInit (created : Bool) (hmain : state.main = .tcpTxQueueInit) :
      TcpCall state (.main created) .tcpRxQueueInit (.tcpTxQueueInit created)
  | rxQueueInit (created : Bool) (hmain : state.main = .tcpRxQueueInit) :
      TcpCall state (.main created) .tcpClientTxTaskStart
        (.tcpRxQueueInit created)
  | txStart (created : Bool) (hmain : state.main = .tcpClientTxTaskStart) :
      TcpCall state (.main created) .receiving .tcpClientTxTaskStart
  | rx (outcome : RecvOutcome) :
      TcpCall state (.tcpClientRx outcome) state.main (.tcpClientRx outcome)
  | tx (result : ℤ) :
      TcpCall state (.tcpClientTx result) state.main (.tcpClientTx result)

/-- Every step that does not fault. -/
inductive Move (state : State) : Action → State → List Event → Prop
  | gate (action : Action) (main : Main) (call : Gate.Action)
      (gate : Gate.State) (now : List Gate.Event)
      (hcall : GateCall state action main call)
      (hstep : Gate.step state.gate call = .ok (gate, now)) :
      Move state action { state with main := main, gate := gate }
        (now.map .gate)
  | tcp (action : Action) (main : Main) (call : Tcp.Action) (tcp : Tcp.State)
      (now : List Tcp.Event) (hcall : TcpCall state action main call)
      (hstep : Tcp.step state.tcp call = .ok (tcp, now)) :
      Move state action { state with main := main, tcp := tcp } (now.map .tcp)
  | nothingTaken (created : Bool) (queue : QueueHandle TcpMsg)
      (hmain : state.main = .receiving)
      (hreceive : xQueueReceive state.tcp.rxQueue = .ok (none, queue)) :
      Move state (.main created) state []
  | take (created : Bool) (msg : TcpMsg) (queue : QueueHandle TcpMsg)
      (effects : List Effect) (hmain : state.main = .receiving)
      (hreceive : xQueueReceive state.tcp.rxQueue = .ok (some msg, queue))
      (hprocess : processMessage msg.data = .ok effects) :
      Move state (.main created)
        { state with
          main := .working effects
          tcp := { state.tcp with rxQueue := queue } } [.tcp (.taken msg)]
  | finish (created : Bool) (hmain : state.main = .working []) :
      Move state (.main created) { state with main := .receiving } []
  | delete (created : Bool) (effects : List Effect)
      (hmain : state.main = .working (.deleted :: effects)) :
      Move state (.main created) { state with main := .working effects }
        [.deleted]

private theorem move_of_gateStep {state next : State} {main : Main}
    {action : Action} {call : Gate.Action} {now : List Event}
    (hcall : GateCall state action main call)
    (hstep : gateStep state main call = .ok (next, now)) :
    Move state action next now := by
  unfold gateStep at hstep
  cases hgate : Gate.step state.gate call with
  | error fault => simp [hgate] at hstep
  | ok outcome =>
      obtain ⟨gate, here⟩ := outcome
      simp only [hgate, Except.ok.injEq, Prod.mk.injEq] at hstep
      obtain ⟨rfl, rfl⟩ := hstep
      exact .gate action main call gate here hcall hgate

private theorem move_of_tcpStep {state next : State} {main : Main}
    {action : Action} {call : Tcp.Action} {now : List Event}
    (hcall : TcpCall state action main call)
    (hstep : tcpStep state main call = .ok (next, now)) :
    Move state action next now := by
  unfold tcpStep at hstep
  cases htcp : Tcp.step state.tcp call with
  | error fault => simp [htcp] at hstep
  | ok outcome =>
      obtain ⟨tcp, here⟩ := outcome
      simp only [htcp, Except.ok.injEq, Prod.mk.injEq] at hstep
      obtain ⟨rfl, rfl⟩ := hstep
      exact .tcp action main call tcp here hcall htcp

private theorem move_of_receiveStep {state next : State} {now : List Event}
    (created : Bool) (hmain : state.main = .receiving)
    (hstep : receiveStep state = .ok (next, now)) :
    Move state (.main created) next now := by
  unfold receiveStep at hstep
  rcases xQueueReceive_cases state.tcp.rxQueue with
    ⟨-, hreceive⟩ | ⟨queue, hreceive⟩ | ⟨msg, queue, hreceive⟩
  · simp [hreceive] at hstep
  · simp only [hreceive, Except.ok.injEq, Prod.mk.injEq] at hstep
    obtain ⟨rfl, rfl⟩ := hstep
    exact .nothingTaken created queue hmain hreceive
  · cases hprocess : processMessage msg.data with
    | error fault => simp [hreceive, hprocess] at hstep
    | ok effects =>
        simp only [hreceive, hprocess, Except.ok.injEq, Prod.mk.injEq] at hstep
        obtain ⟨rfl, rfl⟩ := hstep
        exact .take created msg queue effects hmain hreceive hprocess

private theorem move_of_mainStep {state next : State} {created : Bool}
    {now : List Event} (hstep : mainStep state created = .ok (next, now)) :
    Move state (.main created) next now := by
  unfold mainStep at hstep
  cases hmain : state.main with
  | ioScanTaskStart =>
      simp only [hmain] at hstep
      exact move_of_gateStep (.scanStart created hmain) hstep
  | gateDrvQueueInit =>
      simp only [hmain] at hstep
      exact move_of_gateStep (.queueInit created hmain) hstep
  | gateControllerTaskStart =>
      simp only [hmain] at hstep
      exact move_of_gateStep (.controllerStart created hmain) hstep
  | tcpTxQueueInit =>
      simp only [hmain] at hstep
      exact move_of_tcpStep (.txQueueInit created hmain) hstep
  | tcpRxQueueInit =>
      simp only [hmain] at hstep
      exact move_of_tcpStep (.rxQueueInit created hmain) hstep
  | tcpClientTxTaskStart =>
      simp only [hmain] at hstep
      exact move_of_tcpStep (.txStart created hmain) hstep
  | receiving =>
      simp only [hmain] at hstep
      exact move_of_receiveStep created hmain hstep
  | working effects =>
      match effects with
      | [] =>
          simp only [hmain, Except.ok.injEq, Prod.mk.injEq] at hstep
          obtain ⟨rfl, rfl⟩ := hstep
          exact .finish created hmain
      | .passed command :: effects =>
          simp only [hmain] at hstep
          exact move_of_gateStep (.pass created command effects hmain) hstep
      | .deleted :: effects =>
          simp only [hmain, Except.ok.injEq, Prod.mk.injEq] at hstep
          obtain ⟨rfl, rfl⟩ := hstep
          exact .delete created effects hmain

theorem move_of_step {state next : State} {action : Action} {now : List Event}
    (hstep : step state action = .ok (next, now)) :
    Move state action next now := by
  cases action with
  | main created => exact move_of_mainStep hstep
  | gateController => exact move_of_gateStep .controller hstep
  | ioScan result => exact move_of_gateStep (.ioScan result) hstep
  | tcpClientRx outcome => exact move_of_tcpStep (.rx outcome) hstep
  | tcpClientTx result => exact move_of_tcpStep (.tx result) hstep

/-! ## How a step can fault -/

/-- Every step that faults, with what makes it fault. -/
inductive Breaks (state : State) : Action → Fault → Prop
  | gate (action : Action) (main : Main) (call : Gate.Action) (fault : Fault)
      (hcall : GateCall state action main call)
      (hbreaks : Gate.Breaks state.gate call fault) :
      Breaks state action fault
  | tcp (action : Action) (main : Main) (call : Tcp.Action) (fault : Fault)
      (hcall : TcpCall state action main call)
      (hbreaks : Tcp.Breaks state.tcp call fault) :
      Breaks state action fault
  | receive (created : Bool) (hmain : state.main = .receiving)
      (hqueue : state.tcp.rxQueue = none) :
      Breaks state (.main created) .nullQueue
  | process (created : Bool) (msg : TcpMsg) (queue : QueueHandle TcpMsg)
      (fault : Fault) (hmain : state.main = .receiving)
      (hreceive : xQueueReceive state.tcp.rxQueue = .ok (some msg, queue))
      (hprocess : processMessage msg.data = .error fault) :
      Breaks state (.main created) fault

private theorem breaks_of_gateStep {state : State} {main : Main}
    {action : Action} {call : Gate.Action} {fault : Fault}
    (hcall : GateCall state action main call)
    (hstep : gateStep state main call = .error fault) :
    Breaks state action fault := by
  unfold gateStep at hstep
  cases hgate : Gate.step state.gate call with
  | ok outcome => simp [hgate] at hstep
  | error found =>
      simp only [hgate, Except.error.injEq] at hstep
      subst hstep
      exact .gate action main call found hcall (Gate.breaks_of_step hgate)

private theorem breaks_of_tcpStep {state : State} {main : Main}
    {action : Action} {call : Tcp.Action} {fault : Fault}
    (hcall : TcpCall state action main call)
    (hstep : tcpStep state main call = .error fault) :
    Breaks state action fault := by
  unfold tcpStep at hstep
  cases htcp : Tcp.step state.tcp call with
  | ok outcome => simp [htcp] at hstep
  | error found =>
      simp only [htcp, Except.error.injEq] at hstep
      subst hstep
      exact .tcp action main call found hcall (Tcp.breaks_of_step htcp)

private theorem breaks_of_receiveStep {state : State} {fault : Fault}
    (created : Bool) (hmain : state.main = .receiving)
    (hstep : receiveStep state = .error fault) :
    Breaks state (.main created) fault := by
  unfold receiveStep at hstep
  rcases xQueueReceive_cases state.tcp.rxQueue with
    ⟨hqueue, hreceive⟩ | ⟨queue, hreceive⟩ | ⟨msg, queue, hreceive⟩
  · simp only [hreceive, Except.error.injEq] at hstep
    exact hstep ▸ .receive created hmain hqueue
  · simp [hreceive] at hstep
  · cases hprocess : processMessage msg.data with
    | ok effects => simp [hreceive, hprocess] at hstep
    | error found =>
        simp only [hreceive, hprocess, Except.error.injEq] at hstep
        subst hstep
        exact .process created msg queue found hmain hreceive hprocess

theorem breaks_of_step {state : State} {action : Action} {fault : Fault}
    (hstep : step state action = .error fault) : Breaks state action fault := by
  cases action with
  | gateController => exact breaks_of_gateStep .controller hstep
  | ioScan result => exact breaks_of_gateStep (.ioScan result) hstep
  | tcpClientRx outcome => exact breaks_of_tcpStep (.rx outcome) hstep
  | tcpClientTx result => exact breaks_of_tcpStep (.tx result) hstep
  | main created =>
      simp only [step] at hstep
      unfold mainStep at hstep
      split at hstep
      · exact breaks_of_gateStep (.scanStart created ‹_›) hstep
      · exact breaks_of_gateStep (.queueInit created ‹_›) hstep
      · exact breaks_of_gateStep (.controllerStart created ‹_›) hstep
      · exact breaks_of_tcpStep (.txQueueInit created ‹_›) hstep
      · exact breaks_of_tcpStep (.rxQueueInit created ‹_›) hstep
      · exact breaks_of_tcpStep (.txStart created ‹_›) hstep
      · exact breaks_of_receiveStep created ‹_› hstep
      · simp at hstep
      · exact breaks_of_gateStep (.pass created _ _ ‹_›) hstep
      · simp at hstep

end Conveyor.Firmware
