import Conveyor.Firmware.System
import Conveyor.Gate.Conservation
import Conveyor.Tcp.Conservation

/-!
# The components of a run

Seen from the gate tasks a run of the firmware is a run of the gate tasks, and
seen from the TCP client one of the TCP client.  The order in which `app_main`
starts the tasks decides what each of them can find when it runs.
-/

namespace Conveyor.Firmware

open Conveyor.Core Conveyor.Rtos Conveyor.IoDriver Conveyor.ProcessData

def Event.gateEvent : Event → Option Gate.Event
  | .gate event => some event
  | _ => none

def Event.tcpEvent : Event → Option Tcp.Event
  | .tcp event => some event
  | _ => none

def gateEvents (trace : List Event) : List Gate.Event :=
  trace.filterMap Event.gateEvent

def tcpEvents (trace : List Event) : List Tcp.Event :=
  trace.filterMap Event.tcpEvent

@[simp]
theorem gateEvents_append (first second : List Event) :
    gateEvents (first ++ second) = gateEvents first ++ gateEvents second :=
  List.filterMap_append

@[simp]
theorem tcpEvents_append (first second : List Event) :
    tcpEvents (first ++ second) = tcpEvents first ++ tcpEvents second :=
  List.filterMap_append

@[simp]
theorem gateEvents_gate (events : List Gate.Event) :
    gateEvents (events.map .gate) = events := by
  rw [gateEvents, List.filterMap_map]
  exact List.filterMap_some

@[simp]
theorem gateEvents_tcp (events : List Tcp.Event) :
    gateEvents (events.map .tcp) = [] := by
  rw [gateEvents, List.filterMap_map]
  exact List.filterMap_eq_nil_iff.mpr fun _ _ => rfl

@[simp]
theorem tcpEvents_tcp (events : List Tcp.Event) :
    tcpEvents (events.map .tcp) = events := by
  rw [tcpEvents, List.filterMap_map]
  exact List.filterMap_some

@[simp]
theorem tcpEvents_gate (events : List Gate.Event) :
    tcpEvents (events.map .gate) = [] := by
  rw [tcpEvents, List.filterMap_map]
  exact List.filterMap_eq_nil_iff.mpr fun _ _ => rfl

/-- A step either leaves the gate tasks alone or is one of theirs. -/
theorem gate_of_step {state next : State} {action : Action} {now : List Event}
    (hstep : step state action = .ok (next, now)) :
    next.gate = state.gate ∧ gateEvents now = [] ∨
      ∃ main call, GateCall state action main call ∧
        Gate.step state.gate call = .ok (next.gate, gateEvents now) := by
  cases move_of_step hstep with
  | gate action main call gate events hcall hgate =>
      exact .inr ⟨main, call, hcall, by simpa using hgate⟩
  | tcp action main call tcp events hcall htcp =>
      exact .inl ⟨rfl, gateEvents_tcp events⟩
  | _ => exact .inl ⟨rfl, rfl⟩

/-- A step either leaves the TCP client alone, is one of its steps or takes a
message from it. -/
theorem tcp_of_step {state next : State} {action : Action} {now : List Event}
    (hstep : step state action = .ok (next, now)) :
    next.tcp = state.tcp ∧ tcpEvents now = [] ∨
      ∃ call, Tcp.step state.tcp call = .ok (next.tcp, tcpEvents now) ∧
        ((∃ main, TcpCall state action main call) ∨ call = .takeMessage) := by
  cases move_of_step hstep with
  | gate action main call gate events hcall hgate =>
      exact .inl ⟨rfl, tcpEvents_gate events⟩
  | tcp action main call tcp events hcall htcp =>
      exact .inr ⟨call, by simpa using htcp, .inl ⟨main, hcall⟩⟩
  | take created msg queue effects hmain hreceive hprocess =>
      refine .inr ⟨.takeMessage, ?_, .inr rfl⟩
      simp only [Tcp.step, Tcp.takeMessage, hreceive]
      rfl
  | _ => exact .inl ⟨rfl, rfl⟩

/-- A run of the firmware is a run of the gate tasks. -/
theorem gate_run {state final : State} {actions : List Action}
    {trace : List Event} (hrun : run state actions = .ok (final, trace)) :
    ∃ calls, Gate.run state.gate calls =
      .ok (final.gate, gateEvents trace) := by
  refine Runs.run_project step Gate.step State.gate Event.gateEvent
    (fun current action next now hstep => ?_) hrun
  rcases gate_of_step hstep with ⟨hsame, hquiet⟩ | ⟨main, call, -, hgate⟩
  · refine ⟨[], ?_⟩
    rw [hsame, Runs.run_nil]
    exact congrArg (fun events => Except.ok (current.gate, events)) hquiet.symm
  · exact ⟨[call], Runs.run_one hgate⟩

/-- A run of the firmware is a run of the TCP client and its consumer. -/
theorem tcp_run {state final : State} {actions : List Action}
    {trace : List Event} (hrun : run state actions = .ok (final, trace)) :
    ∃ calls, Tcp.run state.tcp calls = .ok (final.tcp, tcpEvents trace) := by
  refine Runs.run_project step Tcp.step State.tcp Event.tcpEvent
    (fun current action next now hstep => ?_) hrun
  rcases tcp_of_step hstep with ⟨hsame, hquiet⟩ | ⟨call, htcp, -⟩
  · refine ⟨[], ?_⟩
    rw [hsame, Runs.run_nil]
    exact congrArg (fun events => Except.ok (current.tcp, events)) hquiet.symm
  · exact ⟨[call], Runs.run_one htcp⟩

/-! ## The order of the start -/

/-- How many of the calls before the loop `app_main` has made. -/
def Main.started : Main → ℕ
  | .ioScanTaskStart => 0
  | .gateDrvQueueInit => 1
  | .gateControllerTaskStart => 2
  | .tcpTxQueueInit => 3
  | .tcpRxQueueInit => 4
  | .tcpClientTxTaskStart => 5
  | .receiving => 6
  | .working _ => 6

/-- Nothing exists before `app_main` has made it. -/
structure StartOrder (state : State) : Prop where
  gateQueue : state.main.started ≤ 1 → state.gate.gateQueue = none
  controller : state.main.started ≤ 2 → state.gate.controller = .notCreated
  rxQueue : state.main.started ≤ 4 → state.tcp.rxQueue = none
  tx : state.main.started ≤ 5 → state.tcp.tx = .notCreated
  rx : state.main.started ≤ 5 → state.tcp.rx = .notCreated

theorem startOrder_powerOn : StartOrder State.powerOn where
  gateQueue := fun _ => rfl
  controller := fun _ => rfl
  rxQueue := fun _ => rfl
  tx := fun _ => rfl
  rx := fun _ => rfl

/-- A controller that does not run touches neither itself nor its queue. -/
theorem asleep_of_step {gate next : Gate.State} {call : Gate.Action}
    {now : List Gate.Event} (hgate : Gate.step gate call = .ok (next, now))
    (hasleep : gate.controller = .notCreated)
    (hcall : call = .ioScanTaskStart ∨ call = .controller ∨
      ∃ result, call = .ioScan result) :
    next.controller = .notCreated ∧ next.gateQueue = gate.gateQueue := by
  rcases hcall with rfl | rfl | ⟨result, rfl⟩ <;>
    cases Gate.move_of_step hgate <;> simp_all

/-- Past the start there is nothing left to order. -/
theorem startOrder_of_started {state : State}
    (hstarted : state.main.started = 6) : StartOrder state := by
  constructor <;> omega

theorem StartOrder.gate {state : State} {action : Action} {main : Main}
    {call : Gate.Action} {gate : Gate.State} {now : List Gate.Event}
    (horder : StartOrder state) (hcall : GateCall state action main call)
    (hgate : Gate.step state.gate call = .ok (gate, now)) :
    StartOrder { state with main := main, gate := gate } := by
  obtain ⟨hgateQueue, hcontroller, hrxQueue, htx, hrx⟩ := horder
  cases hcall with
  | scanStart created hmain =>
      simp only [hmain, Main.started] at *
      have hasleep := asleep_of_step hgate (hcontroller (by omega)) (.inl rfl)
      exact ⟨fun _ => hasleep.2.trans (hgateQueue (by omega)),
        fun _ => hasleep.1, fun _ => hrxQueue (by omega),
        fun _ => htx (by omega), fun _ => hrx (by omega)⟩
  | queueInit created hmain =>
      simp only [hmain, Main.started] at *
      refine ⟨by simp [Main.started], fun _ => ?_, fun _ => hrxQueue (by omega),
        fun _ => htx (by omega), fun _ => hrx (by omega)⟩
      cases Gate.move_of_step hgate
      exact hcontroller (by omega)
  | controllerStart created hmain =>
      simp only [hmain, Main.started] at *
      exact ⟨by simp [Main.started], by simp [Main.started],
        fun _ => hrxQueue (by omega), fun _ => htx (by omega),
        fun _ => hrx (by omega)⟩
  | pass created command effects hmain => exact startOrder_of_started rfl
  | controller | ioScan =>
      have hasleep := fun hle : state.main.started ≤ 2 =>
        asleep_of_step hgate (hcontroller hle) (by simp)
      exact ⟨fun hle : state.main.started ≤ 1 =>
          (hasleep (by omega)).2.trans (hgateQueue hle),
        fun hle => (hasleep hle).1, hrxQueue, htx, hrx⟩

/-- A TCP client that does not run changes nothing. -/
theorem silent_of_step {tcp next : Tcp.State} {call : Tcp.Action}
    {now : List Tcp.Event} (htcp : Tcp.step tcp call = .ok (next, now))
    (htx : tcp.tx = .notCreated) (hrx : tcp.rx = .notCreated)
    (hcall : (∃ outcome, call = .tcpClientRx outcome) ∨
      ∃ result, call = .tcpClientTx result) : next = tcp := by
  rcases hcall with ⟨outcome, rfl⟩ | ⟨result, rfl⟩ <;>
    cases Tcp.move_of_step htcp <;> simp_all

theorem StartOrder.tcp {state : State} {action : Action} {main : Main}
    {call : Tcp.Action} {tcp : Tcp.State} {now : List Tcp.Event}
    (horder : StartOrder state) (hcall : TcpCall state action main call)
    (htcp : Tcp.step state.tcp call = .ok (tcp, now)) :
    StartOrder { state with main := main, tcp := tcp } := by
  obtain ⟨hgateQueue, hcontroller, hrxQueue, htx, hrx⟩ := horder
  cases hcall with
  | txQueueInit created hmain =>
      simp only [hmain, Main.started] at *
      cases Tcp.move_of_step htcp
      exact ⟨by simp [Main.started], by simp [Main.started],
        fun _ => hrxQueue (by omega), fun _ => htx (by omega),
        fun _ => hrx (by omega)⟩
  | rxQueueInit created hmain =>
      simp only [hmain, Main.started] at *
      cases Tcp.move_of_step htcp
      exact ⟨by simp [Main.started], by simp [Main.started],
        by simp [Main.started], fun _ => htx (by omega),
        fun _ => hrx (by omega)⟩
  | txStart created hmain => exact startOrder_of_started rfl
  | rx | tx =>
      have hsilent := fun hle : state.main.started ≤ 5 =>
        silent_of_step htcp (htx hle) (hrx hle) (by simp)
      exact ⟨hgateQueue, hcontroller,
        fun hle : state.main.started ≤ 4 =>
          hsilent (by omega) ▸ hrxQueue hle,
        fun hle => hsilent hle ▸ htx hle, fun hle => hsilent hle ▸ hrx hle⟩

theorem StartOrder.step {state next : State} {action : Action}
    {now : List Event} (horder : StartOrder state)
    (hstep : step state action = .ok (next, now)) : StartOrder next := by
  cases move_of_step hstep with
  | gate action main call gate events hcall hgate => exact horder.gate hcall hgate
  | tcp action main call tcp events hcall htcp => exact horder.tcp hcall htcp
  | nothingTaken => exact horder
  | take | finish | delete => exact startOrder_of_started rfl

end Conveyor.Firmware
