import Conveyor.Firmware.Components
import Conveyor.WifiStation.Retries

/-!
# The whole start

`app_main` checks three calls of the SDK, starts the gate tasks, waits for the
Wi-Fi station and only then starts the TCP client.  Between the start of the
gate tasks and that of the client its steps are those of `start_wifi_station`;
seen without them a run is a run of the firmware.
-/

namespace Conveyor.Boot

open Conveyor.Rtos Conveyor.IoDriver Conveyor.WifiStation
open Conveyor.Tcp (RecvOutcome)

/-- Where `app_main` stands: the call it checks next, or past these calls. -/
inductive Main
  | nvsFlashInit
  | espNetifInit
  | espEventLoopCreateDefault
  | running
  deriving DecidableEq, Repr

structure State where
  main : Main
  station : WifiStation.State
  firmware : Firmware.State

def State.powerOn : State where
  main := .nvsFlashInit
  station := .powerOn
  firmware := .powerOn

inductive Event
  | station (event : WifiStation.Event)
  | firmware (event : Firmware.Event)
  deriving DecidableEq

inductive BootFault
  | station (fault : StationFault)
  | firmware (fault : Fault)
  deriving DecidableEq

inductive Action
  /-- A step of `app_main`; `result` is the outcome of the call it makes. -/
  | main (result : EspErr)
  | eventLoop (event : StationEvent)
  | gateController
  | ioScan (result : CallResult)
  | tcpClientRx (outcome : RecvOutcome)
  | tcpClientTx (result : ℤ)
  deriving DecidableEq

def stationStep (state : State) (action : WifiStation.Action) :
    Except BootFault (State × List Event) :=
  match WifiStation.step state.station action with
  | .error fault => .error (.station fault)
  | .ok (station, now) =>
      .ok ({ state with station := station }, now.map .station)

def firmwareStep (state : State) (action : Firmware.Action) :
    Except BootFault (State × List Event) :=
  match Firmware.step state.firmware action with
  | .error fault => .error (.firmware fault)
  | .ok (firmware, now) =>
      .ok ({ state with firmware := firmware }, now.map .firmware)

/-- `start_wifi_station` has returned. -/
def Returned (station : WifiStation.State) : Bool :=
  match station.progress with
  | .finished _ => true
  | _ => false

/-- `ESP_ERROR_CHECK` of a call before the tasks are started. -/
def checkedCall (state : State) (result : EspErr) (next : Main) :
    Except BootFault (State × List Event) :=
  if result = .ok then .ok ({ state with main := next }, [])
  else .error (.station .abort)

/-- One step of `app_main`, which is in `start_wifi_station` from the start of
the gate tasks until that function has returned. -/
def mainStep (state : State) (result : EspErr) :
    Except BootFault (State × List Event) :=
  match state.main with
  | .nvsFlashInit => checkedCall state result .espNetifInit
  | .espNetifInit => checkedCall state result .espEventLoopCreateDefault
  | .espEventLoopCreateDefault => checkedCall state result .running
  | .running =>
      if state.firmware.main = .tcpTxQueueInit ∧ ¬ Returned state.station then
        stationStep state (.startWifiStation result)
      else firmwareStep state (.main (decide (result = .ok)))

def step : Runs.Step State Action Event BootFault
  | state, .main result => mainStep state result
  | state, .eventLoop event => stationStep state (.eventLoop event)
  | state, .gateController => firmwareStep state .gateController
  | state, .ioScan result => firmwareStep state (.ioScan result)
  | state, .tcpClientRx outcome => firmwareStep state (.tcpClientRx outcome)
  | state, .tcpClientTx result => firmwareStep state (.tcpClientTx result)

abbrev run := Runs.run step

def Event.stationEvent : Event → Option WifiStation.Event
  | .station event => some event
  | _ => none

def Event.firmwareEvent : Event → Option Firmware.Event
  | .firmware event => some event
  | _ => none

def stationEvents (trace : List Event) : List WifiStation.Event :=
  trace.filterMap Event.stationEvent

def firmwareEvents (trace : List Event) : List Firmware.Event :=
  trace.filterMap Event.firmwareEvent

@[simp]
theorem stationEvents_station (events : List WifiStation.Event) :
    stationEvents (events.map .station) = events := by
  rw [stationEvents, List.filterMap_map]
  exact List.filterMap_some

@[simp]
theorem stationEvents_firmware (events : List Firmware.Event) :
    stationEvents (events.map .firmware) = [] := by
  rw [stationEvents, List.filterMap_map]
  exact List.filterMap_eq_nil_iff.mpr fun _ _ => rfl

@[simp]
theorem firmwareEvents_firmware (events : List Firmware.Event) :
    firmwareEvents (events.map .firmware) = events := by
  rw [firmwareEvents, List.filterMap_map]
  exact List.filterMap_some

@[simp]
theorem firmwareEvents_station (events : List WifiStation.Event) :
    firmwareEvents (events.map .station) = [] := by
  rw [firmwareEvents, List.filterMap_map]
  exact List.filterMap_eq_nil_iff.mpr fun _ _ => rfl

/-! ## What one step can do -/

/-- Every step that does not fault. -/
inductive Move (state : State) : Action → State → List Event → Prop
  | checked (main : Main) (hmain : state.main ≠ .running) :
      Move state (.main .ok) { state with main := main } []
  | station (action : Action) (call : WifiStation.Action)
      (station : WifiStation.State) (now : List WifiStation.Event)
      (hcall : ∀ result, call = .startWifiStation result →
        action = .main result ∧ state.main = .running ∧
          state.firmware.main = .tcpTxQueueInit)
      (hstep : WifiStation.step state.station call = .ok (station, now)) :
      Move state action { state with station := station } (now.map .station)
  | firmware (action : Action) (call : Firmware.Action)
      (firmware : Firmware.State) (now : List Firmware.Event)
      (hcall : ∀ created, call = .main created →
        state.firmware.main ≠ .tcpTxQueueInit ∨ Returned state.station)
      (hstep : Firmware.step state.firmware call = .ok (firmware, now)) :
      Move state action { state with firmware := firmware } (now.map .firmware)

private theorem move_of_stationStep {state next : State} {action : Action}
    {call : WifiStation.Action} {now : List Event}
    (hcall : ∀ result, call = .startWifiStation result →
      action = .main result ∧ state.main = .running ∧
        state.firmware.main = .tcpTxQueueInit)
    (hstep : stationStep state call = .ok (next, now)) :
    Move state action next now := by
  unfold stationStep at hstep
  split at hstep
  · cases hstep
  · cases hstep
    exact .station action call _ _ hcall ‹_›

private theorem move_of_firmwareStep {state next : State} {action : Action}
    {call : Firmware.Action} {now : List Event}
    (hcall : ∀ created, call = .main created →
      state.firmware.main ≠ .tcpTxQueueInit ∨ Returned state.station)
    (hstep : firmwareStep state call = .ok (next, now)) :
    Move state action next now := by
  unfold firmwareStep at hstep
  split at hstep
  · cases hstep
  · cases hstep
    exact .firmware action call _ _ hcall ‹_›

private theorem move_of_checkedCall {state next : State} {result : EspErr}
    {main : Main} {now : List Event} (hmain : state.main ≠ .running)
    (hstep : checkedCall state result main = .ok (next, now)) :
    Move state (.main result) next now := by
  unfold checkedCall at hstep
  split at hstep
  next hok =>
    cases hstep
    exact hok ▸ .checked main hmain
  next => cases hstep

theorem move_of_step {state next : State} {action : Action} {now : List Event}
    (hstep : step state action = .ok (next, now)) :
    Move state action next now := by
  cases action with
  | main result =>
      simp only [step] at hstep
      unfold mainStep at hstep
      cases hmain : state.main with
      | running =>
          simp only [hmain] at hstep
          split at hstep
          next hwaiting =>
            refine move_of_stationStep (fun called hcalled => ?_) hstep
            cases hcalled
            exact ⟨rfl, hmain, hwaiting.1⟩
          next hreturned =>
            refine move_of_firmwareStep (fun created _ => ?_) hstep
            rw [not_and_or, not_not] at hreturned
            exact hreturned
      | nvsFlashInit | espNetifInit | espEventLoopCreateDefault =>
          simp only [hmain] at hstep
          exact move_of_checkedCall (by simp [hmain]) hstep
  | eventLoop event =>
      rw [step] at hstep
      exact move_of_stationStep (by simp) hstep
  | gateController =>
      rw [step] at hstep
      exact move_of_firmwareStep (by simp) hstep
  | ioScan result =>
      rw [step] at hstep
      exact move_of_firmwareStep (by simp) hstep
  | tcpClientRx outcome =>
      rw [step] at hstep
      exact move_of_firmwareStep (by simp) hstep
  | tcpClientTx result =>
      rw [step] at hstep
      exact move_of_firmwareStep (by simp) hstep

/-! ## The components of a run -/

variable {state next final : State} {action : Action} {now trace : List Event}
variable {actions : List Action}

theorem station_run (hrun : run state actions = .ok (final, trace)) :
    ∃ moves, WifiStation.run state.station moves =
      .ok (final.station, stationEvents trace) := by
  refine Runs.run_project step WifiStation.step State.station Event.stationEvent
    (fun current action next now hstep => ?_) hrun
  cases move_of_step hstep with
  | checked => exact ⟨[], rfl⟩
  | station action call station events hcall hstation =>
      refine ⟨[call], Runs.run_one ?_⟩
      rw [hstation]
      exact congrArg (fun events => Except.ok (station, events))
        (stationEvents_station events).symm
  | firmware action call firmware events =>
      refine ⟨[], ?_⟩
      rw [Runs.run_nil]
      exact congrArg (fun events => Except.ok (current.station, events))
        (stationEvents_firmware events).symm

theorem firmware_run (hrun : run state actions = .ok (final, trace)) :
    ∃ calls, Firmware.run state.firmware calls =
      .ok (final.firmware, firmwareEvents trace) := by
  refine Runs.run_project step Firmware.step State.firmware Event.firmwareEvent
    (fun current action next now hstep => ?_) hrun
  cases move_of_step hstep with
  | checked => exact ⟨[], rfl⟩
  | station action call station events =>
      refine ⟨[], ?_⟩
      rw [Runs.run_nil]
      exact congrArg (fun events => Except.ok (current.firmware, events))
        (firmwareEvents_station events).symm
  | firmware action call firmware events hcall hfirmware =>
      refine ⟨[call], Runs.run_one ?_⟩
      rw [hfirmware]
      exact congrArg (fun events => Except.ok (firmware, events))
        (firmwareEvents_firmware events).symm

/-! ## Waiting for the station -/

/-- Until `start_wifi_station` has returned, `app_main` is in front of it. -/
def WaitsForStation (state : State) : Prop :=
  Returned state.station ∨
    state.firmware.main.started ≤ 3 ∧ state.firmware.tcp = .powerOn

theorem waitsForStation_powerOn : WaitsForStation .powerOn :=
  .inr ⟨Nat.zero_le 3, rfl⟩

theorem returned_of_station {station next : WifiStation.State}
    {call : WifiStation.Action} {now : List WifiStation.Event}
    (hreturned : Returned station)
    (hstep : WifiStation.step station call = .ok (next, now)) :
    Returned next := by
  unfold Returned at hreturned ⊢
  cases WifiStation.move_of_step hstep with
  | nvsReady hprogress =>
      rcases hprogress with hprogress | hprogress <;> simp [hprogress] at hreturned
  | nvsFull result hprogress => simp [hprogress] at hreturned
  | nvsErased hprogress => simp [hprogress] at hreturned
  | groupCreated result group hprogress => simp [hprogress] at hreturned
  | called call hprogress => simp [hprogress] at hreturned
  | wait result bits hprogress => simp [hprogress] at hreturned
  | gaveUp | gotIp =>
      cases hprogress : station.progress with
      | finished => rfl
      | _ => simp [hprogress] at hreturned
  | _ => exact hreturned

/-- Before the TCP client is started nothing happens to it. -/
theorem silent_of_firmware {firmware next : Firmware.State}
    {call : Firmware.Action} {now : List Firmware.Event}
    (hstarted : firmware.main.started ≤ 3) (htcp : firmware.tcp = .powerOn)
    (hcall : ∀ created, call = .main created →
      firmware.main ≠ .tcpTxQueueInit)
    (hstep : Firmware.step firmware call = .ok (next, now)) :
    next.main.started ≤ 3 ∧ next.tcp = .powerOn := by
  cases Firmware.move_of_step hstep with
  | gate action main gateCall gate events hgate =>
      refine ⟨?_, htcp⟩
      cases hgate with
      | scanStart => exact Nat.le_of_ble_eq_true rfl
      | queueInit => exact Nat.le_of_ble_eq_true rfl
      | controllerStart => exact Nat.le_of_ble_eq_true rfl
      | pass created command effects hmain =>
          simp [hmain, Firmware.Main.started] at hstarted
      | controller => exact hstarted
      | ioScan => exact hstarted
  | tcp action main tcpCall tcp events hclient htcpStep =>
      cases hclient with
      | txQueueInit created hmain => exact absurd hmain (hcall created rfl)
      | rxQueueInit created hmain =>
          simp [hmain, Firmware.Main.started] at hstarted
      | txStart created hmain =>
          simp [hmain, Firmware.Main.started] at hstarted
      | rx outcome =>
          rw [htcp] at htcpStep
          exact ⟨hstarted, Firmware.silent_of_step htcpStep rfl rfl
            (.inl ⟨outcome, rfl⟩)⟩
      | tx result =>
          rw [htcp] at htcpStep
          exact ⟨hstarted, Firmware.silent_of_step htcpStep rfl rfl
            (.inr ⟨result, rfl⟩)⟩
  | nothingTaken => exact ⟨hstarted, htcp⟩
  | take created msg queue effects hmain =>
      simp [hmain, Firmware.Main.started] at hstarted
  | finish created hmain => simp [hmain, Firmware.Main.started] at hstarted
  | delete created effects hmain =>
      simp [hmain, Firmware.Main.started] at hstarted

theorem WaitsForStation.step (hwaits : WaitsForStation state)
    (hstep : step state action = .ok (next, now)) : WaitsForStation next := by
  cases move_of_step hstep with
  | checked => exact hwaits
  | station action call station events hcall hstation =>
      exact hwaits.imp_left fun hreturned =>
        returned_of_station hreturned hstation
  | firmware action call firmware events hcall hfirmware =>
      rcases hwaits with hreturned | ⟨hstarted, htcp⟩
      · exact .inl hreturned
      by_cases hreturned : Returned state.station
      · exact .inl hreturned
      · exact .inr (silent_of_firmware hstarted htcp (fun created hmain =>
          (hcall created hmain).resolve_right hreturned) hfirmware)

/-- A run of the whole start is a run of the firmware.  In it nothing happens to
the TCP client before the station has had an address or has given up. -/
theorem client_waits_for_station
    (hrun : run .powerOn actions = .ok (final, trace)) :
    (∃ calls, Firmware.run .powerOn calls =
      .ok (final.firmware, firmwareEvents trace)) ∧
      (final.firmware.tcp ≠ .powerOn →
        .gotIp ∈ handledEvents (stationEvents trace) ∨
          GaveUp (handledEvents (stationEvents trace))) := by
  refine ⟨firmware_run hrun, fun hclient => ?_⟩
  have hwaits : WaitsForStation final :=
    Runs.run_state_invariant step WaitsForStation
      (fun _ _ _ _ hwaits hstep => hwaits.step hstep)
      waitsForStation_powerOn hrun
  obtain ⟨moves, hstation⟩ := station_run hrun
  have hreturned : Returned final.station :=
    hwaits.resolve_right fun hwaiting => hclient hwaiting.2
  unfold Returned at hreturned
  cases hprogress : final.station.progress with
  | finished outcome =>
      have hlaw := law_of_run hstation
      cases outcome with
      | connected => exact .inl (hlaw.returnsConnected hprogress)
      | failed => exact .inr (hlaw.returnsFailed hprogress)
  | _ => simp [hprogress] at hreturned

/-- The start up to the queues of the TCP client, with an address got at once. -/
def joiningRun : List Action :=
  List.replicate 14 (.main .ok) ++
    [.eventLoop .staStart, .eventLoop .gotIp, .main .ok, .main .ok]

theorem client_waits_for_station_joiningRun :
    ∃ final trace, run .powerOn joiningRun = .ok (final, trace) ∧
      final.firmware.tcp ≠ .powerOn ∧
        (.gotIp ∈ handledEvents (stationEvents trace) ∨
          GaveUp (handledEvents (stationEvents trace))) :=
  ⟨_, _, rfl, nofun, (client_waits_for_station
    (show run .powerOn joiningRun = _ from rfl)).2 nofun⟩

/-! ## The flash -/

/-- `nvs_flash_init` has one answer for the flash as long as it is not erased. -/
def NvsAnswers (answer : EspErr) (state : State) (action : Action) : Prop :=
  ∀ result, action = .main result →
    (state.main = .nvsFlashInit ∨
      state.main = .running ∧ state.station.progress = .nvsFlashInit ∧
        state.firmware.main = .tcpTxQueueInit) → result = answer

/-- Past its first call `app_main` has a flash that is fine. -/
structure FlashFine (answer : EspErr) (state : State) (past : List Event) :
    Prop where
  answered : state.main ≠ .nvsFlashInit → answer = .ok
  kept : state.station.progress ≠ .nvsFlashErase
  unerased : .station .nvsErased ∉ past

theorem flashFine_powerOn (answer : EspErr) : FlashFine answer .powerOn [] where
  answered := fun hmain => absurd rfl hmain
  kept := by simp [State.powerOn, WifiStation.State.powerOn]
  unerased := List.not_mem_nil

theorem waited_ne_erase (bits : EventBits) : waited bits ≠ .nvsFlashErase := by
  intro hwaited
  have hregistered := registered_waited bits .other
  rw [hwaited] at hregistered
  cases hregistered

theorem woken_ne_erase {progress : Progress} {bits : EventBits}
    (hkept : progress ≠ .nvsFlashErase) :
    progress.woken bits ≠ .nvsFlashErase := by
  rcases woken_cases progress bits with ⟨_, hsame⟩ | ⟨_, hwoken⟩
  · rw [hsame]
    exact hkept
  · rw [hwoken]
    exact waited_ne_erase bits

theorem FlashFine.step {answer : EspErr} {past : List Event}
    (hfine : FlashFine answer state past) (hanswers : NvsAnswers answer state action)
    (hstep : step state action = .ok (next, now)) :
    FlashFine answer next (past ++ now) := by
  obtain ⟨hanswered, hkept, hunerased⟩ := hfine
  cases move_of_step hstep with
  | checked main hmain =>
      refine ⟨fun _ => ?_, hkept, by simpa using hunerased⟩
      by_cases hfirst : state.main = .nvsFlashInit
      · exact (hanswers .ok rfl (.inl hfirst)).symm
      · exact hanswered hfirst
  | firmware action call firmware events =>
      exact ⟨hanswered, hkept, by simp [hunerased]⟩
  | station action call station events hcall hstation =>
      have hother (hprogress : station.progress ≠ .nvsFlashErase)
          (hevents : .nvsErased ∉ events) :
          FlashFine answer { state with station := station }
            (past ++ events.map .station) :=
        ⟨hanswered, hprogress, by simp [hunerased, hevents]⟩
      cases WifiStation.move_of_step hstation with
      | nvsFull result hprogress hresult =>
          obtain ⟨rfl, hmain, hfirmware⟩ := hcall result rfl
          exact absurd ((hanswers result rfl
            (.inr ⟨hmain, hprogress, hfirmware⟩)).trans
              (hanswered (by simp [hmain]))) hresult
      | nvsErased hprogress => exact absurd hprogress hkept
      | called call hprogress =>
          refine hother ?_ (by simp)
          cases call <;> simp [WifiCall.next]
      | nvsReady => exact hother (by simp) (by simp)
      | groupCreated => exact hother (by simp) (by simp)
      | wait result bits => exact hother (waited_ne_erase bits) (by simp)
      | gaveUp | gotIp => exact hother (woken_ne_erase hkept) (by simp)
      | _ => exact hother hkept (by simp)

/-- Whatever `nvs_flash_init` makes of the flash, the flash is never erased:
`app_main` does not get as far as `start_wifi_station` with a flash for which
that function would do it. -/
theorem never_erases (answer : EspErr)
    (hanswers : Runs.StepsMeet step (NvsAnswers answer) .powerOn actions)
    (hrun : run .powerOn actions = .ok (final, trace)) :
    .station .nvsErased ∉ trace :=
  (Runs.run_invariant step (NvsAnswers answer) (FlashFine answer)
    (fun _ _ _ _ _ hfine hanswers hstep => hfine.step hanswers hstep)
    (flashFine_powerOn answer) hanswers hrun).unerased

theorem never_erases_started :
    ∃ final trace,
      run .powerOn (List.replicate 7 (.main .ok)) = .ok (final, trace) ∧
        .station .nvsErased ∉ trace := by
  refine ⟨_, _, rfl, never_erases .ok (.of_forall ?_ State.powerOn)
    (show run .powerOn (List.replicate 7 (.main .ok)) = _ from rfl)⟩
  rintro action hmem state result rfl -
  exact (Action.main.inj (List.eq_of_mem_replicate hmem))

end Conveyor.Boot
