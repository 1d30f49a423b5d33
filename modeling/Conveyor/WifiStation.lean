import Conveyor.Core.Runs
import Mathlib.Data.List.Count

/-!
# The Wi-Fi station

`wifi_station.c`: `app_main` brings the driver up in `start_wifi_station` and
waits there for one of two bits of an event group.  `event_handler` runs in the
event loop; it connects again after a connection is lost, up to
`EXAMPLE_ESP_MAXIMUM_RETRY` times in a row, and sets the bits.  The driver is
not modelled: any event may come at any time, and the handler is called for it
once it is registered for it.
-/

namespace Conveyor.WifiStation

/-- `EXAMPLE_ESP_MAXIMUM_RETRY`. -/
def maximumRetry : ℕ := 10

/-- The events the handler tells apart. -/
inductive StationEvent
  | staStart
  | staDisconnected
  | gotIp
  | other
  deriving DecidableEq, Repr

/-- What a call of the SDK returns. -/
inductive EspErr
  | ok
  | nvsNoFreePages
  | nvsNewVersionFound
  | other
  deriving DecidableEq, Repr

/-- The calls of `wifi_init_sta` that are checked, in their order. -/
inductive WifiCall
  | espWifiInit
  | registerAnyId
  | registerGotIp
  | espWifiSetMode
  | espWifiSetConfig
  | espWifiStart
  deriving DecidableEq, Repr

/-- Which bit `xEventGroupWaitBits` returned with. -/
inductive Outcome
  | connected
  | failed
  deriving DecidableEq, Repr

/-- Where `start_wifi_station` stands: the call it makes next. -/
inductive Progress
  | nvsFlashInit
  | nvsFlashErase
  /-- `nvs_flash_init` after the flash was erased. -/
  | nvsFlashInitAgain
  | xEventGroupCreate
  | calling (call : WifiCall)
  | xEventGroupWaitBits
  /-- In `xEventGroupWaitBits`, which has found neither bit set. -/
  | waiting
  | finished (outcome : Outcome)
  deriving DecidableEq, Repr

/-- What follows a call of `wifi_init_sta`. -/
def WifiCall.next : WifiCall → Progress
  | espWifiInit => .calling registerAnyId
  | registerAnyId => .calling registerGotIp
  | registerGotIp => .calling espWifiSetMode
  | espWifiSetMode => .calling espWifiSetConfig
  | espWifiSetConfig => .calling espWifiStart
  | espWifiStart => .xEventGroupWaitBits

/-- `WIFI_CONNECTED_BIT` and `WIFI_FAIL_BIT`. -/
structure EventBits where
  connected : Bool
  fail : Bool
  deriving DecidableEq, Repr

/-- Where a wait that finds these bits leads to. -/
def waited (bits : EventBits) : Progress :=
  if bits.connected then .finished .connected
  else if bits.fail then .finished .failed
  else .waiting

/-- A task that waits in `xEventGroupWaitBits` gets the bits as they are when one
of them is set. -/
def Progress.woken (progress : Progress) (bits : EventBits) : Progress :=
  match progress with
  | .waiting => waited bits
  | other => other

structure State where
  progress : Progress
  /-- `s_wifi_event_group`, which may be NULL. -/
  group : Option EventBits
  /-- `s_retry_num` -/
  retryNum : ℕ
  deriving DecidableEq, Repr

def State.powerOn : State where
  progress := .nvsFlashInit
  group := none
  retryNum := 0

/-- What ends the defined behaviour of the station. -/
inductive StationFault
  /-- `ESP_ERROR_CHECK` got an error. -/
  | abort
  /-- A function of event groups got a NULL handle. -/
  | nullEventGroup
  deriving DecidableEq, Repr

inductive Event
  | nvsErased
  | handled (event : StationEvent)
  /-- `esp_wifi_connect` was called; the handler ignores what it returns. -/
  | connect
  deriving DecidableEq, Repr

inductive Action
  /-- A step of `start_wifi_station`; `result` is the outcome of its call. -/
  | startWifiStation (result : EspErr)
  /-- The event loop has got this event. -/
  | eventLoop (event : StationEvent)
  deriving DecidableEq, Repr

/-- The handler is registered for all events of the driver first, and for
`IP_EVENT_STA_GOT_IP` after that. -/
def Progress.registered : Progress → StationEvent → Bool
  | .calling .espWifiInit, _ => false
  | .calling .registerAnyId, _ => false
  | .calling .registerGotIp, event => event ≠ .gotIp
  | .calling _, _ => true
  | .xEventGroupWaitBits, _ => true
  | .waiting, _ => true
  | .finished _, _ => true
  | _, _ => false

/-- `xEventGroupSetBits` -/
def xEventGroupSetBits (state : State) (set : EventBits → EventBits) :
    Except StationFault State :=
  match state.group with
  | none => .error .nullEventGroup
  | some bits => .ok { state with
      progress := state.progress.woken (set bits)
      group := some (set bits) }

def eventHandler (state : State) :
    StationEvent → Except StationFault (State × List Event)
  | .staStart => .ok (state, [.handled .staStart, .connect])
  | .staDisconnected =>
      if state.retryNum < maximumRetry then
        .ok ({ state with retryNum := state.retryNum + 1 },
          [.handled .staDisconnected, .connect])
      else
        (xEventGroupSetBits state fun bits => { bits with fail := true }).map
          fun state => (state, [.handled .staDisconnected])
  | .gotIp =>
      (xEventGroupSetBits { state with retryNum := 0 } fun bits =>
        { bits with connected := true }).map
          fun state => (state, [.handled .gotIp])
  | .other => .ok (state, [.handled .other])

/-- The step of `ESP_ERROR_CHECK` and what follows it. -/
def checked (result : EspErr) (next : State) :
    Except StationFault (State × List Event) :=
  if result = .ok then .ok (next, []) else .error .abort

/-- One step of `start_wifi_station`. -/
def startStep (state : State) (result : EspErr) :
    Except StationFault (State × List Event) :=
  match state.progress with
  | .nvsFlashInit =>
      if result = .nvsNoFreePages ∨ result = .nvsNewVersionFound then
        .ok ({ state with progress := .nvsFlashErase }, [])
      else checked result { state with progress := .xEventGroupCreate }
  | .nvsFlashErase =>
      if result = .ok then
        .ok ({ state with progress := .nvsFlashInitAgain }, [.nvsErased])
      else .error .abort
  | .nvsFlashInitAgain =>
      checked result { state with progress := .xEventGroupCreate }
  | .xEventGroupCreate =>
      .ok ({ state with
        progress := .calling .espWifiInit
        group := if result = .ok then some ⟨false, false⟩ else none }, [])
  | .calling call => checked result { state with progress := call.next }
  | .xEventGroupWaitBits =>
      match state.group with
      | none => .error .nullEventGroup
      | some bits => .ok ({ state with progress := waited bits }, [])
  | .waiting | .finished _ => .ok (state, [])

def eventLoopStep (state : State) (event : StationEvent) :
    Except StationFault (State × List Event) :=
  if state.progress.registered event then eventHandler state event
  else .ok (state, [])

def step : Runs.Step State Action Event StationFault
  | state, .startWifiStation result => startStep state result
  | state, .eventLoop event => eventLoopStep state event

abbrev run := Runs.run step

theorem waited_eq_waiting {bits : EventBits} :
    waited bits = .waiting ↔ bits = ⟨false, false⟩ := by
  obtain ⟨connected, fail⟩ := bits
  cases connected <;> cases fail <;> decide

theorem connected_of_waited {bits : EventBits}
    (hwaited : waited bits = .finished .connected) : bits.connected := by
  obtain ⟨connected, fail⟩ := bits
  cases connected <;> cases fail <;> first | rfl | cases hwaited

theorem fail_of_waited {bits : EventBits}
    (hwaited : waited bits = .finished .failed) : bits.fail := by
  obtain ⟨connected, fail⟩ := bits
  cases connected <;> cases fail <;> first | rfl | cases hwaited

theorem registered_waited (bits : EventBits) (event : StationEvent) :
    (waited bits).registered event := by
  obtain ⟨connected, fail⟩ := bits
  cases connected <;> cases fail <;> rfl

/-- Only a task that waits is woken. -/
theorem woken_cases (progress : Progress) (bits : EventBits) :
    progress ≠ .waiting ∧ progress.woken bits = progress ∨
      progress = .waiting ∧ progress.woken bits = waited bits := by
  cases progress with
  | waiting => exact .inr ⟨rfl, rfl⟩
  | _ => exact .inl ⟨nofun, rfl⟩

/-! ## What one step can do -/

/-- Every step that does not fault. -/
inductive Move (state : State) : Action → State → List Event → Prop
  | rest (action : Action) : Move state action state []
  | nvsReady (hprogress : state.progress = .nvsFlashInit ∨
        state.progress = .nvsFlashInitAgain) :
      Move state (.startWifiStation .ok)
        { state with progress := .xEventGroupCreate } []
  | nvsFull (result : EspErr) (hprogress : state.progress = .nvsFlashInit)
      (hresult : result ≠ .ok) :
      Move state (.startWifiStation result)
        { state with progress := .nvsFlashErase } []
  | nvsErased (hprogress : state.progress = .nvsFlashErase) :
      Move state (.startWifiStation .ok)
        { state with progress := .nvsFlashInitAgain } [.nvsErased]
  | groupCreated (result : EspErr) (group : Option EventBits)
      (hprogress : state.progress = .xEventGroupCreate)
      (hgroup : ∀ bits ∈ group, bits = ⟨false, false⟩) :
      Move state (.startWifiStation result)
        { state with progress := .calling .espWifiInit, group := group } []
  | called (call : WifiCall) (hprogress : state.progress = .calling call) :
      Move state (.startWifiStation .ok) { state with progress := call.next } []
  | wait (result : EspErr) (bits : EventBits)
      (hprogress : state.progress = .xEventGroupWaitBits)
      (hgroup : state.group = some bits) :
      Move state (.startWifiStation result)
        { state with progress := waited bits } []
  | started (hregistered : state.progress.registered .staStart) :
      Move state (.eventLoop .staStart) state [.handled .staStart, .connect]
  | retried (hregistered : state.progress.registered .staDisconnected)
      (hretry : state.retryNum < maximumRetry) :
      Move state (.eventLoop .staDisconnected)
        { state with retryNum := state.retryNum + 1 }
        [.handled .staDisconnected, .connect]
  | gaveUp (bits : EventBits)
      (hregistered : state.progress.registered .staDisconnected)
      (hretry : ¬ state.retryNum < maximumRetry)
      (hgroup : state.group = some bits) :
      Move state (.eventLoop .staDisconnected)
        { state with
          progress := state.progress.woken { bits with fail := true }
          group := some { bits with fail := true } }
        [.handled .staDisconnected]
  | gotIp (bits : EventBits) (hregistered : state.progress.registered .gotIp)
      (hgroup : state.group = some bits) :
      Move state (.eventLoop .gotIp)
        { state with
          progress := state.progress.woken { bits with connected := true }
          group := some { bits with connected := true }
          retryNum := 0 }
        [.handled .gotIp]
  | ignored (hregistered : state.progress.registered .other) :
      Move state (.eventLoop .other) state [.handled .other]

private theorem checked_ok {result : EspErr} {middle next : State}
    {now : List Event} (hstep : checked result middle = .ok (next, now)) :
    result = .ok ∧ next = middle ∧ now = [] := by
  unfold checked at hstep
  split at hstep
  · cases hstep
    exact ⟨‹_›, rfl, rfl⟩
  · cases hstep

private theorem move_of_startStep {state next : State} {result : EspErr}
    {now : List Event} (hstep : startStep state result = .ok (next, now)) :
    Move state (.startWifiStation result) next now := by
  unfold startStep at hstep
  split at hstep
  next hprogress =>
    split at hstep
    next hfull =>
      cases hstep
      exact .nvsFull result hprogress (by rcases hfull with rfl | rfl <;> simp)
    next =>
      obtain ⟨rfl, rfl, rfl⟩ := checked_ok hstep
      exact .nvsReady (.inl hprogress)
  next hprogress =>
    split at hstep
    next hok =>
      cases hstep
      exact hok ▸ .nvsErased hprogress
    next => cases hstep
  next hprogress =>
    obtain ⟨rfl, rfl, rfl⟩ := checked_ok hstep
    exact .nvsReady (.inr hprogress)
  next hprogress =>
    cases hstep
    refine .groupCreated result _ hprogress fun bits hbits => ?_
    split at hbits <;> simp_all
  next call hprogress =>
    obtain ⟨rfl, rfl, rfl⟩ := checked_ok hstep
    exact .called call hprogress
  next hprogress =>
    split at hstep
    next => cases hstep
    next bits hgroup =>
      cases hstep
      exact .wait result bits hprogress hgroup
  next =>
    cases hstep
    exact .rest _
  next =>
    cases hstep
    exact .rest _

private theorem xEventGroupSetBits_ok {state next : State}
    {set : EventBits → EventBits} {events now : List Event}
    (hstep : (xEventGroupSetBits state set).map (fun state => (state, events)) =
      .ok (next, now)) :
    ∃ bits, state.group = some bits ∧ now = events ∧
      next = { state with
        progress := state.progress.woken (set bits)
        group := some (set bits) } := by
  unfold xEventGroupSetBits at hstep
  split at hstep
  · cases hstep
  · cases hstep
    exact ⟨_, ‹_›, rfl, rfl⟩

private theorem move_of_eventLoopStep {state next : State} {event : StationEvent}
    {now : List Event} (hstep : eventLoopStep state event = .ok (next, now)) :
    Move state (.eventLoop event) next now := by
  unfold eventLoopStep at hstep
  split at hstep
  next hregistered =>
    cases event with
    | staStart =>
        cases hstep
        exact .started hregistered
    | staDisconnected =>
        simp only [eventHandler] at hstep
        split at hstep
        next hretry =>
          cases hstep
          exact .retried hregistered hretry
        next hretry =>
          obtain ⟨bits, hgroup, rfl, rfl⟩ := xEventGroupSetBits_ok hstep
          exact .gaveUp bits hregistered hretry hgroup
    | gotIp =>
        obtain ⟨bits, hgroup, rfl, rfl⟩ := xEventGroupSetBits_ok hstep
        exact .gotIp bits hregistered hgroup
    | other =>
        cases hstep
        exact .ignored hregistered
  next =>
    cases hstep
    exact .rest _

theorem move_of_step {state next : State} {action : Action} {now : List Event}
    (hstep : step state action = .ok (next, now)) :
    Move state action next now := by
  cases action with
  | startWifiStation result => exact move_of_startStep hstep
  | eventLoop event => exact move_of_eventLoopStep hstep

end Conveyor.WifiStation
