import Mathlib.Data.List.Infix
import Conveyor.WifiStation

/-!
# When the station gives up

The handler counts the connections lost since the station last had an address.
It connects again after each of the first ten and gives up after the eleventh.
Whatever events come in whatever order, the calls of `esp_wifi_connect`, the
count and the bits are functions of the events handled so far.
-/

namespace Conveyor.WifiStation

def Event.handledEvent : Event → Option StationEvent
  | .handled event => some event
  | _ => none

/-- The events the handler was called with, oldest first. -/
def handledEvents (trace : List Event) : List StationEvent :=
  trace.filterMap Event.handledEvent

/-- How often `esp_wifi_connect` was called. -/
def connectCalls (trace : List Event) : ℕ := trace.count .connect

/-- The disconnections since the station last got an address. -/
def streak (events : List StationEvent) : ℕ :=
  (events.reverse.takeWhile (· ≠ .gotIp)).count .staDisconnected

/-- At some point there were more disconnections than the handler allows. -/
def GaveUp (events : List StationEvent) : Prop :=
  ∃ before, before <+: events ∧ maximumRetry < streak before

instance : DecidablePred GaveUp := fun events =>
  decidable_of_iff (∃ before ∈ events.inits, maximumRetry < streak before) <| by
    simp only [List.mem_inits, GaveUp]

/-- The last event is a disconnection after which the handler tries again. -/
def RetryDue (events : List StationEvent) : Prop :=
  events.getLast? = some .staDisconnected ∧ streak events ≤ maximumRetry

instance : DecidablePred RetryDue := fun _ => instDecidableAnd

/-- How often the handler tries again in the course of these events. -/
def retriesDue (events : List StationEvent) : ℕ :=
  events.inits.countP fun before => RetryDue before

@[simp]
theorem handledEvents_append (first second : List Event) :
    handledEvents (first ++ second) =
      handledEvents first ++ handledEvents second :=
  List.filterMap_append

@[simp]
theorem handledEvents_nil : handledEvents [] = [] := rfl

@[simp]
theorem handledEvents_handled (event : StationEvent) (rest : List Event) :
    handledEvents (.handled event :: rest) = event :: handledEvents rest := rfl

@[simp]
theorem handledEvents_connect (rest : List Event) :
    handledEvents (.connect :: rest) = handledEvents rest := rfl

@[simp]
theorem handledEvents_nvsErased (rest : List Event) :
    handledEvents (.nvsErased :: rest) = handledEvents rest := rfl

@[simp]
theorem connectCalls_append (first second : List Event) :
    connectCalls (first ++ second) = connectCalls first + connectCalls second :=
  List.count_append

@[simp]
theorem streak_nil : streak [] = 0 := rfl

theorem streak_concat (events : List StationEvent) (event : StationEvent) :
    streak (events ++ [event]) =
      match event with
      | .staDisconnected => streak events + 1
      | .gotIp => 0
      | _ => streak events := by
  cases event <;> simp [streak]

theorem gaveUp_concat {events : List StationEvent} {event : StationEvent} :
    GaveUp (events ++ [event]) ↔
      maximumRetry < streak (events ++ [event]) ∨ GaveUp events := by
  simp only [GaveUp, List.prefix_concat_iff, or_and_right, exists_or,
    exists_eq_left]

theorem gaveUp_of_streak {events : List StationEvent}
    (hstreak : maximumRetry < streak events) : GaveUp events :=
  ⟨events, List.prefix_rfl, hstreak⟩

theorem not_gaveUp_nil : ¬ GaveUp [] := by
  rintro ⟨before, hbefore, hstreak⟩
  rw [List.prefix_nil.mp hbefore] at hstreak
  exact Nat.not_lt_zero _ hstreak

theorem GaveUp.append {events : List StationEvent} (hgave : GaveUp events)
    (later : List StationEvent) : GaveUp (events ++ later) := by
  obtain ⟨before, hbefore, hstreak⟩ := hgave
  exact ⟨before, hbefore.trans (List.prefix_append _ _), hstreak⟩

/-- An event other than a lost connection does not make the handler give up. -/
theorem gaveUp_concat_of_streak_le {events : List StationEvent}
    {event : StationEvent}
    (hstreak : streak (events ++ [event]) ≤ streak events) :
    GaveUp (events ++ [event]) ↔ GaveUp events := by
  rw [gaveUp_concat]
  constructor
  · intro hgave
    exact hgave.elim (fun hlost => gaveUp_of_streak (by omega)) id
  · exact Or.inr

theorem retriesDue_concat (events : List StationEvent) (event : StationEvent) :
    retriesDue (events ++ [event]) = retriesDue events +
      if RetryDue (events ++ [event]) then 1 else 0 := by
  simp [retriesDue, List.inits_append, List.countP_append, List.countP_cons]

/-- Without an address the count of lost connections never goes down. -/
theorem streak_append_le (events : List StationEvent)
    {later : List StationEvent} (hnone : .gotIp ∉ later) :
    streak events ≤ streak (events ++ later) := by
  induction later using List.reverseRecOn with
  | nil => rw [List.append_nil]
  | append_singleton later event ih =>
      rw [List.mem_append, List.mem_singleton, not_or] at hnone
      obtain ⟨hlater, hevent⟩ := hnone
      apply (ih hlater).trans
      rw [← List.append_assoc, streak_concat]
      cases event with
      | staDisconnected => exact Nat.le_succ _
      | gotIp => exact absurd rfl hevent
      | staStart | other => exact le_rfl

/-- Once the handler has given up, it does not try again before there is an
address. -/
theorem retriesDue_append {events later : List StationEvent}
    (hlost : maximumRetry < streak events) (hnone : .gotIp ∉ later) :
    retriesDue (events ++ later) = retriesDue events := by
  induction later using List.reverseRecOn with
  | nil => rw [List.append_nil]
  | append_singleton later event ih =>
      have hstreak := streak_append_le events hnone
      have hdue : ¬ RetryDue (events ++ (later ++ [event])) :=
        fun hdue => absurd hdue.2 (by omega)
      rw [List.mem_append, not_or] at hnone
      rw [← List.append_assoc] at hdue ⊢
      rw [retriesDue_concat, if_neg hdue, ih hnone.1, Nat.add_zero]

/-! ## What the handler keeps -/

/-- The handler cannot have been called yet. -/
def Unregistered (progress : Progress) : Prop :=
  ∀ event, progress.registered event = false

/-- What every run of the station keeps. -/
structure Law (state : State) (past : List Event) : Prop where
  unheard : Unregistered state.progress → handledEvents past = []
  counts : state.retryNum = min maximumRetry (streak (handledEvents past))
  fails : ∀ bits ∈ state.group, bits.fail ↔ GaveUp (handledEvents past)
  connects : ∀ bits ∈ state.group, bits.connected ↔
    .gotIp ∈ handledEvents past
  calls : connectCalls past = (handledEvents past).count .staStart +
    retriesDue (handledEvents past)
  bounded : retriesDue (handledEvents past) ≤
    maximumRetry * (handledEvents past).count .gotIp + state.retryNum
  waits : state.progress = .waiting → state.group = some ⟨false, false⟩
  returnsConnected : state.progress = .finished .connected →
    .gotIp ∈ handledEvents past
  returnsFailed : state.progress = .finished .failed →
    GaveUp (handledEvents past)

variable {state next final : State} {past now trace : List Event}
variable {action : Action} {actions : List Action}

theorem law_powerOn : Law .powerOn [] where
  unheard := fun _ => rfl
  counts := rfl
  fails := fun _ hmem => by cases hmem
  connects := fun _ hmem => by cases hmem
  calls := rfl
  bounded := Nat.zero_le _
  waits := nofun
  returnsConnected := nofun
  returnsFailed := nofun

/-- A step of `start_wifi_station` that is not one of the last. -/
theorem Law.advance {progress : Progress} (hlaw : Law state past)
    (hregistered : Unregistered progress → Unregistered state.progress)
    (hwaiting : progress ≠ .waiting)
    (hunfinished : ∀ outcome, progress ≠ .finished outcome) :
    Law { state with progress := progress } past where
  unheard := fun hnone => hlaw.unheard (hregistered hnone)
  counts := hlaw.counts
  fails := hlaw.fails
  connects := hlaw.connects
  calls := hlaw.calls
  bounded := hlaw.bounded
  waits := fun hwaits => absurd hwaits hwaiting
  returnsConnected := fun hfinished => absurd hfinished (hunfinished _)
  returnsFailed := fun hfinished => absurd hfinished (hunfinished _)

/-- What was no call of the handler does not count. -/
theorem Law.erased (hlaw : Law state past) : Law state (past ++ [.nvsErased]) := by
  have hhandled : handledEvents (past ++ [.nvsErased]) = handledEvents past := by
    simp
  have hcalls : connectCalls (past ++ [.nvsErased]) = connectCalls past := by
    simp [connectCalls]
  constructor
  case calls => rw [hcalls, hhandled, hlaw.calls]
  case unheard => rw [hhandled]; exact hlaw.unheard
  case counts => rw [hhandled]; exact hlaw.counts
  case fails => rw [hhandled]; exact hlaw.fails
  case connects => rw [hhandled]; exact hlaw.connects
  case bounded => rw [hhandled]; exact hlaw.bounded
  case waits => exact hlaw.waits
  case returnsConnected => rw [hhandled]; exact hlaw.returnsConnected
  case returnsFailed => rw [hhandled]; exact hlaw.returnsFailed

/-- The event group is created before the handler is called for the first time. -/
theorem Law.groupCreated {group : Option EventBits} (hlaw : Law state past)
    (hprogress : state.progress = .xEventGroupCreate)
    (hgroup : ∀ bits ∈ group, bits = ⟨false, false⟩) :
    Law { state with progress := .calling .espWifiInit, group := group } past := by
  have hnone : handledEvents past = [] := by
    apply hlaw.unheard
    rw [hprogress]
    exact fun _ => rfl
  constructor
  case unheard => exact fun _ => hnone
  case counts => exact hlaw.counts
  case calls => exact hlaw.calls
  case bounded => exact hlaw.bounded
  case waits => exact nofun
  case returnsConnected => exact nofun
  case returnsFailed => exact nofun
  case fails =>
    intro bits hmem
    rw [hgroup bits hmem, hnone]
    exact iff_of_false Bool.false_ne_true not_gaveUp_nil
  case connects =>
    intro bits hmem
    rw [hgroup bits hmem, hnone]
    exact iff_of_false Bool.false_ne_true List.not_mem_nil

/-- The wait finds what the group holds. -/
theorem Law.wait {bits : EventBits} (hlaw : Law state past)
    (hgroup : state.group = some bits) :
    Law { state with progress := waited bits } past where
  unheard := fun hnone => by
    have hregistered := registered_waited bits .other
    rw [hnone] at hregistered
    cases hregistered
  counts := hlaw.counts
  fails := hlaw.fails
  connects := hlaw.connects
  calls := hlaw.calls
  bounded := hlaw.bounded
  waits := fun hwaits => hgroup.trans (congrArg some (waited_eq_waiting.mp hwaits))
  returnsConnected := fun hfinished =>
    (hlaw.connects bits hgroup).mp (connected_of_waited hfinished)
  returnsFailed := fun hfinished =>
    (hlaw.fails bits hgroup).mp (fail_of_waited hfinished)

/-- After a call of the handler the task is where it was, or where the bits that
were set lead. -/
theorem woken_or_same {before progress : Progress}
    {group after : Option EventBits}
    (hprogress : progress = before ∧ after = group ∨
      ∃ bits, after = some bits ∧ progress = before.woken bits) :
    progress = before ∧ (progress = .waiting → after = group) ∨
      ∃ bits, after = some bits ∧ progress = waited bits := by
  rcases hprogress with ⟨rfl, rfl⟩ | ⟨bits, rfl, rfl⟩
  · exact .inl ⟨rfl, fun _ => rfl⟩
  · rcases woken_cases before bits with ⟨hawake, hsame⟩ | ⟨_, hwoken⟩
    · rw [hsame]
      exact .inl ⟨rfl, fun hwaiting => absurd hwaiting hawake⟩
    · exact .inr ⟨bits, rfl, hwoken⟩

/-- A call of the handler: the count, the bits and the calls to connect follow
the event. -/
theorem Law.handle {event : StationEvent} {retryNum calls : ℕ}
    {group : Option EventBits} {progress : Progress} (hlaw : Law state past)
    (hregistered : state.progress.registered event)
    (hprogress : progress = state.progress ∧ group = state.group ∨
      ∃ bits, group = some bits ∧ progress = state.progress.woken bits)
    (hnow : handledEvents now = [event]) (hcalls : connectCalls now = calls)
    (hcounts : retryNum =
      min maximumRetry (streak (handledEvents past ++ [event])))
    (hfails : ∀ bits ∈ group, bits.fail ↔
      GaveUp (handledEvents past ++ [event]))
    (hconnects : ∀ bits ∈ group, bits.connected ↔
      .gotIp ∈ handledEvents past ++ [event])
    (hdue : calls = (if event = .staStart then 1 else 0) +
      if RetryDue (handledEvents past ++ [event]) then 1 else 0)
    (hbounded : (if RetryDue (handledEvents past ++ [event]) then 1 else 0) +
        state.retryNum ≤
      maximumRetry * (if event = .gotIp then 1 else 0) + retryNum) :
    Law { progress := progress, retryNum := retryNum, group := group }
      (past ++ now) := by
  have hhandled : handledEvents (past ++ now) = handledEvents past ++ [event] := by
    rw [handledEvents_append, hnow]
  have hwaited := woken_or_same hprogress
  constructor
  case unheard =>
    intro hnone
    have hstill : progress.registered event := by
      rcases hwaited with ⟨rfl, _⟩ | ⟨bits, _, rfl⟩
      · exact hregistered
      · exact registered_waited bits event
    rw [hnone event] at hstill
    cases hstill
  case counts => rw [hhandled]; exact hcounts
  case fails => rw [hhandled]; exact hfails
  case connects => rw [hhandled]; exact hconnects
  case calls =>
    rw [connectCalls_append, hhandled, List.count_append, retriesDue_concat,
      hcalls, hdue, hlaw.calls, List.count_singleton]
    simp only [beq_iff_eq]
    omega
  case bounded =>
    have hbefore := hlaw.bounded
    rw [hhandled, retriesDue_concat, List.count_append, List.count_singleton,
      Nat.mul_add]
    simp only [beq_iff_eq]
    omega
  case waits =>
    rintro rfl
    rcases hwaited with ⟨hsame, hgroup⟩ | ⟨bits, rfl, hwoken⟩
    · exact (hgroup rfl).trans (hlaw.waits hsame.symm)
    · exact congrArg some (waited_eq_waiting.mp hwoken.symm)
  case returnsConnected =>
    rintro rfl
    rw [hhandled]
    rcases hwaited with ⟨hsame, _⟩ | ⟨bits, rfl, hwoken⟩
    · exact List.mem_append_left _ (hlaw.returnsConnected hsame.symm)
    · exact (hconnects bits rfl).mp (connected_of_waited hwoken.symm)
  case returnsFailed =>
    rintro rfl
    rw [hhandled]
    rcases hwaited with ⟨hsame, _⟩ | ⟨bits, rfl, hwoken⟩
    · exact (hlaw.returnsFailed hsame.symm).append _
    · exact (hfails bits rfl).mp (fail_of_waited hwoken.symm)

/-- An event that is neither an address nor a lost connection. -/
theorem Law.handleOther {event : StationEvent} {calls : ℕ}
    (hlaw : Law state past) (hregistered : state.progress.registered event)
    (hnow : handledEvents now = [event]) (hcalls : connectCalls now = calls)
    (hstart : calls = if event = .staStart then 1 else 0)
    (hother : event = .staStart ∨ event = .other) :
    Law state (past ++ now) := by
  have hgotIp : event ≠ .gotIp := by rintro rfl; simp at hother
  have hlast : event ≠ .staDisconnected := by rintro rfl; simp at hother
  have hstreak : streak (handledEvents past ++ [event]) =
      streak (handledEvents past) := by
    rw [streak_concat]
    rcases hother with rfl | rfl <;> rfl
  have hdue : ¬ RetryDue (handledEvents past ++ [event]) := by
    simp [RetryDue, hlast]
  apply hlaw.handle hregistered (.inl ⟨rfl, rfl⟩) hnow hcalls
  case hcounts => rw [hstreak]; exact hlaw.counts
  case hfails =>
    intro bits hmem
    rw [gaveUp_concat_of_streak_le hstreak.le]
    exact hlaw.fails bits hmem
  case hconnects =>
    intro bits hmem
    rw [hlaw.connects bits hmem, List.mem_append, List.mem_singleton]
    exact (or_iff_left hgotIp.symm).symm
  case hdue => rw [if_neg hdue, hstart, Nat.add_zero]
  case hbounded => rw [if_neg hdue, if_neg hgotIp]; omega

theorem Law.step (hlaw : Law state past)
    (hstep : step state action = .ok (next, now)) : Law next (past ++ now) := by
  have hcounts := hlaw.counts
  cases move_of_step hstep with
  | rest => rwa [List.append_nil]
  | nvsReady hprogress =>
      rw [List.append_nil]
      apply hlaw.advance
      · intro _
        rcases hprogress with hprogress | hprogress <;> rw [hprogress] <;>
          exact fun _ => rfl
      · exact nofun
      · exact nofun
  | nvsFull result hprogress =>
      rw [List.append_nil]
      exact hlaw.advance (fun _ => hprogress ▸ fun _ => rfl) nofun nofun
  | nvsErased hprogress =>
      apply Law.erased
      exact hlaw.advance (fun _ => hprogress ▸ fun _ => rfl) nofun nofun
  | groupCreated result group hprogress hgroup =>
      rw [List.append_nil]
      exact hlaw.groupCreated hprogress hgroup
  | called call hprogress =>
      rw [List.append_nil]
      apply hlaw.advance
      · intro hnone
        cases call with
        | espWifiInit => exact hprogress ▸ fun _ => rfl
        | registerAnyId => cases hnone .other
        | _ => cases hnone .other
      · cases call <;> exact nofun
      · cases call <;> exact nofun
  | wait result bits hprogress hgroup =>
      rw [List.append_nil]
      exact hlaw.wait hgroup
  | started hregistered =>
      exact hlaw.handleOther hregistered rfl rfl rfl (.inl rfl)
  | ignored hregistered =>
      exact hlaw.handleOther hregistered rfl rfl rfl (.inr rfl)
  | retried hregistered hretry =>
      have hstreak : streak (handledEvents past ++ [.staDisconnected]) =
          streak (handledEvents past) + 1 := streak_concat _ _
      have hfew : streak (handledEvents past ++ [.staDisconnected]) ≤
          maximumRetry := by omega
      have hdue : RetryDue (handledEvents past ++ [.staDisconnected]) :=
        ⟨List.getLast?_concat, hfew⟩
      apply hlaw.handle hregistered (.inl ⟨rfl, rfl⟩) rfl rfl
      case hcounts => omega
      case hfails =>
        intro bits hmem
        rw [gaveUp_concat, hlaw.fails bits hmem]
        exact (or_iff_right (Nat.not_lt.mpr hfew)).symm
      case hconnects =>
        intro bits hmem
        simpa using hlaw.connects bits hmem
      case hdue => rw [if_pos hdue]; rfl
      case hbounded => rw [if_pos hdue]; simp; omega
  | gaveUp bits hregistered hretry hgroup =>
      have hstreak : streak (handledEvents past ++ [.staDisconnected]) =
          streak (handledEvents past) + 1 := streak_concat _ _
      have hlost : maximumRetry <
          streak (handledEvents past ++ [.staDisconnected]) := by omega
      have hdue : ¬ RetryDue (handledEvents past ++ [.staDisconnected]) :=
        fun hdue => Nat.not_le.mpr hlost hdue.2
      apply hlaw.handle hregistered (.inr ⟨_, rfl, rfl⟩) rfl rfl
      case hcounts => omega
      case hfails =>
        intro after hmem
        obtain rfl := Option.some.inj hmem
        exact iff_of_true rfl (gaveUp_of_streak hlost)
      case hconnects =>
        intro after hmem
        obtain rfl := Option.some.inj hmem
        simpa using hlaw.connects bits hgroup
      case hdue => rw [if_neg hdue]; rfl
      case hbounded => rw [if_neg hdue]; simp
  | gotIp bits hregistered hgroup =>
      have hstreak : streak (handledEvents past ++ [.gotIp]) = 0 :=
        streak_concat _ _
      have hdue : ¬ RetryDue (handledEvents past ++ [.gotIp]) := by
        simp [RetryDue]
      apply hlaw.handle hregistered (.inr ⟨_, rfl, rfl⟩) rfl rfl
      case hcounts => omega
      case hfails =>
        intro after hmem
        obtain rfl := Option.some.inj hmem
        rw [gaveUp_concat_of_streak_le (by omega)]
        exact hlaw.fails bits hgroup
      case hconnects =>
        intro after hmem
        obtain rfl := Option.some.inj hmem
        simp
      case hdue => rw [if_neg hdue]; rfl
      case hbounded => rw [if_neg hdue]; simp; omega

theorem law_of_run (hrun : run .powerOn actions = .ok (final, trace)) :
    Law final trace :=
  Runs.run_history_invariant step Law
    (fun _ _ _ _ _ hlaw hstep => hlaw.step hstep) law_powerOn hrun

/-! ## Whole runs -/

/-- Whatever events come in whatever order: `s_retry_num` is the number of
connections lost in a row, up to its bound, and the bits say what happened.
`esp_wifi_connect` is called at every start of the driver and after every lost
connection that is not too many, so at most ten times for every address and ten
times more. -/
theorem retries_counted (hrun : run .powerOn actions = .ok (final, trace)) :
    final.retryNum = min maximumRetry (streak (handledEvents trace)) ∧
      (∀ bits ∈ final.group, (bits.fail ↔ GaveUp (handledEvents trace)) ∧
        (bits.connected ↔ .gotIp ∈ handledEvents trace)) ∧
      connectCalls trace = (handledEvents trace).count .staStart +
        retriesDue (handledEvents trace) ∧
      retriesDue (handledEvents trace) ≤
        maximumRetry * ((handledEvents trace).count .gotIp + 1) := by
  have hlaw := law_of_run hrun
  have hcounts := hlaw.counts
  have hbounded := hlaw.bounded
  refine ⟨hcounts, fun bits hmem =>
    ⟨hlaw.fails bits hmem, hlaw.connects bits hmem⟩, hlaw.calls, ?_⟩
  rw [Nat.mul_succ]
  omega

/-- Where `start_wifi_station` gets to from its wait after these events. -/
def ended (events : List StationEvent) : Progress :=
  if .gotIp ∈ events then .finished .connected
  else if GaveUp events then .finished .failed
  else .waiting

/-- The bits lead where the events do. -/
theorem Law.ended {bits : EventBits} (hlaw : Law state past)
    (hgroup : state.group = some bits) :
    ended (handledEvents past) = waited bits := by
  have hconnects := hlaw.connects bits hgroup
  have hfails := hlaw.fails bits hgroup
  simp only [WifiStation.ended, waited, hconnects, hfails]

/-- An event that comes while the station waits leads where its bits lead. -/
theorem handled_waiting (hwaiting : state.progress = .waiting)
    (hgroup : state.group = some ⟨false, false⟩) (event : StationEvent) :
    ∃ next now bits, step state (.eventLoop event) = .ok (next, now) ∧
      handledEvents now = [event] ∧ next.group = some bits ∧
        next.progress = waited bits := by
  obtain ⟨_, _, retryNum⟩ := state
  obtain rfl := hwaiting
  obtain rfl := hgroup
  cases event with
  | staStart => exact ⟨_, _, _, rfl, rfl, rfl, rfl⟩
  | other => exact ⟨_, _, _, rfl, rfl, rfl, rfl⟩
  | gotIp => exact ⟨_, _, _, rfl, rfl, rfl, rfl⟩
  | staDisconnected =>
      by_cases hretry : retryNum < maximumRetry
      · exact ⟨_, _, ⟨false, false⟩, if_pos hretry, rfl, rfl, rfl⟩
      · exact ⟨_, _, ⟨false, true⟩, if_neg hretry, rfl, rfl, rfl⟩

/-- The wait of `start_wifi_station` returns at once if there has been an address
or, failing that, if too many connections were lost in a row; else it returns
with the first event that brings one of the two.  What it has returned with is
true. -/
theorem wait_ends (hrun : run .powerOn actions = .ok (final, trace)) :
    (final.progress = .xEventGroupWaitBits → final.group ≠ none → ∀ result,
      step final (.startWifiStation result) =
        .ok ({ final with progress := ended (handledEvents trace) }, [])) ∧
      (final.progress = .waiting →
        ended (handledEvents trace) = .waiting ∧ ∀ event, ∃ next now,
          step final (.eventLoop event) = .ok (next, now) ∧
            next.progress = ended (handledEvents trace ++ [event])) ∧
      (final.progress = .finished .connected →
        .gotIp ∈ handledEvents trace) ∧
      (final.progress = .finished .failed → GaveUp (handledEvents trace)) := by
  have hlaw := law_of_run hrun
  refine ⟨fun hwait hgroup result => ?_, fun hwaiting => ⟨?_, fun event => ?_⟩,
    hlaw.returnsConnected, hlaw.returnsFailed⟩
  · obtain ⟨bits, hbits⟩ := Option.ne_none_iff_exists'.mp hgroup
    rw [hlaw.ended hbits]
    simp only [step, startStep, hwait, hbits]
  · exact hlaw.ended (hlaw.waits hwaiting)
  · obtain ⟨next, now, bits, hstep, hhandled, hgroup, hwaited⟩ :=
      handled_waiting hwaiting (hlaw.waits hwaiting) event
    refine ⟨next, now, hstep, ?_⟩
    rw [hwaited, ← hhandled, ← handledEvents_append]
    exact ((hlaw.step hstep).ended hgroup).symm

/-- After more lost connections in a row than the handler allows there is no
retry before the next address, whatever else happens: the handler calls
`esp_wifi_connect` only when it is told that the driver was started once more,
and `WIFI_FAIL_BIT` stays set. -/
theorem given_up_for_good {before after : List Action} {middle : State}
    (hbefore : run .powerOn before = .ok (middle, past))
    (hlost : maximumRetry < streak (handledEvents past))
    (hafter : run middle after = .ok (final, trace))
    (hnone : .gotIp ∉ handledEvents trace) :
    connectCalls trace = (handledEvents trace).count .staStart ∧
      final.retryNum = maximumRetry ∧ ∀ bits ∈ final.group, bits.fail := by
  have hpast := law_of_run hbefore
  have hwhole := law_of_run (Runs.run_append hbefore hafter)
  have hcalls := hwhole.calls
  have hcounts := hwhole.counts
  have hfails := hwhole.fails
  have hstreak := streak_append_le (handledEvents past) hnone
  rw [handledEvents_append] at hcalls hcounts hfails
  rw [connectCalls_append, retriesDue_append hlost hnone, List.count_append,
    hpast.calls] at hcalls
  refine ⟨by omega, by omega, fun bits hmem => ?_⟩
  rw [hfails bits hmem]
  exact (gaveUp_of_streak hlost).append _

/-- The driver comes up and loses eleven connections in a row. -/
def losingRun : List Action :=
  List.replicate 9 (.startWifiStation .ok) ++ .eventLoop .staStart ::
    List.replicate 11 (.eventLoop .staDisconnected)

/-- What is left of the station then. -/
def lostStation : State where
  progress := .finished .failed
  group := some ⟨false, true⟩
  retryNum := 10

def losingTrace : List Event :=
  [.handled .staStart, .connect] ++
    (List.replicate 10 [.handled .staDisconnected, .connect]).flatten ++
      [.handled .staDisconnected]

theorem run_losingRun : run .powerOn losingRun = .ok (lostStation, losingTrace) :=
  rfl

theorem retries_counted_losingRun :
    lostStation.retryNum = min maximumRetry (streak (handledEvents losingTrace)) ∧
      (∀ bits ∈ lostStation.group,
        (bits.fail ↔ GaveUp (handledEvents losingTrace)) ∧
          (bits.connected ↔ .gotIp ∈ handledEvents losingTrace)) ∧
      connectCalls losingTrace = (handledEvents losingTrace).count .staStart +
        retriesDue (handledEvents losingTrace) ∧
      retriesDue (handledEvents losingTrace) ≤
        maximumRetry * ((handledEvents losingTrace).count .gotIp + 1) :=
  retries_counted run_losingRun

/-- One lost connection before the end of that run the station still waits; one
more lost connection and one address end the wait in their own way. -/
theorem wait_ends_losingRun :
    ∃ final trace,
      run .powerOn losingRun.dropLast = .ok (final, trace) ∧
        (final.progress = .waiting →
          ended (handledEvents trace) = .waiting ∧ ∀ event, ∃ next now,
            step final (.eventLoop event) = .ok (next, now) ∧
              next.progress = ended (handledEvents trace ++ [event])) ∧
        final.progress = .waiting ∧
        ended (handledEvents trace ++ [.staDisconnected]) = .finished .failed ∧
        ended (handledEvents trace ++ [.gotIp]) = .finished .connected :=
  ⟨_, _, rfl,
    (wait_ends (show run .powerOn losingRun.dropLast = _ from rfl)).2.1, rfl,
    by decide, by decide⟩

/-- Lost again, started again and lost again. -/
theorem given_up_for_good_losingRun :
    connectCalls [.handled .staDisconnected, .handled .staStart, .connect,
        .handled .staDisconnected] =
      (handledEvents [.handled .staDisconnected, .handled .staStart, .connect,
        .handled .staDisconnected]).count .staStart ∧
      lostStation.retryNum = maximumRetry ∧
        ∀ bits ∈ lostStation.group, bits.fail :=
  given_up_for_good run_losingRun (by decide)
    (show run lostStation [.eventLoop .staDisconnected, .eventLoop .staStart,
      .eventLoop .staDisconnected] = _ from rfl) (by decide)

end Conveyor.WifiStation
