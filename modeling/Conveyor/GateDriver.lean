import Conveyor.IoDriver
import Mathlib.Algebra.Group.Nat.Defs
import Mathlib.Data.List.Induction

/-!
# The gate table

`gate_driver_init` allocates an array of gates and an array of settings.  It
frees both before it allocates again but sets `num_gate` only at its end, and
stores the `int` it was given in eight bits.
-/

namespace Conveyor.GateDriver

open Conveyor.Rtos Conveyor.IoDriver

/-- `pin_address_t`. -/
structure PinAddress where
  port : UInt8
  pin : UInt8
  deriving DecidableEq, Repr

/-- `gate_setting_t`. -/
structure GateSetting where
  isUse : Bool
  trigger : PinAddress
  openLimit : PinAddress
  closeLimit : PinAddress
  deriving DecidableEq, Repr

/-- `gate_driver_setting_t`. -/
structure GateDriverSetting where
  right : GateSetting
  left : GateSetting
  deriving DecidableEq, Repr

/-- `gate_state_t`. -/
inductive GateState
  | gateReady
  | gateClosed
  | gateMoving
  | gateOpen
  deriving DecidableEq, Repr

/-- `gate_data_t`. -/
structure GateData where
  isTrigger : Bool
  isOpen : Bool
  isClose : Bool
  state : GateState
  deriving DecidableEq, Repr

/-- `gate_t`. -/
structure Gate where
  right : GateData
  left : GateData
  deriving DecidableEq, Repr

/-- A gate after `memset`. -/
def Gate.zero : Gate :=
  ⟨⟨false, false, false, .gateReady⟩, ⟨false, false, false, .gateReady⟩⟩

/-- The static variables of the driver; a pointer is `none` while it is NULL. -/
structure State where
  state : DriverState
  gate : Option (List Gate)
  gateDriverSetting : Option (List GateDriverSetting)
  numGate : UInt8
  deriving DecidableEq, Repr

def State.bootUp : State := ⟨.bootUp, none, none, 0⟩

/-- A call of `gate_driver_init` with as many settings as its `num_gates` says,
and the outcome of each `calloc`. -/
structure InitCall where
  setting : List GateDriverSetting
  gateAllocated : Bool
  settingAllocated : Bool
  length_lt : setting.length < 2 ^ 31

def InitCall.numGates (call : InitCall) : ℕ := call.setting.length

/-- `calloc`: an array of this many zeroed elements, or NULL. -/
def calloc {Element : Type*} (zero : Element) (count : ℕ) (allocated : Bool) :
    Option (List Element) :=
  if allocated then some (List.replicate count zero) else none

/-- A setting as `calloc` leaves it. -/
def GateDriverSetting.zero : GateDriverSetting :=
  ⟨⟨false, ⟨0, 0⟩, ⟨0, 0⟩, ⟨0, 0⟩⟩, ⟨false, ⟨0, 0⟩, ⟨0, 0⟩, ⟨0, 0⟩⟩⟩

/-- `uninit_gate_driver`. -/
def uninitGateDriver (state : State) : State :=
  { state with gate := none, gateDriverSetting := none }

/-- `gate_driver_init`, with its result. -/
def gateDriverInit (state : State) (call : InitCall) : State × UInt8 :=
  let cleared := uninitGateDriver { state with state := .init }
  let allocated :=
    { cleared with
      gate := calloc Gate.zero call.numGates call.gateAllocated
      gateDriverSetting :=
        calloc GateDriverSetting.zero call.numGates call.settingAllocated }
  if allocated.gate.isNone || allocated.gateDriverSetting.isNone then
    (allocated, 0)
  else
    ({ state := .ready
       gate := some (List.replicate call.numGates Gate.zero)
       gateDriverSetting := some call.setting
       numGate := .ofNat call.numGates }, 1)

/-- `gate_driver_get_state`. -/
def gateDriverGetState (state : State) : DriverState := state.state

/-- The settings and the data of one gate as `print_gate_driver_setting` reads
them. -/
def readEntry (state : State) (index : ℕ) :
    Except Fault (GateDriverSetting × Gate) :=
  match state.gateDriverSetting.bind (·[index]?),
    state.gate.bind (·[index]?) with
  | some setting, some gate => .ok (setting, gate)
  | _, _ => .error .outOfBounds

/-- `print_gate_driver_setting`: what it prints. -/
def printGateDriverSetting (state : State) :
    Except Fault (List (GateDriverSetting × Gate)) :=
  (List.range state.numGate.toNat).mapM (readEntry state)

/-! ## Sequences of initialisations -/

/-- The driver after these calls since boot, and the result of the last one. -/
def initAll (calls : List InitCall) : State × Option UInt8 :=
  calls.foldl
    (fun current call =>
      ((gateDriverInit current.1 call).1,
        some (gateDriverInit current.1 call).2))
    (State.bootUp, none)

/-- Both arrays have an entry at the index. -/
def InRange (state : State) (index : ℕ) : Prop :=
  ∃ settings gates, state.gateDriverSetting = some settings ∧
    state.gate = some gates ∧ index < settings.length ∧ index < gates.length

/-- The table is as it should be after these calls. -/
structure TableValid (calls : List InitCall) : Prop where
  ready : gateDriverGetState (initAll calls).1 = .ready ↔
    (initAll calls).2 = some 1
  table : ∀ call, calls.getLast? = some call → (initAll calls).2 = some 1 →
    (initAll calls).1.gate = some (List.replicate call.numGates Gate.zero) ∧
      (initAll calls).1.gateDriverSetting = some call.setting ∧
      (initAll calls).1.numGate.toNat = call.numGates
  indices : ∀ index < (initAll calls).1.numGate.toNat,
    InRange (initAll calls).1 index
  prints : ∃ entries, printGateDriverSetting (initAll calls).1 = .ok entries

/-- Both allocations of the call succeed. -/
def InitCall.succeeds (call : InitCall) : Bool :=
  call.gateAllocated && call.settingAllocated

/-- The number of gates of the most recent successful call, 0 if there was
none. -/
def lastGates (calls : List InitCall) : ℕ :=
  ((calls.filter InitCall.succeeds).getLast?.map InitCall.numGates).getD 0

theorem gateDriverInit_of_succeeds (state : State) {call : InitCall}
    (hsucceeds : call.succeeds = true) :
    gateDriverInit state call =
      ({ state := .ready
         gate := some (List.replicate call.numGates Gate.zero)
         gateDriverSetting := some call.setting
         numGate := .ofNat call.numGates }, 1) := by
  simp only [InitCall.succeeds, Bool.and_eq_true] at hsucceeds
  simp [gateDriverInit, calloc, hsucceeds.1, hsucceeds.2]

/-- A call that fails leaves `num_gate` as it was and an array missing. -/
theorem gateDriverInit_of_fails (state : State) {call : InitCall}
    (hfails : call.succeeds = false) :
    (gateDriverInit state call).2 = 0 ∧
      (gateDriverInit state call).1.state = .init ∧
      (gateDriverInit state call).1.numGate = state.numGate ∧
      ((gateDriverInit state call).1.gate = none ∨
        (gateDriverInit state call).1.gateDriverSetting = none) := by
  simp only [InitCall.succeeds, Bool.and_eq_false_iff] at hfails
  rcases hfails with hgate | hsetting
  · simp [gateDriverInit, uninitGateDriver, calloc, hgate]
  · simp [gateDriverInit, uninitGateDriver, calloc, hsetting]

theorem initAll_concat (calls : List InitCall) (call : InitCall) :
    initAll (calls ++ [call]) =
      ((gateDriverInit (initAll calls).1 call).1,
        some (gateDriverInit (initAll calls).1 call).2) := by
  rw [initAll, List.foldl_concat]
  rfl

theorem lastGates_concat (calls : List InitCall) (call : InitCall) :
    lastGates (calls ++ [call]) =
      if call.succeeds then call.numGates else lastGates calls := by
  unfold lastGates
  cases hsucceeds : call.succeeds <;> simp [hsucceeds, List.filter_append]

/-- `num_gate` is the number of the last successful call in eight bits. -/
theorem numGate_initAll (calls : List InitCall) :
    (initAll calls).1.numGate = .ofNat (lastGates calls) := by
  induction calls using List.reverseRecOn with
  | nil => rfl
  | append_singleton calls call ih =>
      rw [initAll_concat, lastGates_concat]
      cases hsucceeds : call.succeeds with
      | true => rw [gateDriverInit_of_succeeds _ hsucceeds]; rfl
      | false => rw [(gateDriverInit_of_fails _ hsucceeds).2.2.1, ih]; rfl

theorem readEntry_ok_iff (state : State) (index : ℕ) :
    (∃ entry, readEntry state index = .ok entry) ↔ InRange state index := by
  unfold readEntry InRange
  cases state.gateDriverSetting with
  | none => simp
  | some settings =>
      cases state.gate with
      | none => simp
      | some gates =>
          by_cases hsetting : index < settings.length <;>
            by_cases hgate : index < gates.length <;>
            simp [hsetting, hgate]

private theorem mapM_ok_iff {Item Result : Type*}
    (read : Item → Except Fault Result) (items : List Item) :
    (∃ results, items.mapM read = .ok results) ↔
      ∀ item ∈ items, ∃ result, read item = .ok result := by
  induction items with
  | nil => exact iff_of_true ⟨[], rfl⟩ (by simp)
  | cons item items ih =>
      rw [List.forall_mem_cons, ← ih, List.mapM_cons]
      cases hitem : read item with
      | error fault => simp [bind, Except.bind]
      | ok result =>
          cases hitems : items.mapM read <;>
            simp [bind, Except.bind, pure, Except.pure]

/-- Printing reads every entry below `num_gate`. -/
theorem printGateDriverSetting_ok_iff (state : State) :
    (∃ entries, printGateDriverSetting state = .ok entries) ↔
      ∀ index < state.numGate.toNat, InRange state index := by
  rw [printGateDriverSetting, mapM_ok_iff]
  simp only [List.mem_range, readEntry_ok_iff]

/-! ## When the table is valid -/

/-- The last call succeeded with a number of gates that fits in eight bits, or
it failed and `num_gate` says 0 all the same. -/
def Fits (calls : List InitCall) : Prop :=
  match calls.getLast? with
  | none => True
  | some call =>
      if call.succeeds then call.numGates < 256 else 256 ∣ lastGates calls

theorem toNat_numGate (calls : List InitCall) :
    (initAll calls).1.numGate.toNat = lastGates calls % 256 := by
  rw [numGate_initAll]
  exact UInt8.toNat_ofNat'

theorem tableValid_nil : TableValid [] where
  ready := by decide
  table := by simp
  indices := fun index hindex => absurd hindex (Nat.not_lt_zero index)
  prints := ⟨[], rfl⟩

/-- After a successful call only the number of gates can be wrong. -/
theorem tableValid_of_succeeds {calls : List InitCall} {call : InitCall}
    (hsucceeds : call.succeeds = true) :
    TableValid (calls ++ [call]) ↔ call.numGates < 256 := by
  have hinit : initAll (calls ++ [call]) = _ := initAll_concat calls call
  rw [gateDriverInit_of_succeeds _ hsucceeds] at hinit
  have hnum : (initAll (calls ++ [call])).1.numGate.toNat =
      call.numGates % 256 := by
    rw [toNat_numGate, lastGates_concat, if_pos hsucceeds]
  constructor
  · intro hvalid
    obtain ⟨-, -, hcount⟩ := hvalid.table call (by simp) (by rw [hinit])
    rw [hnum] at hcount
    omega
  · intro hfits
    rw [Nat.mod_eq_of_lt hfits] at hnum
    have hrange : ∀ index < (initAll (calls ++ [call])).1.numGate.toNat,
        InRange (initAll (calls ++ [call])).1 index := by
      intro index hindex
      rw [hnum] at hindex
      rw [hinit]
      exact ⟨_, _, rfl, rfl, hindex, by rwa [List.length_replicate]⟩
    refine ⟨?_, fun last hlast _ => ?_, hrange,
      (printGateDriverSetting_ok_iff _).mpr hrange⟩
    · rw [hinit]
      exact iff_of_true rfl rfl
    · obtain rfl : call = last := by simpa using hlast
      exact ⟨by rw [hinit], by rw [hinit], hnum⟩

theorem not_inRange_of_missing {state : State} (index : ℕ)
    (hmissing : state.gate = none ∨ state.gateDriverSetting = none) :
    ¬ InRange state index := by
  rintro ⟨settings, gates, hsettings, hgates, -, -⟩
  rcases hmissing with hnone | hnone
  · simp [hnone] at hgates
  · simp [hnone] at hsettings

/-- After a failed call an array is missing, so no index may be left. -/
theorem tableValid_of_fails {calls : List InitCall} {call : InitCall}
    (hfails : call.succeeds = false) :
    TableValid (calls ++ [call]) ↔ 256 ∣ lastGates (calls ++ [call]) := by
  obtain ⟨hresult, hstate, -, hmissing⟩ :=
    gateDriverInit_of_fails (initAll calls).1 hfails
  have hinit := initAll_concat calls call
  rw [Nat.dvd_iff_mod_eq_zero, ← toNat_numGate]
  constructor
  · intro hvalid
    by_contra hcount
    have hrange := hvalid.indices 0 (Nat.pos_of_ne_zero hcount)
    rw [hinit] at hrange
    exact not_inRange_of_missing 0 hmissing hrange
  · intro hcount
    have hrange : ∀ index < (initAll (calls ++ [call])).1.numGate.toNat,
        InRange (initAll (calls ++ [call])).1 index :=
      fun index hindex => absurd (hcount ▸ hindex) (Nat.not_lt_zero index)
    refine ⟨?_, fun last _ hlast => ?_, hrange,
      (printGateDriverSetting_ok_iff _).mpr hrange⟩
    · simp [gateDriverGetState, hinit, hstate, hresult]
    · simp [hinit, hresult] at hlast

/-- The table is valid exactly when the last call succeeded with fewer than 256
gates, or there was none or it failed and the last successful call before it, if
any, had a multiple of 256. -/
theorem tableValid_iff (calls : List InitCall) :
    TableValid calls ↔ Fits calls := by
  rcases List.eq_nil_or_concat' calls with rfl | ⟨before, call, rfl⟩
  · exact iff_of_true tableValid_nil trivial
  · rw [Fits, List.getLast?_concat]
    cases hsucceeds : call.succeeds with
    | true => simpa [hsucceeds] using tableValid_of_succeeds hsucceeds
    | false => simpa [hsucceeds] using tableValid_of_fails hsucceeds

/-- A successful initialisation with two gates and one that fails. -/
def failingAgain : List InitCall :=
  [⟨[.zero, .zero], true, true, by decide⟩,
    ⟨[.zero, .zero], false, true, by decide⟩]

/-- `num_gate` stays at 2 although an array is missing. -/
theorem not_tableValid_failingAgain : ¬ TableValid failingAgain := by
  intro hvalid
  obtain ⟨entries, hprints⟩ := hvalid.prints
  have hfault : printGateDriverSetting (initAll failingAgain).1 =
      .error .outOfBounds := by decide
  rw [hfault] at hprints
  contradiction

/-! ## The initialisation the firmware makes -/

/-- `gate_setting_array` of `gate_driver_start_task`. -/
def gateSettingArray : List GateDriverSetting :=
  [{ right := ⟨true, ⟨1, 2⟩, ⟨3, 4⟩, ⟨5, 6⟩⟩
     left := ⟨true, ⟨7, 8⟩, ⟨9, 10⟩, ⟨11, 12⟩⟩ },
    { right := ⟨true, ⟨13, 14⟩, ⟨15, 16⟩, ⟨17, 18⟩⟩
      left := ⟨true, ⟨19, 20⟩, ⟨21, 22⟩, ⟨23, 24⟩⟩ }]

/-- `gate_driver_start_task` up to the creation of the queue: the one
initialisation after boot and what is printed of it. -/
def gateDriverStartTask (gateAllocated settingAllocated : Bool) :
    Except Fault (List (GateDriverSetting × Gate)) :=
  printGateDriverSetting
    (gateDriverInit .bootUp
      ⟨gateSettingArray, gateAllocated, settingAllocated, by decide⟩).1

/-- The start of the firmware prints both gates, or none if an allocation
failed, and never reads a missing entry. -/
theorem gateDriverStartTask_eq (gateAllocated settingAllocated : Bool) :
    gateDriverStartTask gateAllocated settingAllocated =
      .ok (if gateAllocated && settingAllocated then
        gateSettingArray.map fun setting => (setting, Gate.zero) else []) := by
  revert gateAllocated settingAllocated
  decide

end Conveyor.GateDriver
