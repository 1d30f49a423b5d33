import Conveyor.Core.Runs
import Conveyor.IoDriver
import Mathlib.Data.List.Induction

/-!
# The outputs over a sequence of writes

Every write sends the whole port, made of the shadow and the commanded state of
one pin, and updates the shadow whether the transfer succeeded or not.  So the
shadow holds what was commanded last, and an expander agrees with it from a
successful write on its port until the next failed one.
-/

namespace Conveyor.IoDriver

open Conveyor.Rtos

/-- The shadow together with what the expanders accepted last. -/
structure Outputs where
  data : IoData
  bus : Bus

/-- A call of `pcf8574_write_output` with a port and pin in range, and the
outcome of its transfer. -/
structure WriteCall where
  command : OutputCommand
  transferred : Bool
  inRange : (pinIndex command.port command.pin).isSome

def WriteCall.place (call : WriteCall) : Port × Pin :=
  (pinIndex call.command.port call.command.pin).get call.inRange

theorem WriteCall.pinIndex_eq (call : WriteCall) :
    pinIndex call.command.port call.command.pin =
      some (call.place.1, call.place.2) :=
  (Option.some_get call.inRange).symm

/-- The value the shadow gets. -/
def WriteCall.level (call : WriteCall) : UInt8 :=
  if call.command.state then 1 else 0

def writeStep : Runs.Step Outputs WriteCall Byte Fault
  | state, call =>
      match pcf8574WriteOutput state.data state.bus call.command
        call.transferred with
      | .error fault => .error fault
      | .ok (data, bus, byte) => .ok (⟨data, bus⟩, [byte])

abbrev writeRun := Runs.run writeStep

/-- A call in range updates the shadow and, if its transfer succeeds, the
expander of its port. -/
theorem writeStep_eq (state : Outputs) (call : WriteCall) :
    writeStep state call = .ok
      ({ data := { state.data with
          output := setPin state.data.output call.place.1 call.place.2
            call.level }
         bus := if call.transferred then
            Function.update state.bus (outputAddress call.place.1)
              (outputByte (state.data.output call.place.1) call.place.2
                call.command.state)
          else state.bus },
        [outputByte (state.data.output call.place.1) call.place.2
          call.command.state]) := by
  rw [writeStep, pcf8574WriteOutput_of_index _ _ _ _ call.pinIndex_eq]
  rfl

theorem output_of_writeStep {state next : Outputs} {call : WriteCall}
    {now : List Byte} (hstep : writeStep state call = .ok (next, now)) :
    next.data.output =
      setPin state.data.output call.place.1 call.place.2 call.level := by
  rw [writeStep_eq, Except.ok.injEq, Prod.mk.injEq] at hstep
  rw [← hstep.1]

theorem bus_of_writeStep {state next : Outputs} {call : WriteCall}
    {now : List Byte} (hstep : writeStep state call = .ok (next, now)) :
    next.bus = if call.transferred then
        Function.update state.bus (outputAddress call.place.1)
          (outputByte (state.data.output call.place.1) call.place.2
            call.command.state)
      else state.bus := by
  rw [writeStep_eq, Except.ok.injEq, Prod.mk.injEq] at hstep
  rw [← hstep.1]

theorem writeRun_ok (state : Outputs) (calls : List WriteCall) :
    ∃ final bytes, writeRun state calls = .ok (final, bytes) := by
  refine Runs.run_succeeds writeStep (fun _ _ => True) (fun _ => True) ?_
    trivial (Runs.StepsMeet.of_forall (fun _ _ _ => trivial) state)
  intro current call _ _
  exact ⟨_, _, writeStep_eq current call, trivial⟩

/-! ## The shadow holds what was commanded last -/

/-- The state most recently commanded for a pin. -/
def latest (calls : List WriteCall) (place : Port × Pin) : Option Bool :=
  (calls.filter fun call => call.place = place).getLast?.map
    fun call => call.command.state

theorem latest_concat (calls : List WriteCall) (call : WriteCall)
    (place : Port × Pin) :
    latest (calls ++ [call]) place =
      if call.place = place then some call.command.state
      else latest calls place := by
  unfold latest
  by_cases hplace : call.place = place <;> simp [hplace, List.filter_append]

/-- The shadow of a pin is on if it was commanded on last. -/
def Shadows (output : Port → Pin → UInt8) (calls : List WriteCall) : Prop :=
  ∀ p k, output p k = if latest calls (p, k) = some true then 1 else 0

theorem shadows_writeRun {bus : Bus} {calls : List WriteCall} {final : Outputs}
    {bytes : List Byte}
    (hrun : writeRun ⟨.zero, bus⟩ calls = .ok (final, bytes)) :
    Shadows final.data.output calls := by
  induction calls using List.reverseRecOn generalizing final bytes with
  | nil =>
      simp only [Runs.run_nil, Except.ok.injEq, Prod.mk.injEq] at hrun
      obtain ⟨rfl, -⟩ := hrun
      exact fun p k => rfl
  | append_singleton calls call ih =>
      obtain ⟨middle, now, later, hfirst, hstep, -⟩ := Runs.run_concat_ok hrun
      intro p k
      rw [output_of_writeStep hstep, setPin_apply, latest_concat,
        WriteCall.level, ih hfirst p k]
      by_cases hplace : call.place = (p, k)
      · simp [hplace]
      · have hother : ¬ (p = call.place.1 ∧ k = call.place.2) :=
          fun hsame => hplace (Prod.ext hsame.1.symm hsame.2.symm)
        rw [if_neg hother, if_neg hplace]

/-! ## A successful write brings its expander up to date -/

/-- The expander of the port drives the pins that are on in the shadow. -/
def Outputs.Agrees (state : Outputs) (port : Port) : Prop :=
  ∀ pin, state.bus.drives port pin ↔ state.data.output port pin ≠ 0

theorem WriteCall.level_ne_zero (call : WriteCall) :
    call.level ≠ 0 ↔ call.command.state = true := by
  cases hstate : call.command.state <;> simp [WriteCall.level, hstate]

theorem agrees_of_transferred {state next : Outputs} {call : WriteCall}
    {now : List Byte} (hstep : writeStep state call = .ok (next, now))
    (htransferred : call.transferred = true) :
    next.Agrees call.place.1 := by
  intro pin
  rw [bus_of_writeStep hstep, if_pos htransferred, Bus.drives_write,
    if_pos rfl, output_of_writeStep hstep, setPin_apply]
  by_cases hpin : pin = call.place.2
  · simp [hpin, call.level_ne_zero]
  · simp [hpin]

/-- A write to the other port changes neither side. -/
theorem Outputs.Agrees.of_ne {state next : Outputs} {call : WriteCall}
    {now : List Byte} {port : Port} (hagrees : state.Agrees port)
    (hstep : writeStep state call = .ok (next, now))
    (hport : port ≠ call.place.1) : next.Agrees port := by
  intro pin
  have hbus : next.bus.drives port pin ↔ state.bus.drives port pin := by
    rw [bus_of_writeStep hstep]
    split
    · exact Bus.drives_update_of_ne _ _ _ hport
    · rfl
  have houtput : next.data.output port pin = state.data.output port pin := by
    rw [output_of_writeStep hstep, setPin_apply,
      if_neg fun hsame => hport hsame.1]
  rw [hbus, houtput]
  exact hagrees pin

/-- The agreement lasts while the writes go to the other port. -/
theorem Outputs.Agrees.run {state final : Outputs} {calls : List WriteCall}
    {bytes : List Byte} {port : Port} (hagrees : state.Agrees port)
    (hrun : writeRun state calls = .ok (final, bytes))
    (hcalls : ∀ call ∈ calls, call.place.1 ≠ port) : final.Agrees port :=
  Runs.run_invariant writeStep (fun _ call => call.place.1 ≠ port)
    (fun current _ => current.Agrees port)
    (fun _ _ _ _ _ hcurrent hport hstep => hcurrent.of_ne hstep hport.symm)
    hagrees (Runs.StepsMeet.of_forall (fun call hcall _ => hcalls call hcall) _)
    hrun

/-- After a successful write, and any writes to the other port, the expander of
its port drives exactly the pins commanded on last. -/
theorem drives_iff_latest (bus : Bus) (before : List WriteCall)
    (call : WriteCall) (after : List WriteCall)
    (htransferred : call.transferred = true)
    (hafter : ∀ other ∈ after, other.place.1 ≠ call.place.1) :
    ∃ final bytes,
      writeRun ⟨.zero, bus⟩ (before ++ call :: after) = .ok (final, bytes) ∧
        ∀ pin : Pin,
          (final.bus (outputAddress call.place.1)).getLsbD pin = false ↔
            latest (before ++ call :: after) (call.place.1, pin) =
              some true := by
  obtain ⟨final, bytes, hrun⟩ :=
    writeRun_ok ⟨.zero, bus⟩ (before ++ call :: after)
  refine ⟨final, bytes, hrun, fun pin => ?_⟩
  obtain ⟨middle, -, later, -, hlater, -⟩ := Runs.run_append_ok hrun
  obtain ⟨next, now, rest, hstep, hrest, -⟩ := Runs.run_cons_ok hlater
  have hagrees : final.Agrees call.place.1 :=
    (agrees_of_transferred hstep htransferred).run hrest hafter
  calc (final.bus (outputAddress call.place.1)).getLsbD pin = false
      ↔ final.data.output call.place.1 pin ≠ 0 := hagrees pin
    _ ↔ latest (before ++ call :: after) (call.place.1, pin) = some true := by
        rw [shadows_writeRun hrun call.place.1 pin]
        simp

/-- Two writes to port 0, of which the first fails, and one to port 1. -/
theorem drives_after_failed_write : ∃ final bytes,
    writeRun ⟨.zero, .powerOn⟩
        ([⟨⟨0, 3, true⟩, false, rfl⟩] ++ ⟨⟨0, 5, true⟩, true, rfl⟩ ::
          [⟨⟨1, 3, true⟩, true, rfl⟩]) = .ok (final, bytes) ∧
      ∀ pin : Pin, (final.bus (outputAddress 0)).getLsbD pin = false ↔
        latest ([⟨⟨0, 3, true⟩, false, rfl⟩] ++ ⟨⟨0, 5, true⟩, true, rfl⟩ ::
          [⟨⟨1, 3, true⟩, true, rfl⟩]) (0, pin) = some true :=
  drives_iff_latest .powerOn [⟨⟨0, 3, true⟩, false, rfl⟩]
    ⟨⟨0, 5, true⟩, true, rfl⟩ [⟨⟨1, 3, true⟩, true, rfl⟩] rfl (by decide)

/-! ## What a failed write does to the shadow -/

/-- Along these calls a failed write leaves the shadow alone, and what
`get_io_data` reports is what the expanders drive. -/
def FailuresHarmless (calls : List WriteCall) : Prop :=
  ∀ before after state bytes, calls = before ++ after →
    writeRun ⟨.zero, .powerOn⟩ before = .ok (state, bytes) →
    (∀ buf port pin, (getIoData state.data buf).output port pin = 1 ↔
        state.bus.drives port pin) ∧
      ∀ call rest next now, after = call :: rest →
        writeStep state call = .ok (next, now) → call.transferred = false →
        next.data.output = state.data.output

/-- The write succeeds or commands what its pin has in the shadow already. -/
def FailsIdly (state : Outputs) (call : WriteCall) : Prop :=
  call.transferred = true ∨
    state.data.output call.place.1 call.place.2 = call.level

theorem output_eq_iff_failsIdly {state next : Outputs} {call : WriteCall}
    {now : List Byte} (hstep : writeStep state call = .ok (next, now)) :
    FailsIdly state call ↔
      (call.transferred = false → next.data.output = state.data.output) := by
  rw [output_of_writeStep hstep, FailsIdly, or_iff_not_imp_left,
    Bool.not_eq_true]
  refine imp_congr_right fun _ => ⟨fun hlevel => ?_, fun houtput => ?_⟩
  · rw [← hlevel, setPin_self]
  · rw [← houtput, setPin_same]

theorem agrees_step {state next : Outputs} {call : WriteCall} {now : List Byte}
    (hagrees : ∀ port, state.Agrees port) (hidle : FailsIdly state call)
    (hstep : writeStep state call = .ok (next, now)) (port : Port) :
    next.Agrees port := by
  by_cases hport : port = call.place.1
  · subst hport
    cases htransferred : call.transferred with
    | true => exact agrees_of_transferred hstep htransferred
    | false =>
        have houtput := (output_eq_iff_failsIdly hstep).mp hidle htransferred
        have hbus : next.bus = state.bus := by
          rw [bus_of_writeStep hstep, htransferred]
          rfl
        intro pin
        rw [hbus, houtput]
        exact hagrees _ pin
  · exact (hagrees port).of_ne hstep hport

theorem agrees_powerOn (port : Port) :
    Outputs.Agrees ⟨.zero, .powerOn⟩ port :=
  fun pin =>
    iff_of_false (Bus.not_drives_powerOn port pin) (by simp [IoData.zero])

/-- The shadow a call comes upon is that of the calls before it. -/
theorem failsIdly_iff_latest {bus : Bus} {before : List WriteCall}
    {state : Outputs} {bytes : List Byte} (call : WriteCall)
    (hrun : writeRun ⟨.zero, bus⟩ before = .ok (state, bytes)) :
    FailsIdly state call ↔ (call.transferred = false →
      (call.command.state = true ↔ latest before call.place = some true)) := by
  rw [FailsIdly, or_iff_not_imp_left, Bool.not_eq_true,
    shadows_writeRun hrun call.place.1 call.place.2, WriteCall.level]
  apply imp_congr_right
  intro _
  by_cases hlatest : latest before call.place = some true <;>
    cases hstate : call.command.state <;> simp [hlatest]

/-- Every call that fails commands what was commanded for its pin last, which is
off in the beginning. -/
def FailuresIdle (calls : List WriteCall) : Prop :=
  ∀ before call after, calls = before ++ call :: after →
    call.transferred = false →
      (call.command.state = true ↔ latest before call.place = some true)

theorem failuresIdle_iff_meets {calls : List WriteCall} :
    FailuresIdle calls ↔
      Runs.StepsMeet writeStep FailsIdly ⟨.zero, .powerOn⟩ calls := by
  constructor
  · intro hidle
    refine Runs.StepsMeet.of_arrivals fun before call after state past hsplit
      hrun => ?_
    exact (failsIdly_iff_latest call hrun).mpr (hidle before call after hsplit)
  · rintro hmeets before call after rfl
    obtain ⟨state, bytes, hrun⟩ := writeRun_ok ⟨.zero, .powerOn⟩ before
    exact (failsIdly_iff_latest call hrun).mp (hmeets.append_right hrun).1

/-- Failed writes are harmless exactly when each of them commands the state that
was commanded for its pin last. -/
theorem failuresHarmless_iff (calls : List WriteCall) :
    FailuresHarmless calls ↔ FailuresIdle calls := by
  rw [failuresIdle_iff_meets]
  constructor
  · intro hharmless
    refine Runs.StepsMeet.of_arrivals fun before call after state past hsplit
      hrun => ?_
    obtain ⟨-, houtput⟩ :=
      hharmless before (call :: after) state past hsplit hrun
    have hstep := writeStep_eq state call
    exact (output_eq_iff_failsIdly hstep).mpr
      (houtput call after _ _ rfl hstep)
  · rintro hidle before after state bytes rfl hrun
    have hagrees : ∀ port, state.Agrees port :=
      Runs.run_invariant writeStep FailsIdly
        (fun current _ => ∀ port, current.Agrees port)
        (fun _ _ _ _ _ hcurrent hguard hstep =>
          agrees_step hcurrent hguard hstep)
        agrees_powerOn hidle.append_left hrun
    refine ⟨fun buf port pin => ?_, fun call rest next now hafter hstep => ?_⟩
    · rw [getIoData_eq, hagrees port pin, shadows_writeRun hrun port pin]
      simp
    · have hmeets := hidle.append_right hrun
      rw [hafter] at hmeets
      exact (output_eq_iff_failsIdly hstep).mp hmeets.1

/-- A motor is switched on and the write fails. -/
theorem failed_write_harmful :
    ¬ FailuresHarmless [⟨⟨0, 0, true⟩, false, rfl⟩] := by
  intro hharmless
  obtain ⟨-, houtput⟩ := hharmless [] _ _ _ rfl rfl
  have hsame := congrFun (congrFun (houtput _ _ _ _ rfl rfl rfl) 0) 0
  revert hsame
  decide

end Conveyor.IoDriver
