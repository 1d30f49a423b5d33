import Conveyor.Firmware.Delivery

/-!
# Array indices that come from the network

The gate number and the position of a message are narrowed to bytes on their
way to the arrays, and nothing checks them.  So the accesses stay in range
exactly when every message asks for a gate and a side that exist, and one
message that does not is enough for an access out of range.
-/

namespace Conveyor.Firmware

open Conveyor.Core Conveyor.Rtos Conveyor.IoDriver Conveyor.ProcessData
open Conveyor.Json (cJSONParse memberValueint)
open Conveyor.Gate (GateCommand)
open Conveyor.Tcp (Chunk TcpMsg)

/-- If the message is handled, its gate number and position select a pin after
narrowing to a byte. -/
def IndexesInRange (data : Text) : Prop :=
  ∀ root command gateNo position, cJSONParse data = some root →
    memberValueint root "command" = some command → 0 ≤ command → command ≤ 3 →
    memberValueint root "gateNo" = some gateNo →
    memberValueint root "gatePo" = some position →
      gateNo % 256 < 8 ∧ position % 256 < 2

/-- The narrowing of `valueint` to the fields and of the fields to indices. -/
theorem index_isSome_iff (gateNo command position : ℤ) :
    (GateCommand.index ⟨.ofInt gateNo, .ofInt command, .ofInt position⟩).isSome ↔
      gateNo % 256 < 8 ∧ position % 256 < 2 := by
  have hgateNo := toNat_uint8_ofInt gateNo
  have hposition := toNat_uint32_ofInt position
  have hlt : (UInt8.ofInt gateNo).toNat < 8 ↔ gateNo % 256 < 8 := by omega
  rw [GateCommand.index, pinIndex_isSome_iff, UInt32.toNat_toUInt8, hlt,
    and_comm, and_congr_right_iff]
  intro _
  dsimp only
  omega

theorem indexesInRange_iff (data : Text) :
    IndexesInRange data ↔
      ∀ command, messageCommand data = some command → command.index.isSome := by
  constructor
  · intro hrange sent hsent
    obtain ⟨root, command, gateNo, position, hparse, hcommand, ⟨hlow, hhigh⟩,
      hgateNo, hposition, rfl⟩ := messageCommand_eq_some_iff.mp hsent
    exact (index_isSome_iff gateNo command position).mpr
      (hrange root command gateNo position hparse hcommand hlow hhigh hgateNo
        hposition)
  · intro hindex root command gateNo position hparse hcommand hlow hhigh
      hgateNo hposition
    refine (index_isSome_iff gateNo command position).mp (hindex _ ?_)
    exact messageCommand_eq_some_iff.mpr ⟨root, command, gateNo, position,
      hparse, hcommand, ⟨hlow, hhigh⟩, hgateNo, hposition, rfl⟩

/-! ## Messages in range keep every access in range -/

/-- A system that carries only commands in range accesses no array out of
range. -/
theorem Carries.ne_outOfBounds {allowed : Chunk → Prop} {state : State}
    {action : Action} (hcarries : Carries allowed state)
    (hrange : ∀ chunk, allowed chunk → IndexesInRange chunk.bytes) :
    Firmware.step state action ≠ .error .outOfBounds := by
  have hasked : ∀ command, Asked allowed command → command.index.isSome := by
    rintro command ⟨chunk, hallowed, hcommand⟩
    exact (indexesInRange_iff _).mp (hrange chunk hallowed) command hcommand
  intro hstep
  cases breaks_of_step hstep with
  | gate action main call fault hcall hbreaks =>
      cases hbreaks with
      | sample command hcontroller hindex =>
          have hsome := hasked command (hcarries.gate.held command
            (by rw [hcontroller]; rfl))
          simp [hindex] at hsome
      | poll command hwaiting hindex =>
          have hsome := hasked command
            (hcarries.gate.held command (Gate.held_of_waitingFor hwaiting))
          simp [hindex] at hsome
      | write result output hscan hindex =>
          obtain ⟨command, hcommand, rfl⟩ := hcarries.gate.inHand output hscan
          have hsome := hasked command hcommand
          rw [Gate.GateCommand.index_output] at hindex
          simp [hindex] at hsome
  | tcp action main call fault hcall hbreaks => cases hbreaks
  | process created msg queue fault hmain hreceive hprocess =>
      simpa using processMessage_error hprocess

/-! ## One message out of range is enough -/

/-- A chunk that asks for a pin that does not exist makes the controller read
outside the array. -/
theorem run_out_of_bounds {chunk : Chunk} {command : GateCommand}
    (hcommand : messageCommand chunk.bytes = some command)
    (hindex : command.index = none) :
    run State.powerOn
        (connect ++ (receive chunk ++ (forward ++ [.gateController]))) =
      .error .outOfBounds := by
  refine Runs.run_append_error run_connect ?_
  refine Runs.run_append_error (run_receive chunk) ?_
  refine Runs.run_append_error (run_forward hcommand) ?_
  simp [Runs.run, step, gateStep, forwarded, Gate.step, Gate.controllerStep,
    Gate.ioReadPinValue_index, hindex]

/-- The arrays are accessed in range by every run on messages of a set exactly
when all messages of the set are in range. -/
theorem indices_in_range_iff (texts : Chunk → Prop) :
    (∀ actions, (∀ chunk ∈ chunksOf actions, texts chunk) →
        run State.powerOn actions ≠ .error .outOfBounds) ↔
      ∀ chunk, texts chunk → IndexesInRange chunk.bytes := by
  constructor
  · intro hsafe chunk htext
    refine (indexesInRange_iff _).mpr fun command hcommand => ?_
    by_contra hindex
    rw [Option.not_isSome_iff_eq_none] at hindex
    refine hsafe _ ?_ (run_out_of_bounds hcommand hindex)
    intro other hother
    obtain rfl : chunk = other := by
      simpa [chunksOf, connect, receive, forward, Action.chunk] using hother
    exact htext
  · intro hrange actions hchunks
    exact Runs.run_ne_error step _ (Carries texts) .outOfBounds
      (fun _ _ _ _ hcarries hchunk hstep => hcarries.step hchunk hstep)
      (fun _ _ hcarries _ => hcarries.ne_outOfBounds hrange)
      (carries_powerOn texts) (stepsMeet_of_chunks hchunks _)

/-- A message for gate 8 of a board that has gates 0 to 7. -/
def gateEight : Chunk where
  bytes := text "\x7b\"command\":1,\"gateNo\":8,\"gatePo\":0\x7d"
  length_pos := by decide
  length_lt := by decide

theorem messageCommand_gateEight :
    messageCommand gateEight.bytes =
      some ⟨8, Gate.gateTriggerCommand, Gate.rightGate⟩ := by
  decide +kernel

/-- It makes the controller read outside `io_data.input`. -/
theorem gateEight_out_of_bounds :
    ∃ actions, (∀ chunk ∈ chunksOf actions, chunk = gateEight) ∧
      run State.powerOn actions = .error .outOfBounds := by
  refine ⟨_, ?_, run_out_of_bounds messageCommand_gateEight (by decide)⟩
  simp [chunksOf, connect, receive, forward, Action.chunk]

end Conveyor.Firmware
