import Conveyor.IoDriver
import Mathlib.Algebra.Group.Nat.Defs

/-!
# The encoder

`encoder_read_pulse_count` is to count the clockwise falling edges of channel A
from one call to the next.  It compares the sample of A with the remembered
sample of B, which is never updated, and so counts nothing.
-/

namespace Conveyor.Encoder

open Conveyor.IoDriver

/-- `encoder_dir_t`. -/
inductive EncoderDir
  | clockwiseDir
  | counterClockwise
  deriving DecidableEq, Repr

/-- `encoder_t`. -/
structure EncoderData where
  direction : EncoderDir
  pulseCount : UInt32
  position : UInt32
  deriving DecidableEq, Repr

def EncoderData.zero : EncoderData := ⟨.clockwiseDir, 0, 0⟩

def encoderAPort : Port := ⟨0, by decide⟩
def encoderAPin : Pin := ⟨1, by decide⟩
def encoderBPort : Port := ⟨0, by decide⟩
def encoderBPin : Pin := ⟨2, by decide⟩

/-- The level of channel A in a sample. -/
def channelA (sample : IoData) : UInt8 := sample.input encoderAPort encoderAPin

/-- The level of channel B in a sample. -/
def channelB (sample : IoData) : UInt8 := sample.input encoderBPort encoderBPin

/-- `g_encoder` and the static `io_old_value` of `encoder_read_pulse_count`. -/
structure State where
  encoder : EncoderData
  ioOldValue : IoData

def State.powerOn : State := ⟨.zero, .zero⟩

/-- `encoder_init`. -/
def encoderInit (state : State) : State := { state with encoder := .zero }

/-- `encoder_read_pulse_count`, called while `io_data` holds `ioData`. -/
def encoderReadPulseCount (state : State) (ioData : IoData) : State :=
  let ioCurrentValue := getIoData ioData .zero
  -- A is compared with the old value of B.
  if channelA ioCurrentValue ≠ channelB state.ioOldValue then
    if channelA ioCurrentValue = 0 ∧ channelB ioCurrentValue = 1 then
      { encoder := { state.encoder with
          pulseCount := state.encoder.pulseCount + 1 }
        ioOldValue := { state.ioOldValue with
          input := setPin state.ioOldValue.input encoderAPort encoderAPin
            (channelA ioCurrentValue) } }
    else state
  else state

/-- The calls at which A has fallen since the previous one while B is high. -/
def fallingEdges : IoData → List IoData → ℕ
  | _, [] => 0
  | previous, sample :: samples =>
      (if channelA previous = 1 ∧ channelA sample = 0 ∧ channelB sample = 1
        then 1 else 0) + fallingEdges sample samples

/-- The calls of `encoder_read_pulse_count` after `encoder_init`. -/
def readSamples (samples : List IoData) : State :=
  samples.foldl encoderReadPulseCount (encoderInit .powerOn)

/-- As long as the remembered B is low, a call changes nothing: A would have to
be high to differ from it and low to be counted. -/
theorem encoderReadPulseCount_eq_self {state : State}
    (hold : channelB state.ioOldValue = 0) (ioData : IoData) :
    encoderReadPulseCount state ioData = state := by
  unfold encoderReadPulseCount
  simp only [hold]
  split
  case isTrue hdiffers => rw [if_neg fun hfell => hdiffers hfell.1]
  case isFalse => rfl

theorem readSamples_eq (samples : List IoData) :
    readSamples samples = State.powerOn := by
  unfold readSamples
  induction samples with
  | nil => rfl
  | cons sample samples ih =>
      rw [List.foldl_cons, encoderReadPulseCount_eq_self rfl, ih]

/-- The count is right, modulo the width of the counter, exactly when there is
nothing to count. -/
theorem pulseCount_eq_iff (samples : List IoData) :
    (readSamples samples).encoder.pulseCount.toNat =
        fallingEdges .zero samples % 2 ^ 32 ↔
      2 ^ 32 ∣ fallingEdges .zero samples := by
  rw [readSamples_eq, Nat.dvd_iff_mod_eq_zero]
  exact eq_comm

/-- A sample with the two channels at these levels and everything else low. -/
def sampleOf (a b : UInt8) : IoData where
  input := setPin (setPin IoData.zero.input encoderAPort encoderAPin a)
    encoderBPort encoderBPin b
  output := IoData.zero.output

/-- A falls once while B is high. -/
theorem pulse_missed :
    (readSamples [sampleOf 1 1, sampleOf 0 1]).encoder.pulseCount.toNat ≠
      fallingEdges .zero [sampleOf 1 1, sampleOf 0 1] % 2 ^ 32 := by
  decide

end Conveyor.Encoder
