import Conveyor.Rtos
import Mathlib.Logic.Function.Basic
import Mathlib.Data.Fin.VecNotation
import Mathlib.Data.List.FinRange

/-!
# The expander driver

`io_driver.c` keeps a shadow of two input and two output expanders of eight
pins each.  An output is switched on by a zero bit of its expander; an input
reads as 1 while its line is low.  Port and pin numbers arrive as unvalidated
`uint8_t` values, so indexing goes through `pinIndex`.
-/

namespace Conveyor.IoDriver

open Conveyor.Rtos

abbrev Port := Fin 2
abbrev Pin := Fin 8
abbrev Byte := BitVec 8

/-- `driver_state_t`. -/
inductive DriverState
  | bootUp
  | init
  | ready
  deriving DecidableEq, Repr

/-- `io_data_t`. -/
structure IoData where
  input : Port → Pin → UInt8
  output : Port → Pin → UInt8

/-- The zero-initialised static `io_data`. -/
def IoData.zero : IoData := ⟨fun _ _ => 0, fun _ _ => 0⟩

/-- `output_command_t`. -/
structure OutputCommand where
  port : UInt8
  pin : UInt8
  state : Bool
  deriving DecidableEq, Repr

/-- `port_adress.output`: the bus addresses of the output expanders. -/
def outputAddress : Port → BitVec 7 := ![0b0100011, 0b0100111]

theorem outputAddress_injective : Function.Injective outputAddress := by
  intro left right
  revert left right
  decide

/-- The byte each device on the bus accepted last. -/
abbrev Bus := BitVec 7 → Byte

/-- Expanders power up with every line high, that is, every output off. -/
def Bus.powerOn : Bus := fun _ => 0xff#8

/-- The outcome of a call into the system, with the byte a read transfer
delivers. -/
inductive CallResult
  | ok (value : Byte)
  | error
  deriving DecidableEq, Repr

def CallResult.succeeded : CallResult → Bool
  | .ok _ => true
  | .error => false

/-! ## Indexing -/

/-- The array position a port and pin number select, if there is one. -/
def pinIndex (port pin : UInt8) : Option (Port × Pin) :=
  if hrange : port.toNat < 2 ∧ pin.toNat < 8 then
    some (⟨port.toNat, hrange.1⟩, ⟨pin.toNat, hrange.2⟩)
  else none

theorem pinIndex_isSome_iff {port pin : UInt8} :
    (pinIndex port pin).isSome ↔ port.toNat < 2 ∧ pin.toNat < 8 := by
  unfold pinIndex
  split <;> simp_all

/-- `io_read_pin_value`. -/
def ioReadPinValue (data : IoData) (port pin : UInt8) : Except Fault UInt8 :=
  match pinIndex port pin with
  | none => .error .outOfBounds
  | some (p, k) => .ok (data.input p k)

/-- Store one entry of a port table. -/
def setPin (table : Port → Pin → UInt8) (port : Port) (pin : Pin)
    (value : UInt8) : Port → Pin → UInt8 :=
  fun p k => if p = port ∧ k = pin then value else table p k

@[simp]
theorem setPin_same (table : Port → Pin → UInt8) (port : Port) (pin : Pin)
    (value : UInt8) : setPin table port pin value port pin = value := by
  simp [setPin]

theorem setPin_apply (table : Port → Pin → UInt8) (port p : Port) (pin k : Pin)
    (value : UInt8) :
    setPin table port pin value p k =
      if p = port ∧ k = pin then value else table p k := rfl

theorem setPin_self (table : Port → Pin → UInt8) (port : Port) (pin : Pin) :
    setPin table port pin (table port pin) = table := by
  funext p k
  by_cases hsame : p = port ∧ k = pin
  · simp [setPin, hsame.1, hsame.2]
  · simp [setPin, hsame]

/-! ## Reading the shadow -/

/-- The loops of `get_io_data` over the pins of one direction. -/
def copyPins (source target : Port → Pin → UInt8) : Port → Pin → UInt8 :=
  (List.finRange 2).foldl
    (fun table port =>
      (List.finRange 8).foldl
        (fun table pin => setPin table port pin (source port pin)) table)
    target

/-- `get_io_data`: `buf` afterwards. -/
def getIoData (data buf : IoData) : IoData where
  input := copyPins data.input buf.input
  output := copyPins data.output buf.output

private theorem foldl_setPin (source target : Port → Pin → UInt8)
    (port : Port) (pins : List Pin) (p : Port) (k : Pin) :
    pins.foldl (fun table pin => setPin table port pin (source port pin))
        target p k =
      if p = port ∧ k ∈ pins then source p k else target p k := by
  induction pins generalizing target with
  | nil => simp
  | cons pin pins ih =>
      rw [List.foldl_cons, ih, setPin_apply]
      by_cases hport : p = port
      · subst hport
        by_cases hpin : k = pin <;> simp [hpin]
      · simp [hport]

theorem copyPins_eq (source target : Port → Pin → UInt8) :
    copyPins source target = source := by
  have hports : ∀ (ports : List Port) (table : Port → Pin → UInt8) p k,
      ports.foldl (fun table port =>
        (List.finRange 8).foldl
          (fun table pin => setPin table port pin (source port pin)) table)
        table p k = if p ∈ ports then source p k else table p k := by
    intro ports
    induction ports with
    | nil => simp
    | cons port ports ih =>
        intro table p k
        rw [List.foldl_cons, ih, foldl_setPin]
        by_cases hport : p = port <;> simp [hport]
  funext p k
  rw [copyPins, hports, if_pos (List.mem_finRange p)]

/-- `get_io_data` copies everything. -/
@[simp]
theorem getIoData_eq (data buf : IoData) : getIoData data buf = data := by
  simp only [getIoData, copyPins_eq]

/-! ## Writing an output -/

/-- The loop over the shadow: every output that is on clears its bit. -/
def shadowByte (output : Pin → UInt8) : Byte :=
  (List.finRange 8).foldl
    (fun data pin =>
      if output pin ≠ 0 then data &&& ~~~(1#8 <<< pin.val) else data)
    0xff#8

/-- The byte `pcf8574_write_output` sends for one pin of a port. -/
def outputByte (output : Pin → UInt8) (pin : Pin) (state : Bool) : Byte :=
  (shadowByte output &&& ~~~(1#8 <<< pin.val)) |||
    ((BitVec.ofBool (!state)).setWidth 8 <<< pin.val)

private theorem getLsbD_one_shiftLeft (pin k : Pin) :
    (1#8 <<< pin.val).getLsbD k.val = decide (k = pin) := by
  revert pin k
  decide

private theorem getLsbD_clear (data : Byte) (pin k : Pin) :
    (data &&& ~~~(1#8 <<< pin.val)).getLsbD k.val =
      (data.getLsbD k.val && decide (k ≠ pin)) := by
  rw [BitVec.getLsbD_and, BitVec.getLsbD_not, getLsbD_one_shiftLeft]
  simp

private theorem getLsbD_state_shiftLeft (state : Bool) (pin k : Pin) :
    ((BitVec.ofBool (!state)).setWidth 8 <<< pin.val).getLsbD k.val =
      (!state && decide (k = pin)) := by
  revert state pin k
  decide

private theorem getLsbD_foldl_clear (output : Pin → UInt8) (pins : List Pin)
    (start : Byte) (k : Pin) :
    (pins.foldl
      (fun data pin =>
        if output pin ≠ 0 then data &&& ~~~(1#8 <<< pin.val) else data)
      start).getLsbD k.val =
      (start.getLsbD k.val && decide (k ∈ pins → output k = 0)) := by
  induction pins generalizing start with
  | nil => simp
  | cons pin pins ih =>
      rw [List.foldl_cons, ih]
      by_cases hon : output pin = 0
      · by_cases hpin : k = pin
        · subst hpin
          simp [hon]
        · simp [hon, hpin]
      · rw [if_pos hon, getLsbD_clear]
        by_cases hpin : k = pin
        · subst hpin
          simp [hon]
        · simp [hpin]

theorem getLsbD_shadowByte (output : Pin → UInt8) (k : Pin) :
    (shadowByte output).getLsbD k.val = decide (output k = 0) := by
  have hall : (0xff#8).getLsbD k.val = true := by
    revert k
    decide
  rw [shadowByte, getLsbD_foldl_clear, hall]
  simp

/-- The commanded pin carries the commanded state and every other pin the
state of the shadow; a zero bit is on. -/
theorem getLsbD_outputByte (output : Pin → UInt8) (pin k : Pin) (state : Bool) :
    (outputByte output pin state).getLsbD k.val =
      if k = pin then !state else decide (output k = 0) := by
  rw [outputByte, BitVec.getLsbD_or, getLsbD_clear, getLsbD_state_shiftLeft,
    getLsbD_shadowByte]
  by_cases hpin : k = pin <;> simp [hpin]

/-- `pcf8574_write_output`: the byte is accepted by the expander only if the
transfer succeeds, but the shadow is updated either way. -/
def pcf8574WriteOutput (data : IoData) (bus : Bus) (command : OutputCommand)
    (transferred : Bool) : Except Fault (IoData × Bus × Byte) :=
  match pinIndex command.port command.pin with
  | none => .error .outOfBounds
  | some (port, pin) =>
      let byte := outputByte (data.output port) pin command.state
      let accepted :=
        if transferred then Function.update bus (outputAddress port) byte
        else bus
      let shadow :=
        setPin data.output port pin (if command.state then 1 else 0)
      .ok ({ data with output := shadow }, accepted, byte)

theorem pcf8574WriteOutput_ok {data shadowed : IoData} {bus accepted : Bus}
    {command : OutputCommand} {transferred : Bool} {byte : Byte}
    (hwrite : pcf8574WriteOutput data bus command transferred =
      .ok (shadowed, accepted, byte)) :
    ∃ port pin, pinIndex command.port command.pin = some (port, pin) ∧
      shadowed = { data with
        output := setPin data.output port pin
          (if command.state then 1 else 0) } ∧
      accepted = (if transferred then
        Function.update bus (outputAddress port) byte else bus) ∧
      byte = outputByte (data.output port) pin command.state := by
  unfold pcf8574WriteOutput at hwrite
  cases hindex : pinIndex command.port command.pin with
  | none => simp [hindex] at hwrite
  | some place =>
      obtain ⟨port, pin⟩ := place
      simp only [hindex, Except.ok.injEq, Prod.mk.injEq] at hwrite
      obtain ⟨rfl, rfl, rfl⟩ := hwrite
      exact ⟨port, pin, rfl, rfl, rfl, rfl⟩

theorem pcf8574WriteOutput_of_index (data : IoData) (bus : Bus)
    (command : OutputCommand) (transferred : Bool) {port : Port} {pin : Pin}
    (hindex : pinIndex command.port command.pin = some (port, pin)) :
    pcf8574WriteOutput data bus command transferred =
      .ok ({ data with
          output := setPin data.output port pin
            (if command.state then 1 else 0) },
        if transferred then Function.update bus (outputAddress port)
          (outputByte (data.output port) pin command.state) else bus,
        outputByte (data.output port) pin command.state) := by
  simp [pcf8574WriteOutput, hindex]

/-- The expander of the port drives the pin on. -/
def Bus.drives (bus : Bus) (port : Port) (pin : Pin) : Prop :=
  (bus (outputAddress port)).getLsbD pin.val = false

instance (bus : Bus) (port : Port) (pin : Pin) :
    Decidable (bus.drives port pin) :=
  inferInstanceAs (Decidable (_ = _))

theorem Bus.not_drives_powerOn (port : Port) (pin : Pin) :
    ¬ Bus.powerOn.drives port pin := by
  unfold Bus.drives Bus.powerOn
  revert pin
  decide

theorem Bus.drives_update_same (bus : Bus) (port : Port) (byte : Byte)
    (pin : Pin) :
    Bus.drives (Function.update bus (outputAddress port) byte) port pin ↔
      byte.getLsbD pin.val = false := by
  simp [Bus.drives]

theorem Bus.drives_update_of_ne (bus : Bus) {port other : Port} (byte : Byte)
    (pin : Pin) (hne : other ≠ port) :
    Bus.drives (Function.update bus (outputAddress port) byte) other pin ↔
      bus.drives other pin := by
  have haddress : outputAddress other ≠ outputAddress port :=
    fun heq => hne (outputAddress_injective heq)
  simp [Bus.drives, Function.update_of_ne haddress]

/-- After a successful write the addressed pin carries the commanded state and
the other pins of that expander the state of the shadow. -/
theorem Bus.drives_write (bus : Bus) (data : IoData) (port p : Port)
    (pin k : Pin) (state : Bool) :
    Bus.drives (Function.update bus (outputAddress port)
        (outputByte (data.output port) pin state)) p k ↔
      if p = port then
        if k = pin then state = true else data.output p k ≠ 0
      else bus.drives p k := by
  by_cases hport : p = port
  · subst hport
    rw [Bus.drives_update_same, getLsbD_outputByte]
    by_cases hpin : k = pin <;> simp [hpin]
  · rw [Bus.drives_update_of_ne bus _ k hport]
    simp [hport]

/-! ## Reading an input port -/

/-- The value `pcf8574_read_port` goes on with: a failed transfer leaves
`read_value` as it was initialised. -/
def readValue : CallResult → Byte
  | .ok value => value
  | .error => 0xff#8

/-- `(read_value & (1 << pin)) == 0`. -/
def pinLevel (value : Byte) (pin : Pin) : UInt8 :=
  if value &&& (1#8 <<< pin.val) = 0#8 then 1 else 0

private theorem and_shiftLeft_eq_zero_iff (value : Byte) (pin : Pin) :
    value &&& (1#8 <<< pin.val) = 0#8 ↔ value.getLsbD pin.val = false := by
  constructor
  · intro hzero
    have hbit := congrArg (fun byte : Byte => byte.getLsbD pin.val) hzero
    simpa only [BitVec.getLsbD_and, getLsbD_one_shiftLeft, decide_true,
      Bool.and_true, BitVec.getLsbD_zero] using hbit
  · intro hclear
    apply BitVec.eq_of_getLsbD_eq
    intro bit hbit
    have hone := getLsbD_one_shiftLeft pin ⟨bit, hbit⟩
    rw [BitVec.getLsbD_and, hone, BitVec.getLsbD_zero]
    by_cases hsame : (⟨bit, hbit⟩ : Pin) = pin
    · subst hsame
      rw [hclear, Bool.false_and]
    · simp [hsame]

/-- A zero bit reads as level 1. -/
theorem pinLevel_eq (value : Byte) (pin : Pin) :
    pinLevel value pin = if value.getLsbD pin.val then 0 else 1 := by
  unfold pinLevel
  by_cases hclear : value.getLsbD pin.val = false
  · rw [if_pos ((and_shiftLeft_eq_zero_iff value pin).mpr hclear), hclear]
    rfl
  · rw [if_neg fun hzero =>
        hclear ((and_shiftLeft_eq_zero_iff value pin).mp hzero),
      if_pos (Bool.eq_true_of_not_eq_false hclear)]

theorem pinLevel_zero_or_one (value : Byte) (pin : Pin) :
    pinLevel value pin = 0 ∨ pinLevel value pin = 1 := by
  unfold pinLevel
  split <;> simp

/-- A failed read looks like a port whose lines are all inactive. -/
theorem pinLevel_readValue_error (pin : Pin) :
    pinLevel (readValue .error) pin = 0 := by
  revert pin
  decide

end Conveyor.IoDriver
