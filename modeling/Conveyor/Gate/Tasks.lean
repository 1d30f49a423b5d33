import Conveyor.Core.Runs
import Conveyor.IoDriver

/-!
# The gate controller and the scan loop

`gate_controller_task` and `io_scan_task` share the output queue and the input
shadow.  Both run on a preemptive scheduler, so every access of one task that
the other can observe is a step of its own: each pin stored by a read, each
poll of a sensor, the sample before a command, the enqueue and the dequeue.
The remaining actions are what `app_main` does to the two tasks.
-/

namespace Conveyor.Gate

open Conveyor.Core Conveyor.Rtos Conveyor.IoDriver

/-! ## Commands -/

/-- `gate_command_t`.  The two enumerations are unsigned words in C, so they
hold whatever was stored in them. -/
structure GateCommand where
  gateNo : UInt8
  commandName : UInt32
  position : UInt32
  deriving DecidableEq, Repr

def gateStopCommand : UInt32 := 0
def gateTriggerCommand : UInt32 := 1
def gateCloseCommand : UInt32 := 2
def gateOpenCommand : UInt32 := 3

def rightGate : UInt32 := 0
def leftGate : UInt32 := 1

/-- The sensor the controller watches for a command; `position` is narrowed to
the `uint8_t` parameter of `io_read_pin_value`. -/
def GateCommand.index (command : GateCommand) : Option (Port × Pin) :=
  pinIndex command.position.toUInt8 command.gateNo

/-- The output command the controller derives from a gate command. -/
def GateCommand.output (command : GateCommand) : OutputCommand where
  port := command.position.toUInt8
  pin := command.gateNo
  state := command.commandName != 0

/-- A position and gate number the two ports of eight pins have. -/
def GateCommand.InRange (command : GateCommand) : Prop :=
  command.position < 2 ∧ command.gateNo < 8

instance (command : GateCommand) : Decidable command.InRange :=
  inferInstanceAs (Decidable (_ ∧ _))

theorem GateCommand.index_isSome {command : GateCommand}
    (hrange : command.InRange) : command.index.isSome := by
  obtain ⟨hposition, hgate⟩ := hrange
  have hgateNat : command.gateNo.toNat < 8 := hgate
  have hpositionNat : command.position.toNat < 2 := hposition
  refine pinIndex_isSome_iff.mpr ⟨?_, hgateNat⟩
  rw [UInt32.toNat_toUInt8]
  omega

/-! ## Control points -/

/-- Where `gate_controller_task` stands. -/
inductive Controller
  | notCreated
  /-- At the top of its loop. -/
  | top
  /-- About to take the pre-command sample. -/
  | sampling (command : GateCommand)
  /-- About to call `command_enqueue`. -/
  | enqueueing (command : GateCommand) (old : UInt8)
  | firstWait (command : GateCommand) (old : UInt8)
  | secondWait (command : GateCommand) (old : UInt8)
  deriving DecidableEq, Repr

/-- `pcf8574_read_port` is called from `reset_port` and from the scan loop. -/
inductive ReadPhase
  | reset
  | scan
  deriving DecidableEq, Repr

/-- Where `io_scan_task` stands. -/
inductive Scan
  | notCreated
  /-- About to call `i2c_param_config`. -/
  | configParam
  /-- About to call `i2c_driver_install`. -/
  | installDriver
  | resetWrite (port : Port) (pin : Pin)
  /-- About to start a read transfer. -/
  | transfer (phase : ReadPhase) (port : Port)
  /-- About to store one pin of a finished transfer. -/
  | store (phase : ReadPhase) (port : Port) (pin : Pin) (value : Byte)
      (good : Bool)
  /-- About to call `queue_init`. -/
  | queueInit
  /-- At the top of its loop. -/
  | top
  /-- About to write a command it has dequeued. -/
  | writing (command : OutputCommand)
  deriving DecidableEq, Repr

/-- The pin a read stores after `pin`. -/
def nextPin (pin : Pin) : Option Pin :=
  if hlast : pin.val + 1 < 8 then some ⟨pin.val + 1, hlast⟩ else none

/-- Where the task goes on once all pins of a port are stored. -/
def afterPort : ReadPhase → Port → Scan
  | .reset, 0 => .resetWrite 1 0
  | .reset, 1 => .queueInit
  | .scan, 0 => .transfer .scan 1
  | .scan, 1 => .top

def afterStore (phase : ReadPhase) (port : Port) (pin : Pin) (value : Byte)
    (good : Bool) : Scan :=
  match nextPin pin with
  | some next => .store phase port next value good
  | none => afterPort phase port

def afterReset (port : Port) (pin : Pin) : Scan :=
  match nextPin pin with
  | some next => .resetWrite port next
  | none => .transfer .reset port

/-- The command `reset_port` writes for a pin. -/
def resetCommand (port : Port) (pin : Pin) : OutputCommand where
  port := .ofNat port.val
  pin := .ofNat pin.val
  state := false

theorem pinIndex_resetCommand (port : Port) (pin : Pin) :
    pinIndex (resetCommand port pin).port (resetCommand port pin).pin =
      some (port, pin) := by
  revert port pin
  decide

/-! ## The system -/

structure State where
  ioState : DriverState
  i2cInstalled : Bool
  data : IoData
  bus : Bus
  ioQueue : QueueHandle OutputCommand
  gateQueue : QueueHandle GateCommand
  controller : Controller
  scan : Scan

/-- Before `app_main` has started anything. -/
def State.powerOn : State where
  ioState := .bootUp
  i2cInstalled := false
  data := .zero
  bus := .powerOn
  ioQueue := none
  gateQueue := none
  controller := .notCreated
  scan := .notCreated

inductive Event
  /-- `send_gate_command` was called. -/
  | offered (command : GateCommand) (accepted : Bool)
  /-- The controller received a command. -/
  | took (command : GateCommand)
  | sampled (command : GateCommand) (level : UInt8)
  /-- `command_enqueue` was called for the command. -/
  | enqueued (command : GateCommand) (accepted : Bool)
  | polled (command : GateCommand) (level : UInt8)
  /-- The controller left its second wait loop. -/
  | finished (command : GateCommand)
  /-- The scan loop received an output command. -/
  | dequeued (command : OutputCommand)
  /-- `pcf8574_write_output` was executed and sent this byte. -/
  | wrote (command : OutputCommand) (byte : Byte) (good : Bool)
  /-- A read stored one pin; `good` tells whether its transfer succeeded. -/
  | stored (port : Port) (pin : Pin) (level : UInt8) (good : Bool)
  deriving DecidableEq, Repr

inductive Action
  | ioScanTaskStart
  | gateDrvQueueInit (created : Bool)
  | gateControllerTaskStart
  | sendGateCommand (command : GateCommand)
  | controller
  | ioScan (result : CallResult)
  deriving DecidableEq, Repr

/-- `send_gate_command`. -/
def sendGateCommand (state : State) (command : GateCommand) :
    Except Fault (State × List Event) :=
  match xQueueSend state.gateQueue command with
  | .error fault => .error fault
  | .ok (queue, accepted) =>
      .ok ({ state with gateQueue := queue }, [.offered command accepted])

/-- One step of `gate_controller_task`. -/
def controllerStep (state : State) : Except Fault (State × List Event) :=
  match state.controller with
  | .notCreated => .ok (state, [])
  | .top =>
      match xQueueReceive state.gateQueue with
      | .error fault => .error fault
      | .ok (none, _) => .ok (state, [])
      | .ok (some command, queue) =>
          .ok ({ state with
            gateQueue := queue
            controller := .sampling command }, [.took command])
  | .sampling command =>
      match ioReadPinValue state.data command.position.toUInt8
          command.gateNo with
      | .error fault => .error fault
      | .ok old =>
          .ok ({ state with controller := .enqueueing command old },
            [.sampled command old])
  | .enqueueing command old =>
      match xQueueSend state.ioQueue command.output with
      | .error fault => .error fault
      | .ok (queue, accepted) =>
          .ok ({ state with
            ioQueue := queue
            controller := .firstWait command old },
            [.enqueued command accepted])
  | .firstWait command old =>
      match ioReadPinValue state.data command.position.toUInt8
          command.gateNo with
      | .error fault => .error fault
      | .ok current =>
          if old ≠ current then
            .ok ({ state with controller := .secondWait command current },
              [.polled command current])
          else .ok (state, [.polled command current])
  | .secondWait command old =>
      match ioReadPinValue state.data command.position.toUInt8
          command.gateNo with
      | .error fault => .error fault
      | .ok current =>
          if old ≠ current then
            .ok ({ state with controller := .top },
              [.polled command current, .finished command])
          else .ok (state, [.polled command current])

/-- Execute `pcf8574_write_output` and go on at `next`. -/
def writeOutput (state : State) (command : OutputCommand) (good : Bool)
    (next : Scan) : Except Fault (State × List Event) :=
  match pcf8574WriteOutput state.data state.bus command good with
  | .error fault => .error fault
  | .ok (data, bus, byte) =>
      .ok ({ state with data := data, bus := bus, scan := next },
        [.wrote command byte good])

/-- One step of `io_scan_task`; `result` is the outcome of the call it makes
there. -/
def ioScanStep (state : State) (result : CallResult) :
    Except Fault (State × List Event) :=
  match state.scan with
  | .notCreated => .ok (state, [])
  | .configParam =>
      .ok ({ state with
        ioState := .init
        scan := if result.succeeded then .installDriver else .resetWrite 0 0 },
        [])
  | .installDriver =>
      .ok ({ state with
        i2cInstalled := result.succeeded
        ioState := .ready
        scan := .resetWrite 0 0 }, [])
  | .resetWrite port pin =>
      writeOutput state (resetCommand port pin) result.succeeded
        (afterReset port pin)
  | .transfer phase port =>
      .ok ({ state with
        scan := .store phase port 0 (readValue result) result.succeeded }, [])
  | .store phase port pin value good =>
      .ok ({ state with
        data := { state.data with
          input := setPin state.data.input port pin (pinLevel value pin) }
        scan := afterStore phase port pin value good },
        [.stored port pin (pinLevel value pin) good])
  | .queueInit =>
      .ok ({ state with
        ioQueue := xQueueCreate result.succeeded
        scan := .top }, [])
  | .top =>
      match xQueueReceive state.ioQueue with
      | .error fault => .error fault
      | .ok (none, _) => .ok ({ state with scan := .transfer .scan 0 }, [])
      | .ok (some command, queue) =>
          .ok ({ state with
            ioQueue := queue
            scan := .writing command }, [.dequeued command])
  | .writing command =>
      writeOutput state command result.succeeded (.transfer .scan 0)

def step : Runs.Step State Action Event Fault
  | state, .ioScanTaskStart =>
      if state.scan = .notCreated then
        .ok ({ state with scan := .configParam }, [])
      else .ok (state, [])
  | state, .gateDrvQueueInit created =>
      .ok ({ state with gateQueue := xQueueCreate created }, [])
  | state, .gateControllerTaskStart =>
      if state.controller = .notCreated then
        .ok ({ state with controller := .top }, [])
      else .ok (state, [])
  | state, .sendGateCommand command => sendGateCommand state command
  | state, .controller => controllerStep state
  | state, .ioScan result => ioScanStep state result

abbrev run := Runs.run step

/-- `app_main` starts both tasks, every call succeeds, and every input line is
high. -/
def startUp : List Action :=
  [.ioScanTaskStart, .gateDrvQueueInit true, .gateControllerTaskStart] ++
    List.replicate 37 (.ioScan (.ok 0xff#8))

end Conveyor.Gate
