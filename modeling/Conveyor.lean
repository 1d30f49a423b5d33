import Conveyor.Core.Runs
import Conveyor.Core.LevelChanges
import Conveyor.Gate.OutputQueue
import Conveyor.Gate.Obeying
import Conveyor.Gate.BusErrors
import Conveyor.Gate.Edges
import Conveyor.Gate.Driven
import Conveyor.Json.Append
import Conveyor.ProcessData
import Conveyor.Tcp.ReceiveLoop
import Conveyor.Tcp.Stream
import Conveyor.Tcp.Link
import Conveyor.IoDriver.OutputLatch
import Conveyor.Encoder
import Conveyor.GateDriver
import Conveyor.ProcessData.Ownership
import Conveyor.ProcessData.Decoding
import Conveyor.Firmware.Carrying
import Conveyor.Firmware.IndexSafety
import Conveyor.Firmware.Commands
import Conveyor.Firmware.Pipeline
import Conveyor.ProcessData.InMemory
import Conveyor.Json.Printed
import Conveyor.Json.Minified
import Conveyor.Firmware.Boot
