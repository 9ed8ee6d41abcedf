import Peripheral.Main
import Peripheral.Frame.CodeJson
import Peripheral.Proofs.Frame.RoundTrip
import Peripheral.Proofs.Frame.Cutting
import Peripheral.Proofs.Uart.Run
import Peripheral.Proofs.Uart.Status
import Peripheral.Proofs.Uart.Conservation
import Peripheral.Proofs.Hub.Outcome
import Peripheral.Proofs.Device.Wire
import Peripheral.Proofs.Hub.Frames
import Peripheral.Proofs.Device.Registers
import Peripheral.Proofs.Hub.Linear
import Peripheral.Proofs.Hub.Answer
import Peripheral.Proofs.Hub.Succession
import Peripheral.Proofs.Server.Run
import Peripheral.Proofs.Server.Linear
import Peripheral.Proofs.Server.Delivery
import Peripheral.Proofs.Activity.Schedule
import Peripheral.Proofs.Device.History
import Peripheral.Proofs.Uart.Tick
import Peripheral.Proofs.Server.Lifecycle
import Peripheral.Proofs.Activity.Ticking
import Peripheral.Proofs.Client.Response
import Peripheral.Proofs.Frame.Reading
import Peripheral.Proofs.Activity.Repetition
import Peripheral.Proofs.Uart.Relocation
import Peripheral.Proofs.Uart.Registers
import Peripheral.Proofs.Device.Indifference
import Peripheral.Proofs.Uart.Transmitter
import Peripheral.Proofs.Settings.Loading
import Peripheral.Proofs.Daemon.Clearing
import Peripheral.Proofs.Settings.RoundTrip
import Peripheral.Proofs.Fifo.Conservation
