import Peripheral.Device.RegisterFile
import Peripheral.Device.Uart

/-!
# Device models

The kinds of device that can be served, as one type, and how each is set up.
-/

namespace Peripheral

/-- How a device is set up. -/
inductive ModelConfig
  | registers (deviceId : UInt32)
  | uart (config : Uart.Config)
  deriving DecidableEq

/-- A device of any kind. -/
inductive Model
  | registers (device : RegisterFile)
  | uart (device : Uart)
  deriving DecidableEq

instance : Inhabited ModelConfig := ⟨.uart default⟩

/-- A new device. -/
def ModelConfig.build : ModelConfig → Model
  | registers id => .registers (.empty id)
  | uart c => .uart (.ofConfig c)

namespace Model

/-- A register file as a model, next to a result. -/
def ofRegisters {α : Type} (x : α × RegisterFile) : α × Model := (x.1, .registers x.2)

/-- A UART as a model, next to a result. -/
def ofUart {α : Type} (x : α × Uart) : α × Model := (x.1, .uart x.2)

instance : Narrated Model where
  deviceId
    | registers d => Device.deviceId d
    | uart d => Device.deviceId d
  kind
    | registers d => Device.kind d
    | uart d => Device.kind d
  read
    | registers d, a => ofRegisters (Device.read d a)
    | uart d, a => ofUart (Device.read d a)
  write
    | registers d, a, v => ofRegisters (Device.write d a v)
    | uart d, a, v => ofUart (Device.write d a v)
  init
    | registers d, id => .registers (Device.init d id)
    | uart d, id => .uart (Device.init d id)
  deinit
    | registers d, id => .registers (Device.deinit d id)
    | uart d, id => .uart (Device.deinit d id)
  tick
    | registers d, g => ((Device.tick d g).1, .registers (Device.tick d g).2.1, (Device.tick d g).2.2)
    | uart d, g => ((Device.tick d g).1, .uart (Device.tick d g).2.1, (Device.tick d g).2.2)
  readLog
    | registers d, a => Narrated.readLog d a
    | uart d, a => Narrated.readLog d a
  writeLog
    | registers d, a, v => Narrated.writeLog d a v
    | uart d, a, v => Narrated.writeLog d a v
  initLog
    | registers d, id => Narrated.initLog d id
    | uart d, id => Narrated.initLog d id
  deinitLog
    | registers d, id => Narrated.deinitLog d id
    | uart d, id => Narrated.deinitLog d id
  tickLog
    | registers d, g => Narrated.tickLog d g
    | uart d, g => Narrated.tickLog d g

end Model

end Peripheral
