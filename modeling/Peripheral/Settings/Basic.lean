import Peripheral.Device.Model
import Peripheral.Path

/-!
# Settings

Which devices are served, each on a socket of its own, and how. Settings are fit for use if there is a device and no two
devices share a socket.
-/

namespace Peripheral

/-- When a device acts by itself, in milliseconds; without a seed its random numbers differ from run to run. -/
structure ActivityConfig where
  tickInterval : UInt64
  startupDelay : UInt64
  seed : Option UInt64
  deriving DecidableEq

/-- How a device is served. -/
structure ServerConfig where
  socketPath : String
  maxConnections : UInt64
  sendTimeout : UInt64
  deriving DecidableEq

/-- One device that is served. -/
structure DeviceConfig where
  server : ServerConfig
  model : ModelConfig
  activity : ActivityConfig
  deriving DecidableEq

/-- The devices that are served. -/
structure Settings where
  devices : List DeviceConfig
  deriving DecidableEq

instance : Inhabited ActivityConfig := ⟨{ tickInterval := 500, startupDelay := 2000, seed := none }⟩

instance : Inhabited ServerConfig :=
  ⟨{ socketPath := "/tmp/icd3_interface", maxConnections := 64, sendTimeout := 1000 }⟩

instance : Inhabited DeviceConfig := ⟨{ server := default, model := default, activity := default }⟩

instance : Inhabited Settings := ⟨⟨[default]⟩⟩

/-- The milliseconds between two ticks: at least one. -/
def ActivityConfig.period (c : ActivityConfig) : Nat := max c.tickInterval.toNat 1

/-- The milliseconds that a peer has to take a frame: at least one. -/
def ServerConfig.patience (c : ServerConfig) : Nat := max c.sendTimeout.toNat 1

/-- The number of connections that are served at once: at least one. -/
def ServerConfig.capacity (c : ServerConfig) : Nat := max c.maxConnections.toNat 1

/-- Whether two devices are served alike: their socket paths need to have the same components only. -/
def ServerConfig.agrees (a b : ServerConfig) : Bool :=
  Path.components a.socketPath == Path.components b.socketPath && a.maxConnections == b.maxConnections &&
    a.sendTimeout == b.sendTimeout

/-- Whether two devices are the same, served alike. -/
def DeviceConfig.agrees (a b : DeviceConfig) : Bool :=
  a.server.agrees b.server && a.model == b.model && a.activity == b.activity

namespace Settings

/-- Whether the same devices are served alike. -/
def agrees (a b : Settings) : Bool :=
  a.devices.length == b.devices.length && (a.devices.zip b.devices).all fun (c, d) => c.agrees d

/-- Why settings are not fit for use. -/
inductive Flaw
  | noDevices
  | sharedSocket (path : String)
  deriving DecidableEq, Repr

/-- The text of a flaw. -/
def Flaw.message : Flaw → String
  | noDevices => "no devices configured"
  | sharedSocket p => s!"socket path {p} is used by more than one device"

/-- The first path that names the same place as one before it. -/
def firstRepeated? (seen : List (List Path.Component)) : List String → Option String
  | [] => none
  | p :: rest =>
    if seen.contains (Path.components p) then some p else firstRepeated? (Path.components p :: seen) rest

/-- What is wrong with settings, if anything. -/
def flaw? (s : Settings) : Option Flaw :=
  if s.devices.isEmpty then some .noDevices
  else (firstRepeated? [] (s.devices.map (·.server.socketPath))).map .sharedSocket

end Settings

end Peripheral
