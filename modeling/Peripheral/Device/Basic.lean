import Peripheral.Frame.Basic
import Peripheral.Log
import Peripheral.Rng

/-!
# Devices

A device is a state with registers at absolute addresses. It is read and written one register at a time, may refuse an
access, and moves on by itself one tick at a time; a tick names the interrupts it raises.
-/

namespace Peripheral

/-- Why a device did not carry out an access. -/
inductive Refusal
  | unmapped (address : UInt32)
  | rejected (address : UInt32)
  deriving DecidableEq, Repr

namespace Refusal

/-- The address that the access was for. -/
def address : Refusal → UInt32
  | unmapped a => a
  | rejected a => a

/-- The outcome that tells the peer about a refusal. -/
def outcome : Refusal → Outcome
  | unmapped _ => .invalidAddress
  | rejected _ => .error

/-- The text of a refusal. -/
def message : Refusal → String
  | unmapped a => "invalid address: " ++ Hex.address a
  | rejected a => "write rejected at " ++ Hex.address a

end Refusal

/-- What a type of states needs to be a device. -/
class Device (δ : Type) where
  /-- The number that the device puts on its interrupts. -/
  deviceId : δ → UInt32
  /-- The name of the kind of device. -/
  kind : δ → String
  /-- Reads the register at an address. -/
  read : δ → UInt32 → Except Refusal UInt32 × δ
  /-- Writes the register at an address. -/
  write : δ → UInt32 → UInt32 → Except Refusal Unit × δ
  /-- Initialises the device; the number is the one that the request named. -/
  init : δ → UInt32 → δ
  /-- Releases the device; the number is the one that the request named. -/
  deinit : δ → UInt32 → δ
  /-- Lets the device act by itself once, and names the interrupts raised. -/
  tick : δ → Rng → List UInt32 × δ × Rng

/-- A device that says what it does: each entry list belongs to the operation of the same name, in the state before it. -/
class Narrated (δ : Type) extends Device δ where
  readLog : δ → UInt32 → List Log.Entry
  writeLog : δ → UInt32 → UInt32 → List Log.Entry
  initLog : δ → UInt32 → List Log.Entry
  deinitLog : δ → UInt32 → List Log.Entry
  tickLog : δ → Rng → List Log.Entry

end Peripheral
