import Peripheral.Json.Printer
import Peripheral.Json.Tagged
import Peripheral.Settings.Basic

/-!
# The written form of settings

Settings are written as JSON. Every field has a default except the list of devices and the number of a register file.
-/

namespace Peripheral

open Json

/-- The shape of a word. -/
def Json.Shape.word : Shape UInt32 := (Shape.natural UInt32.size).map UInt32.ofNat

/-- The shape of a number of 64 bits. -/
def Json.Shape.long : Shape UInt64 := (Shape.natural UInt64.size).map UInt64.ofNat

/-- The shape of a byte. -/
def Json.Shape.byte : Shape UInt8 := (Shape.natural UInt8.size).map UInt8.ofNat

/-- A member of an object that is written. -/
def Json.member (name : String) (j : Json) : List Char × Json := (name.toList, j)

/-- A natural number as a JSON value. -/
def Json.ofNat (n : Nat) : Json := .number (.natural n)

/-- The fields of a UART. -/
def Uart.Config.fields : List (Json.Field Uart.Config) :=
  [ .of "device_id" false .word fun v c => { c with deviceId := v },
    .of "base_address" false .word fun v c => { c with baseAddress := v },
    .of "rx_probability" false .real fun v c => { c with rxProbability := v },
    .of "rx_pattern" false (.array .byte) fun v c => { c with rxPattern := v } ]

/-- The shape of a UART's configuration. -/
def Uart.Config.shape : Shape Uart.Config := .record default fields

/-- The members of a UART's configuration. -/
def Uart.Config.members (c : Uart.Config) : List (List Char × Json) :=
  [ member "device_id" (ofNat c.deviceId.toNat),
    member "base_address" (ofNat c.baseAddress.toNat),
    member "rx_probability" (.number (.real c.rxProbability)),
    member "rx_pattern" (.array (c.rxPattern.map fun b => ofNat b.toNat)) ]

/-- The JSON form of a UART's configuration. -/
def Uart.Config.toJson (c : Uart.Config) : Json := .object c.members

/-- The fields of the timing of a device. -/
def ActivityConfig.fields : List (Json.Field ActivityConfig) :=
  [ .of "tick_interval_ms" false .long fun v c => { c with tickInterval := v },
    .of "startup_delay_ms" false .long fun v c => { c with startupDelay := v },
    .of "seed" false (.optional .long) fun v c => { c with seed := v } ]

/-- The shape of the timing of a device. -/
def ActivityConfig.shape : Shape ActivityConfig := .record default fields

/-- The JSON form of the timing of a device. -/
def ActivityConfig.toJson (c : ActivityConfig) : Json :=
  .object
    [ member "tick_interval_ms" (ofNat c.tickInterval.toNat),
      member "startup_delay_ms" (ofNat c.startupDelay.toNat),
      member "seed" ((c.seed.map fun s => ofNat s.toNat).getD .null) ]

/-- The fields of a server. -/
def ServerConfig.fields : List (Json.Field ServerConfig) :=
  [ .of "socket_path" false .text fun v c => { c with socketPath := v },
    .of "max_connections" false .long fun v c => { c with maxConnections := v },
    .of "send_timeout_ms" false .long fun v c => { c with sendTimeout := v } ]

/-- The shape of a server's configuration. -/
def ServerConfig.shape : Shape ServerConfig := .record default fields

/-- The JSON form of a server's configuration. -/
def ServerConfig.toJson (c : ServerConfig) : Json :=
  .object
    [ member "socket_path" (.text c.socketPath.toList),
      member "max_connections" (ofNat c.maxConnections.toNat),
      member "send_timeout_ms" (ofNat c.sendTimeout.toNat) ]

/-- The member that names the kind of a device. -/
def ModelConfig.tag : String := "kind"

/-- The shape of what a register file is set up from. -/
def ModelConfig.registersShape : Shape UInt32 := .record 0 [.of "device_id" true .word fun v _ => v]

/-- The kinds of device. -/
def ModelConfig.variants : List (Variant ModelConfig) :=
  [ { tag := "generic", ofJson? := fun j => (registersShape.ofJson? j).map .registers },
    { tag := "uart", ofJson? := fun j => (Uart.Config.shape.ofJson? j).map .uart } ]

/-- The shape of a device's configuration, with the given number of arrays and objects open. -/
def ModelConfig.shape (depth : Nat) : Shape ModelConfig := .tagged tag variants depth

/-- The JSON form of a device's configuration. -/
def ModelConfig.toJson : ModelConfig → Json
  | registers id => .object [member tag (.text "generic".toList), member "device_id" (ofNat id.toNat)]
  | uart c => .object (member tag (.text "uart".toList) :: c.members)

/-- The fields of a device that is served; it is the third array or object that is open. -/
def DeviceConfig.fields : List (Json.Field DeviceConfig) :=
  [ .of "server" false ServerConfig.shape fun v c => { c with server := v },
    .of "model" false (ModelConfig.shape 4) fun v c => { c with model := v },
    .of "activity" false ActivityConfig.shape fun v c => { c with activity := v } ]

/-- The shape of a device that is served. -/
def DeviceConfig.shape : Shape DeviceConfig := .record default fields

/-- The JSON form of a device that is served. -/
def DeviceConfig.toJson (c : DeviceConfig) : Json :=
  .object [member "server" c.server.toJson, member "model" c.model.toJson, member "activity" c.activity.toJson]

namespace Settings

/-- The shape of settings. -/
def shape : Shape Settings :=
  .record ⟨[]⟩ [.of "devices" true (.array DeviceConfig.shape) fun v _ => ⟨v⟩]

/-- The JSON form of settings. -/
def toJson (s : Settings) : Json := .object [member "devices" (.array (s.devices.map (·.toJson)))]

/-- Reads settings. -/
def parse (text : String) : Except Fault Settings := shape.parse text

/-- Writes settings. -/
def render (s : Settings) : String := String.ofList (compact s.toJson)

end Settings

end Peripheral
