import Peripheral.Device.Basic

/-!
# Executing requests

A request frame is carried out on a device and answered by a frame with the same header. Nothing that goes wrong stops
the exchange: it only shows in the outcome of the answer. A server sees a device through `Service`, which adds the case
that a device breaks down while it executes a request and no answer is made.
-/

namespace Peripheral

open Device

/-- Carries out a request: the answer and the device afterwards. -/
def execute {δ : Type} [Device δ] (d : δ) (request : Frame) : Frame × δ :=
  match request.command with
  | .read =>
    match read d request.address with
    | (.ok v, d) => ((request.reply .success).withValue v, d)
    | (.error e, d) => (request.reply e.outcome, d)
  | .write =>
    match write d request.address request.value with
    | (.ok (), d) => (request.reply .success, d)
    | (.error e, d) => (request.reply e.outcome, d)
  | .init => (request.reply .success, init d request.device)
  | .deinit => (request.reply .success, deinit d request.device)
  | .interrupt | .unknown _ => (request.reply .error, d)

/-- The path of a request over the wire: bytes in, bytes out. Too few bytes reach no device. -/
def executeBytes {δ : Type} [Device δ] (d : δ) (bytes : Bytes) : Except Truncated Bytes × δ :=
  match Frame.decode bytes with
  | .error e => (.error e, d)
  | .ok request => (.ok (execute d request).1.encode, (execute d request).2)

/-- What executing a request reports. -/
def executeLog {δ : Type} [Narrated δ] (d : δ) (request : Frame) : List Log.Entry :=
  let opening := Log.debug (s!"Dispatch: device_id={request.device} cmd={request.command.text} " ++
    s!"addr={Hex.address request.address} len={request.length}")
  opening ::
    match request.command with
    | .read => Narrated.readLog d request.address ++
      match (read d request.address).1 with
      | .ok _ => []
      | .error e => [Log.debug s!"Read failed: {e.message}"]
    | .write => Narrated.writeLog d request.address request.value ++
      match (write d request.address request.value).1 with
      | .ok () => []
      | .error e => [Log.debug s!"Write failed: {e.message}"]
    | .init => Narrated.initLog d request.device
    | .deinit => Narrated.deinitLog d request.device
    | .interrupt | .unknown _ => [Log.warn s!"Unknown command: {request.command.text}"]

/-- What a server needs of the state it serves: executing a request gives no answer if the state breaks down meanwhile. -/
class Service (δ : Type) where
  /-- The number put on the interrupts pushed to the peers. -/
  deviceId : δ → UInt32
  /-- The name of the kind of device served. -/
  kind : δ → String
  /-- Carries out a request. -/
  execute : δ → Frame → Option Frame × δ
  /-- Lets the device act by itself once, and names the interrupts raised. -/
  tick : δ → Rng → List UInt32 × δ × Rng

/-- Every device can be served, and never breaks down. -/
instance (priority := low) {δ : Type} [Device δ] : Service δ where
  deviceId := Device.deviceId
  kind := Device.kind
  execute d request := (some (execute d request).1, (execute d request).2)
  tick := Device.tick

end Peripheral
