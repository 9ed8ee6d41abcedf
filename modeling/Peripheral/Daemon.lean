import Peripheral.Settings.Load
import Peripheral.Text.Line
import Peripheral.World

/-!
# The daemon

The daemon serves every device of its settings, each on a socket of its own and with its activity going on, until it is told
to end. A device that cannot be served ends the daemon at once. However it ends, no socket of its own is left.
-/

namespace Peripheral.Daemon

/-- Why the daemon gave up: the device that could not be served, by its socket. -/
structure Failure where
  path : String
  cause : StartError
  deriving DecidableEq, Repr

/-- The text of a failure. -/
def Failure.message (f : Failure) : String := s!"failed to start model server on {f.path}"

/-- Begins the activity of a device. -/
def animate (c : ActivityConfig) (w : World Model) (i : Nat) : World Model :=
  w.updateStation i fun s => { s with activity? := some (Activity.start c w.clock) }

/-- Starts to serve devices one after the other, up to the first one that cannot be served. -/
def startAll : List DeviceConfig → World Model → Option Failure × World Model
  | [], w => (none, w)
  | c :: rest, w =>
    let i := w.stations.length
    match (w.add c.server c.model.build).startServer i with
    | (.error cause, w) => (some ⟨c.server.socketPath, cause⟩, w)
    | (.ok (), w) => startAll rest (animate c.activity w i)

/-- Lets go of all servers. -/
def abandon (w : World Model) : World Model := (List.range w.stations.length).foldl (·.dropServer ·) w

/-- Starts to serve all devices of the settings, or none. -/
def boot (s : Settings) (w : World Model) : Except Failure Unit × World Model :=
  match startAll s.devices w with
  | (none, w) => (.ok (), w.settle)
  | (some f, w) => (.error f, abandon w)

/-- Ends the activity of a device. -/
def calm (w : World Model) (i : Nat) : World Model :=
  w.updateStation i fun s => { s with activity? := s.activity?.map (·.obey w.clock .shutdown) }

/-- Ends to serve all devices: each one's activity first, then its server. -/
def shutdown (w : World Model) : World Model :=
  (List.range w.stations.length).foldl (fun w i => (calm w i).stopServer i) w

/-- The first line that a daemon leaves behind when it gives up. A start that breaks off leaves an empty line. -/
def Failure.line (f : Failure) : String :=
  if f.cause = .overload then "" else String.ofList (Text.firstLine ("Error: " ++ f.message).toList)

/-- The exit code of a daemon that gave up. Asking for more permits than can be counted breaks the start off. -/
def Failure.exitCode (f : Failure) : UInt8 := if f.cause = .overload then 101 else 1

end Peripheral.Daemon
