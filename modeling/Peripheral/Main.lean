import Peripheral.Console

/-!
# The program

Serves the devices of the settings that the environment points to. Requests come as lines on the standard input; the end of
the input ends the program.
-/

namespace Peripheral.Main

/-- The value of a variable. -/
def systemVariable (name : String) : IO (Option SystemText) := return (← IO.getEnv name).map .ofString

/-- The variables that say where settings are. -/
def environment : IO Environment := do
  let home := (← systemVariable "HOME").getD (.ofString "/")
  return ⟨← systemVariable "REGMODEL_CONFIG", ← systemVariable "XDG_CONFIG_HOME", home⟩

/-- The directories above a path. -/
def parent (path : String) : String := "/".intercalate ((path.splitOn "/").dropLast)

/-- A disk with the file at a path, if there is one. What is there but cannot be read counts as a directory. -/
def withFile (d : Disk) (path : String) : IO Disk := do
  let above := (d.makeDirectory (parent path)).toOption.getD d
  try
    let content ← IO.FS.readBinFile path
    return (above.write path content.toList).toOption.getD d
  catch e =>
    match e with
    | .noFileOrDirectory .. => return d
    | _ => return (d.makeDirectory path).toOption.getD d

/-- A disk with the directory that a path is in. -/
def withParent (d : Disk) (path : String) : Disk := (d.makeDirectory (parent path)).toOption.getD d

/-- Answers lines until the input ends; the time that passes meanwhile passes for the devices too. -/
partial def serve (input output : IO.FS.Stream) (last : Nat) (w : World Model) : IO (World Model) := do
  let line ← input.getLine
  if line.isEmpty then return w
  let now ← IO.monoMsNow
  let (text, w) := Console.respond (w.awaitFor (now - last) fun _ => false) (line.trimAscii.toString)
  output.putStrLn text
  output.flush
  serve input output now w

/-- Serves the devices of the settings; the directories of their sockets are taken to be there. -/
def run : IO UInt32 := do
  let e ← environment
  let (settings, entry) := Settings.load e (← withFile .empty e.settingsPath.shown).files
  IO.println s!"{entry.level.text} {entry.text}"
  let disk := (settings.devices.map (·.server.socketPath)).foldl withParent .empty
  match Daemon.boot settings (.start disk) with
  | (.error f, _) =>
    IO.eprintln s!"Error: {f.message}"
    return f.exitCode.toUInt32
  | (.ok (), w) =>
    let w ← serve (← IO.getStdin) (← IO.getStdout) (← IO.monoMsNow) w
    let _ := Daemon.shutdown w
    return 0

end Peripheral.Main

/-- Runs the daemon. -/
def main : IO UInt32 := Peripheral.Main.run
