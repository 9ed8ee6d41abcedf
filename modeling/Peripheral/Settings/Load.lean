import Peripheral.Disk
import Peripheral.Log
import Peripheral.Settings.Format
import Peripheral.SystemText

/-!
# Loading settings

The environment names the file that settings are read from. Settings that cannot be read, are no settings or are not fit
for use are replaced as a whole by the default ones.
-/

namespace Peripheral

/-- What a file system answers about paths, whatever is behind it. -/
structure Files where
  exists? : SystemText → Bool
  read : SystemText → Except IoFault Bytes

/-- The text of a file. -/
def Files.readText (f : Files) (path : SystemText) : Except IoFault String := do
  let content ← f.read path
  match String.fromUTF8? (ByteArray.mk content.toArray) with
  | some text => .ok text
  | none => .error .invalidData

/-- What a disk answers about paths. Every name on it is a text, so that a path that is none leads nowhere. -/
def Disk.files (d : Disk) : Files where
  exists? path := path.text?.any d.exists?
  read path :=
    match path.text? with
    | some p => d.read p
    | none => .error .notFound

/-- The variables that say where settings are. -/
structure Environment where
  explicit : Option SystemText
  configHome : Option SystemText
  home : SystemText
  deriving DecidableEq, Repr

namespace Environment

/-- The directory of the settings in a configuration directory. -/
def application : SystemText := .ofString "regmodel"

/-- The directory below the home that settings are in. -/
def fallback (e : Environment) : SystemText := (e.home.join (.ofString ".config")).join application

/-- The directory that settings are in unless a file is named: below the configuration directory if that is an absolute
path in Unicode, else below the home. -/
def settingsDirectory (e : Environment) : SystemText :=
  match e.configHome.bind SystemText.text? with
  | some p => if Path.isAbsolute p then (SystemText.ofString p).join application else e.fallback
  | none => e.fallback

/-- The file that settings are read from. -/
def settingsPath (e : Environment) : SystemText :=
  match e.explicit with
  | some p => p
  | none => e.settingsDirectory.join (.ofString "settings.json")

end Environment

namespace Settings

/-- Why settings could not be loaded. -/
inductive LoadError
  | unreadable (path : SystemText) (fault : IoFault)
  | unparsable (fault : Json.Fault)
  | unfit (flaw : Flaw)
  deriving DecidableEq, Repr

/-- The text of a failure to load. -/
def LoadError.message : LoadError → String
  | unreadable p _ => s!"failed to read {p.shown}"
  | unparsable _ => "failed to parse settings"
  | unfit f => f.message

/-- Loads settings from a file. -/
def loadFrom (f : Files) (path : SystemText) : Except LoadError Settings := do
  let text ← (f.readText path).mapError (.unreadable path)
  let s ← (parse text).mapError .unparsable
  match s.flaw? with
  | some flaw => .error (.unfit flaw)
  | none => .ok s

/-- Loads the settings that the environment points to, and says what was done. -/
def load (e : Environment) (f : Files) : Settings × Log.Entry :=
  let path := e.settingsPath
  if f.exists? path then
    match loadFrom f path with
    | .ok s => (s, Log.info s!"Loaded settings from {path.shown}")
    | .error fault => (default, Log.warn s!"Ignoring settings at {path.shown}: {fault.message}")
  else (default, Log.info s!"No settings at {path.shown}, using defaults")

end Settings

end Peripheral
