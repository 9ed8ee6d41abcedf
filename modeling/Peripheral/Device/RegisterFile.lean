import Peripheral.Device.Basic

/-!
# Register files

The plainest device: every address holds a word, and one that was never written holds a mark that stands out in a dump.
-/

namespace Peripheral

/-- Registers by address, the latest write to an address being the only one kept. -/
structure RegisterFile where
  deviceId : UInt32
  cells : List (UInt32 × UInt32)
  deriving DecidableEq

namespace RegisterFile

/-- What an address holds before it is written. -/
def unwritten : UInt32 := 0xDEADBEEF

/-- A register file that nothing was written to. -/
def empty (deviceId : UInt32) : RegisterFile := ⟨deviceId, []⟩

/-- The word at an address, if it was written. -/
def get? (r : RegisterFile) (a : UInt32) : Option UInt32 := r.cells.lookup a

/-- The word at an address. -/
def get (r : RegisterFile) (a : UInt32) : UInt32 := (r.get? a).getD unwritten

/-- Puts a word at an address. -/
def set (r : RegisterFile) (a v : UInt32) : RegisterFile :=
  { r with cells := (a, v) :: r.cells.filter (fun c => c.1 != a) }

/-- Whether an address was written. -/
def contains (r : RegisterFile) (a : UInt32) : Bool := (r.get? a).isSome

/-- The number of addresses written. -/
def size (r : RegisterFile) : Nat := r.cells.length

/-- Whether no address was written. -/
def isEmpty (r : RegisterFile) : Bool := r.cells.isEmpty

instance : Narrated RegisterFile where
  deviceId := RegisterFile.deviceId
  kind _ := "generic"
  read r a := (.ok (r.get a), r)
  write r a v := (.ok (), r.set a v)
  init r _ := r
  deinit r _ := r
  tick r g := ([], r, g)
  readLog r a := [Log.debug s!"Read {Hex.address a} = {Hex.address (r.get a)}"]
  writeLog _ a v := [Log.debug s!"Write {Hex.address a} = {Hex.address v}"]
  initLog _ id := [Log.info s!"Device {id} initialized"]
  deinitLog _ id := [Log.info s!"Device {id} deinitialized"]
  tickLog _ _ := []

end RegisterFile

end Peripheral
