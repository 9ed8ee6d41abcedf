import Peripheral.Device.Basic
import Peripheral.Fifo

/-!
# UARTs

A UART has four registers behind a base address: control at 0, status at 4, data at 8 and baud at 12, counted
modulo 2^32. A byte written to the data register waits in the transmit queue and a tick moves one of them onto the line;
a byte that arrives waits in the receive queue and a read of the data register takes it out. What the UART does follows
from the control bits and the two queues alone.
-/

namespace Peripheral

namespace Uart

/-- How a UART is set up. -/
structure Config where
  deviceId : UInt32
  baseAddress : UInt32
  rxProbability : Float
  rxPattern : Bytes
  deriving DecidableEq

/-- The address of the control register of a UART that names none. -/
def defaultBase : UInt32 := 0x40000000

/-- The baud register of a new UART. -/
def defaultBaud : UInt32 := 9600

instance : Inhabited Config where
  default := { deviceId := 1, baseAddress := defaultBase, rxProbability := 0.3, rxPattern := "Hello\r\n".toUTF8.toList }

/-- The registers of a UART. -/
inductive Register
  | control
  | status
  | data
  | baud
  deriving DecidableEq, Repr

/-- The register at a distance from the base address. -/
def Register.ofOffset? (offset : UInt32) : Option Register :=
  if offset = 0 then some .control
  else if offset = 4 then some .status
  else if offset = 8 then some .data
  else if offset = 12 then some .baud
  else none

/-- The control bit that switches the UART on. -/
def Control.enable : UInt32 := 1

/-- The control bit that switches the transmitter on. -/
def Control.txEnable : UInt32 := 2

/-- The control bit that switches the receiver on. -/
def Control.rxEnable : UInt32 := 4

/-- The control bit that lets the UART raise interrupts. -/
def Control.irqEnable : UInt32 := 8

/-- The status bit of a UART that is ready. -/
def Status.ready : UInt32 := 1

/-- The status bit of an empty transmit queue. -/
def Status.txEmpty : UInt32 := 2

/-- The status bit of a receive queue that holds something. -/
def Status.rxFull : UInt32 := 4

/-- The status bit that says that everything queued has left. -/
def Status.txComplete : UInt32 := 8

/-- The interrupt for a byte that arrived. -/
def Interrupt.rxReady : UInt32 := 1

/-- The interrupt for the last byte that waited having left. -/
def Interrupt.txComplete : UInt32 := 2

/-- Whether a word has one of the bits of a mask. -/
def has (word mask : UInt32) : Bool := word &&& mask != 0

/-- A word with the bits of a mask set. -/
def setBits (word mask : UInt32) : UInt32 := word ||| mask

/-- A word with the bits of a mask cleared. -/
def clearBits (word mask : UInt32) : UInt32 := word &&& ~~~mask

/-- A bit that the mask has not stays as it is when the mask's bits are set. -/
theorem testBit_setBits_of_unset {mask : UInt32} {i : Nat} (h : mask.toNat.testBit i = false) (word : UInt32) :
    (setBits word mask).toNat.testBit i = word.toNat.testBit i := by
  rw [setBits, UInt32.toNat_or, Nat.testBit_or, h, Bool.or_false]

/-- A bit that the mask has not stays as it is when the mask's bits are cleared. -/
theorem testBit_clearBits_of_unset {mask : UInt32} {i : Nat} (h : mask.toNat.testBit i = false) (word : UInt32) :
    (clearBits word mask).toNat.testBit i = word.toNat.testBit i := by
  have hmask : mask.toBitVec.getLsbD i = false := h
  show (word &&& ~~~mask).toBitVec.getLsbD i = word.toBitVec.getLsbD i
  rw [UInt32.toBitVec_and, UInt32.toBitVec_not, BitVec.getLsbD_and, BitVec.getLsbD_not, hmask]
  cases hword : word.toBitVec.getLsbD i with
  | false => rfl
  | true => simp [BitVec.lt_of_getLsbD hword]

/-- Setting and then clearing is clearing and then setting what is not cleared. -/
theorem clearBits_setBits (word mask mask' : UInt32) :
    clearBits (setBits word mask) mask' = setBits (clearBits word mask') (clearBits mask mask') :=
  UInt32.toBitVec_inj.mp BitVec.and_or_distrib_right

/-- In which order bits are cleared makes no difference. -/
theorem clearBits_comm (word mask mask' : UInt32) :
    clearBits (clearBits word mask) mask' = clearBits (clearBits word mask') mask := by
  simp only [clearBits, UInt32.and_assoc, UInt32.and_comm (~~~mask)]

/-- A fraction brought into the range from zero to one; what is not a number stays what it is. -/
def clampUnit (x : Float) : Float :=
  let x := if x < 0 then 0 else x
  if 1 < x then 1 else x

end Uart

/-- A UART. -/
structure Uart where
  deviceId : UInt32
  base : UInt32
  control : UInt32
  status : UInt32
  data : UInt32
  baud : UInt32
  tx : Fifo
  rx : Fifo
  transmitted : Nat
  chance : Float
  pattern : Bytes
  deriving DecidableEq

namespace Uart

/-- A new UART. -/
def ofConfig (c : Config) : Uart where
  deviceId := c.deviceId
  base := c.baseAddress
  control := 0
  status := setBits Status.ready Status.txEmpty
  data := 0
  baud := defaultBaud
  tx := .empty Fifo.depth
  rx := .empty Fifo.depth
  transmitted := 0
  chance := clampUnit c.rxProbability
  pattern := c.rxPattern

/-- The register that an address stands for. -/
def register? (u : Uart) (address : UInt32) : Option Register := Register.ofOffset? (address - u.base)

/-- Whether the UART is switched on. -/
def enabled (u : Uart) : Bool := has u.control Control.enable

/-- Whether the UART may raise interrupts. -/
def irqEnabled (u : Uart) : Bool := has u.control Control.irqEnable

/-- A byte arrives on the line. -/
def receive (u : Uart) (b : UInt8) : Except Fifo.Overflow Unit × Uart :=
  match u.rx.push b with
  | (.ok (), rx) => (.ok (), { u with rx, status := setBits u.status Status.rxFull })
  | (.error e, rx) => (.error e, { u with rx })

/-- Moves the byte that waited longest onto the line; the flag says that none is left. -/
def transmit? (u : Uart) : Option ((UInt8 × Bool) × Uart) :=
  match u.tx.pop? with
  | none => none
  | some (b, tx) =>
    let status := if tx.isEmpty then setBits u.status (setBits Status.txEmpty Status.txComplete) else u.status
    some ((b, tx.isEmpty), { u with tx, status, transmitted := u.transmitted + 1 })

/-- Takes the oldest received byte into the data register, if there is one. -/
def fetch (u : Uart) : Uart :=
  match u.rx.pop? with
  | none => u
  | some (b, rx) =>
    let status := if rx.isEmpty then clearBits u.status Status.rxFull else u.status
    { u with rx, status, data := b.toUInt32 }

/-- Sets the control register; the ready bit follows the bit that switches the UART on. -/
def setControl (u : Uart) (v : UInt32) : Uart :=
  let status := if has v Control.enable then setBits u.status Status.ready else clearBits u.status Status.ready
  { u with control := v, status }

/-- Puts the low byte of a word into the transmit queue; a byte that finds no room is dropped. -/
def enqueue (u : Uart) (v : UInt32) : Uart :=
  match u.tx.push v.toUInt8 with
  | (.ok (), tx) => { u with tx, status := clearBits u.status (setBits Status.txEmpty Status.txComplete) }
  | (.error _, tx) => { u with tx }

/-- Reads a register. -/
def readRegister (u : Uart) : Register → UInt32 × Uart
  | .control => (u.control, u)
  | .status => (u.status, u)
  | .data => (u.fetch.data, u.fetch)
  | .baud => (u.baud, u)

/-- Writes a register; the status register takes any word as it is. -/
def writeRegister (u : Uart) (v : UInt32) : Register → Uart
  | .control => u.setControl v
  | .status => { u with status := v }
  | .data => u.enqueue v
  | .baud => { u with baud := v }

/-- Reads the register at an address. -/
def read (u : Uart) (address : UInt32) : Except Refusal UInt32 × Uart :=
  match u.register? address with
  | none => (.error (.unmapped address), u)
  | some r => (.ok (u.readRegister r).1, (u.readRegister r).2)

/-- Writes the register at an address. -/
def write (u : Uart) (address v : UInt32) : Except Refusal Unit × Uart :=
  match u.register? address with
  | none => (.error (.rejected address), u)
  | some r => (.ok (), u.writeRegister v r)

/-- The status of an initialised UART: ready, and in agreement with the queues, which are kept. -/
def initialStatus (u : Uart) : UInt32 :=
  let s := setBits Status.ready Status.txEmpty
  let s := if u.tx.isEmpty then s else clearBits s Status.txEmpty
  if u.rx.isEmpty then s else setBits s Status.rxFull

/-- Initialises the UART: only its status starts anew. -/
def init (u : Uart) : Uart := { u with status := u.initialStatus }

/-- Whether a byte could arrive in this tick. -/
def listening (u : Uart) : Bool :=
  has u.control Control.rxEnable && !u.rx.isFull && !u.pattern.isEmpty

/-- The byte that arrives in this tick, if the draw falls below the UART's chance; the generator moves only if the UART
listens. -/
def arrival (u : Uart) (g : Rng) : Option UInt8 × Rng :=
  if u.listening then
    let (x, g) := g.unit
    if x < u.chance then
      let (i, g) := g.below u.pattern.length
      (u.pattern[i]?, g)
    else (none, g)
  else (none, g)

/-- The UART after the byte of this tick arrived. -/
def afterArrival (u : Uart) (g : Rng) : Uart :=
  match (u.arrival g).1 with
  | none => u
  | some b => (u.receive b).2

/-- What the transmitter does in this tick. -/
def departure (u : Uart) : Option (UInt8 × Bool) × Uart :=
  if has u.control Control.txEnable then
    match u.transmit? with
    | none => (none, u)
    | some (sent, u) => (some sent, u)
  else (none, u)

/-- The interrupts of a tick in which the given byte arrived and the given byte left. -/
def raised (u : Uart) (arrived : Option UInt8) (sent : Option (UInt8 × Bool)) : List UInt32 :=
  if u.irqEnabled then
    (if arrived.isSome then [Interrupt.rxReady] else []) ++
      (if sent.any (fun s => s.2) then [Interrupt.txComplete] else [])
  else []

/-- One tick: a byte may arrive, then one byte may leave. A UART that is switched off does nothing. -/
def tick (u : Uart) (g : Rng) : List UInt32 × Uart × Rng :=
  if u.enabled then
    let (sent, after) := (u.afterArrival g).departure
    (u.raised (u.arrival g).1 sent, after, (u.arrival g).2)
  else ([], u, g)

/-- What a read reports. -/
def readLog (u : Uart) (address : UInt32) : List Log.Entry :=
  match u.register? address with
  | none => [Log.warn s!"UART {u.deviceId} invalid read address: {Hex.address address}"]
  | some r => [Log.debug s!"UART {u.deviceId} read {Hex.address address} = {Hex.value (u.readRegister r).1}"]

/-- What the write of one register reports before the write as a whole does. -/
def registerLog (u : Uart) (v : UInt32) : Register → List Log.Entry
  | .control => [Log.info s!"UART {u.deviceId} control set to {Hex.value v}"]
  | .data =>
    match (u.tx.push v.toUInt8).1 with
    | .ok () => [Log.debug s!"UART {u.deviceId} queued for transmission: {Hex.byte v.toUInt8}"]
    | .error e => [Log.warn s!"UART {u.deviceId} TX {e.message}"]
  | .status | .baud => []

/-- What a write reports. -/
def writeLog (u : Uart) (address v : UInt32) : List Log.Entry :=
  match u.register? address with
  | none => [Log.warn s!"UART {u.deviceId} invalid write address: {Hex.address address}"]
  | some r => u.registerLog v r ++ [Log.debug s!"UART {u.deviceId} write {Hex.address address} = {Hex.value v}"]

/-- What a tick reports. -/
def tickLog (u : Uart) (g : Rng) : List Log.Entry :=
  if u.enabled then
    ((u.arrival g).1.map fun b => Log.debug s!"UART {u.deviceId} received {Hex.byte b}").toList ++
      ((u.afterArrival g).departure.1.map fun s => Log.debug s!"UART {u.deviceId} transmitted {Hex.byte s.1}").toList
  else []

instance : Narrated Uart where
  deviceId := Uart.deviceId
  kind _ := "uart"
  read := read
  write := write
  init u _ := u.init
  deinit u _ := u
  tick := tick
  readLog := readLog
  writeLog := writeLog
  initLog _ id := [Log.info s!"UART device {id} initialized"]
  deinitLog _ id := [Log.info s!"UART device {id} deinitialized"]
  tickLog := tickLog

end Uart

end Peripheral
