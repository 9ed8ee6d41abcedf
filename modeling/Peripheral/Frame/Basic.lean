import Peripheral.Bytes
import Peripheral.Frame.Code

/-!
# Frames

Requests, responses and pushed interrupts are frames of one fixed size: a header of five words (device, command, address,
length, outcome) and a payload of 256 bytes, of which a register value takes the first four. Reading a frame that was
written gives it back up to the numbers that stand for its codes (`decode_encode_append`).
-/

namespace Peripheral

/-- The opaque part of a frame. -/
abbrev Payload := Vector UInt8 256

namespace Payload

/-- A payload of zeros. -/
def zero : Payload := Vector.replicate 256 0

/-- The payload that starts with the given bytes: what is beyond its size is cut, what is missing is zero. -/
def ofBytes (bytes : Bytes) : Payload :=
  ⟨((bytes ++ List.replicate 256 0).take 256).toArray, by
    rw [List.size_toArray, List.length_take, List.length_append, List.length_replicate]; omega⟩

/-- The payload with its beginning overwritten. -/
def overwrite (p : Payload) (bytes : Bytes) : Payload :=
  ofBytes (bytes ++ p.toList.drop bytes.length)

@[simp] theorem length_toList (p : Payload) : p.toList.length = 256 := by simp

/-- Payload that was taken from 256 bytes is these bytes. -/
theorem toList_ofBytes (bytes : Bytes) (h : bytes.length = 256) : (ofBytes bytes).toList = bytes := by
  have : (ofBytes bytes).toList = (bytes ++ List.replicate 256 0).take 256 := rfl
  rw [this, List.take_append_of_le_length (by omega), List.take_of_length_le (by omega)]

/-- Payload is read back from its bytes. -/
theorem ofBytes_toList (p : Payload) : ofBytes p.toList = p :=
  Vector.toList_inj.mp (toList_ofBytes _ (length_toList p))

end Payload

/-- One message on a connection. The length is advice for a reader; in an interrupt it is the interrupt's number. -/
structure Frame where
  device : UInt32
  command : Command
  address : UInt32
  length : UInt32
  outcome : Outcome
  payload : Payload
  deriving DecidableEq

/-- Fewer bytes than a frame has. -/
structure Truncated where
  actual : Nat
  deriving DecidableEq, Repr

namespace Frame

/-- The number of bytes of a frame. -/
def size : Nat := 276

/-- A frame with an empty payload that reports success. -/
def blank (device : UInt32) (command : Command) (address length : UInt32) : Frame :=
  { device, command, address, length, outcome := .success, payload := .zero }

instance : Inhabited Frame := ⟨blank 0 .read 0 0⟩

/-- The register value in the first four bytes of the payload. -/
def value (f : Frame) : UInt32 := wordOf f.payload.toList

/-- The frame with a register value in the first four bytes of its payload. -/
def withValue (f : Frame) (v : UInt32) : Frame :=
  { f with payload := f.payload.overwrite (wordBytes v) }

/-- A request to read a register. -/
def read (device address : UInt32) : Frame := blank device .read address 4

/-- A request to write a register. -/
def write (device address v : UInt32) : Frame := (blank device .write address 4).withValue v

/-- A request to initialise a device. -/
def init (device : UInt32) : Frame := blank device .init 0 0

/-- A request to release a device. -/
def deinit (device : UInt32) : Frame := blank device .deinit 0 0

/-- The notice of an interrupt; it never carries register contents. -/
def interrupt (device number : UInt32) : Frame := blank device .interrupt 0 number

/-- The answer to a request: its header with a new outcome and an empty payload. -/
def reply (request : Frame) (outcome : Outcome) : Frame :=
  { request with outcome, payload := .zero }

/-- The number of the interrupt that a frame announces. -/
def interruptNumber? (f : Frame) : Option UInt32 :=
  if f.command = .interrupt then some f.length else none

/-- A notice announces its number. -/
@[simp] theorem interruptNumber?_interrupt (device number : UInt32) :
    (interrupt device number).interruptNumber? = some number := rfl

/-- The bytes of the header. -/
def header (f : Frame) : Bytes :=
  wordBytes f.device ++ wordBytes f.command.code ++ wordBytes f.address ++ wordBytes f.length ++ wordBytes f.outcome.code

/-- The bytes of a frame. -/
def encode (f : Frame) : Bytes :=
  f.header ++ f.payload.toList

/-- The frame held by the first bytes of a run that is long enough. -/
def ofBytes (bytes : Bytes) : Frame where
  device := wordOf bytes
  command := .ofCode (wordOf (bytes.drop 4))
  address := wordOf (bytes.drop 8)
  length := wordOf (bytes.drop 12)
  outcome := .ofCode (wordOf (bytes.drop 16))
  payload := .ofBytes ((bytes.drop 20).take 256)

/-- The frame at the beginning of a run of bytes; bytes beyond its size are not looked at. -/
def decode (bytes : Bytes) : Except Truncated Frame :=
  if bytes.length < size then .error ⟨bytes.length⟩ else .ok (ofBytes bytes)

/-- The frame with its codes replaced by what their numbers stand for. -/
def canonical (f : Frame) : Frame :=
  { f with command := .ofCode f.command.code, outcome := .ofCode f.outcome.code }

@[simp] theorem length_header (f : Frame) : f.header.length = 20 := rfl

@[simp] theorem length_encode (f : Frame) : f.encode.length = size := by simp [encode, size]

/-- A frame is read back from its bytes, whatever follows, with its codes in canonical form. -/
theorem decode_encode_append (f : Frame) (rest : Bytes) : decode (f.encode ++ rest) = .ok f.canonical := by
  have hlen : ¬(f.encode ++ rest).length < size := by simp
  have hp : ((f.encode ++ rest).drop 20).take 256 = f.payload.toList := by
    rw [encode, List.append_assoc, List.drop_append_of_le_length (by simp), List.drop_of_length_le (by simp),
      List.nil_append, List.take_append_of_le_length (by simp), List.take_of_length_le (by simp)]
  rw [decode, if_neg hlen]
  simp only [ofBytes, hp, Payload.ofBytes_toList, canonical]
  congr 1
  simp only [encode, header, List.append_assoc]
  rw [wordOf_wordBytes_append]
  rw [show ∀ (w : UInt32) (r : Bytes), (wordBytes w ++ r).drop 4 = r from fun _ _ => rfl, wordOf_wordBytes_append,
    show ∀ (w x : UInt32) (r : Bytes), (wordBytes w ++ (wordBytes x ++ r)).drop 8 = r from fun _ _ _ => rfl,
    wordOf_wordBytes_append,
    show ∀ (w x y : UInt32) (r : Bytes), (wordBytes w ++ (wordBytes x ++ (wordBytes y ++ r))).drop 12 = r from
      fun _ _ _ _ => rfl,
    wordOf_wordBytes_append,
    show ∀ (w x y z : UInt32) (r : Bytes),
      (wordBytes w ++ (wordBytes x ++ (wordBytes y ++ (wordBytes z ++ r)))).drop 16 = r from fun _ _ _ _ _ => rfl,
    wordOf_wordBytes_append]

end Frame

/-- The text of a framing failure. -/
def Truncated.message (t : Truncated) : String :=
  s!"truncated frame: expected {Frame.size} bytes, got {t.actual}"

end Peripheral
