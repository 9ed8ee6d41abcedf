import Peripheral.Hex

/-!
# Codes in the frame header

A command says what a frame asks for, an outcome how a request ended. Any 32-bit number may stand in their place on the
wire; a number without a meaning is kept as it is, so that it survives being read and written again.
-/

namespace Peripheral

/-- What a frame asks for. -/
inductive Command
  | read
  | write
  | interrupt
  | init
  | deinit
  | unknown (code : UInt32)
  deriving DecidableEq, Repr, Inhabited

/-- How a request ended. -/
inductive Outcome
  | success
  | error
  | timeout
  | invalidAddress
  | unknown (code : UInt32)
  deriving DecidableEq, Repr

namespace Command

/-- The number that stands for a command on the wire. -/
def code : Command → UInt32
  | read => 1
  | write => 2
  | interrupt => 3
  | init => 4
  | deinit => 5
  | unknown c => c

/-- The command that a number on the wire stands for. -/
def ofCode (c : UInt32) : Command :=
  if c = 1 then read
  else if c = 2 then write
  else if c = 3 then interrupt
  else if c = 4 then init
  else if c = 5 then deinit
  else unknown c

/-- Whether the command has a meaning. -/
def isKnown : Command → Bool
  | unknown _ => false
  | _ => true

/-- The command as it is shown in messages. -/
def text : Command → String
  | read => "READ"
  | write => "WRITE"
  | interrupt => "INTERRUPT"
  | init => "INIT"
  | deinit => "DEINIT"
  | unknown c => "UNKNOWN(" ++ Hex.value c ++ ")"

@[simp] theorem code_ofCode (c : UInt32) : (ofCode c).code = c := by
  unfold ofCode
  repeat' split
  all_goals simp_all [code]

/-- Reading back a command's number gives the command, unless an unknown one carries a number that has a meaning. -/
theorem ofCode_code_eq_iff (k : Command) :
    ofCode k.code = k ↔ ∀ c, k = unknown c → ¬(1 ≤ c.toNat ∧ c.toNat ≤ 5) := by
  cases k with
  | unknown c =>
    simp only [code, ofCode, ← UInt32.toNat_inj]
    constructor
    · intro h d hd
      cases hd
      repeat' split at h
      all_goals simp_all
      omega
    · intro h
      have := h c rfl
      simp at this ⊢
      repeat' split
      all_goals simp_all
  | _ => simp [code, ofCode]

end Command

namespace Outcome

instance : Inhabited Outcome := ⟨success⟩

/-- The number that stands for an outcome on the wire. -/
def code : Outcome → UInt32
  | success => 0
  | error => 1
  | timeout => 2
  | invalidAddress => 3
  | unknown c => c

/-- The outcome that a number on the wire stands for. -/
def ofCode (c : UInt32) : Outcome :=
  if c = 0 then success
  else if c = 1 then error
  else if c = 2 then timeout
  else if c = 3 then invalidAddress
  else unknown c

/-- Whether the request was carried out. -/
def isSuccess : Outcome → Bool
  | success => true
  | _ => false

/-- The outcome as it is shown in messages. -/
def text : Outcome → String
  | success => "SUCCESS"
  | error => "ERROR"
  | timeout => "TIMEOUT"
  | invalidAddress => "INVALID_ADDR"
  | unknown c => "UNKNOWN(" ++ Hex.value c ++ ")"

@[simp] theorem code_ofCode (c : UInt32) : (ofCode c).code = c := by
  unfold ofCode
  repeat' split
  all_goals simp_all [code]

end Outcome

end Peripheral
