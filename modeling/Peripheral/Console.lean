import Peripheral.Daemon

/-!
# Requests as lines

A line asks for one exchange: the path of a socket, a verb, and the numbers that belong to it. The answer is a line with the
outcome, the value if one was read, and the interrupts that came first.
-/

namespace Peripheral.Console

/-- A number in a line. -/
def word? (s : String) : Option UInt32 :=
  s.toNat?.bind fun n => if n < UInt32.size then some (UInt32.ofNat n) else none

/-- The request that a verb and its numbers stand for. -/
def request? (verb : String) (numbers : List UInt32) : Option Frame :=
  match verb, numbers with
  | "read", [device, address] => some (.read device address)
  | "write", [device, address, value] => some (.write device address value)
  | "init", [device] => some (.init device)
  | "deinit", [device] => some (.deinit device)
  | _, _ => none

/-- The socket and the request of a line. -/
def parse (line : String) : Option (String × Frame) := do
  match (line.splitOn " ").filter (· ≠ "") with
  | path :: verb :: rest =>
    let numbers ← rest.mapM word?
    let request ← request? verb numbers
    some (path, request)
  | _ => none

/-- An answer as a line. -/
def answerLine (request : Frame) (a : Client.Answer) : String :=
  let value := if request.command = .read then " " ++ Hex.address a.response.value else ""
  let interrupts := String.join (a.interrupts.map fun id => s!" +{id}")
  a.response.outcome.text ++ value ++ interrupts

/-- What a line brings about. -/
def respond (w : World Model) (line : String) : String × World Model :=
  match parse line with
  | none => ("not understood", w)
  | some (path, request) =>
    match w.call path request with
    | (some (.ok a), w) => (answerLine request a, w)
    | (some (.error e), w) => (e.message, w)
    | (none, w) => ("no answer", w)

end Peripheral.Console
