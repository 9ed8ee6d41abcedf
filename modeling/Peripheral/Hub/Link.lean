import Peripheral.Hub.Pipe

/-!
# Links

A link is the connection to one client: a pipe in each direction, and the line of the tasks that want to write to the
client. The first in line holds the right to write; the others wait, in the order in which they came.
-/

namespace Peripheral

/-- The connection to one client. The numbers in line are those of tasks. -/
structure Link where
  inbound : Pipe
  outbound : Pipe
  line : List Nat
  deriving DecidableEq

namespace Link

/-- A new connection. -/
def fresh (capacity : Nat) : Link := ⟨.empty capacity, .empty capacity, []⟩

/-- A task gets in line. -/
def join (l : Link) (task : Nat) : Link := { l with line := l.line ++ [task] }

/-- A task leaves the line, wherever it stands. -/
def leave (l : Link) (task : Nat) : Link := { l with line := l.line.erase task }

/-- Whether a task holds the right to write. -/
def isHeldBy (l : Link) (task : Nat) : Bool := l.line.head? == some task

/-- The client writes as much as there is room for. -/
def feed (l : Link) (bytes : Bytes) : Nat × Link :=
  let n := min l.inbound.room bytes.length
  (n, { l with inbound := l.inbound.append (bytes.take n) })

/-- The client reads all that waits. -/
def collect (l : Link) : Bytes × Link :=
  let (bytes, outbound) := l.outbound.read l.outbound.held.length
  (bytes, { l with outbound })

/-- The client will write no more. -/
def halfClose (l : Link) : Link := { l with inbound := l.inbound.finish }

/-- The client goes away. -/
def hangUp (l : Link) : Link := { l with inbound := l.inbound.finish, outbound := l.outbound.abandon }

end Link

end Peripheral
