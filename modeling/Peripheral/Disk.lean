import Peripheral.Bytes
import Peripheral.Path

/-!
# Files

The part of a file system that settings and sockets need: directories, files with their content, and sockets that belong
to a listener. Every place is named by the list of names that lead to it from the root. A path that begins with a null
character names a socket outside of the file system, which is there as long as somebody listens, and an empty path makes a
socket that nobody can name.
-/

namespace Peripheral

/-- Why the system refused an operation. -/
inductive IoFault
  | notFound
  | notADirectory
  | isADirectory
  | invalidData
  | addressInUse
  | invalidInput
  | nameTooLong
  | connectionRefused
  | connectionReset
  | brokenPipe
  | interrupted
  | timedOut
  | other
  deriving DecidableEq, Repr

/-- A place: the names from the root to it. -/
abbrev Place := List (List Char)

/-- Who waits for connections: a run of a server. -/
structure Listener where
  server : Nat
  run : Nat
  deriving DecidableEq, Repr

/-- What is at a place. A socket names the listener that made it. -/
inductive Node
  | directory
  | file (content : Bytes)
  | socket (listener : Listener)
  deriving DecidableEq

/-- What is where. The root is always a directory, and relative paths start at the home. -/
structure Disk where
  nodes : List (Place × Node)
  home : Place
  /-- The listeners outside of the file system, by the names they took. -/
  aside : List (String × Listener)
  deriving DecidableEq

namespace Disk

/-- A disk with nothing on it. -/
def empty : Disk := ⟨[], [], []⟩

/-- What is at a place. -/
def node? (d : Disk) (p : Place) : Option Node := if p = [] then some .directory else d.nodes.lookup p

/-- Puts something at a place. -/
def put (d : Disk) (p : Place) (n : Node) : Disk := { d with nodes := (p, n) :: d.nodes.filter (fun e => e.1 ≠ p) }

/-- Takes away what is at a place. -/
def erase (d : Disk) (p : Place) : Disk := { d with nodes := d.nodes.filter (fun e => e.1 ≠ p) }

/-- The longest name, in bytes. -/
def longestName : Nat := 255

/-- The longest path, in bytes. -/
def longestPath : Nat := 4095

/-- Follows names from a place, which has to be a directory for each further name. -/
def walk (d : Disk) (p : Place) : List (List Char) → Except IoFault Place
  | [] => .ok p
  | n :: rest =>
    match d.node? p with
    | none => .error .notFound
    | some .directory =>
      if n = ['.', '.'] then d.walk p.dropLast rest
      else if longestName < (String.ofList n).utf8ByteSize then .error .nameTooLong
      else d.walk (p ++ [n]) rest
    | some _ => .error .notADirectory

/-- Where a path starts. -/
def start (d : Disk) (path : String) : Place := if Path.isAbsolute path then [] else d.home

/-- Whether a path ends in a way that only fits a directory. -/
def wantsDirectory (path : String) : Bool :=
  match (Path.split path.toList).getLast? with
  | some s => s = [] || s = ['.']
  | none => false

/-- Whether the last name of a path is a dot. -/
def endsInDot (path : String) : Bool := ((Path.split path.toList).filter (· ≠ [])).getLast? == some ['.']

/-- What is wrong with a path whatever is on the disk. -/
def flaw? (path : String) : Option IoFault :=
  if path.toList.contains '\x00' then some .invalidInput
  else if longestPath < path.utf8ByteSize then some .nameTooLong
  else none

/-- The place of a path. -/
def place (d : Disk) (path : String) : Except IoFault Place :=
  match flaw? path with
  | some f => .error f
  | none => if path.isEmpty then .error .notFound else d.walk (d.start path) (Path.names path)

/-- What a path leads to. -/
def find (d : Disk) (path : String) : Except IoFault Node := do
  let p ← d.place path
  match d.node? p with
  | none => .error .notFound
  | some .directory => .ok .directory
  | some n => if wantsDirectory path then .error .notADirectory else .ok n

/-- Whether a path leads to something. -/
def exists? (d : Disk) (path : String) : Bool :=
  match d.find path with
  | .ok _ => true
  | .error _ => false

/-- The content of a file. -/
def read (d : Disk) (path : String) : Except IoFault Bytes := do
  match ← d.find path with
  | .file content => .ok content
  | .directory => .error .isADirectory
  | .socket _ => .error .other

/-- Makes the missing directories on the way to a place and at it, if nothing else is in the way. -/
def makeDirectories (d : Disk) (p : Place) : List (List Char) → Except IoFault Disk
  | [] => .ok d
  | n :: rest =>
    if n = ['.', '.'] then d.makeDirectories p.dropLast rest
    else if longestName < (String.ofList n).utf8ByteSize then .error .nameTooLong
    else
      match d.node? (p ++ [n]) with
      | none => (d.put (p ++ [n]) .directory).makeDirectories (p ++ [n]) rest
      | some .directory => d.makeDirectories (p ++ [n]) rest
      | some _ => .error .notADirectory

/-- Makes a directory and those on the way to it. -/
def makeDirectory (d : Disk) (path : String) : Except IoFault Disk :=
  match flaw? path with
  | some f => .error f
  | none => d.makeDirectories (d.start path) (Path.names path)

/-- Writes a file in a directory that is there. A socket cannot be written over. -/
def write (d : Disk) (path : String) (content : Bytes) : Except IoFault Disk := do
  let p ← d.place path
  match d.node? p.dropLast, d.node? p with
  | some .directory, some .directory => .error .isADirectory
  | some .directory, some (.socket _) => .error .other
  | some .directory, _ => if wantsDirectory path then .error .isADirectory else .ok (d.put p (.file content))
  | none, _ => .error .notFound
  | some _, _ => .error .notADirectory

/-- Removes a file or socket; directories stay. -/
def remove (d : Disk) (path : String) : Disk :=
  match d.place path, d.find path with
  | .ok p, .ok n => if n = .directory then d else d.erase p
  | _, _ => d

/-- The longest path of a socket, in bytes. -/
def longestSocketPath : Nat := 107

/-- Whether a path names a socket outside of the file system. -/
def isAside (path : String) : Bool := path.toList.head? == some '\x00'

/-- Makes a socket at a path that nothing is at. -/
def bindAt (d : Disk) (path : String) (listener : Listener) : Except IoFault Disk := do
  let p ← d.place path
  match d.node? p with
  | some .directory => .error .addressInUse
  | some _ => if endsInDot path then .error .notADirectory else .error .addressInUse
  | none => if wantsDirectory path then .error .notFound else .ok (d.put p (.socket listener))

/-- Makes a socket. -/
def bind (d : Disk) (path : String) (listener : Listener) : Except IoFault Disk :=
  if isAside path then
    if longestSocketPath + 1 < path.utf8ByteSize then .error .invalidInput
    else if (d.aside.lookup path).isSome then .error .addressInUse
    else .ok { d with aside := (path, listener) :: d.aside }
  else if longestSocketPath < path.utf8ByteSize then .error .invalidInput
  else if path.isEmpty then .ok d
  else d.bindAt path listener

/-- A listener stops to listen; the names that it took aside are free again. -/
def release (d : Disk) (l : Listener) : Disk := { d with aside := d.aside.filter (·.2 ≠ l) }

/-- The listener behind a path that somebody wants to connect to. -/
def listener (d : Disk) (path : String) : Except IoFault Listener :=
  if isAside path then
    if longestSocketPath + 1 < path.utf8ByteSize then .error .invalidInput
    else
      match d.aside.lookup path with
      | some l => .ok l
      | none => .error .connectionRefused
  else if longestSocketPath < path.utf8ByteSize || path.isEmpty then .error .invalidInput
  else
    match d.find path with
    | .ok (.socket l) => .ok l
    | .ok _ => .error .connectionRefused
    | .error f => .error f

end Disk

end Peripheral
