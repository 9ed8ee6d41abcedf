/-!
# Log entries

What a device reports while it works: a severity and a line of text.
-/

namespace Peripheral.Log

/-- How important an entry is. -/
inductive Level
  | trace
  | debug
  | info
  | warn
  | error
  deriving DecidableEq, Repr

/-- The name of a severity. -/
def Level.text : Level → String
  | trace => "TRACE"
  | debug => "DEBUG"
  | info => "INFO"
  | warn => "WARN"
  | error => "ERROR"

/-- One line of a log. -/
structure Entry where
  level : Level
  text : String
  deriving DecidableEq, Repr

/-- An entry about a single step. -/
def trace (text : String) : Entry := ⟨.trace, text⟩

/-- An entry for someone who looks into details. -/
def debug (text : String) : Entry := ⟨.debug, text⟩

/-- An entry about normal operation. -/
def info (text : String) : Entry := ⟨.info, text⟩

/-- An entry about something that went wrong and was coped with. -/
def warn (text : String) : Entry := ⟨.warn, text⟩

end Peripheral.Log
