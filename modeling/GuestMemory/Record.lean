/-!
Log records: what an operation reports about itself, beside its answer.
-/

namespace GuestMemory

/-- How much a record matters to somebody who reads the log. -/
inductive Level where
  | error
  | debug
  | trace
  deriving DecidableEq

def Level.name : Level → String
  | .error => "ERROR"
  | .debug => "DEBUG"
  | .trace => "TRACE"

/-- One line of the log. -/
structure Record where
  level : Level
  text : String
  deriving DecidableEq

end GuestMemory
