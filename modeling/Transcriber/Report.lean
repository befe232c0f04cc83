/-!
# Reports

Messages about the work, each with a level.  A reader asks for the messages from some level on.
-/

namespace Transcriber

inductive Level where
  | debug | info | warning | error
deriving DecidableEq, Repr

namespace Level

def rank : Level → Nat
  | debug => 10
  | info => 20
  | warning => 30
  | error => 40

def name : Level → String
  | debug => "DEBUG"
  | info => "INFO"
  | warning => "WARNING"
  | error => "ERROR"

end Level

structure Notice where
  level : Level
  message : String
deriving DecidableEq, Repr

abbrev Report := List Notice

namespace Report

/-- The messages at or above a level, in the order in which they were written. -/
def atLeast (report : Report) (level : Level) : List Notice :=
  (report.filter fun notice => level.rank ≤ notice.level.rank).reverse

end Report

end Transcriber
