import Transcriber.Failure
import Transcriber.Text.Case
import Transcriber.Text.Quoted

/-!
# Log levels by name
-/

namespace Transcriber.LogLevel

def levels : List (String × Nat) := [
  ("CRITICAL", 50), ("FATAL", 50), ("ERROR", 40), ("WARN", 30), ("WARNING", 30), ("INFO", 20),
  ("DEBUG", 10),
  ("NOTSET", 0)]

/-- The level from which messages are shown unless another one is asked for. -/
def standard : Nat := 30

/-- The level with a name, in small or capital letters.  A number is not a name. -/
def ofName (name : String) : Except Failure Nat :=
  match levels.lookup (Text.upper name) with
  | some level => .ok level
  | none => .error (.logLevel (Text.quoted name))

end Transcriber.LogLevel
