import Transcriber.Command.Arguments
import Transcriber.Command.Usage
import Transcriber.Print.Outline
import Transcriber.Report

/-!
# Running the command

What a command line leads to: a text and an exit code, or a run.  A run reads from the standard
input; a command line that names a file or a directory of settings cannot be carried out, and the
source is never accepted.

* `Exit.code`, `Exit.output`, `Exit.complaint` — what a command line without a run gives.
* `Options.run` — the run.
-/

namespace Transcriber.Command

namespace Exit

def code : Exit → Nat
  | help => 0
  | version => 0
  | mistake _ => 2

def output : Exit → String
  | help => helpText
  | version => versionText
  | mistake _ => ""

def complaint : Exit → String
  | mistake message => usage ++ program ++ ": error: " ++ message ++ "\n"
  | _ => ""

end Exit

structure Run where
  result : Except Failure Nat
  report : Report

namespace Options

def given : Option FileName → Bool
  | none => false
  | some (.named path) => !path.isEmpty
  | some .standard => true

/-- The escape sequences that stay in use. -/
def escapes (o : Options) (colored : Bool) : List (String × String) :=
  Color.table (colored && !o.has .noColor)

def run (o : Options) : Run :=
  if given o.input || given o.output || !o.settingsDirectories.isEmpty then
    ⟨.error .unknownName, []⟩
  else ⟨.ok (if o.has .profile then 0 else 1), [⟨.error, "exception while parsing"⟩]⟩

end Options

end Transcriber.Command
