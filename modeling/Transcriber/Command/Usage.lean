import Transcriber.Command.Option
import Transcriber.Command.Wrap

/-!
# Usage and help

The texts that describe the command line, laid out for a terminal of 80 columns.

* `usage` — the short description.
* `helpText` — the long one.
* `versionText` — the version.
-/

namespace Transcriber.Command

def program : String := "j2py"

def version : String := "0.5.1"

/-- The width of lines: two columns of the terminal stay free. -/
def lineWidth : Nat := 78

def helpColumn : Nat := 24

def blanks (n : Nat) : String := String.ofList (List.replicate n ' ')

def usage : String :=
  let opening := "usage: "
  let indent := opening.length + program.length + 1
  let optionParts := OptionSpec.all.map fun o => "[" ++ o.withArgument o.short ++ "]"
  let positionalParts := positionals.map fun p => "[" ++ p.name ++ "]"
  let optionLines := Wrap.lines lineWidth indent indent optionParts
  let positionalLines := Wrap.lines lineWidth indent indent positionalParts
  opening ++ program ++ " "
    ++ ("\n" ++ blanks indent).intercalate (optionLines ++ positionalLines) ++ "\n"

/-- A title and its help: side by side if the title is short enough, else the help begins on a line
of its own. -/
def entry (title help : String) : String :=
  let width := lineWidth - helpColumn
  let indented := ("\n" ++ blanks helpColumn).intercalate (Wrap.lines width 0 0 (Wrap.words help))
  let head := "  " ++ title
  if title.length + 4 ≤ helpColumn then
    head ++ blanks (helpColumn - head.length) ++ indented ++ "\n"
  else head ++ "\n" ++ blanks helpColumn ++ indented ++ "\n"

def helpText : String :=
  usage ++ "\nTranslate Java source code to Python.\n"
    ++ "\npositional arguments:\n" ++ String.join (positionals.map fun p => entry p.name p.help)
    ++ "\noptions:\n"
    ++ String.join (OptionSpec.all.map fun o =>
      entry (o.withArgument o.short ++ ", " ++ o.withArgument o.long) o.help)
    ++ "\nRefer to https://github.com/natural/java2python for docs and support.\n"

def versionText : String := program ++ " " ++ version ++ "\n"

end Transcriber.Command
