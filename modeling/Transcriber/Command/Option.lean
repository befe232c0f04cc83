/-!
# The options of the command line

Every option has a short and a long name and a line of help; some take an argument.

* `OptionSpec` — an option.
* `OptionSpec.all` — the options of the program, in the order in which they are listed.
-/

namespace Transcriber.Command

/-- A setting that an option turns on. -/
inductive Switch where
  /-- Measures the run. -/
  | profile
  /-- Prints the syntax tree of the source. -/
  | sourceTree
  /-- Leaves out the check of the output. -/
  | skipCheck
  /-- Leaves out the standard settings. -/
  | noDefaults
  | outline
  | noColor
  /-- Leaves out the output itself. -/
  | skipOutput
  | tokens
deriving DecidableEq, Repr

inductive Effect where
  | help
  | version
  /-- Adds a settings module. -/
  | settings
  /-- Adds a directory of settings files. -/
  | settingsDirectory
  | logLevel
  | turnOn (switch : Switch)
deriving DecidableEq, Repr

structure OptionSpec where
  short : String
  long : String
  /-- What the argument is called in the help; an option without one takes no argument. -/
  argument : Option String
  effect : Effect
  help : String
deriving DecidableEq, Repr

namespace OptionSpec

def all : List OptionSpec := [
  ⟨"-h", "--help", none, .help, "show this help message and exit"⟩,
  ⟨"-c", "--config", some "CONFIG", .settings, "Use CONFIG file or module.  May be repeated."⟩,
  ⟨"-d", "--config-dir", some "DIR", .settingsDirectory,
    "Use DIR to match input filename with config filename."⟩,
  ⟨"-f", "--profile", none, .turnOn .profile, "Profile execution and print results to stderr."⟩,
  ⟨"-j", "--java-ast", none, .turnOn .sourceTree, "Print java source AST tree to stderr."⟩,
  ⟨"-k", "--skip-compile", none, .turnOn .skipCheck, "Skip compile check on translated source."⟩,
  ⟨"-l", "--log-level", some "LOGLEVEL", .logLevel, "Set log level by name or value."⟩,
  ⟨"-n", "--no-defaults", none, .turnOn .noDefaults, "Ignore default configuration module."⟩,
  ⟨"-p", "--python-tree", none, .turnOn .outline, "Print python object tree to stderr."⟩,
  ⟨"-r", "--no-color", none, .turnOn .noColor, "Disable color output."⟩,
  ⟨"-s", "--skip-source", none, .turnOn .skipOutput,
    "Skip writing translated source; useful when printing trees"⟩,
  ⟨"-t", "--lexer-tokens", none, .turnOn .tokens, "Print lexer tokens to stderr."⟩,
  ⟨"-v", "--version", none, .version, "show program's version number and exit"⟩]

def names : List (String × OptionSpec) := all.flatMap fun o => [(o.short, o), (o.long, o)]

def named? (name : String) : Option OptionSpec := names.lookup name

def title (o : OptionSpec) : String := o.short ++ "/" ++ o.long

def withArgument (o : OptionSpec) (name : String) : String :=
  match o.argument with
  | some argument => name ++ " " ++ argument
  | none => name

end OptionSpec

/-- An argument that stands for itself. -/
structure Positional where
  name : String
  help : String
deriving DecidableEq, Repr

def positionals : List Positional := [
  ⟨"INPUT", "Read from INPUT.  May use - for stdin (default)."⟩,
  ⟨"OUTPUT", "Write to OUTPUT.  May use - for stdout (default)."⟩]

end Transcriber.Command
