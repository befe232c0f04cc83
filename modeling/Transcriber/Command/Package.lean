import Transcriber.Command.Usage

/-!
# What the package says of itself

The package answers questions about itself: its name, its version, who made it, what it is for.

* `Package.Query` — the questions.
* `Package.answer` — the answers.
-/

namespace Transcriber.Package

inductive Query where
  | name | version | fullName | author | authorEmail | maintainer | maintainerEmail | contact
  | contactEmail
  | url | license | description | longDescription | platforms | classifiers | keywords | provides
  | requires
  | obsoletes
deriving DecidableEq, Repr

def name : String := "java2python"

def author : String := "Troy Melhase"

def authorEmail : String := "troy@troy.io"

def longDescription : String :=
  "This package provides tools to imperfectly translate Java source code to\nPython source code.\n\n"
    ++ "This version requires Python 2.7.\n"

def classifiers : List String := [
  "Development Status :: 4 - Beta",
  "Intended Audience :: Developers",
  "License :: OSI Approved :: GNU Library or Lesser General Public License (LGPL)",
  "Natural Language :: English",
  "Operating System :: OS Independent",
  "Operating System :: POSIX",
  "Programming Language :: Python",
  "Programming Language :: Java",
  "Topic :: Software Development",
  "Topic :: Software Development :: Code Generators"]

def answer : Query → Option String
  | .name => some name
  | .version => some Command.version
  | .fullName => some (name ++ "-" ++ Command.version)
  | .author => some author
  | .authorEmail => some authorEmail
  | .maintainer => some "None"
  | .maintainerEmail => some "None"
  | .contact => some author
  | .contactEmail => some authorEmail
  | .url => some "https://github.com/natural/java2python/"
  | .license => some "None"
  | .description => some "Simple but effective tool to translate Java source code into Python."
  | .longDescription => some longDescription
  | .platforms => none
  | .classifiers => some ("\n".intercalate classifiers)
  | .keywords => some "java,java2python,compiler"
  | .provides => some ""
  | .requires => some ""
  | .obsoletes => some ""

def options : List (String × Query) := [
  ("name", .name), ("version", .version), ("fullname", .fullName), ("author", .author),
  ("author-email", .authorEmail), ("maintainer", .maintainer), 
  ("maintainer-email", .maintainerEmail),
  ("contact", .contact), ("contact-email", .contactEmail), ("url", .url), ("license", .license),
  ("licence", .license), ("description", .description), ("long-description", .longDescription),
  ("platforms", .platforms), ("classifiers", .classifiers), ("keywords", .keywords),
  ("provides", .provides), ("requires", .requires), ("obsoletes", .obsoletes)]

def otherOptions : List String :=
  ["help-commands", "verbose", "quiet", "dry-run", "help", "no-user-cfg"]

/-- The question that a word of the command line asks.  A long option may be shortened as long as
only one begins so. -/
def query? (word : String) : Option Query :=
  if word == "-V" then some .version
  else
    match word.toList with
    | '-' :: '-' :: start =>
        match options.lookup (String.ofList start) with
        | some query => some query
        | none =>
            let fitting := fun (name : String) => start.isPrefixOf name.toList
            match options.filter fun entry => fitting entry.1 with
            | [(_, query)] => if otherOptions.any fitting then none else some query
            | _ => none
    | _ => none

/-- The answers to the questions of a command line, each on a line of its own. -/
def answers (words : List String) : Option String := do
  let found ← words.mapM fun word => do answer (← query? word)
  return String.join (found.map (· ++ "\n"))

end Transcriber.Package
