import Transcriber.Command.LogLevel
import Transcriber.Command.Option
import Transcriber.Text.Digit

/-!
# Reading the command line

The words of a command line are options, arguments of options, and arguments that stand for
themselves. A long option may be shortened as long as only one option begins so; its argument may
follow an equals sign. Short options may be joined, and the last of them may have its argument
joined too.  Behind `--` no word is an option.  The two arguments that stand for themselves are
taken from the first place that has any.

* `Options` — what a command line says.
* `Options.read` — reading.
-/

namespace Transcriber.Command

inductive FileName where
  /-- The standard input or output. -/
  | standard
  | named (path : String)
deriving DecidableEq, Repr

structure Options where
  input : Option FileName := none
  output : Option FileName := none
  settings : List String := []
  settingsDirectories : List String := []
  logLevel : Nat := LogLevel.standard
  switches : List Switch := []
deriving DecidableEq, Repr

/-- Why there is nothing to do. -/
inductive Exit where
  | help
  | version
  /-- A mistake on the command line. -/
  | mistake (message : String)
deriving DecidableEq, Repr

structure Joined where
  /-- Whether it stands behind an equals sign. -/
  bySign : Bool
  text : List Char
deriving DecidableEq, Repr

inductive Word where
  | argument
  /-- The mark behind which no word is an option. -/
  | separator
  /-- An option, under the name that it is called by. -/
  | option (o : OptionSpec) (name : String) (joined : Option Joined)
  /-- What looks like an option and is none. -/
  | unknown
deriving DecidableEq, Repr

namespace Word

/-- The two sides of the first equals sign. -/
def atSign (cs : List Char) : List Char × Option (List Char) :=
  match cs.dropWhile (· != '=') with
  | [] => (cs, none)
  | _ :: rest => (cs.takeWhile (· != '='), some rest)

/-- The options that a word can mean, each with its name and the joined argument. -/
def meanings (cs : List Char) : List (OptionSpec × String × Option Joined) :=
  if cs[1]? == some '-' then
    let (start, joined) := atSign cs
    OptionSpec.names.filterMap fun (name, o) =>
      if start.isPrefixOf name.toList then some (o, name, joined.map fun text => ⟨true, text⟩)
      else none
  else
    OptionSpec.names.filterMap fun (name, o) =>
      if name.toList == cs.take 2 then some (o, name, some ⟨false, cs.drop 2⟩)
      else if cs.isPrefixOf name.toList then some (o, name, none)
      else none

/-- Whether a word without its first character is a number: digits, perhaps with a point. -/
def isNumber (cs : List Char) : Bool :=
  let cs := if cs.getLast? == some '\n' then cs.dropLast else cs
  let whole := cs.takeWhile Text.isDigit
  match cs.dropWhile Text.isDigit with
  | [] => !whole.isEmpty
  | '.' :: fraction => !fraction.isEmpty && fraction.all Text.isDigit
  | _ => false

/-- Tells options from arguments. -/
def classify (word : String) : Except Exit Word :=
  let cs := word.toList
  match cs with
  | '-' :: rest =>
      match OptionSpec.named? word with
      | some o => .ok (.option o word none)
      | none =>
          if rest.isEmpty then .ok .argument
          else
            let (start, joined) := atSign cs
            match joined, OptionSpec.named? (String.ofList start) with
            | some text, some o => .ok (.option o (String.ofList start) (some ⟨true, text⟩))
            | _, _ =>
                match meanings cs with
                | [(o, name, joined)] => .ok (.option o name joined)
                | [] => .ok (if isNumber rest || cs.contains ' ' then .argument else .unknown)
                | several => .error (.mistake ("ambiguous option: " ++ word ++ " could match "
                    ++ ", ".intercalate (several.map fun (_, name, _) => name)))
  | _ => .ok .argument

/-- Tells options from arguments up to the mark `--`. -/
def classifyAll : List String → Except Exit (List (String × Word))
  | [] => .ok []
  | word :: rest =>
      if word == "--" then .ok ((word, .separator) :: rest.map fun word => (word, .argument))
      else do
        let kind ← classify word
        return (word, kind) :: (← classifyAll rest)

def isOption : Word → Bool
  | option _ _ _ => true
  | unknown => true
  | _ => false

end Word

structure Reader where
  options : Options := {}
  /-- Whether the arguments that stand for themselves have been taken. -/
  taken : Bool := false
  /-- The words that have no meaning. -/
  extra : List String := []
deriving DecidableEq, Repr

namespace Reader

def mistake (o : OptionSpec) (message : String) : Exit :=
  .mistake ("argument " ++ o.title ++ ": " ++ message)

def apply (r : Reader) (o : OptionSpec) (argument : String) : Except Exit Reader :=
  match o.effect with
  | .help => .error .help
  | .version => .error .version
  | .settings => .ok { r with options.settings := r.options.settings ++ [argument] }
  | .settingsDirectory =>
      .ok { r with options.settingsDirectories := r.options.settingsDirectories ++ [argument] }
  | .logLevel =>
      match LogLevel.ofName argument with
      | .ok level => .ok { r with options.logLevel := level }
      | .error failure => .error (mistake o (failure.message?.getD ""))
  | .turnOn switch => .ok { r with options.switches := r.options.switches ++ [switch] }

/-- What the end of a word of joined options says. -/
inductive Ending where
  | complete (o : OptionSpec) (argument : List Char)
  /-- An option whose argument, if it takes one, is the next word. -/
  | open_ (o : OptionSpec)
  | lost (text : List Char)

/-- The options without arguments at the start of a word of joined options, and its end.  `joined`
is what stands behind the first option. -/
def joinedOptions (o : OptionSpec) (bySign : Bool) (joined : List Char) :
    Except Exit (List OptionSpec × Ending) :=
  if o.argument.isSome then .ok ([], .complete o joined)
  else
    let refusal : Exit :=
      mistake o ("ignored explicit argument " ++ Text.quoted (String.ofList joined))
    match joined with
    | [] => .error refusal
    | c :: rest =>
        if bySign || c == '-' then .error refusal
        else
          match OptionSpec.named? (String.ofList ['-', c]), rest with
          | none, _ => .ok ([o], .lost ('-' :: c :: rest))
          | some next, [] => .ok ([o], .open_ next)
          | some next, d :: more => do
              let (options, ending) ← if d == '=' then joinedOptions next true more
                else joinedOptions next false (d :: more)
              return (o :: options, ending)

/-- Takes an option at the start of the words: the reader after it and the words behind it. -/
def takeOption (r : Reader) (o : OptionSpec) (name : String) (joined : Option Joined)
    (rest : List (String × Word)) : Except Exit (Reader × List (String × Word)) := do
  let (options, ending) ← match joined with
    | none => pure ([], .open_ o)
    | some j => joinedOptions o (j.bySign || name == o.long) j.text
  match ending with
  | .lost text =>
      let r := { r with extra := r.extra ++ [String.ofList text] }
      return (← options.foldlM (fun r o => r.apply o "") r, rest)
  | .complete last argument =>
      let r ← options.foldlM (fun r o => r.apply o "") r
      return (← r.apply last (String.ofList argument), rest)
  | .open_ last =>
      match last.argument, rest with
      | none, rest => return (← (options ++ [last]).foldlM (fun r o => r.apply o "") r, rest)
      | some _, (argument, .argument) :: rest =>
          let r ← options.foldlM (fun r o => r.apply o "") r
          return (← r.apply last argument, rest)
      | some _, _ => throw (mistake last "expected one argument")

/-- Takes one argument that stands for itself, with the marks around it. -/
def takeOne (words : List (String × Word)) : Option String × List (String × Word) :=
  let isMark := fun (entry : String × Word) => entry.2 == .separator
  let before := words.takeWhile isMark
  let rest := words.dropWhile isMark
  let (found, rest) := match rest with
    | (text, .argument) :: rest => ([text], rest)
    | rest => ([], rest)
  let after := rest.takeWhile isMark
  (((before.map (·.1) ++ found ++ after.map (·.1)).erase "--").head?, rest.dropWhile isMark)

def fileOf (name : String) : FileName := if name == "-" then .standard else .named name

/-- Takes the arguments that stand for themselves, once. -/
def takePositionals (r : Reader) (words : List (String × Word)) : Reader × List (String × Word) :=
  if r.taken then (r, words)
  else
    let (input, rest) := takeOne words
    let (output, rest) := takeOne rest
    ({ r with
        taken := true, options.input := input.map fileOf, options.output := output.map fileOf },
      rest)

def readUpTo : Nat → Reader → List (String × Word) → Except Exit Reader
  | 0, r, _ => .ok r
  | fuel + 1, r, words =>
      if words.any fun entry => entry.2.isOption then
        match words with
        | [] => .ok r
        | (_, .option o name joined) :: rest => do
            let (r, rest) ← r.takeOption o name joined rest
            readUpTo fuel r rest
        | (word, .unknown) :: rest => readUpTo fuel { r with extra := r.extra ++ [word] } rest
        | words =>
            if r.taken then
              let isPlain := fun (entry : String × Word) => !entry.2.isOption
              let passed := (words.takeWhile isPlain).map (·.1)
              readUpTo fuel { r with extra := r.extra ++ passed } (words.dropWhile isPlain)
            else
              let (r, rest) := r.takePositionals words
              readUpTo fuel r rest
      else
        let (r, rest) := r.takePositionals words
        .ok { r with extra := r.extra ++ rest.map (·.1) }

end Reader

namespace Options

def read (words : List String) : Except Exit Options := do
  let r ← Reader.readUpTo (words.length + 1) {} (← Word.classifyAll words)
  if r.extra.isEmpty then return r.options
  else throw (.mistake ("unrecognized arguments: " ++ " ".intercalate r.extra))

def has (o : Options) (switch : Switch) : Bool := o.switches.contains switch

end Options

end Transcriber.Command
