import Transcriber.Grammar.Predict
import Transcriber.Grammar.Tree

/-!
# Parsing with recovery

A parser walks the right-hand sides of the rules.  It sees the tokens that are not hidden, by kind and
text, and counts them by position.  When a token does not fit, it makes a `Complaint` and goes on:

* if the token after it would fit, the token is dropped;
* if the token would fit one further on, the missing one is made up;
* otherwise the rule is given up, and tokens are dropped until one that a caller can go on with.

While it recovers it reports nothing, until a token fits again.  At the end of a round of a
repetition, tokens that neither continue it nor follow it are dropped at once; the tokens to go on
with are then remembered as expected at that place for the rest of the parse.

A parse goes down to a given depth.  A rule that is nested more deeply is given up like one whose
tokens do not fit, so a parse of tokens up to the end of the text always has a tree.

* `Reader`, `Session` — the fixed surroundings of a parse, and what changes during it.
* `parseWithin`, `parse` — a whole parse.
-/

namespace Transcriber.Grammar

open Transcriber.Lexical

/-- What a parser sees of a token. -/
structure Terminal where
  kind : Kind
  text : String
deriving DecidableEq, Repr

inductive Wording where
  | text (message : String)
  /-- Nothing fits the text from this position on. -/
  | unfit (start : Nat)
deriving DecidableEq, Repr

structure Complaint where
  position : Nat
  wording : Wording
deriving DecidableEq, Repr

/-- Why a rule is given up. -/
inductive Fault where
  /-- No alternative fits the tokens from position `start` to position `offending`. -/
  | noAlternative (site : State) (start offending : Nat)
  /-- The current token is not the one required. -/
  | mismatch (site : State)
  /-- The rules are nested more deeply than the parse goes. -/
  | tooDeep
  /-- The tokens could not be read this far. -/
  | unreadable
deriving DecidableEq, Repr

/-- What stays the same during a parse. -/
structure Reader where
  table : Table
  terminals : Array Terminal
  /-- The first problem ends the parse. -/
  strict : Bool

/-- The token at a position; the end of the text stands at all positions from its own on. -/
def Reader.terminalAt? (r : Reader) (position : Nat) : Option Terminal :=
  match r.terminals[position]? with
  | some token => some token
  | none => r.terminals.back?.filter fun last => last.kind == Kind.endOfText

/-- What changes during a parse. -/
structure Session where
  position : Nat
  /-- The furthest position looked at. -/
  furthest : Nat
  recovering : Bool
  /-- Where the last rule was given up, and at which states there. -/
  lastFault : Option Nat
  faultSites : List State
  /-- Tokens remembered as expected at the ends of rounds. -/
  remembered : List (State × TokenSet)
  /-- The children of the node being built, last one first. -/
  children : List Tree
  labels : List (String × Mark)
  /-- Complaints and visits, last one first. -/
  complaints : List Complaint
  visits : List Visit

def Session.previous (s : Session) : Option Nat :=
  match s.position with
  | 0 => none
  | position + 1 => some position

/-- Takes a token into the node being built.  The end of the text can be taken any number of times. -/
def Session.take (s : Session) (token : Terminal) : Session :=
  let leaf : Leaf := ⟨token.kind, token.text, some s.position⟩
  { s with
    children := (if s.recovering then Tree.error leaf else Tree.leaf leaf) :: s.children
    position := if token.kind == Kind.endOfText then s.position else s.position + 1 }

/-- Parsing steps: they may fail, and what they did until then stays. -/
abbrev Parser := ReaderT Reader (ExceptT Fault (StateM Session))

namespace Parser

def terminalAt (position : Nat) : Parser Terminal := do
  let r ← read
  modify fun s => { s with furthest := max s.furthest position }
  match r.terminalAt? position with
  | some token => return token
  | none => throw .unreadable

def current : Parser Terminal := do terminalAt (← get).position

def here : Parser Nat := do return (← get).position

def previous : Parser (Option Nat) := do return (← get).previous

/-- Takes the current token, and looks at the next one. -/
def consume : Parser Unit := do
  let token ← current
  modify fun s => s.take token
  let _ ← current

/-- A token fits: recovery is over. -/
def reportMatch : Parser Unit :=
  modify fun s => { s with recovering := false, lastFault := none, faultSites := [] }

/-- What can come next within the rule of a state, with what was remembered for it. -/
def next (site : State) : Parser Look := do
  let look := (← read).table.nextAt site
  match (← get).remembered.lookup site with
  | some kinds => return look.add kinds
  | none => return look

/-- Adds what can follow, caller by caller, for as long as the rules can end. -/
def expectedAfter : List State → Look → Parser TokenSet
  | [], look =>
      return if look.nullable then look.tokens.union (.single Kind.endOfText) else look.tokens
  | caller :: callers, look => do
      if look.nullable then
        let after ← next caller
        expectedAfter callers { after with tokens := look.tokens.union after.tokens }
      else return look.tokens

def expected (site : State) (callers : List State) : Parser TokenSet := do
  expectedAfter callers (← next site)

def recoverySet : List State → Parser TokenSet
  | [] => return .empty
  | caller :: callers => do
      let look ← next caller
      return look.tokens.union (← recoverySet callers)

def complain (position : Nat) (wording : Wording) : Parser Unit :=
  modify fun s => { s with
    recovering := true
    complaints := ⟨position, wording⟩ :: s.complaints }

/-- A text between quotes, with line breaks and tabs spelled out. -/
def quoted (text : String) : String := "'" ++ String.join (text.toList.map showChar) ++ "'"

/-- Complains about what makes a rule be given up, unless recovery is under way. -/
def reportFault (callers : List State) (fault : Fault) : Parser Unit := do
  if (← get).recovering then return ()
  match fault with
  | .unreadable => return ()
  | .tooDeep => complain (← here) (.text "nested too deeply")
  | .mismatch site =>
      let token ← current
      let kinds ← expected site callers
      complain (← here) (.text ("mismatched input " ++ quoted token.text ++ " expecting " ++
        (← read).table.network.vocabulary.displaySet kinds))
  | .noAlternative _ start offending =>
      let first ← terminalAt start
      let _ ← terminalAt offending
      if first.kind == Kind.endOfText then
        complain offending (.text "no viable alternative at input '<EOF>'")
      else
        -- All tokens are read before their texts are joined.
        let _ ← terminalAt ((← read).terminals.size)
        complain offending (.unfit start)

def skipUntil (kinds : TokenSet) : Nat → Parser Unit
  | 0 => return ()
  | fuel + 1 => do
      let token ← current
      if token.kind == Kind.endOfText || kinds.mem token.kind then return ()
      consume
      skipUntil kinds fuel

def left : Parser Nat := do return (← read).terminals.size + 1

/-- Gives a rule up: tokens are dropped until one that a caller can go on with.  When this has
happened before at the same token and state, at least one token is dropped. -/
def recover (callers : List State) (site : State) : Parser Unit := do
  let s ← get
  if s.lastFault == some s.position && s.faultSites.contains site then consume
  modify fun s => { s with lastFault := some s.position, faultSites := site :: s.faultSites }
  skipUntil (← recoverySet callers) (← left)

/-- Complains about the current token as one too many, unless recovery is under way. -/
def reportUnwanted (callers : List State) (site : State) : Parser Unit := do
  if (← get).recovering then return ()
  let token ← current
  let kinds ← expected site callers
  complain (← here) (.text ("extraneous input " ++ quoted token.text ++ " expecting " ++
    (← read).table.network.vocabulary.displaySet kinds))

/-- Drops the current token if the next one is expected here. -/
def dropOne (callers : List State) (site : State) : Parser Bool := do
  let following ← terminalAt ((← get).position + 1)
  let kinds ← expected site callers
  if kinds.mem following.kind then
    reportUnwanted callers site
    consume
    reportMatch
    return true
  else return false

/-- Checks the current token against what can come next at the start of a group. -/
def syncStart (callers : List State) (site : State) : Parser Unit := do
  if (← get).recovering || (← read).strict then return ()
  let look ← next site
  let token ← current
  if look.nullable || look.tokens.mem token.kind then return ()
  if ← dropOne callers site then return () else throw (.mismatch site)

/-- Checks the current token against what can come next at the end of a round of a repetition. -/
def syncBack (callers : List State) (site : State) : Parser Unit := do
  if (← get).recovering || (← read).strict then return ()
  let look ← next site
  let token ← current
  if look.nullable || look.tokens.mem token.kind then return ()
  reportUnwanted callers site
  let kinds := (← expected site callers).union (← recoverySet callers)
  modify fun s => { s with remembered := (site, kinds) :: s.remembered }
  skipUntil kinds (← left)

/-- Recovers where a token of a set is required and another one stands.  The result is the token
that is taken or made up; a made-up token has no position. -/
def recoverToken (callers : List State) (site : State) : Parser Leaf := do
  if (← read).strict then throw (.mismatch site)
  if ← dropOne callers site then
    let token ← current
    let position ← here
    consume
    return ⟨token.kind, token.text, some position⟩
  let net := (← read).table.network
  let after := (net.edgesAt site).findSome? fun edge => match edge with
    | .read _ target => some target
    | _ => none
  let token ← current
  let fits := match after with
    | some target => (net.look .closed target callers).tokens.mem token.kind
    | none => false
  if fits then
    let kinds ← expected site callers
    if !(← get).recovering then
      complain (← here)
        (.text ("missing " ++ net.vocabulary.displaySet kinds ++ " at " ++ quoted token.text))
    let kind := (kinds.toList (net.vocabulary.names.length + 1)).headD Kind.endOfText
    return ⟨kind, net.vocabulary.missingText kind, none⟩
  else throw (.mismatch site)

def setLabel (label : Option String) (mark : Mark) : Parser Unit :=
  match label with
  | none => return ()
  | some name => modify fun s =>
      { s with labels := (name, mark) :: s.labels.filter fun l => l.1 != name }

def takeToken (callers : List State) (site : State) (kind : Kind) (label : Option String) :
    Parser Unit := do
  let token ← current
  if token.kind == kind then
    reportMatch
    consume
    setLabel label (.token token.text)
  else
    let leaf ← recoverToken callers site
    if leaf.position.isNone then modify fun s => { s with children := .error leaf :: s.children }
    setLabel label (.token leaf.text)

/-- Takes a token of a set.  One that is made up leaves no trace in the tree. -/
def takeOneOf (callers : List State) (site : State) (kinds : TokenSet) (label : Option String) :
    Parser Unit := do
  let token ← current
  setLabel label (.token token.text)
  if kinds.mem token.kind then
    reportMatch
    consume
  else
    let leaf ← recoverToken callers site
    setLabel label (.token leaf.text)

def predictAt (callers : List State) (level : Nat) (site : State) : Parser Nat := do
  let r ← read
  let position := (← get).position
  let net := r.table.network
  let input : Ahead := fun ahead => (r.terminalAt? (position + ahead)).map Terminal.kind
  let question : Question := {
    network := net
    site := site
    loop := net.loops.find? fun l => l.entry == site
    callers := callers
    level := level }
  let (prediction, furthest) := predict question input (r.terminals.size - position + 1)
  modify fun s => { s with furthest := max s.furthest (position + furthest) }
  match prediction with
  | .alt number => return number
  | .noneLeft ahead => throw (.noAlternative site position (position + ahead))
  | .unreadable => throw .unreadable

/-- The number, from 1, of the first set with the current token; 0 if there is none. -/
def chooseByToken (sets : List TokenSet) : Parser Nat := do
  let token ← current
  match sets.findIdx? fun set => set.mem token.kind with
  | some index => return index + 1
  | none => return 0

def visit (entering : Bool) (rule start : Nat) : Parser Unit :=
  modify fun s => { s with visits := ⟨entering, rule, start⟩ :: s.visits }

/-- Gives a rule up where it fails, unless the first problem ends the parse. -/
def orRecover (callers : List State) (body : Parser Unit) : Parser Unit :=
  tryCatch body fun fault => do
    if (← read).strict then throw fault
    match fault with
    | .unreadable => throw fault
    | .tooDeep =>
        reportFault callers fault
        skipUntil (← recoverySet callers) (← left)
    | .mismatch site =>
        reportFault callers fault
        recover callers site
    | .noAlternative site _ _ =>
        reportFault callers fault
        recover callers site

/-- Builds a node of a rule from what `content` takes, given the position of its first token. -/
def buildNode (rule : Nat) (content : Nat → Parser Unit) : Parser Tree := do
  let outer ← get
  set { outer with children := [], labels := [] }
  visit true rule outer.position
  content outer.position
  let stop ← previous
  visit false rule outer.position
  let inside ← get
  set { inside with children := outer.children, labels := outer.labels }
  return .node ⟨rule, outer.position, stop, inside.labels.reverse⟩ inside.children.reverse

end Parser

open Transcriber.Grammar.Parser

mutual

/-- Parses one use of a rule.  `callers` are the states to come back to, innermost first.  The first
argument, here and below, is how deep the parse still goes; a further step or round counts too. -/
def parseRule : Nat → Nat → Nat → List State → Parser Tree
  | 0, _, _, _ => throw .tooDeep
  | depth + 1, rule, level, callers =>
      buildNode rule fun start => orRecover callers do
        match (← read).table.network.rules[rule]? with
        | none => return ()
        | some layout =>
            parseSteps depth callers level layout.body
            match layout.loop with
            | none => return ()
            | some (entry, inner, back, alternatives) =>
                syncStart callers entry
                parseOperators depth rule start callers level entry inner back alternatives

/-- Goes round the operators of a rule that continues itself.  Each round wraps what was read so far
into a node of its own. -/
def parseOperators :
    Nat → Nat → Nat → List State → Nat → State → State → State → List (List Step) → Parser Unit
  | 0, _, _, _, _, _, _, _, _ => throw .tooDeep
  | depth + 1, rule, start, callers, level, entry, inner, back, alternatives => do
      if (← predictAt callers level entry) == 1 then
        visit false rule start
        syncStart callers inner
        let number ← predictAt callers level inner
        let stop ← previous
        modify fun s =>
          { s with
            children := [.node ⟨rule, start, stop, s.labels.reverse⟩ s.children.reverse]
            labels := [] }
        visit true rule start
        parseSteps depth callers level (alternatives.getD (number - 1) [])
        syncBack callers back
        parseOperators depth rule start callers level entry inner back alternatives

def parseSteps : Nat → List State → Nat → List Step → Parser Unit
  | 0, _, _, _ => throw .tooDeep
  | _ + 1, _, _, [] => return ()
  | depth + 1, callers, level, step :: rest => do
      parseStep depth callers level step
      parseSteps depth callers level rest

def parseStep : Nat → List State → Nat → Step → Parser Unit
  | 0, _, _, _ => throw .tooDeep
  | depth + 1, callers, level, step =>
      match step with
      | .token site kind label => takeToken callers site kind label
      | .oneOf site kinds label => takeOneOf callers site kinds label
      | .guard _ _ => return ()
      | .call _ follow rule level' label => do
          let tree ← parseRule depth rule level' (follow :: callers)
          let position := (← get).children.length
          modify fun s => { s with children := tree :: s.children }
          setLabel label (.child position)
      | .choice site alternatives => do
          syncStart callers site
          parseChoice depth callers level site alternatives
      | .optional site alternatives => do
          syncStart callers site
          match (← read).table.choiceAt site with
          | some sets => do
              let number ← chooseByToken (sets.take alternatives.length)
              if number ≠ 0 then parseSteps depth callers level (alternatives.getD (number - 1) [])
          | none => do
              let number ← predictAt callers level site
              parseSteps depth callers level (alternatives.getD (number - 1) [])
      | .star entry inner back alternatives => do
          syncStart callers entry
          parseRounds depth callers level entry inner back alternatives
      | .plus inner back alternatives => do
          syncStart callers inner
          parseRound depth callers level inner alternatives
          syncBack callers back
          parseRounds depth callers level back inner back alternatives

def parseChoice : Nat → List State → Nat → State → List (List Step) → Parser Unit
  | 0, _, _, _, _ => throw .tooDeep
  | depth + 1, callers, level, site, alternatives => do
      match (← read).table.choiceAt site with
      | some sets => do
          let number ← chooseByToken sets
          if number == 0 then
            let position := (← get).position
            throw (.noAlternative site position position)
          parseSteps depth callers level (alternatives.getD (number - 1) [])
      | none => do
          let number ← predictAt callers level site
          parseSteps depth callers level (alternatives.getD (number - 1) [])

def parseRound : Nat → List State → Nat → State → List (List Step) → Parser Unit
  | 0, _, _, _, _ => throw .tooDeep
  | depth + 1, callers, level, inner, alternatives =>
      match alternatives with
      | [only] => parseSteps depth callers level only
      | several => do
          syncStart callers inner
          parseChoice depth callers level inner several

/-- Parses further rounds for as long as the state `site` decides to. -/
def parseRounds : Nat → List State → Nat → State → State → State → List (List Step) → Parser Unit
  | 0, _, _, _, _, _, _ => throw .tooDeep
  | depth + 1, callers, level, site, inner, back, alternatives => do
      let number ← match (← read).table.choiceAt site with
        | some sets => chooseByToken (sets.take 1)
        | none => predictAt callers level site
      if number == 1 then
        parseRound depth callers level inner alternatives
        syncBack callers back
        parseRounds depth callers level site inner back alternatives

end

/-- The result of a parse, with positions among the tokens that were seen. -/
structure Outcome where
  tree : Except Fault Tree
  complaints : List Complaint
  visits : List Visit
  position : Nat
  /-- The furthest position looked at. -/
  furthest : Nat

def Session.begin : Session where
  position := 0
  furthest := 0
  recovering := false
  lastFault := none
  faultSites := []
  remembered := []
  children := []
  labels := []
  complaints := []
  visits := []

/-- A whole parse that goes down to a depth. -/
def parseWithin (depth : Nat) (table : Table) (strict : Bool) (terminals : List Terminal) (rule : Nat) :
    Outcome :=
  let reader : Reader := ⟨table, terminals.toArray, strict⟩
  let (result, final) := ((do
    let _ ← current
    parseRule (depth + 1) rule 0 [] : Parser Tree).run reader |>.run).run .begin
  { tree := result
    complaints := final.complaints.reverse
    visits := final.visits.reverse
    position := final.position
    furthest := final.furthest }

def parse (table : Table) (strict : Bool) (terminals : List Terminal) (rule : Nat) : Outcome :=
  parseWithin (4096 * (terminals.length + 2)) table strict terminals rule

end Transcriber.Grammar
