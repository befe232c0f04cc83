import Transcriber.Grammar.Basic

/-!
# State networks of grammars

A grammar is laid out as a network of states.  Reading a token, calling a rule or passing a guard
leads from one state to the next; everything else is silent.  A parser walks the right-hand sides as
`Step`s, which carry the states they stand at; prediction and error recovery look at the network.

* `Edge`, `Step` — moves of the network, and right-hand sides with their states.
* `Network.ofGrammar` — the layout.
-/

namespace Transcriber.Grammar

open Transcriber.Lexical

abbrev State := Nat

inductive Edge where
  | silent (target : State)
  | read (kinds : TokenSet) (target : State)
  /-- Enters a rule at `target`; `follow` is where it comes back to. -/
  | call (rule : Nat) (target follow : State)
  /-- Passes only at a binding level that is at most `level`. -/
  | guard (level : Nat) (target : State)
  /-- From the end of a rule to a place where it may have been called; `outermost` when that call
  admits every operator of a rule that continues itself. -/
  | back (target : State) (outermost : Bool)
deriving DecidableEq, Repr

/-- An element of a right-hand side together with its states. -/
inductive Step where
  | token (at_ : State) (kind : Kind) (label : Option String)
  | oneOf (at_ : State) (kinds : TokenSet) (label : Option String)
  | call (at_ follow : State) (rule level : Nat) (label : Option String)
  | guard (at_ : State) (level : Nat)
  | choice (at_ : State) (alternatives : List (List Step))
  | optional (at_ : State) (alternatives : List (List Step))
  /-- Any number of times: `entry` decides whether to go on, `inner` among the alternatives, and
  `back` is where a round ends. -/
  | star (entry inner back : State) (alternatives : List (List Step))
  /-- At least once: `inner` decides among the alternatives, `back` whether to go on. -/
  | plus (inner back : State) (alternatives : List (List Step))

structure RuleLayout where
  name : String
  start : State
  stop : State
  /-- The right-hand side; for a rule that continues itself, what it begins with. -/
  body : List Step
  /-- For a rule that continues itself: the states and alternatives of the repetition. -/
  loop : Option (State × State × State × List (List Step))

/-- A rule that continues itself, as prediction sees it: the state that decides whether to go on,
and the states after calls of the rule in its own last positions. -/
structure SelfLoop where
  rule : Nat
  entry : State
  tails : List State
deriving Repr

structure Network where
  vocabulary : Vocabulary
  rules : Array RuleLayout
  edges : Array (List Edge)
  owner : Array Nat
  /-- The rule that each state is the end of. -/
  endOf : Array (Option Nat)
  loops : List SelfLoop

/-- A network under construction. -/
structure Draft where
  next : State
  /-- The rule being laid out. -/
  rule : Nat
  edges : List (State × Edge)
  owners : List (State × Nat)
  blockEnds : List State

namespace Draft

def fresh : StateM Draft State := do
  let d ← get
  set { d with next := d.next + 1, owners := (d.next, d.rule) :: d.owners }
  return d.next

def link (source : State) (edge : Edge) : StateM Draft Unit :=
  modify fun d => { d with edges := (source, edge) :: d.edges }

/-- A new state at which the alternatives of a group meet again. -/
def blockEnd : StateM Draft State := do
  let s ← fresh
  modify fun d => { d with blockEnds := s :: d.blockEnds }
  return s

/-- Silent moves from one state to several others, in order. -/
def fan (source : State) : List State → StateM Draft Unit
  | [] => return ()
  | target :: rest => do
      link source (.silent target)
      fan source rest

end Draft

/-- What the layout needs to know of the grammar: token kinds, rule numbers, and the start state of
each rule. -/
structure Names where
  vocabulary : Vocabulary
  rules : List String

namespace Names

/-- Rule number `i` starts at state `2 * i` and stops at state `2 * i + 1`. -/
def startOf (i : Nat) : State := 2 * i

/-- Rule number `i` starts at state `2 * i` and stops at state `2 * i + 1`. -/
def stopOf (i : Nat) : State := 2 * i + 1

end Names

mutual

/-- Lays out one element so that it leads to `target`; the result is the state it begins at. -/
def layItem (names : Names) (target : State) : Item → StateM Draft (State × Step)
  | .token name label => do
      let s ← Draft.fresh
      let kind := names.vocabulary.kindOf name
      Draft.link s (.read (.single kind) target)
      return (s, .token s kind label)
  | .oneOf members label => do
      let s ← Draft.fresh
      let kinds := TokenSet.ofList (members.map names.vocabulary.kindOf)
      Draft.link s (.read kinds target)
      return (s, .oneOf s kinds label)
  | .call name level label => do
      let s ← Draft.fresh
      let follow ← Draft.fresh
      let rule := names.rules.idxOf name
      Draft.link s (.call rule (Names.startOf rule) follow)
      Draft.link follow (.silent target)
      return (s, .call s follow rule level label)
  | .guard level => do
      let s ← Draft.fresh
      Draft.link s (.guard level target)
      return (s, .guard s level)
  | .group .once alternatives => do
      let s ← Draft.fresh
      let last ← Draft.blockEnd
      Draft.link last (.silent target)
      let laid ← layAlternatives names last alternatives
      Draft.fan s (laid.map Prod.fst)
      return (s, .choice s (laid.map Prod.snd))
  | .group .optional alternatives => do
      let s ← Draft.fresh
      let last ← Draft.blockEnd
      Draft.link last (.silent target)
      let laid ← layAlternatives names last alternatives
      Draft.fan s (laid.map Prod.fst ++ [last])
      return (s, .optional s (laid.map Prod.snd))
  | .group .star alternatives => do
      let entry ← Draft.fresh
      let inner ← Draft.fresh
      let back ← Draft.fresh
      let exit ← Draft.fresh
      let last ← Draft.blockEnd
      Draft.fan entry [inner, exit]
      Draft.link last (.silent back)
      Draft.link back (.silent entry)
      Draft.link exit (.silent target)
      let laid ← layAlternatives names last alternatives
      Draft.fan inner (laid.map Prod.fst)
      return (entry, .star entry inner back (laid.map Prod.snd))
  | .group .plus alternatives => do
      let inner ← Draft.fresh
      let back ← Draft.fresh
      let exit ← Draft.fresh
      let last ← Draft.blockEnd
      Draft.link last (.silent back)
      Draft.fan back [inner, exit]
      Draft.link exit (.silent target)
      let laid ← layAlternatives names last alternatives
      Draft.fan inner (laid.map Prod.fst)
      return (inner, .plus inner back (laid.map Prod.snd))

def layItems (names : Names) (target : State) : List Item → StateM Draft (State × List Step)
  | [] => return (target, [])
  | item :: rest => do
      let (next, steps) ← layItems names target rest
      let (s, step) ← layItem names next item
      return (s, step :: steps)

def layAlternatives (names : Names) (target : State) :
    List (List Item) → StateM Draft (List (State × List Step))
  | [] => return []
  | items :: rest => do
      let first ← layItems names target items
      let others ← layAlternatives names target rest
      return first :: others

end

def layProduction (names : Names) (index : Nat) (p : Production) : StateM Draft RuleLayout := do
  modify fun d => { d with rule := index }
  let start := Names.startOf index
  let stop := Names.stopOf index
  if p.operators.isEmpty then
    let body : List Item := match p.alternatives with
      | [only] => only
      | several => [.group .once several]
    let (first, steps) ← layItems names stop body
    Draft.link start (.silent first)
    return ⟨p.name, start, stop, steps, none⟩
  else
    let (entry, again) ← layItem names stop (.group .star p.operators)
    let (first, begun) ← layItem names entry (.group .once p.alternatives)
    Draft.link start (.silent first)
    let loop := match again with
      | .star entry inner back alternatives => some (entry, inner, back, alternatives)
      | _ => none
    return ⟨p.name, start, stop, [begun], loop⟩

def layProductions (names : Names) : Nat → List Production → StateM Draft (List RuleLayout)
  | _, [] => return []
  | index, p :: rest => do
      let first ← layProduction names index p
      let others ← layProductions names (index + 1) rest
      return first :: others

mutual

def Step.calls : Step → List (Nat × Nat × State)
  | .token .. => []
  | .oneOf .. => []
  | .guard .. => []
  | .call _ follow rule level _ => [(rule, level, follow)]
  | .choice _ alternatives => callsOfAlternatives alternatives
  | .optional _ alternatives => callsOfAlternatives alternatives
  | .star _ _ _ alternatives => callsOfAlternatives alternatives
  | .plus _ _ alternatives => callsOfAlternatives alternatives

def callsOfSteps : List Step → List (Nat × Nat × State)
  | [] => []
  | step :: rest => step.calls ++ callsOfSteps rest

def callsOfAlternatives : List (List Step) → List (Nat × Nat × State)
  | [] => []
  | steps :: rest => callsOfSteps steps ++ callsOfAlternatives rest

end

def RuleLayout.calls (r : RuleLayout) : List (Nat × Nat × State) :=
  callsOfSteps r.body ++ match r.loop with
    | some (_, _, _, alternatives) => callsOfAlternatives alternatives
    | none => []

namespace Network

def edgesAt (net : Network) (s : State) : List Edge := net.edges.getD s []

def ownerOf (net : Network) (s : State) : Nat := net.owner.getD s 0

def endOf? (net : Network) (s : State) : Option Nat := net.endOf.getD s none

def size (net : Network) : Nat := net.edges.size

def ruleIndex? (net : Network) (name : String) : Option Nat :=
  net.rules.findIdx? fun r => r.name == name

end Network

def silentTarget? (edges : Array (List Edge)) (s : State) : Option State :=
  match edges.getD s [] with
  | [.silent target] => some target
  | _ => none

/-- Whether a state after a call leads, by silent moves alone, to the end of an alternative and from
there back to the state `entry` that decides on going on. -/
def isTail (edges : Array (List Edge)) (blockEnds : List State) (entry back : State) (s : State) :
    Bool :=
  match silentTarget? edges s with
  | none => false
  | some target =>
      blockEnds.contains target &&
        (silentTarget? edges target == some back || silentTarget? edges target == some entry)

def Network.ofGrammar (g : Ruleset) : Network :=
  let names : Names := ⟨g.vocabulary, g.productions.map Production.name⟩
  let count := g.productions.length
  let begun : Draft := {
    next := 2 * count
    rule := 0
    edges := []
    owners := (List.range count).flatMap fun i => [(Names.startOf i, i), (Names.stopOf i, i)]
    blockEnds := [] }
  let (layouts, draft) := (layProductions names 0 g.productions).run begun
  let selfContinuing := layouts.map fun r => r.loop.isSome
  let backs := layouts.flatMap fun r => r.calls.map fun (rule, level, follow) =>
    (Names.stopOf rule, Edge.back follow (selfContinuing.getD rule false && level == 0))
  let states := List.range draft.next
  -- Both lists hold the moves of a state in reverse order, which consing undoes.
  let moves := draft.edges ++ backs.reverse
  let edges := (states.map fun s => ((moves.filter (·.1 == s)).map Prod.snd).reverse).toArray
  let owner := (states.map fun s => (draft.owners.lookup s).getD 0).toArray
  let endOf := (states.map fun s => (List.range count).find? fun i => Names.stopOf i == s).toArray
  let loops := layouts.zipIdx.filterMap fun (r, index) => r.loop.map fun (entry, _, back, _) =>
    let tails := (r.calls.filter fun call => call.1 == index).map fun call => call.2.2
    ({ rule := index, entry
       tails := tails.filter (isTail edges draft.blockEnds entry back) } : SelfLoop)
  { vocabulary := g.vocabulary, rules := layouts.toArray, edges, owner, endOf, loops }

end Transcriber.Grammar
