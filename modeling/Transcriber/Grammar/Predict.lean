import Transcriber.Grammar.Look
import Transcriber.Grammar.Stacks

/-!
# Prediction

Where one token does not decide between the alternatives of a state, all of them are followed
through the network at once, until one is left.  A `Path` is one alternative followed to one state.

Prediction runs in two modes.  The first does not know who called the rule: when a path runs off its
end, the rule may have been called from anywhere.  If paths of different alternatives can no longer
be told apart, prediction starts again with the actual callers; then an ambiguity is settled in
favour of the first alternative.

* `Path`, `addPath` — alternatives under way; paths that differ only in their stacks are merged.
* `close`, `advance` — following silent moves, and reading a token.
-/

namespace Transcriber.Grammar

open Transcriber.Lexical

/-- An alternative followed to a state. -/
structure Path where
  state : State
  /-- The alternative, counted from 1. -/
  alt : Nat
  returns : Stacks
  /-- The level that the current binding level must not exceed. -/
  guard : Option Nat
  /-- The path ran off the end of the rule that decides. -/
  outside : Bool
  /-- The path came back to a call that admits every operator. -/
  fresh : Bool
deriving DecidableEq, Repr

namespace Path

/-- Paths with the same key are merged. -/
def key (p : Path) : State × Nat × Option Nat := (p.state, p.alt, p.guard)

/-- What tells paths apart while silent moves are followed. -/
def mark (p : Path) : State × Nat × Option Nat × Stacks × Bool :=
  (p.state, p.alt, p.guard, p.returns, p.fresh)

/-- Whether the guard passes at a binding level. -/
def allowed (p : Path) (level : Nat) : Bool :=
  match p.guard with
  | none => true
  | some bound => level ≤ bound

end Path

/-- Adds a path at the end of some, or merges it with the one of the same key. -/
def addPath (wild : Bool) (p : Path) : List Path → List Path
  | [] => [p]
  | old :: rest =>
      if old.key = p.key then
        { old with
          returns := old.returns.merge wild p.returns
          outside := old.outside || p.outside
          fresh := old.fresh || p.fresh } :: rest
      else old :: addPath wild p rest

structure Question where
  network : Network
  site : State
  /-- Whether the deciding state belongs to a rule that continues itself. -/
  loop : Option SelfLoop
  /-- The actual callers, innermost first. -/
  callers : List State
  level : Nat

structure Closure where
  reached : List Path
  busy : List (State × Nat × Option Nat × Stacks × Bool)

namespace Closure

def insert (c : Closure) (wild : Bool) (p : Path) : Closure :=
  { c with reached := addPath wild p c.reached }

/-- Notes a path as under way; `none` if it already was. -/
def enter? (c : Closure) (p : Path) : Option Closure :=
  if c.busy.contains p.mark then none else some { c with busy := p.mark :: c.busy }

end Closure

/-- Whether a path may skip going round the loop of a rule that continues itself, because all its
callers are calls in last position of the same rule, which will go round themselves. -/
def Network.mayLeaveLoop (net : Network) (p : Path) : Bool :=
  match net.loops.find? fun l => l.entry == p.state with
  | none => false
  | some l =>
      p.returns != .none && !p.returns.hasBottom
        && p.returns.tops.all fun top => l.tails.contains top.1

structure Manner where
  /-- The callers are known. -/
  full : Bool
  /-- The end of the text has been read and may be read again. -/
  atEnd : Bool

def Network.reads (net : Network) (s : State) : Bool :=
  (net.edgesAt s).any fun edge => match edge with
    | .read .. => true
    | _ => false

/-- Follows the silent moves from a path.  `guards` says that guards still count, which they do
until the first token is read, and `depth` how many rules were entered since, negative once the
deciding rule was left. -/
def close (q : Question) (manner : Manner) : Nat → Bool → Int → Path → Closure → Closure
  | 0, _, _, _, c => c
  | fuel + 1, guards, depth, p, c =>
      let net := q.network
      let viaEdges (c : Closure) : Closure :=
        let ending := (net.endOf? p.state).isSome
        let edges := net.edgesAt p.state
        let c := if edges.isEmpty || net.reads p.state then c.insert (!manner.full) p else c
        let edges := if net.mayLeaveLoop p then edges.drop 1 else edges
        edges.foldl (fun c edge =>
          match edge with
          | .silent target => close q manner fuel guards depth { p with state := target } c
          | .back target outermost =>
              let suppressed := ending && outermost &&
                (match q.loop with
                | some l => net.endOf? p.state == some l.rule
                | none => false)
              let next := { p with
                state := target, outside := true, fresh := p.fresh || suppressed }
              match c.enter? next with
              | none => c
              | some c => close q manner fuel guards (depth - 1) next c
          | .call _ target follow =>
              let next := { p with state := target, returns := .push follow p.returns .none }
              close q manner fuel guards (if depth ≥ 0 then depth + 1 else depth) next c
          | .guard bound target =>
              if guards && depth == 0 then
                if manner.full then
                  if q.level ≤ bound then close q manner fuel guards depth { p with state := target } c else c
                else
                  let bound := match p.guard with
                    | none => bound
                    | some other => min bound other
                  close q manner fuel guards depth { p with state := target, guard := some bound } c
              else close q manner fuel guards depth { p with state := target } c
          | .read kinds target =>
              if manner.atEnd && kinds.mem Kind.endOfText then
                let next := { p with state := target }
                match c.enter? next with
                | none => c
                | some c => close q manner fuel guards depth next c
              else c) c
      match net.endOf? p.state with
      | none => viaEdges c
      | some _ =>
          if p.returns = .bottom then
            if manner.full then c.insert false p else viaEdges c
          else
            let c := p.returns.tops.foldl (fun c (top, below) =>
              close q manner fuel guards (depth - 1)
                { p with state := top, returns := below, fresh := false } c) c
            if p.returns.hasBottom then
              if manner.full then c.insert false { p with returns := .bottom } else viaEdges c
            else c

/-- A bound on the number of moves of one closure. -/
def Question.fuel (q : Question) (full : Bool) : Nat :=
  (q.network.size + 1) * (q.network.rules.size + (if full then q.callers.length else 0) + 8)

def Question.begin (q : Question) (full : Bool) : List Path :=
  let returns := if full then Stacks.ofList q.callers else .bottom
  let starts := (q.network.edgesAt q.site).zipIdx.filterMap fun (edge, index) =>
    match edge with
    | .silent target => some (⟨target, index + 1, returns, none, false, false⟩ : Path)
    | _ => none
  starts.foldl (fun set p => (close q ⟨full, false⟩ (q.fuel full) true 0 p ⟨set, []⟩).reached) []

def uniqueAlt? (paths : List Path) : Option Nat :=
  match paths with
  | [] => none
  | p :: rest => if rest.all fun r => r.alt == p.alt then some p.alt else none

def Network.ended (net : Network) (p : Path) : Bool := (net.endOf? p.state).isSome

/-- The paths after reading a token; `none` if there are none. -/
def advance (q : Question) (full : Bool) (set : List Path) (kind : Kind) : Option (List Path) :=
  let net := q.network
  let atEnd := kind == Kind.endOfText
  let (done, under) := set.partition net.ended
  let skipped := if full || atEnd then done else []
  let moved := under.foldl (fun moved p =>
    (net.edgesAt p.state).foldl (fun moved edge =>
      match edge with
      | .read kinds target =>
          if kinds.mem kind then addPath (!full) { p with state := target } moved else moved
      | _ => moved) moved) []
  let reached :=
    if skipped.isEmpty && !atEnd && (uniqueAlt? moved).isSome then moved
    else
      (moved.foldl (fun c p => close q ⟨full, atEnd⟩ (q.fuel full) false 0 p c) ⟨[], []⟩).reached
  let reached :=
    if atEnd then
      (reached.filter net.ended).foldl (fun set p => addPath (!full) p set) []
    else reached
  let reached :=
    if skipped.isEmpty || (full && reached.any net.ended) then reached
    else skipped.foldl (fun set p => addPath (!full) p set) reached
  if reached.isEmpty then none else some reached

/-- The alternatives that reached the same place, for each place. -/
def alternativesAt [BEq α] (place : Path → α) (paths : List Path) : List (List Nat) :=
  (paths.map place).eraseDups.map fun there =>
    ((paths.filter fun p => place p == there).map Path.alt).eraseDups

/-- The alternatives that reached the same state with the same stacks, for each such place. -/
def conflicts (paths : List Path) : List (List Nat) :=
  alternativesAt (fun p => (p.state, p.returns)) paths

/-- Whether some state was reached by one alternative only. -/
def someStateAlone (paths : List Path) : Bool :=
  (alternativesAt Path.state paths).any fun alts => alts.length == 1

def least? : List Nat → Option Nat
  | [] => none
  | n :: rest => some (rest.foldl min n)

/-- The alternative that is first wherever alternatives meet. -/
def settled? (paths : List Path) : Option Nat :=
  match (conflicts paths).filterMap least? with
  | [] => none
  | first :: rest => if rest.all (· == first) then some first else none

/-- Whether following further without knowing the callers cannot tell the alternatives apart. -/
def stuckLocally (net : Network) (paths : List Path) : Bool :=
  paths.all net.ended ||
    ((conflicts paths).any (fun alts => alts.length > 1) && !someStateAlone paths)

/-- The first alternative that reached the end of the deciding rule. -/
def finished? (q : Question) (paths : List Path) : Option Nat :=
  let done_ (p : Path) : Bool := p.outside || (q.network.ended p && p.returns.hasBottom)
  let first (paths : List Path) : Option Nat := least? ((paths.filter done_).map Path.alt)
  first (paths.filter fun p => p.allowed q.level)
    <|> first (paths.filter fun p => !p.allowed q.level)

inductive Prediction where
  /-- An alternative, counted from 1. -/
  | alt (number : Nat)
  /-- No alternative is left at the token this far ahead. -/
  | noneLeft (ahead : Nat)
  /-- The tokens could not be read that far. -/
  | unreadable
deriving DecidableEq, Repr

/-- The tokens ahead: kind of the token at a distance, if it can be read. -/
abbrev Ahead := Nat → Option Kind

/-- Prediction with the actual callers.  `ahead` counts the tokens read; the furthest one looked at
is part of the result. -/
def predictFully (q : Question) (input : Ahead) : Nat → Nat → List Path → Prediction × Nat
  | 0, ahead, _ => (.noneLeft ahead, ahead)
  | fuel + 1, ahead, set =>
      match input ahead with
      | none => (.unreadable, ahead)
      | some kind =>
          match advance q true set kind with
          | none =>
              match finished? q set with
              | some alt => (.alt alt, ahead)
              | none => (.noneLeft ahead, ahead)
          | some reached =>
              match uniqueAlt? reached <|> settled? reached with
              | some alt => (.alt alt, ahead)
              | none =>
                  let next := if kind == Kind.endOfText then ahead else ahead + 1
                  predictFully q input fuel next reached

/-- The alternatives whose guards pass, among those that meet or the only one; `none` if no guard is
in play. -/
def guarded? (q : Question) (paths : List Path) : Option (List Nat) :=
  if paths.all fun p => p.guard.isNone then none
  else
    let alts := match uniqueAlt? paths with
      | some alt => [alt]
      | none => (conflicts paths).flatten.eraseDups
    let passes (alt : Nat) : Bool := paths.any fun p => p.alt == alt && p.allowed q.level
    if alts.all fun alt => paths.any fun p => p.alt == alt && p.guard.isNone then none
    else some (alts.filter passes)

/-- Prediction without knowing the callers, which falls back on `predictFully`. -/
def predictLocally (q : Question) (input : Ahead) (bound : Nat) :
    Nat → Nat → List Path → Prediction × Nat
  | 0, ahead, _ => (.noneLeft ahead, ahead)
  | fuel + 1, ahead, set =>
      match input ahead with
      | none => (.unreadable, ahead)
      | some kind =>
          match advance q false set kind with
          | none =>
              match finished? q set with
              | some alt => (.alt alt, ahead)
              | none => (.noneLeft ahead, ahead)
          | some reached =>
              let again (_ : Unit) : Prediction × Nat :=
                let (prediction, furthest) := predictFully q input bound 0 (q.begin true)
                (prediction, max ahead furthest)
              match uniqueAlt? reached with
              | some alt =>
                  match guarded? q reached with
                  | some [] => (.noneLeft 0, ahead)
                  | _ => (.alt alt, ahead)
              | none =>
                  if stuckLocally q.network reached then
                    match guarded? q reached with
                    | some [alt] => (.alt alt, ahead)
                    | _ => again ()
                  else
                    let next := if kind == Kind.endOfText then ahead else ahead + 1
                    predictLocally q input bound fuel next reached

/-- Keeps of the paths of the loop of a rule that continues itself those that the binding level
admits: operators that bind less are dropped, and so is leaving the loop where the same operator can
be read by going round. -/
def byLevel (q : Question) (set : List Path) : List Path :=
  let round := set.filter fun p => p.alt == 1 && p.allowed q.level
  let leaving := (set.filter fun p => p.alt != 1).filter fun p =>
    p.fresh || !(match (round.filter fun r => r.state == p.state).getLast? with
      | some r => r.returns == p.returns
      | none => false)
  (round.map (fun (p : Path) => { p with guard := none }) ++ leaving).foldl
    (fun set p => addPath true p set) []

/-- Chooses among the alternatives of a state by the tokens ahead.  `bound` is at least their
number. -/
def predict (q : Question) (input : Ahead) (bound : Nat) : Prediction × Nat :=
  let start := q.begin false
  let start := if q.loop.isSome then byLevel q start else start
  predictLocally q input (bound + 2) (bound + 2) 0 start

end Transcriber.Grammar
