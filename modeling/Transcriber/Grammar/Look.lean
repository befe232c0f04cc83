import Transcriber.Grammar.Network

/-!
# What may come next

`look` collects the tokens that can be read first from a state of a network.  What happens at the
end of the rule depends on who asks:

* `Ending.open` — the caller does not matter, and reaching the end is only recorded;
* `Ending.closed` — after the rule, and the calls on the stack, comes the end of the text;
* `Ending.anywhere` — the rule may have been called from anywhere.

The search never enters a rule that it is already inside of, and visits no state twice with the same
stack.
-/

namespace Transcriber.Grammar

open Transcriber.Lexical

/-- What follows the outermost rule. -/
inductive Ending where
  | open
  | closed
  | anywhere
deriving DecidableEq, Repr

/-- The tokens that can come first, and whether the end can be reached without a token.  `guarded`
says that a guard stood in the way of the search or was passed by it. -/
structure Look where
  tokens : TokenSet
  nullable : Bool
  guarded : Bool
deriving DecidableEq, Repr

namespace Look

def none : Look := ⟨.empty, false, false⟩

def add (l : Look) (kinds : TokenSet) : Look := { l with tokens := l.tokens.union kinds }

end Look

/-- A search in progress: what it has found, and the states it has visited with their stacks. -/
structure Search where
  found : Look
  visited : List (State × List State)

/-- Searches on from a state.  `stack` holds the states to come back to, `inside` the rules entered.
-/
def searchFrom (net : Network) (ending : Ending) :
    Nat → State → List State → List Nat → Search → Search
  | 0, _, _, _, search => search
  | fuel + 1, s, stack, inside, search =>
      if search.visited.contains (s, stack) then search
      else
        let search := { search with visited := (s, stack) :: search.visited }
        let viaEdges (search : Search) : Search :=
          (net.edgesAt s).foldl (fun search edge =>
            match edge with
            | .silent target => searchFrom net ending fuel target stack inside search
            | .back target _ => searchFrom net ending fuel target stack inside search
            | .guard _ target =>
                let search := { search with found := { search.found with guarded := true } }
                if ending = .anywhere then search
                else searchFrom net ending fuel target stack inside search
            | .read kinds _ => { search with found := search.found.add kinds }
            | .call rule target follow =>
                if inside.contains rule then search
                else searchFrom net ending fuel target (follow :: stack) (rule :: inside) search) search
        match net.endOf? s, stack with
        | none, _ => viaEdges search
        | some _, top :: below =>
            searchFrom net ending fuel top below (inside.filter (· != net.ownerOf top)) search
        | some _, [] =>
            match ending with
            | .open => { search with found := { search.found with nullable := true } }
            | .closed => { search with found := search.found.add (.single Kind.endOfText) }
            | .anywhere => viaEdges search

def Network.look (net : Network) (ending : Ending) (s : State) (stack : List State) : Look :=
  let fuel := (net.size + 1) * (net.rules.size + stack.length + 2)
  (searchFrom net ending fuel s stack [] ⟨.none, []⟩).found

/-- For each alternative of a state, the tokens that it can begin with, if these alone tell the
alternatives apart. -/
def Network.tokenChoice? (net : Network) (s : State) : Option (List TokenSet) :=
  let looks := (net.edgesAt s).filterMap fun edge =>
    match edge with
    | .silent target => some (net.look .anywhere target [])
    | _ => none
  let sets := looks.map Look.tokens
  if looks.any (fun l => l.guarded || l.tokens == .empty) then none
  else
    let overlap := sets.foldl (fun (state : TokenSet × Bool) set =>
      (state.1.union set, state.2 || !state.1.disjoint set)) (.empty, false)
    if overlap.2 then none else some sets

/-- A network with the answers that a parser asks for again and again: what can come next within the
rule of each state, and the alternatives that one token decides. -/
structure Table where
  network : Network
  next : Array Look
  choices : Array (Option (List TokenSet))

def Table.ofNetwork (net : Network) : Table where
  network := net
  next := ((List.range net.size).map fun s => net.look .open s []).toArray
  choices := ((List.range net.size).map fun s =>
    if (net.edgesAt s).length < 2 || (net.endOf? s).isSome then none else net.tokenChoice? s).toArray

namespace Table

def nextAt (table : Table) (s : State) : Look := table.next.getD s .none

def choiceAt (table : Table) (s : State) : Option (List TokenSet) := table.choices.getD s none

end Table

end Transcriber.Grammar
