import Transcriber.Grammar.Tree

/-!
# Finding children by name

Each token name and rule name that a production mentions can be asked for among the children of its
nodes.  A name that can stand more than once in a node has all its children in order; any other name
has one at most.

* `Accessor.find` — the positions of the children with a name.
-/

namespace Transcriber.Grammar

mutual

/-- How often a name can stand in an element, counted up to any number above one. -/
def Item.count (name : String) : Item → Nat
  | .token n _ => if n = name then 1 else 0
  | .oneOf names _ => if names.contains name then 1 else 0
  | .call rule _ _ => if rule = name then 1 else 0
  | .guard _ => 0
  | .group .once alternatives => countInAlternatives name alternatives
  | .group .optional alternatives => countInAlternatives name alternatives
  | .group .star alternatives => 2 * countInAlternatives name alternatives
  | .group .plus alternatives => 2 * countInAlternatives name alternatives

def countInItems (name : String) : List Item → Nat
  | [] => 0
  | item :: rest => item.count name + countInItems name rest

def countInAlternatives (name : String) : List (List Item) → Nat
  | [] => 0
  | items :: rest => max (countInItems name items) (countInAlternatives name rest)

end

mutual

/-- The names in an element; `true` marks token names. -/
def Item.mentions : Item → List (String × Bool)
  | .token n _ => [(n, true)]
  | .oneOf names _ => names.map fun n => (n, true)
  | .call rule _ _ => [(rule, false)]
  | .guard _ => []
  | .group _ alternatives => mentionsOfAlternatives alternatives

def mentionsOfItems : List Item → List (String × Bool)
  | [] => []
  | item :: rest => item.mentions ++ mentionsOfItems rest

def mentionsOfAlternatives : List (List Item) → List (String × Bool)
  | [] => []
  | items :: rest => mentionsOfItems items ++ mentionsOfAlternatives rest

end

/-- A name that can be asked for among the children of a node. -/
structure Accessor where
  name : String
  isToken : Bool
  /-- The name can stand more than once. -/
  several : Bool
deriving DecidableEq, Repr

/-- The names that can be asked for in nodes of a production.  An operator stands after a node of
the production itself. -/
def Production.accessors (p : Production) : List Accessor :=
  let operators := p.operators.map fun items => Item.ref p.name :: items
  let all := p.alternatives ++ operators
  (mentionsOfAlternatives all).eraseDups.map fun (name, isToken) =>
    ⟨name, isToken, countInAlternatives name all > 1⟩

def Accessor.fits (g : Ruleset) (a : Accessor) : Tree → Bool
  | .leaf token => a.isToken && token.kind == g.vocabulary.kindOf a.name
  | .error token => a.isToken && token.kind == g.vocabulary.kindOf a.name
  | .node head _ => !a.isToken && head.rule == g.ruleIndex a.name

def Accessor.find (g : Ruleset) (a : Accessor) (children : List Tree) : List Nat :=
  (children.zipIdx.filter fun entry => a.fits g entry.1).map Prod.snd

end Transcriber.Grammar
