import Transcriber.Grammar.Basic

/-!
# Parse trees

A parse tree has a node for each use of a rule and a leaf for each token.  A token that did not fit
is an error leaf, and so is one that was made up where a token was missing; only the latter has no
position.

* `Tree.leaves` — the leaves from left to right.
-/

namespace Transcriber.Grammar

open Transcriber.Lexical

/-- A leaf: the kind and text of a token, and its position unless it was made up. -/
structure Leaf where
  kind : Kind
  text : String
  position : Option Nat
deriving DecidableEq, Repr

/-- What a label points at: a child, or a token. -/
inductive Mark where
  | child (position : Nat)
  | token (text : String)
deriving DecidableEq, Repr

/-- What is known of a node besides its children: the rule, the positions of the first token and of the
last one if there is one, and the labels. -/
structure Head where
  rule : Nat
  start : Nat
  stop : Option Nat
  labels : List (String × Mark)
deriving DecidableEq, Repr

inductive Tree where
  | leaf (token : Leaf)
  | error (token : Leaf)
  | node (head : Head) (children : List Tree)
deriving Repr

namespace Tree

mutual

def leaves : Tree → List Leaf
  | .leaf token => [token]
  | .error token => [token]
  | .node _ children => leavesOfAll children

def leavesOfAll : List Tree → List Leaf
  | [] => []
  | t :: rest => t.leaves ++ leavesOfAll rest

end

mutual

/-- The nodes, each before the nodes below it, with their children. -/
def nodes : Tree → List (Head × List Tree)
  | .leaf _ => []
  | .error _ => []
  | .node head children => (head, children) :: nodesOfAll children

def nodesOfAll : List Tree → List (Head × List Tree)
  | [] => []
  | t :: rest => t.nodes ++ nodesOfAll rest

end

end Tree

/-- Entering or leaving a node, in the order of a walk or of parsing. -/
structure Visit where
  entering : Bool
  rule : Nat
  /-- Position of the first token of the node. -/
  start : Nat
deriving DecidableEq, Repr

namespace Tree

mutual

/-- The nodes entered and left by a walk from left to right. -/
def visits : Tree → List Visit
  | .leaf _ => []
  | .error _ => []
  | .node head children =>
      ⟨true, head.rule, head.start⟩ :: (visitsOfAll children ++ [⟨false, head.rule, head.start⟩])

/-- The nodes entered and left by a walk through several trees. -/
def visitsOfAll : List Tree → List Visit
  | [] => []
  | t :: rest => t.visits ++ visitsOfAll rest

end

end Tree

end Transcriber.Grammar
