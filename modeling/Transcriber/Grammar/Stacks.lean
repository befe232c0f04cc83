import Transcriber.Grammar.Network

/-!
# Sets of call stacks

Prediction follows many calls at once, so it keeps a set of call stacks in one value.  The stacks
are sorted by the state on top and share what lies below: `push s below others` holds every stack of
`below` with `s` on top, and the stacks of `others`, whose tops are greater.  `bottom` closes such a
list and holds the empty stack.

When the callers of the outermost rule are unknown, the empty stack stands for every stack, and a
set that holds it is as good as `bottom` alone; `merge true` takes that into account.
-/

namespace Transcriber.Grammar

/-- A set of call stacks. -/
inductive Stacks where
  | none
  /-- The empty stack. -/
  | bottom
  /-- The stacks of `below` with a state on top, and others with greater tops. -/
  | push (top : State) (below others : Stacks)
deriving DecidableEq, Repr, Hashable

namespace Stacks

/-- The number of constructors, which bounds the work of `merge`. -/
def size : Stacks → Nat
  | .none => 1
  | .bottom => 1
  | .push _ below others => below.size + others.size + 1

/-- The union of two sets of stacks.  With `wild` the empty stack stands for every stack. -/
def merge (wild : Bool) : Stacks → Stacks → Stacks
  | .none, b => b
  | a, .none => a
  | .bottom, .bottom => .bottom
  | .bottom, .push t below others =>
      if wild then .bottom else .push t below (merge wild .bottom others)
  | .push s below others, .bottom =>
      if wild then .bottom else .push s below (merge wild others .bottom)
  | .push s below others, .push t below' others' =>
      if s = t then .push s (merge wild below below') (merge wild others others')
      else if s < t then .push s below (merge wild others (.push t below' others'))
      else .push t below' (merge wild (.push s below others) others')
termination_by a b => a.size + b.size
decreasing_by all_goals (simp only [size]; omega)

def ofList : List State → Stacks
  | [] => .bottom
  | s :: rest => .push s (ofList rest) .none

def hasBottom : Stacks → Bool
  | .none => false
  | .bottom => true
  | .push _ _ others => others.hasBottom

def tops : Stacks → List (State × Stacks)
  | .none => []
  | .bottom => []
  | .push s below others => (s, below) :: others.tops

end Stacks

end Transcriber.Grammar
