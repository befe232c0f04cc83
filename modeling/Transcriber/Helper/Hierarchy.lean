import Transcriber.Failure

/-!
# Classes and their linear orders

A class has bases.  Its linear order lists the class and everything it inherits from, so that a
class stands before its bases and the order of the bases is kept, in the order of every base too.
Where no such order exists there is no class.

* `Hierarchy` — classes with their orders, `Hierarchy.builtin` those that are always there.
-/

namespace Transcriber

abbrev ClassId := Nat

structure ClassInfo where
  name : String
  /-- The class and all it inherits from, nearest first. -/
  order : List ClassId
  layout : ClassId
  /-- Whether other classes may inherit from it. -/
  open_ : Bool
deriving DecidableEq, Repr

namespace Linear

/-- The first head of some orders that stands in no tail. -/
def next? {C : Type} [DecidableEq C] (orders : List (List C)) : Option C :=
  (orders.filterMap List.head?).find? fun c => orders.all fun order => !order.tail.contains c

def advance {C : Type} [DecidableEq C] (c : C) (order : List C) : List C :=
  if order.head? = some c then order.tail else order

/-- One order that keeps all given ones, built head by head, `fuel` steps at most. -/
def mergeUpTo {C : Type} [DecidableEq C] : Nat → List (List C) → Option (List C)
  | 0, orders => if orders.all List.isEmpty then some [] else none
  | fuel + 1, orders =>
      if orders.all List.isEmpty then some []
      else do
        let c ← next? orders
        return c :: (← mergeUpTo fuel (orders.map (advance c)))

/-- One order that keeps all given ones, if there is one. -/
def merge {C : Type} [DecidableEq C] (orders : List (List C)) : Option (List C) :=
  mergeUpTo orders.flatten.length orders

end Linear

structure Hierarchy where
  classes : List ClassInfo
deriving DecidableEq, Repr

namespace Hierarchy

def builtin : Hierarchy := ⟨[
  ⟨"object", [0], 0, true⟩,
  ⟨"int", [1, 0], 1, true⟩,
  ⟨"str", [2, 0], 2, true⟩,
  ⟨"bool", [3, 1, 0], 1, false⟩,
  ⟨"float", [4, 0], 4, true⟩,
  ⟨"list", [5, 0], 5, true⟩]⟩

/-- The class of whole numbers, whose instances have no fixed size: a class that inherits from it
has a layout of its own. -/
def wholeNumbers : ClassId := 1

def find? (h : Hierarchy) (name : String) : Option ClassId :=
  (h.classes.zipIdx.reverse.find? fun entry => entry.1.name == name).map (·.2)

def named (h : Hierarchy) (name : String) : Except Failure ClassId :=
  match h.find? name with
  | some c => .ok c
  | none => .error .key

def orderOf (h : Hierarchy) (c : ClassId) : List ClassId := ((h.classes[c]?).map (·.order)).getD []

def commonLayout (h : Hierarchy) : ClassId → List ClassId → Except Failure ClassId
  | found, [] => .ok found
  | found, layout :: rest =>
      if (h.orderOf found).contains layout then h.commonLayout found rest
      else if (h.orderOf layout).contains found then h.commonLayout layout rest
      else .error .mismatch

/-- Adds a class with the given bases; without any it inherits from the class of all things. -/
def declare (h : Hierarchy) (name : String) (baseNames : List String) :
    Except Failure Hierarchy := do
  let bases ← (if baseNames.isEmpty then ["object"] else baseNames).mapM h.named
  let infos := bases.filterMap fun b => h.classes[b]?
  if infos.any fun info => !info.open_ then throw .mismatch
  let inherited ← h.commonLayout 0 (infos.map (·.layout))
  if !bases.Nodup then throw .mismatch
  match Linear.merge (infos.map (·.order) ++ [bases]) with
  | none => throw .mismatch
  | some order =>
      let self := h.classes.length
      let layout := if inherited == wholeNumbers then self else inherited
      return ⟨h.classes ++ [⟨name, self :: order, layout, true⟩]⟩

def declareAll (h : Hierarchy) : List (String × List String) → Except Failure Hierarchy
  | [] => .ok h
  | (name, bases) :: rest => do (← h.declare name bases).declareAll rest

def describe (h : Hierarchy) (c : ClassId) : String :=
  "<class '" ++ ((h.classes[c]?).map (·.name)).getD "" ++ "'>"

def describeAll (h : Hierarchy) : List ClassId → String
  | [c] => "(" ++ h.describe c ++ ",)"
  | cs => "(" ++ ", ".intercalate (cs.map h.describe) ++ ")"

end Hierarchy

end Transcriber
