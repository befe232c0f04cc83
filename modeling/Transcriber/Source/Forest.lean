import Transcriber.Source.Tree

/-!
# Forests

Nodes of a syntax tree that can be taken out and put in elsewhere.  Every node has a number, knows
its children and its parent; the two are kept apart, and adding a child to a node does not take it
away from its former parent.  Nodes are numbered in preorder when a tree is planted.

* `Forest` — the nodes by number.
* `Forest.ofTree`, `Forest.toTree` — planting a tree and reading one back.
* `Forest.ancestors` — the way up from a node.
-/

namespace Transcriber.Source

abbrev NodeId := Nat

structure Entry where
  head : Head
  children : List NodeId
  parent : Option NodeId
deriving DecidableEq, Repr

structure Forest where
  entries : Array Entry

namespace Forest

def empty : Forest := ⟨#[]⟩

def size (f : Forest) : Nat := f.entries.size

def get? (f : Forest) (id : NodeId) : Option Entry := f.entries[id]?

def parentOf (f : Forest) (id : NodeId) : Option NodeId := (f.get? id).bind (·.parent)

def childrenOf (f : Forest) (id : NodeId) : List NodeId := ((f.get? id).map (·.children)).getD []

def modify (f : Forest) (id : NodeId) (change : Entry → Entry) : Forest :=
  ⟨f.entries.modify id change⟩

def setText (f : Forest) (id : NodeId) (text : String) : Forest :=
  f.modify id fun e => { e with head := { e.head with text } }

def setChildren (f : Forest) (id : NodeId) (children : List NodeId) : Forest :=
  f.modify id fun e => { e with children }

/-- Puts a node behind the last child of another one, which becomes its parent. -/
def addChild (f : Forest) (id child : NodeId) : Forest :=
  (f.modify child fun e => { e with parent := some id }).modify id fun e =>
    { e with children := e.children ++ [child] }

def child? (f : Forest) (id : NodeId) (kind : Kind) : Option NodeId :=
  (f.childrenOf id).find? fun c => (f.get? c).any fun e => e.head.kind == kind

mutual

/-- Adds a tree; the result also gives the number of its root. -/
def plant (f : Forest) (parent : Option NodeId) : Tree → Forest × NodeId
  | .node head children =>
      let id := f.size
      let (f, ids) := plantAll ⟨f.entries.push ⟨head, [], parent⟩⟩ id children
      (f.setChildren id ids, id)

def plantAll (f : Forest) (parent : NodeId) : List Tree → Forest × List NodeId
  | [] => (f, [])
  | t :: ts =>
      let (f, id) := plant f (some parent) t
      let (f, ids) := plantAll f parent ts
      (f, id :: ids)

end

def ofTree (t : Tree) : Forest := (empty.plant none t).1

def treeAt (f : Forest) : Nat → NodeId → Tree
  | 0, id => .node (((f.get? id).map (·.head)).getD { kind := .other 0 }) []
  | fuel + 1, id =>
      .node (((f.get? id).map (·.head)).getD { kind := .other 0 }) ((f.childrenOf id).map (f.treeAt fuel))

def toTree (f : Forest) : Tree := f.treeAt f.size 0

def ancestorsUpTo (f : Forest) : Nat → NodeId → List NodeId
  | 0, _ => []
  | fuel + 1, id =>
      match f.parentOf id with
      | none => []
      | some parent => parent :: f.ancestorsUpTo fuel parent

def ancestors (f : Forest) (id : NodeId) : List NodeId := f.ancestorsUpTo f.size id

end Forest

end Transcriber.Source
