import Transcriber.Source.Kind

/-!
# Syntax trees

A syntax tree is a node with a kind, a text, a place in the text it comes from, and children.  Work
on a tree looks at a node together with the nodes above it; a `Cursor` holds both.

* `Tree` — syntax trees, `Head` what a node carries beside its children.
* `Cursor.child?`, `Cursor.childrenOf`, `Cursor.descendantsOf` — looking for nodes by kind.
-/

namespace Transcriber.Source

/-- What a node carries beside its children. -/
structure Head where
  kind : Kind
  text : String := ""
  line : Int := 1
  /-- The number of the token that the node stands for. -/
  index : Int := 0
  /-- The channel of that token; hidden tokens are on one of their own. -/
  channel : Int := 0
  /-- The number of the first token of the node. -/
  start : Int := 0
  /-- The number of the last token of the node. -/
  stop : Int := 0
  /-- Whether an increment or decrement stands inside a larger expression. -/
  nested : Bool := false
deriving DecidableEq, Repr

inductive Tree where
  | node (head : Head) (children : List Tree)
deriving Repr

structure Lexeme where
  kind : Kind
  text : String
  line : Int
deriving DecidableEq, Repr

namespace Tree

def head : Tree → Head
  | node head _ => head

def children : Tree → List Tree
  | node _ children => children

def kind (t : Tree) : Kind := t.head.kind

def text (t : Tree) : String := t.head.text

mutual

def size : Tree → Nat
  | node _ children => sizeAll children + 1

def sizeAll : List Tree → Nat
  | [] => 0
  | t :: ts => t.size + sizeAll ts

end

mutual

/-- The number of nodes on the longest way down. -/
def height : Tree → Nat
  | node _ children => heightAll children + 1

def heightAll : List Tree → Nat
  | [] => 0
  | t :: ts => max t.height (heightAll ts)

end

end Tree

/-- A node and its ancestors, nearest first. -/
structure Cursor where
  tree : Tree
  above : List Tree

namespace Cursor

def ofTree (t : Tree) : Cursor := ⟨t, []⟩

def head (c : Cursor) : Head := c.tree.head

def kind (c : Cursor) : Kind := c.tree.kind

def text (c : Cursor) : String := c.tree.text

def children (c : Cursor) : List Cursor := c.tree.children.map fun t => ⟨t, c.tree :: c.above⟩

def parent? (c : Cursor) : Option Cursor :=
  match c.above with
  | [] => none
  | t :: above => some ⟨t, above⟩

def parentKind? (c : Cursor) : Option Kind := c.parent?.map kind

def ancestors (c : Cursor) : List Cursor := go c.above
where
  go : List Tree → List Cursor
    | [] => []
    | t :: above => ⟨t, above⟩ :: go above

def child? (c : Cursor) (kind : Kind) : Option Cursor :=
  c.children.find? fun child => child.kind == kind

def childrenOf (c : Cursor) (kind : Kind) : List Cursor :=
  c.children.filter fun child => child.kind == kind

mutual

def below (above : List Tree) : Tree → List Cursor
  | .node head children => belowAll (.node head children :: above) children

def belowAll (above : List Tree) : List Tree → List Cursor
  | [] => []
  | t :: ts => ⟨t, above⟩ :: (below above t ++ belowAll above ts)

end

def descendantsOf (c : Cursor) (kind : Kind) : List Cursor :=
  (below c.above c.tree).filter fun d => d.kind == kind

end Cursor

end Transcriber.Source
