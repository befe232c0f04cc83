import Transcriber.Block.Basic
import Transcriber.Config.Basic
import Transcriber.Report
import Transcriber.Source.Tree

/-!
# The workshop

Blocks are built and printed in a workshop: it holds the settings, all blocks by number, the report,
and what has to be remembered along the way.  Work in it may fail; what was done before a failure
stands.

* `Workshop`, `Build` — the workshop and the work in it.
* `Build.adopt` — giving a block a child (`adopt`).
* `Build.openRight` — an expression for the right operand (`pushRight`).
* `Build.qualify` — a name as it is seen from a block (`altIdent`).
-/

namespace Transcriber

open Transcriber.Source

/-- Where a comment has been put. -/
inductive Spot where
  /-- It is written behind an expression. -/
  | behind (expression : BlockId)
  /-- Its lines are comment blocks. -/
  | apart (lines : List BlockId)
deriving DecidableEq, Repr

/-- What is remembered while a tree is walked. -/
structure Trail where
  tokens : List Lexeme := []
  /-- The numbers of the comments that have been taken. -/
  taken : List Nat := []
  /-- The comments that have been put somewhere, last first, by their numbers. -/
  placed : List (Nat × Spot) := []
  /-- Where the search for comments goes on. -/
  last : Int := 0
deriving DecidableEq, Repr

structure Workshop where
  config : Config
  colored : Bool := false
  blocks : Array Block := #[]
  /-- The blocks as they were after each act on them, last first, if a chronicle is kept. -/
  moments : List (Array Block) := []
  report : Report := []
  /-- How many names have been made up. -/
  madeUp : Nat := 0
  files : List (String × String) := []
  trail : Trail := {}

abbrev Build := EStateM Failure Workshop

/-- Whether a chronicle of the acts on blocks is kept.  Nothing that is done depends on it. -/
class Chronicle where
  kept : Bool

/-- Usually none is kept. -/
instance : Chronicle := ⟨false⟩

namespace Workshop

/-- A block and what encloses it, nearest first, `fuel` blocks at most. -/
def lineageUpTo (blocks : Array Block) : Nat → Option BlockId → List BlockId
  | 0, _ => []
  | _, none => []
  | fuel + 1, some id => id :: lineageUpTo blocks fuel (blocks[id]?.bind (·.parent))

/-- A block and what encloses it, nearest first. -/
def lineage (w : Workshop) (id : BlockId) : List BlockId :=
  lineageUpTo w.blocks (w.blocks.size + 1) (some id)

/-- The nearest of a block and what encloses it that passes a test. -/
def enclosing? (w : Workshop) (id : BlockId) (test : Block → Bool) : Option BlockId :=
  (w.lineage id).find? fun b => w.blocks[b]?.any test

/-- Puts the blocks as they are into the chronicle, if one is kept. -/
def remember [Chronicle] (w : Workshop) : Workshop :=
  { w with moments := bif Chronicle.kept then w.blocks :: w.moments else w.moments }

end Workshop

namespace Build

variable [Chronicle]

def demand {α : Type} : Option α → Build α
  | some a => pure a
  | none => throw .absent

def lift {α : Type} : Except Failure α → Build α
  | .ok a => pure a
  | .error failure => throw failure

def block (id : BlockId) : Build Block := do demand (← get).blocks[id]?

/-- An act on blocks. -/
def act (f : Array Block → Array Block) : Build Unit :=
  modify fun w => Workshop.remember { w with blocks := f w.blocks }

def change (id : BlockId) (f : Block → Block) : Build Unit := act fun blocks => blocks.modify id f

def changeExpr (id : BlockId) (f : Expr → Expr) : Build Unit :=
  change id fun b => { b with form := b.form.mapExpr f }

def setLeft (id : BlockId) (operand : Operand) : Build Unit :=
  changeExpr id fun e => { e with left := operand }

def setRight (id : BlockId) (operand : Operand) : Build Unit :=
  changeExpr id fun e => { e with right := operand }

def setTemplate (id : BlockId) (template : String) : Build Unit :=
  changeExpr id fun e => { e with template }

def changeProgram (id : BlockId) (f : Program → Program) : Build Unit :=
  change id fun b => { b with form := b.form.mapProgram f }

/-- Puts a block behind the last child of another one. -/
def append (id child : BlockId) : Build Unit :=
  change id fun b => { b with children := b.children ++ [child] }

/-- Makes a block; if it has a parent, it becomes its last child. -/
def create (b : Block) : Build BlockId := do
  let id := (← get).blocks.size
  act fun blocks => blocks.push b
  match b.parent with
  | some parent => append parent id
  | none => pure ()
  return id

def expr (parent : Option BlockId) (e : Expr) : Build BlockId :=
  create { form := .expression e, parent }

def exprIn (parent : BlockId) : Build BlockId := expr (some parent) {}

/-- Makes an expression that belongs to no block yet. -/
def looseExpr (e : Expr) : Build BlockId := expr none e

def comment (parent : Option BlockId) (e : Expr) : Build BlockId :=
  create { form := .comment e, parent }

/-- Makes a method; its first parameter is the receiver. -/
def method (parent : Option BlockId) (name type : Option String) : Build BlockId :=
  create { form := .method, name, type, parent, parameters := [⟨"self", "object", none⟩] }

/-- Makes a statement.  Its opening line knows the statement as its parent without being a child of
it. -/
def statement (parent : Option BlockId) (keyword template : String) : Build BlockId := do
  let id ← create { form := .statement keyword 0, parent }
  let opening ← looseExpr { left := .text keyword, template }
  change opening fun b => { b with parent := some id }
  change id fun b => { b with form := .statement keyword opening }
  return id

/-- The opening line of a statement; other blocks have none. -/
def opening (id : BlockId) : Build BlockId := do
  match (← block id).form with
  | .statement _ opening => return opening
  | _ => throw .absent

/-- Makes a block for statements inside a method. -/
def content (parent : BlockId) : Build BlockId := create { form := .content, parent := some parent }

/-- Makes the right operand a new expression with a left operand. -/
def openRight (id : BlockId) (left : Operand) : Build BlockId := do
  let right ← expr (some id) { left }
  setRight id (.block right)
  return right

/-- Puts an item into a list before the one at a position.  Negative positions count from the end:
-1 is the last item, so that the new one comes before it. -/
def insertAt {α : Type} (xs : List α) (position : Int) (x : α) : List α :=
  let position := if position < 0 then max 0 (position + xs.length) else position
  xs.take position.toNat ++ x :: xs.drop position.toNat

/-- Makes a block a child of another one, at a position among its children.  Both are changed in one
act. -/
def adopt (id child : BlockId) (position : Int) : Build Unit :=
  act fun blocks => (blocks.modify id fun b => { b with children := insertAt b.children position child }).modify
    child fun b => { b with parent := some id }

def lineage (id : BlockId) : Build (List BlockId) := return (← get).lineage id

def enclosing (id : BlockId) (test : Block → Bool) : Build BlockId := do
  match (← get).enclosing? id test with
  | some found => return found
  | none => throw .notFound

/-- A name as it is written inside a block.  A variable of an enclosing type is reached through the
receiver of the enclosing method, unless the method has a parameter or variable of that name. -/
def qualify (id : BlockId) (name : String) : Build String := do
  let w ← get
  let owner := (w.lineage id).any fun b => w.blocks[b]?.any fun b =>
    b.isClass && b.declared.contains name
  if !owner then return name
  match (w.enclosing? id (·.isMethod)).bind fun m => w.blocks[m]? with
  | none => return name
  | some m =>
      if (m.parameters.any fun p => p.name == name) || m.declared.contains name then return name
      else return (if m.isStatic then "cls" else "self") ++ "." ++ name

def report (level : Level) (message : String) : Build Unit :=
  modify fun w => { w with report := ⟨level, message⟩ :: w.report }

/-- The name of a setting of a block: the sort of block, a part, and an ending. -/
def settingName (id : BlockId) (part ending : String) : Build String := do
  return (← block id).form.settingKey ++ part ++ ending

/-- The setting of a block in the last layer that has it. -/
def setting (id : BlockId) (part ending : String) (default : Value) : Build Value := do
  return (← get).config.last (← settingName id part ending) default

end Build

end Transcriber
