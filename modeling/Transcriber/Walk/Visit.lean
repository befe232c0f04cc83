import Transcriber.Print.Printer
import Transcriber.Walk.Comment

/-!
# Visiting a node

A block visits a node of the syntax tree: comments before the node are taken, the block accepts the
node, which gives the block that goes on with the children, if they are to be visited at all; then
comments up to the end of the node are taken.  At last the settings may change the block.

* `Build.visit` — visiting a node (`walk`); a node of an unknown kind is `unhandled` (`accept`).
* `Build.visitEach` — visiting several (`zipWalk`).
* `Build.typeText` — the text of a type (`nodeTypeToString`).
-/

namespace Transcriber

open Transcriber.Source

variable [Chronicle]

abbrev Visit := BlockId → Cursor → Build Unit

/-- A way to accept a node; the result is the block that goes on with the children. -/
abbrev Accept := BlockId → Cursor → Build (Option BlockId)

namespace Build

/-- Passes over a node of a kind that a block does not know: the block goes on with the children. -/
def unhandled : Accept := fun id c => do
  let name ← demand c.kind.name?
  report .debug ("no visitor accept method for " ++ name)
  return some id

/-- Lets the settings change a block after a visit. -/
def mutate (id : BlockId) : Build Unit := do
  let handlers ← Printer.handlers id "PostWalk" "Mutators"
  if !handlers.isEmpty then
    let texts := (← printer).texts
    handlers.forM fun h => do
      let _ ← h.call texts [.block id]

def finish (id : BlockId) (c : Cursor) : Build Unit := do
  takeComments id id c.head.stop
  if c.kind == .compilationUnit then takeComments id id (← get).trail.tokens.length
  mutate id

def visit (accept : Accept) (descend : Visit) : Visit := fun id c => do
  takeComments id id c.head.start
  match ← accept id c with
  | some visitor =>
      c.children.forM fun child => do
        descend visitor child
        takeComments id visitor child.head.stop
  | none => pure ()
  finish id c

def visitMaybe (descend : Visit) (id : BlockId) : Option Cursor → Build Unit
  | some c => descend id c
  | none => pure ()

/-- Visits nodes, each with a block of its own, as long as there are both. -/
def visitEach (descend : Visit) : List Cursor → List BlockId → Build Unit
  | c :: cs, id :: ids => do
      descend id c
      visitEach descend cs ids
  | _, _ => pure ()

def textOf (c : Option Cursor) : Build String := return (← demand c).text

def typeText (id : BlockId) (c : Cursor) : Build String := do
  let type ← demand (c.child? .typeRef)
  match type.children with
  | [] => throw .position
  | first :: _ =>
      if first.kind == .qualifiedTypeIdent then
        let names ← (first.childrenOf .ident).mapM fun n => qualify id n.text
        qualify id (".".intercalate names)
      else qualify id first.text

/-- A call of a handler that a setting names, if the setting is there at all. -/
def callSetting (handler : Value) (args : List Value) : Build Value := do
  return (← handler.call (← printer).texts args).toValue

end Build

end Transcriber
