import Transcriber.Print.Printer
import Transcriber.Text.CommentText

/-!
# Operations of blocks

What a block can be asked to do.  The arguments of an operation stand in order; those that are left
out at the end, or in between, have defaults.

* `Operation` — the operations: `qualify` (`altIdent`), `openRight` (`pushRight`), `toHandler` (`toIter`),
  `toExpression` (`toExpr`), `handler` (`configHandler`), `handlers` (`configHandlers`), `parameter`
  (`makeParam`), `visit` (`walk`), `commentLines` (`stripComment`), `lineage` (`parents`), `inner` (`find`),
  and the parts of what is printed (`iterPrologue` to `iterEpilogue`).
* `Build.perform` — carrying out an operation.
-/

namespace Transcriber

variable [Chronicle]

inductive Operation where
  /-- A name as it is written inside the block. -/
  | qualify
  /-- A new expression as the right operand. -/
  | openRight
  /-- A value as a handler: a text becomes the handler that gives it. -/
  | toHandler
  /-- A value as an item of a head: a text becomes an expression. -/
  | toExpression
  /-- The setting of the last layer, or the handlers of all layers, for a part of the block. -/
  | handler | handlers
  /-- A parameter from a name, a type and a default. -/
  | parameter
  | lines
  /-- Another block as a child. -/
  | adopt
  /-- A visit of a tree, which has to be absent. -/
  | visit
  /-- The lines of a comment without its signs. -/
  | commentLines
  /-- The block and what encloses it; the blocks inside it. -/
  | lineage | inner
  /-- What is printed, part by part. -/
  | prologue | head | body | epilogue | bases | parameters | opening
deriving DecidableEq, Repr

namespace Printer

def moduleItems (w : Workshop) : Option BlockId → List BlockId → List BodyItem
  | _, [] => []
  | before, id :: rest =>
      let blanks := match before.bind fun b => w.blocks[b]?, w.blocks[id]? with
        | some before, some after => blanksBetween before after
        | _, _ => 0
      List.replicate blanks (.line "") ++ .block id :: moduleItems w (some id) rest

def BodyItem.toValue : BodyItem → Build Value
  | .block id => return .block id
  | .line text => return .block (← Build.looseExpr { left := .text text })

def bodyValues (p : Printer) (id : BlockId) : Build (List Value) := do
  let b ← Build.block id
  let items ← if b.isModule then pure (moduleItems (← get) none b.children) else body p id
  items.mapM BodyItem.toValue

def headValue : Value → Build Value
  | .text s => return .block (← Build.looseExpr { left := .text s })
  | v => return v

def printedPart (p : Printer) (id : BlockId) : Operation → Build (List Value)
  | .prologue => do return (← (← prologue p id).mapM Called.items).flatten
  | .head => do (← itemsOf p id "Head").mapM headValue
  | .body => bodyValues p id
  | .epilogue => itemsOf p id "Epilogue"
  | .bases => do if (← Build.block id).isClass then itemsOf p id "Base" else throw .absent
  | .parameters => do if (← Build.block id).isMethod then itemsOf p id "Param" else throw .absent
  | .opening => do
      let b ← Build.block id
      if b.isClass then classLine p id else if b.isMethod then methodLine p id else throw .absent
  | _ => throw .absent

end Printer

namespace Build

def perform (id : BlockId) (operation : Operation) (args : List (Option Value)) : Build Value := do
  let arg := fun (position : Nat) (default : Value) => ((args[position]?).bind (·)).getD default
  match operation, arg 0 .none with
  | .qualify, .text s => return .text (← qualify id s)
  | .qualify, v => return v
  | .openRight, _ =>
      if (← block id).isExpression then return .block (← openRight id (arg 0 (.text "")).operand)
      else throw .absent
  | .toHandler, .text s => return .handler (.echo s)
  | .toHandler, v => return v
  | .toExpression, v => Printer.headValue v
  | .handler, v => setting id v.display (arg 1 (.text "Handler")).display (arg 2 .none)
  | .handlers, v =>
      return .list (← Printer.handlers id v.display (arg 1 (.text "Handlers")).display)
  | .parameter, v =>
      let default := ((args[2]?).bind (·)).map fun v => ("default", v)
      return .table ([("name", v), ("type", arg 1 .none)] ++ default.toList)
  | .lines, _ =>
      match arg 0 (.number 0) with
      | .number level => return .text (← dump level id)
      | _ => throw .mismatch
  | .adopt, child =>
      match arg 1 (.number (-1)) with
      | .number index => adopt id (← child.blockId) index
      | _ => throw .mismatch
      return .none
  | .visit, tree => if tree.truthy then throw .absent else return .none
  | .commentLines, .text s => return .list (Handler.lines (Text.commentLines s))
  | .commentLines, _ => throw .absent
  | .lineage, _ => return .list ((← lineage id).map .block)
  | .inner, _ =>
      let w ← get
      return .list ((Handler.blocksBelow w.blocks w.blocks.size id).map .block)
  | part, _ => return .list (← Printer.printedPart (← printer) id part)

end Build

end Transcriber
