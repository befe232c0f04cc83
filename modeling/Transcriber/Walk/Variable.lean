import Transcriber.Walk.Expression

/-!
# Declarations of variables

Types and the insides of methods declare variables.  Each declared variable becomes an assignment:
of its initial value, of a list for an array, of a value made by its type, or of nothing.

* `Variable.declare` — the assignments of a declaration (`acceptVarDeclaration`).
-/

namespace Transcriber

open Transcriber.Source Build

variable [Chronicle]

namespace Variable

def emptyValue (type : String) (c : Cursor) : Build String := do
  let typeNode ← demand (c.child? .typeRef)
  if (typeNode.child? .arrayDeclaratorList).isSome then return "[]"
  let first ← demand typeNode.children.head?
  return if first.kind != .qualifiedTypeIdent then type ++ "()" else "None"

/-- Announces a variable: a new expression stands for it.  The result is that expression, and the
name of the type. -/
def announce (id : BlockId) (c declarator : Cursor) : Build (BlockId × String) := do
  let name ← textOf (declarator.child? .ident)
  change id fun b => { b with declared := b.declared ++ [name] }
  let declared ← expr (some id) { left := .text name }
  let type ← typeText id c
  change declared fun b => { b with type := some type }
  match c.child? .modifierList with
  | some list => change declared fun b => { b with modifiers := list.children.map (·.text) }
  | none => pure ()
  return (declared, type)

def assign (declared : BlockId) (type : String) (c declarator : Cursor) : Build Unit := do
  let assignment ← openRight declared (.text " = ")
  match declarator.child? .expr, declarator.child? .arrayInitializer with
  | some value, _ => Expression.walk assignment value
  | none, some array =>
      let list ← expr (some declared) { template := "[" ++ Slot.both ++ "]" }
      setRight assignment (.block list)
      Expression.row Expression.walk Slot.both declared list (array.childrenOf .expr)
  | none, none =>
      let _ ← openRight assignment (.text (← emptyValue type c))

def declareOne (id : BlockId) (c declarator : Cursor) : Build Unit := do
  let (declared, type) ← announce id c declarator
  assign declared type c declarator

def declare (id : BlockId) (c : Cursor) : Build Unit := do
  let list ← demand (c.child? .varDeclaratorList)
  (list.childrenOf .varDeclarator).forM (declareOne id c)

end Variable

end Transcriber
