import Transcriber.Walk.Expression

/-!
# Modifiers and annotations

Types and methods have modifiers and annotations.  Modifiers are kept as texts; a static method
takes the type as its first parameter.  An annotation with values becomes a decorator; one without
values is dropped.

* `Modifier.accept` — a list of modifiers (`acceptModifierList`).
* `Modifier.annotate`, `Modifier.keep` — its members (`nodesToAnnos`, `nodesToModifiers`).
-/

namespace Transcriber

open Transcriber.Source Build

variable [Chronicle]

namespace Modifier

/-- Writes the named values of an annotation one behind the other, each inside the one before. -/
def namedValues : BlockId → List Cursor → Build Unit
  | _, [] => pure ()
  | at_, c :: rest => do
      let template := c.text ++ "=" ++ Slot.right ++ (if rest.isEmpty then "" else ", ")
      let value ← expr (some at_) { template }
      setLeft at_ (.block value)
      visitMaybe Expression.walk value c.children.head?
      let next ← exprIn at_
      setRight at_ (.block next)
      namedValues next rest

def annotate (id : BlockId) (c : Cursor) : Build Unit := do
  let name ← textOf (c.child? .ident)
  match c.child? .annotationInitBlock with
  | none => pure ()
  | some init =>
      let decorator ← looseExpr {
        left := .text name, template := "@" ++ Slot.left ++ "(" ++ Slot.right ++ ")" }
      let inner ← exprIn decorator
      setRight decorator (.block inner)
      match init.child? .annotationInitDefaultKey with
      | some value => visitMaybe Expression.walk inner value.children.head?
      | none =>
          let keys ← demand (init.child? .annotationInitKeyList)
          namedValues inner keys.children
      change id fun b => { b with decorators := b.decorators ++ [.block decorator] }

/-- Keeps a modifier.  In the list of a method every modifier brings all of them along, and a static
method gets the type as its first parameter. -/
def keep (id : BlockId) (list c : Cursor) : Build Unit := do
  if list.parentKind?.any Kind.methods.contains then
    change id fun b =>
      let b := { b with modifiers := b.modifiers ++ list.children.map Cursor.text }
      match b.parameters with
      | first :: rest =>
          if b.isStatic then { b with parameters := { first with name := "cls" } :: rest } else b
      | [] => b
  change id fun b => { b with modifiers := b.modifiers ++ [c.text] }

/-- Accepts a list of modifiers: first the annotations, then the others. -/
def accept : Accept := fun id c => do
  let (annotations, others) := c.children.partition fun child => child.kind == .annotationUse
  annotations.forM (annotate id)
  others.forM (keep id c)
  return some id

end Modifier

end Transcriber
