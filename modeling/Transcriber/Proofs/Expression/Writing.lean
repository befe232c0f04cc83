import Transcriber.Proofs.Expression.Sheet
import Transcriber.Walk.Expression

/-!
# What visiting a node makes an expression say

The visits of an expression, without the store: from what an expression says before it visits a node,
and from its scope, follows what it says afterwards, or how the visit fails.  Increments and
decrements are taken as if they stood alone.
-/

namespace Transcriber

open Transcriber.Source

/-- What a visit makes of what an expression says. -/
abbrev Writing := Scope → Cursor → Sheet → Except Failure Sheet

namespace Expression

/-- How a visit goes on after a node has been accepted. -/
inductive Next where
  /-- The children are not visited. -/
  | done (sheet : Sheet)
  /-- The expression itself visits the children. -/
  | here (sheet : Sheet)
  /-- A new right operand visits the children, in a scope of its own. -/
  | inside (sheet : Sheet) (scope : Scope) (inner : Sheet)

section

variable (write : Writing)

/-- The visit of a node that may be absent. -/
def writeMaybe (s : Scope) (c : Option Cursor) (sheet : Sheet) : Except Failure Sheet :=
  match c with
  | some c => write s c sheet
  | none => .ok sheet

/-- Expressions for the first two children, in scopes of their own. -/
def writeBoth (s t : Scope) (c : Cursor) : Except Failure (Sheet × Sheet) := do
  let left ← writeMaybe write s c.children[0]? {}
  let right ← writeMaybe write t c.children[1]? {}
  return (left, right)

/-- Two operands for the first two children; the right one has a scope of its own. -/
def writeOperands (s t : Scope) (c : Cursor) (sheet : Sheet) : Except Failure Sheet := do
  let both ← writeBoth write s t c
  return { sheet with left := both.1.doc, right := both.2.doc }

/-- Nodes one behind the other. -/
def writeRow (slot : String) (s : Scope) : String → List Cursor → Except Failure Sheet
  | template, [] => .ok { template }
  | template, c :: rest => do
      let item ← write s c { template := slot ++ (if rest.isEmpty then "" else ", ") }
      let next ← writeRow slot s Slot.both rest
      return { template, left := item.doc, right := next.doc }

def writeCall (s : Scope) (c : Cursor) : Except Failure Sheet := do
  let callee ← writeMaybe write s c.children.head? {}
  match c.child? .argumentList with
  | none => throw .absent
  | some list =>
    let arguments ← writeRow write Slot.right s Slot.both list.children
    return ⟨Slot.left ++ "(" ++ Slot.right ++ ")", callee.doc, arguments.doc⟩

def castType (c : Cursor) : Except Failure String := do
  match (c.child? .typeRef).bind fun type => type.children.head? with
  | none => throw .absent
  | some named =>
    if named.kind == .qualifiedTypeIdent then
      match named.children.head? with
      | none => throw .absent
      | some first => return first.text
    else return named.text

/-- A cast: only types with a constructor of their own leave a trace. -/
def writeCast (s : Scope) (c : Cursor) (sheet : Sheet) : Except Failure Sheet := do
  let name ← castType c
  let template := if constructorTypes.contains name then name ++ "(" ++ Slot.right ++ ")" else Slot.right
  writeOperands write s s c { sheet with template }

/-- A choice between two values. -/
def writeChoice (s : Scope) (c : Cursor) : Except Failure Sheet := do
  let condition ← writeMaybe write s c.children[0]? {}
  let left ← writeMaybe write s c.children[1]? {}
  let otherwise ← writeMaybe write s c.children[2]? {}
  return ⟨Slot.left ++ " if " ++ Slot.right, left.doc,
    .node (Slot.left ++ " else " ++ Slot.right) condition.doc otherwise.doc⟩

/-- An unsigned shift, which needs a module. -/
def writeShift (s : Scope) (c : Cursor) (template : String) (sheet : Sheet) :
    Except Failure Sheet := do
  let sheet ← writeOperands write s .loose c { sheet with template }
  if s.homed then return sheet else throw .notFound

/-- The name of the enclosing type. -/
def ownerOf (s : Scope) : Except Failure (Option String) :=
  match s.owner with
  | some name => .ok name
  | none => .error .notFound

def writeConstruct (s : Scope) (c : Cursor) : Except Failure Next := do
  let called ← writeCall write s c
  match c.child? .qualifiedTypeIdent with
  | some type =>
    if type.children.isEmpty then return .done called
    else
      let names := type.children.map fun n => s.rename n.text
      return .done { called with left := .atom (.text (".".intercalate names)) }
  | none => return .done called

def writeInstanceOf (s : Scope) (c : Cursor) : Except Failure Next := do
  let right ← writeMaybe write s (c.child? .ident) {}
  let left ← writeMaybe write s (c.child? .typeRef) {}
  return .done ⟨"isinstance(" ++ Slot.right ++ ", (" ++ Slot.left ++ ", ))", left.doc, right.doc⟩

def writeParentheses (s : Scope) (c : Cursor) (sheet : Sheet) : Except Failure Next :=
  match c.parentKind? with
  | none => .error .absent
  | some parent =>
    if parenthesesLeftOut.contains parent then .ok (.here sheet)
    else .ok (.inside sheet s { template := "(" ++ Slot.both ++ ")" })

def writeSelfCall (s : Scope) (c : Cursor) : Except Failure Next := do
  let called ← writeCall write s c
  return .done { called with left := .atom (.text "self.__init__") }

def writeArray (c : Cursor) (sheet : Sheet) : Except Failure Next := do
  let size ← writeMaybe write .loose (c.child? .expr) {}
  let array : Sheet := { template := "[None] * " ++ Slot.left, left := size.doc }
  return .done { sheet with right := array.doc }

def writeSuper (s : Scope) (sheet : Sheet) : Except Failure Next := do
  let owner ← ownerOf s
  let base : Sheet := { template := "super(" ++ Handler.nameText owner ++ ", self)" }
  return .done { sheet with right := base.doc }

def writeSuperCall (s : Scope) (sheet : Sheet) : Except Failure Next := do
  let owner ← ownerOf s
  return .inside sheet .loose {
    template := "super(" ++ Slot.left ++ ", self).__init__(" ++ Slot.right ++ ")"
    left := match owner with
      | some name => .atom (.text name)
      | none => .atom .nothing }

/-- What accepting a node makes of an expression. -/
def writeAccept (s : Scope) (c : Cursor) (sheet : Sheet) : Except Failure Next :=
  match template? c.kind c.text with
  | some template => return .done (← writeOperands write s s c { sheet with template })
  | none =>
  match stepKind? c.kind with
  | some (step, _) =>
    return .done (← writeOperands write s s c { sheet with template := Slot.left ++ step })
  | none =>
  if literals.contains c.kind then .ok (.done { sheet with left := .atom (.text c.text) })
  else
  match c.kind with
  | .castExpr => return .done (← writeCast write s c sheet)
  | .bitShiftRight =>
    return .done (← writeShift write s c ("bsr(" ++ Slot.left ++ ", " ++ Slot.right ++ ")") sheet)
  | .bitShiftRightAssign =>
    return .done (← writeShift write s c
      (Slot.left ++ " = bsr(" ++ Slot.left ++ ", " ++ Slot.right ++ ")") sheet)
  | .classConstructorCall => writeConstruct write s c
  | .dot =>
    return .done (← writeOperands write s .loose c { sheet with template := Slot.left ++ "." ++ Slot.right })
  | .expr => .ok (.inside sheet s {})
  | .ident => .ok (.done { sheet with left := .atom (.text (s.rename c.text)) })
  | .instanceOf => writeInstanceOf write s c
  | .methodCall => return .done (← writeCall write s c)
  | .parenthesizedExpr => writeParentheses s c sheet
  | .thisConstructorCall => writeSelfCall write s c
  | .staticArrayCreator => writeArray write c sheet
  | .superWord => writeSuper s sheet
  | .superConstructorCall => writeSuperCall s sheet
  | .thisWord => .ok (.done { sheet with right := Sheet.doc { left := .atom (.text "self") } })
  | .question => return .done (← writeChoice write s c)
  | .voidType => .ok (.done { sheet with right := Sheet.doc { left := .atom (.text "None") } })
  | .classWord => .ok (.done { sheet with right := Sheet.doc { left := .atom (.text "__class__") } })
  | kind =>
    match kind.name? with
    | none => .error .absent
    | some _ => .ok (.here sheet)

def writeVisit (s : Scope) (c : Cursor) (sheet : Sheet) : Except Failure Sheet := do
  match ← writeAccept write s c sheet with
  | .done sheet => return sheet
  | .here sheet => c.children.foldlM (fun sheet child => write s child sheet) sheet
  | .inside sheet t inner =>
    let inner ← c.children.foldlM (fun inner child => write t child inner) inner
    return { sheet with right := inner.doc }

end

/-- The visit of a node, as deep as `fuel` allows. -/
def writeUpTo : Nat → Writing
  | 0 => fun _ _ _ => .error .depth
  | fuel + 1 => writeVisit (writeUpTo fuel)

/-- The visit of a node. -/
def write : Writing := fun s c sheet => writeUpTo c.tree.height s c sheet

end Expression

end Transcriber
