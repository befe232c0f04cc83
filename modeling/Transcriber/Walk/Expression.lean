import Transcriber.Walk.Visit

/-!
# Expressions

How an expression accepts the nodes of the syntax tree.  An operator makes a template and an
expression for each operand; names and literals become the left operand.

* `Expression.template?` — the templates of operators (`nodeOpExpr`, `makeNodePreformattedExpr`).
* `Expression.accept` — accepting a node, by its kind.  Literals keep their text (`nodeTextExpr`).
* `Expression.cast` (`acceptCastExpr`), `increment` (`makeAcceptPrePost`), `shift` (`acceptBitShiftRight`,
  `acceptBitShiftRightAssign`), `construct` (`acceptClassConstructorCall`), `instanceOf`
  (`acceptInstanceof`), `call` (`acceptMethodCall`), `parentheses` (`acceptParentesizedExpr`), `selfCall`
  (`acceptThisConstructorCall`), `newArray` (`acceptStaticArrayCreator`), `superObject` (`acceptSuper`),
  `superCall` (`acceptSuperConstructorCall`), `choice` (`acceptQuestion`).
* `Expression.walk` — visiting a tree with an expression.
-/

namespace Transcriber

open Transcriber.Source Build

variable [Chronicle]

namespace Expression

/-- The kinds of operators that keep their own text. -/
def plainOperators : List Kind := [
  .bitAnd, .bitAndAssign, .assign, .divAssign, .equal, .greaterOrEqual, .greaterThan, .lessOrEqual,
  .lessThan, .minusAssign, .mod, .modAssign, .notEqual, .bitOr, .bitOrAssign, .plusAssign,
  .shiftLeft,
  .shiftLeftAssign, .shiftRight, .shiftRightAssign, .starAssign, .bitXor, .bitXorAssign]

def fixedTemplate? : Kind → Option String
  | .arrayElementAccess => some (Slot.left ++ "[" ++ Slot.right ++ "]")
  | .div => some (Slot.left ++ " / " ++ Slot.right)
  | .logicalAnd => some (Slot.left ++ " and " ++ Slot.right)
  | .logicalNot => some ("not " ++ Slot.left)
  | .logicalOr => some (Slot.left ++ " or " ++ Slot.right)
  | .minus => some (Slot.left ++ " - " ++ Slot.right)
  | .bitNot => some ("~" ++ Slot.left)
  | .plus => some (Slot.left ++ " + " ++ Slot.right)
  | .star => some (Slot.left ++ " * " ++ Slot.right)
  | .unaryMinus => some ("-" ++ Slot.left)
  | .unaryPlus => some ("+" ++ Slot.left)
  | _ => none

def template? (kind : Kind) (text : String) : Option String :=
  if plainOperators.contains kind then some (Slot.left ++ " " ++ text ++ " " ++ Slot.right)
  else fixedTemplate? kind

def literals : List Kind := [
  .characterLiteral, .stringLiteral, .floatingPointLiteral, .decimalLiteral, .hexLiteral,
  .octalLiteral,
  .trueWord, .falseWord, .nullWord]

/-- What an increment or decrement adds behind its operand, and whether it stands before the
operand. -/
def stepKind? : Kind → Option (String × Bool)
  | .postInc => some (" += 1", false)
  | .preInc => some (" += 1", true)
  | .postDec => some (" -= 1", false)
  | .preDec => some (" -= 1", true)
  | _ => none

/-- The types with a constructor of their own in the output language. -/
def constructorTypes : List String := ["bool", "str", "int", "long", "float"]

/-- The kinds of statements whose parentheses are left out. -/
def parenthesesLeftOut : List Kind := [.ifWord, .whileWord, .switchWord, .synchronizedWord]

/-- Makes an expression for each of two operands, and lets them visit the children. -/
def operands (descend : Visit) (id : BlockId) (c : Cursor) : Build Unit := do
  let left ← exprIn id
  let right ← exprIn id
  setLeft id (.block left)
  setRight id (.block right)
  visitEach descend c.children [left, right]

/-- The same; the right operand is not a child of the expression. -/
def looseOperands (descend : Visit) (id : BlockId) (c : Cursor) : Build Unit := do
  let left ← exprIn id
  let right ← looseExpr {}
  setLeft id (.block left)
  setRight id (.block right)
  visitEach descend c.children [left, right]

def needShift (id : BlockId) : Build Unit := do
  let home ← enclosing id (·.isModule)
  changeProgram home fun p => { p with needsShift := true }

/-- Writes nodes one behind the other, all as children of one expression.  Each item but the last is
followed by a comma; what follows is the right operand. -/
def row (descend : Visit) (slot : String) (home : BlockId) : BlockId → List Cursor → Build Unit
  | _, [] => pure ()
  | at_, c :: rest => do
      let mark := if rest.isEmpty then "" else ", "
      let item ← expr (some home) { template := slot ++ mark }
      setLeft at_ (.block item)
      descend item c
      let next ← exprIn home
      setRight at_ (.block next)
      row descend slot home next rest

def call (descend : Visit) (id : BlockId) (c : Cursor) : Build Unit := do
  setTemplate id (Slot.left ++ "(" ++ Slot.right ++ ")")
  let callee ← exprIn id
  setLeft id (.block callee)
  visitMaybe descend callee c.children.head?
  let list ← demand (c.child? .argumentList)
  let first ← exprIn id
  setRight id (.block first)
  row descend Slot.right id first list.children

/-- A cast to a type with a name.  Types with a constructor are called; what becomes of others is for a setting to say. -/
def castTo (descend : Visit) (id : BlockId) (c : Cursor) (name : String) : Build Unit := do
  if constructorTypes.contains name then setTemplate id (name ++ "(" ++ Slot.right ++ ")")
  else
    let handler ← setting id "Cast" "Handler" .none
    if handler.truthy then
      let _ ← callSetting handler [.block id, .node c.text]
    else report .warning ("No handler to perform cast of non-primitive type " ++ name ++ ".")
  operands descend id c

def cast (descend : Visit) (id : BlockId) (c : Cursor) : Build Unit := do
  let type ← demand (c.child? .typeRef)
  let named ← demand type.children.head?
  castTo descend id c (← if named.kind == .qualifiedTypeIdent then textOf named.children.head?
    else pure named.text)

/-- An increment or decrement.  Inside a larger expression it becomes a statement of its own before
the last statement of the method; if it stands behind its operand, a made up name keeps the old
value. -/
def increment (descend : Visit) (id : BlockId) (c : Cursor) (step : String) (before : Bool) :
    Build Unit := do
  if c.head.nested then
    let name ← textOf (c.child? .ident)
    let madeUp ← callSetting (← setting id "VariableNaming" "Handler" .none) [.text name]
    let home ← enclosing id (·.isMethod)
    if !before then
      let kept ← looseExpr {
        template := Slot.left ++ " = " ++ Slot.right, left := madeUp.operand, right := .text name }
      adopt home kept (-1)
    let shown := if before then .text name else madeUp.operand
    let left ← expr (some id) { template := Slot.left, left := shown }
    setLeft id (.block left)
    let stepped ← looseExpr { template := Slot.left ++ step, left := .text name }
    adopt home stepped (-1)
  else
    setTemplate id (Slot.left ++ step)
    operands descend id c

def choice (descend : Visit) (id : BlockId) (c : Cursor) : Build Unit := do
  setTemplate id (Slot.left ++ " if " ++ Slot.right)
  let left ← exprIn id
  setLeft id (.block left)
  let right ← expr (some id) { template := Slot.left ++ " else " ++ Slot.right }
  setRight id (.block right)
  let condition ← exprIn right
  setLeft right (.block condition)
  let otherwise ← exprIn right
  setRight right (.block otherwise)
  visitEach descend c.children [condition, left, otherwise]

def shift (descend : Visit) (id : BlockId) (c : Cursor) (template : String) : Build (Option BlockId) := do
  setTemplate id template
  looseOperands descend id c
  needShift id
  return none

/-- Making an instance: the names of the class stand for what is called. -/
def construct (descend : Visit) (id : BlockId) (c : Cursor) : Build (Option BlockId) := do
  call descend id c
  match c.child? .qualifiedTypeIdent with
  | some type =>
      if !type.children.isEmpty then
        let names ← type.children.mapM fun n => qualify id n.text
        setLeft id (.text (".".intercalate names))
  | none => pure ()
  return none

def instanceOf (descend : Visit) (id : BlockId) (c : Cursor) : Build (Option BlockId) := do
  setTemplate id ("isinstance(" ++ Slot.right ++ ", (" ++ Slot.left ++ ", ))")
  let right ← exprIn id
  setRight id (.block right)
  visitMaybe descend right (c.child? .ident)
  let left ← exprIn id
  setLeft id (.block left)
  visitMaybe descend left (c.child? .typeRef)
  return none

def parentheses (id : BlockId) (c : Cursor) : Build (Option BlockId) := do
  let parent ← demand c.parentKind?
  if parenthesesLeftOut.contains parent then return some id
  else
    let right ← openRight id (.text "")
    setTemplate right ("(" ++ Slot.both ++ ")")
    return some right

def selfCall (descend : Visit) (id : BlockId) (c : Cursor) : Build (Option BlockId) := do
  call descend id c
  setLeft id (.text "self.__init__")
  return none

/-- A new array; its size is an operand that nothing encloses. -/
def newArray (descend : Visit) (id : BlockId) (c : Cursor) : Build (Option BlockId) := do
  let right ← looseExpr { template := "[None] * " ++ Slot.left }
  setRight id (.block right)
  let size ← looseExpr {}
  setLeft right (.block size)
  visitMaybe descend size (c.child? .expr)
  return none

def superObject (id : BlockId) : Build (Option BlockId) := do
  let owner ← block (← enclosing id (·.isClass))
  let right ← looseExpr { template := "super(" ++ Handler.nameText owner.name ++ ", self)" }
  setRight id (.block right)
  return none

def superCall (id : BlockId) : Build (Option BlockId) := do
  let owner ← block (← enclosing id (·.isClass))
  let left : Operand := match owner.name with
    | some name => .text name
    | none => .nothing
  let right ← looseExpr {
    template := "super(" ++ Slot.left ++ ", self).__init__(" ++ Slot.right ++ ")", left }
  setRight id (.block right)
  return some right

def word (id : BlockId) (text : String) : Build (Option BlockId) := do
  let _ ← openRight id (.text text)
  return none

def accept (descend : Visit) : Accept := fun id c => do
  match template? c.kind c.text with
  | some template =>
      setTemplate id template
      operands descend id c
      return none
  | none =>
  match stepKind? c.kind with
  | some (step, before) =>
      increment descend id c step before
      return none
  | none =>
  if literals.contains c.kind then
    setLeft id (.text c.text)
    return none
  match c.kind with
  | .castExpr =>
      cast descend id c
      return none
  | .bitShiftRight => shift descend id c ("bsr(" ++ Slot.left ++ ", " ++ Slot.right ++ ")")
  | .bitShiftRightAssign =>
      shift descend id c (Slot.left ++ " = bsr(" ++ Slot.left ++ ", " ++ Slot.right ++ ")")
  | .classConstructorCall => construct descend id c
  | .dot =>
      setTemplate id (Slot.left ++ "." ++ Slot.right)
      looseOperands descend id c
      return none
  | .expr => return some (← openRight id (.text ""))
  | .ident =>
      setLeft id (.text (← qualify id c.text))
      return none
  | .instanceOf => instanceOf descend id c
  | .methodCall =>
      call descend id c
      return none
  | .parenthesizedExpr => parentheses id c
  | .thisConstructorCall => selfCall descend id c
  | .staticArrayCreator => newArray descend id c
  | .superWord => superObject id
  | .superConstructorCall => superCall id
  | .thisWord => word id "self"
  | .question =>
      choice descend id c
      return none
  | .voidType => word id "None"
  | .classWord => word id "__class__"
  | _ => unhandled id c

/-- Visits a tree with an expression, as deep as `fuel` allows. -/
def walkUpTo : Nat → Visit
  | 0 => fun _ _ => throw .depth
  | fuel + 1 => visit (accept (walkUpTo fuel)) (walkUpTo fuel)

def walk : Visit := fun id c => walkUpTo c.tree.height id c

end Expression

end Transcriber
