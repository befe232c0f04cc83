import Transcriber.Walk.Modifier
import Transcriber.Walk.Statement

/-!
# Declarations

How modules, types and methods accept the nodes of the syntax tree, and how a whole tree is visited.

* `Declaration.accept` — accepting a node, by the sort of block.
* `Declaration.declareType` (`makeAcceptType`), `declareInterface` (`acceptInterface`), `declareName`
  (`makeAcceptHandledDecl`), `takeBases` (`nodeIdentsToBases`), `constructor_` (`acceptConstructorDecl`),
  `function` (`acceptFunctionMethodDecl`), `procedure` (`acceptVoidMethodDecl`).
* `Declaration.annotationScope` (`acceptAnnotationTopLevelScope`), with `addConstructor` (`addInit`) and
  `addApplication` (`addCall`); `constants` (`acceptEnumTopLevelScope`).
* `Declaration.walk` — visiting a tree with any block.
-/

namespace Transcriber

open Transcriber.Source Build

variable [Chronicle]

namespace Declaration

/-- Declares a type of some form inside a block.  A node without a name declares nothing. -/
def declareType (form : Form) : Accept := fun id c => do
  match c.child? .ident with
  | none => return none
  | some name =>
      change id fun b => { b with declared := b.declared ++ [name.text] }
      return some (← create { form, name := some name.text, parent := some id })

/-- Declares an interface; the module needs the helpers for abstract methods. -/
def declareInterface : Accept := fun id c => do
  let home ← enclosing id (·.isModule)
  changeProgram home fun p => { p with needsAbstract := true }
  declareType .interface id c

/-- Hands the name of an import or package to the handler that a setting names. -/
def declareName (part : String) (id : BlockId) (c : Cursor) : Build Unit := do
  let name ← looseExpr {}
  visitMaybe Expression.walk name c.children.head?
  let handler ← setting id part "Handler" .none
  if handler.truthy then
    let _ ← callSetting handler [.block id, .block name]

def acceptInModule : Accept := fun id c => do
  match c.kind with
  | .annotationUse => declareType .annotationType id c
  | .classWord => declareType .plainClass id c
  | .enumWord => declareType .enumeration id c
  | .interfaceWord => declareInterface id c
  | .importWord =>
      declareName "ImportDeclaration" id c
      return none
  | .packageWord =>
      declareName "PackageDeclaration" id c
      return none
  | _ => unhandled id c

def takeBases (id : BlockId) (c : Cursor) : Build Unit :=
  change id fun b => { b with bases := b.bases ++ (c.descendantsOf .ident).map Cursor.text }

/-- A constructor.  One that does not call the constructor of the base itself begins with that call.
-/
def constructor_ (id : BlockId) (c : Cursor) : Build BlockId := do
  let b ← block id
  let made ← method (some id) (some "__init__") b.name
  if (c.descendantsOf .superConstructorCall).isEmpty && b.bases.any (!·.isEmpty) then
    let name : Operand := match b.name with
      | some name => .text name
      | none => .nothing
    let _ ← expr (some made) {
      template := "super(" ++ Slot.right ++ ", self).__init__()", right := name }
  return made

def function (id : BlockId) (c : Cursor) : Build BlockId := do
  let name := c.child? .ident
  let type ← demand (c.child? .typeRef)
  match type.children with
  | [] => throw .position
  | first :: _ =>
      let name ← textOf name
      change id fun b => { b with declared := b.declared ++ [name] }
      method (some id) (some name) (some first.text)

def procedure (id : BlockId) (c : Cursor) : Build BlockId := do
  let name ← textOf (c.child? .ident)
  change id fun b => { b with declared := b.declared ++ [name] }
  method (some id) (some name) (some "void")

def acceptInClass : Accept := fun id c => do
  match c.kind with
  | .varDeclaration =>
      Variable.declare id c
      return some id
  | .annotationUse => return none
  | .classWord => declareType .plainClass id c
  | .enumWord => declareType .enumeration id c
  | .interfaceWord => declareInterface id c
  | .modifierList => Modifier.accept id c
  | .extendsClause =>
      takeBases id c
      return none
  | .implementsClause =>
      takeBases id c
      return none
  | .constructorDecl => return some (← constructor_ id c)
  | .functionMethodDecl => return some (← function id c)
  | .voidMethodDecl => return some (← procedure id c)
  | _ => unhandled id c

/-- An element of an annotation type: its name, its type, and its default value. -/
structure Element where
  name : String
  type : String
  default : Option Cursor

def declareElement (id : BlockId) (c : Cursor) : Build Element := do
  match c.children with
  | _ :: type :: name :: rest =>
      match type.children with
      | [] => throw .position
      | first :: _ =>
          let made ← method (some id) (some name.text) (some first.text)
          let _ ← expr (some made) {
            template := "return self._" ++ Slot.left, left := .text name.text }
          return ⟨name.text, first.text, rest.head?⟩
  | _ => throw .value

/-- Makes an annotation type callable, so that it can decorate. -/
def addApplication (id : BlockId) : Build Unit := do
  let made ← method (some id) (some "__call__") none
  change made fun b => { b with parameters := b.parameters ++ [⟨"obj", "object", none⟩] }
  let _ ← expr (some made) { template := "setattr(obj, self.__class__.__name__, self)" }
  let _ ← expr (some made) { template := "return obj" }

/-- Makes an element a parameter of the constructor, which keeps it. -/
def keepElement (made : BlockId) (e : Element) (default : Operand) : Build Unit := do
  change made fun b => { b with parameters := b.parameters ++ [⟨e.name, e.type, some default⟩] }
  let _ ← expr (some made) {
    template := "self._" ++ Slot.left ++ " = " ++ Slot.right
    left := .text e.name
    right := .text e.name }

/-- Gives an annotation type a constructor that takes its elements. -/
def addConstructor (id : BlockId) (elements : List Element) : Build Unit := do
  let made ← method (some id) (some "__init__") none
  elements.forM fun e => do
    let default : Operand ← match e.default with
      | some c => do
          let value ← looseExpr {}
          Expression.walk value c
          pure (.block value)
      | none => pure .nothing
    keepElement made e default

/-- The scope of an annotation type.  The order in which its methods would have to stand is asked
for in a way that never has an answer, so this always fails in the end. -/
def annotationScope (descend : Visit) (id : BlockId) (c : Cursor) : Build Unit := do
  let elements ← c.children.filterMapM fun child => do
    if child.kind == .annotationMethodDecl then return some (← declareElement id child)
    else if child.kind == .varDeclaration then
      Variable.declare id child
      return none
    else
      descend id child
      return none
  addApplication id
  addConstructor id elements
  throw .mismatch

/-- Writes the arguments of a constant of an enumeration one behind the other. -/
def constantArguments : BlockId → List Cursor → Build Unit
  | _, [] => pure ()
  | at_, c :: rest => do
      let template := Slot.right ++ (if rest.isEmpty then "" else ", ")
      let argument ← looseExpr { template }
      setLeft at_ (.block argument)
      Expression.walk argument c
      let next ← looseExpr {}
      setRight at_ (.block next)
      constantArguments next rest

/-- A constant of an enumeration.  One with arguments is made behind the enumeration, by calling it.
-/
def constant (handler : Value) (id : BlockId) (index : Nat) (c : Cursor) : Build Unit := do
  let b ← block id
  if (c.descendantsOf .argumentList).isEmpty then
    let line ← expr (some id) { template := c.text ++ " = " ++ Slot.right }
    let value ← callSetting handler [.block id, .number index, .text c.text]
    let _ ← openRight line value.operand
  else
    let name := Handler.nameText b.name
    let line ← expr b.parent { left := .text (name ++ "." ++ c.text ++ " = " ++ name) }
    let list ← looseExpr { template := "(" ++ Slot.both ++ ")" }
    setRight line (.block list)
    let arguments ← demand (c.child? .argumentList)
    constantArguments list (arguments.descendantsOf .expr)

def constants (handler : Value) (id : BlockId) : Nat → List Cursor → Build Unit
  | _, [] => pure ()
  | index, c :: rest => do
      constant handler id index c
      constants handler id (index + 1) rest

def acceptInEnum : Accept := fun id c => do
  if c.kind == .enumTopLevelScope then
    constants (← setting id "Value" "Handler" .none) id 0 (c.childrenOf .ident)
    return some id
  else acceptInClass id c

def acceptInMethod (descend : Visit) : Accept := fun id c => do
  match c.kind with
  | .modifierList => Modifier.accept id c
  | .formalParamStdDecl =>
      let name := c.child? .ident
      let type ← typeText id c
      let name ← textOf name
      change id fun b => { b with parameters := b.parameters ++ [⟨name, type, none⟩] }
      return some id
  | .formalParamVarargDecl =>
      let name ← textOf (c.child? .ident)
      change id fun b => { b with parameters := b.parameters ++ [⟨"*" ++ name, "A", none⟩] }
      return some id
  | _ => Statement.accept descend id c

def accept (descend : Visit) : Accept := fun id c => do
  match (← block id).form with
  | .program _ => acceptInModule id c
  | .plainClass => acceptInClass id c
  | .interface => acceptInClass id c
  | .enumeration => acceptInEnum id c
  | .annotationType =>
      if c.kind == .annotationTopLevelScope then
        annotationScope descend id c
        return none
      else acceptInClass id c
  | .method => acceptInMethod descend id c
  | .content => Statement.accept descend id c
  | .statement _ _ => Statement.accept descend id c
  | .expression _ => Expression.accept Expression.walk id c
  | .comment _ => Expression.accept Expression.walk id c

/-- Visits a tree with a block, as deep as `fuel` allows. -/
def walkUpTo : Nat → Visit
  | 0 => fun _ _ => throw .depth
  | fuel + 1 => fun id c => do
      if (← block id).isExpression then Expression.walk id c
      else visit (accept (walkUpTo fuel)) (walkUpTo fuel) id c

def walk : Visit := fun id c => walkUpTo c.tree.height id c

end Declaration

namespace Build

/-- Lets a block visit a whole tree; comments are among the tokens. -/
def walkTree (id : BlockId) (tree : Tree) (tokens : List Lexeme) : Build Unit := do
  modify fun w => { w with trail := { tokens } }
  Declaration.walk id (.ofTree tree)

end Build

end Transcriber
