import Transcriber.Walk.Variable

/-!
# Statements

How the inside of a method accepts the nodes of the syntax tree.  Loops become `while` and `for`
statements, a `switch` becomes a chain of tests, declarations become assignments.

* `Statement.accept` — accepting a node, by its kind.
* `Statement.assertion` (`acceptAssert`), `leave` (`acceptBreak`), `catching` (`acceptCatch`), `resume`
  (`acceptContinue`), `doLoop` (`acceptDo`), `forLoop` (`acceptFor`), `forEachLoop` (`acceptForEach`),
  `conditional` (`acceptIf`), `switch` (`acceptSwitch`), `synchronized` (`acceptSynchronized`), `raising`
  (`acceptThrow`), `trying` (`acceptTry`), `returning` (`acceptReturn`), `whileLoop` (`acceptWhile`).
-/

namespace Transcriber

open Transcriber.Source Build

variable [Chronicle]

namespace Statement

def pass (parent : BlockId) : Build Unit := do
  let _ ← expr (some parent) { left := .text "pass" }

def begin (parent : BlockId) (keyword template : String) : Build BlockId :=
  statement (some parent) keyword template

def open_ (stat : BlockId) (c : Option Cursor) : Build Unit := do
  visitMaybe Expression.walk (← opening stat) c

def assertion (id : BlockId) (c : Cursor) : Build Unit := do
  let stat ← begin id "assert" Slot.spaced
  open_ stat c.children.head?

/-- Whether a `break` belongs to a loop.  One that belongs to a `switch` is not needed. -/
def breaksLoop : List Cursor → Bool
  | [] => true
  | c :: rest =>
      if c.kind == .switchWord then false
      else if [Kind.whileWord, .doWord, .forWord].contains c.kind then true
      else breaksLoop rest

def leave (id : BlockId) (c : Cursor) : Build Unit := do
  if breaksLoop c.ancestors then
    if !c.children.isEmpty then
      report .warning "Detected unhandled break statement with label; generated code incorrect."
    let _ ← begin id "break" Slot.both

/-- The line of a clause that catches exceptions of a type, and its body. -/
def caught (descend : Visit) (id : BlockId) (name : String) (bound : Operand) (body : Cursor) :
    Build Unit := do
  let line ← opening id
  setTemplate line Slot.spacedColon
  let caught ← looseExpr {
    template := Slot.left ++ " as " ++ Slot.right, left := .text name, right := bound }
  setRight line (.block caught)
  descend id body

def catching (descend : Visit) (id : BlockId) (c : Cursor) : Build Unit := do
  let declaration ← demand (c.child? .formalParamStdDecl)
  let type ← demand (declaration.child? .typeRef)
  let name := ".".intercalate ((type.descendantsOf .ident).map (·.text))
  let bound : Operand := match declaration.child? .ident with
    | some n => .node n.text
    | none => .nothing
  let body ← demand (c.child? .blockScope)
  if body.children.isEmpty then pass id
  caught descend id name bound body

def loops : List Kind := [.forWord, .forEach, .doWord, .whileWord]

def resumeLine (id : BlockId) (c : Cursor) : Build Unit := do
  let _ ← begin id "continue" Slot.spaced
  if !c.children.isEmpty then
    report .warning "Detected unhandled continue statement with label; generated code incorrect."

/-- A `continue`.  The step of a counting loop is repeated before it. -/
def resume (id : BlockId) (c : Cursor) : Build Unit := do
  match c.ancestors.find? fun a => loops.contains a.kind with
  | none => throw .notFound
  | some loop =>
      if loop.kind == .forWord then
        let step ← exprIn id
        visitMaybe Expression.walk step (loop.child? .forUpdate)
      resumeLine id c

def doLoop (descend : Visit) (id : BlockId) (c : Cursor) : Build Unit := do
  match c.children with
  | [body, condition] =>
      let loop ← begin id "while" Slot.spacedColon
      setRight (← opening loop) (.text "True")
      descend loop body
      let test ← begin loop "if" (Slot.left ++ " not (" ++ Slot.right ++ "):")
      open_ test condition
      let _ ← begin test "break" Slot.both
  | _ => throw .value

/-- The kinds of nodes below which an expression is a statement. -/
def expressionParents : List Kind :=
  [.blockScope, .caseWord, .defaultWord, .forEach, .methodCall, .argumentList]

def forBody (descend : Visit) (id : BlockId) (c : Cursor) : Build Unit := do
  let inside ← content id
  let body ← demand (c.child? .blockScope)
  if body.children.isEmpty then pass inside else descend inside body
  let step ← exprIn inside
  visitMaybe Expression.walk step (c.child? .forUpdate)

/-- A counting loop: what goes before it, the test, and the body. -/
def forLoop (descend : Visit) (id : BlockId) (c : Cursor) : Build Unit := do
  visitMaybe descend id (c.child? .forInit)
  let loop ← begin id "while" Slot.spacedColon
  let condition ← demand (c.child? .forCondition)
  if condition.children.isEmpty then setRight (← opening loop) (.text "True")
  else open_ loop (some condition)
  forBody descend id c

def forEachLoop (descend : Visit) (id : BlockId) (c : Cursor) : Build Unit := do
  let loop ← begin id "for" Slot.spacedColon
  let element ← looseExpr { template := Slot.left ++ " in " ++ Slot.right }
  setRight (← opening loop) (.block element)
  visitMaybe Expression.walk element (c.child? .ident)
  let source ← looseExpr {}
  setRight element (.block source)
  visitMaybe Expression.walk source (c.child? .expr)
  let inside ← content id
  match c.children[4]? with
  | some body => descend inside body
  | none => throw .position

/-- A branch of a conditional: an expression belongs to the statement, a block stands beside it. -/
def branch (descend : Visit) (id stat : BlockId) (c : Cursor) : Build Unit := do
  if c.kind == .expr then Expression.walk (← exprIn stat) c
  else descend (← content id) c

def childAt (c : Cursor) (position : Nat) : Build Cursor :=
  match c.children[position]? with
  | some child => pure child
  | none => throw .position

def elseBranch (descend : Visit) (id : BlockId) (c : Cursor) : Build Unit := do
  let stat ← begin id "else" Slot.leftColon
  if c.children.isEmpty then pass stat else descend (← content id) c

/-- The other branches of a conditional: further tests, and what is done if no test holds. -/
def otherwise (descend : Visit) (id : BlockId) : Nat → Cursor → Build Unit
  | 0, _ => throw .depth
  | fuel + 1, c => do
      if c.kind == .ifWord then
        let stat ← begin id "elif" Slot.spacedColon
        open_ stat (← childAt c 0)
        branch descend id stat (← childAt c 1)
        match c.children[2]? with
        | some next => otherwise descend id fuel next
        | none => pure ()
      else if c.kind == .expr then
        let stat ← begin id "else" Slot.leftColon
        Expression.walk (← exprIn stat) c
      else if c.kind.number != 0 then elseBranch descend id c

def conditional (descend : Visit) (id : BlockId) (c : Cursor) : Build Unit := do
  let stat ← begin id "if" Slot.spacedColon
  open_ stat (← childAt c 0)
  branch descend id stat (← childAt c 1)
  match c.children with
  | [_, _, next] => otherwise descend id next.tree.height next
  | _ => pure ()

def groupContent (descend : Visit) (id : BlockId) (body : List Cursor) : Build Unit := do
  let inside ← content id
  body.forM (descend inside)
  if body.isEmpty then pass inside

/-- A group of a `switch`, behind the line that opens it: the test and the statements. -/
def group (descend : Visit) (id subject stat : BlockId) (first isDefault : Bool) (c : Cursor) :
    Build Unit := do
  if isDefault then
    if first then setRight (← opening stat) (.text "True")
    groupContent descend id c.children
  else
    let value ← exprIn subject
    visitMaybe Expression.walk value (c.child? .expr)
    let test ← looseExpr {
      template := Slot.left ++ " == " ++ Slot.right, left := .block subject, right := .block value }
    setRight (← opening stat) (.block test)
    groupContent descend id (c.children.drop 1)

/-- The groups of a `switch` on an expression: a chain of tests, one for each group. -/
def groups (descend : Visit) (id subject : BlockId) : Bool → List Cursor → Build Unit
  | _, [] => pure ()
  | first, c :: rest => do
      let isDefault := c.kind == .defaultWord
      let stat ← if first then begin id "if" Slot.spacedColon
        else if isDefault then begin id "else" Slot.leftColon
        else begin id "elif" Slot.spacedColon
      group descend id subject stat first isDefault c
      groups descend id subject false rest

/-- A `switch`.  The expression that it is about is not a statement of its own. -/
def switch (descend : Visit) (id : BlockId) (c : Cursor) : Build Unit := do
  let condition := c.child? .parenthesizedExpr
  let labels ← demand (c.child? .switchBlockLabelList)
  if !labels.children.isEmpty then
    let subject ← exprIn id
    visitMaybe Expression.walk subject condition
    groups descend id subject true labels.children
    if (← block id).children.contains subject then
      change id fun b => { b with children := b.children.erase subject }
    else throw .value

/-- Work with a statement under a lock.  The modifier for it only lets the module take note. -/
def locked (id : BlockId) (parent : Option Kind) (work : BlockId → Build Unit) : Build Unit := do
  let home ← enclosing id (·.isModule)
  changeProgram home fun p => { p with needsLocks := true }
  if (← demand parent) != .modifierList then
    let lock ← setting id "LockFunction" "Name" (.text "lock_for_object")
    let stat ← begin id "with" (Slot.left ++ " " ++ lock.display ++ "(" ++ Slot.right ++ "):")
    work stat

def synchronized (descend : Visit) (id : BlockId) (c : Cursor) : Build Unit :=
  locked id c.parentKind? fun stat => do
    open_ stat (← childAt c 0)
    descend stat (← childAt c 1)

def raising (id : BlockId) (c : Cursor) : Build Unit := do
  let stat ← begin id "raise" Slot.spaced
  open_ stat (← childAt c 0)

/-- The clauses behind a `try` block: those that catch exceptions, and the final one. -/
def tryClauses : List Cursor → Build (Option Cursor × Option Cursor)
  | [clauses, final] => pure (some clauses, some final)
  | [only] => pure (if only.kind == .catchClauseList then (some only, none) else (none, some only))
  | _ => throw .unset

def finalClause (descend : Visit) (id : BlockId) : Option Cursor → Build Unit
  | some final => do
      let stat ← begin id "finally" Slot.leftColon
      descend stat final
  | none => pure ()

def trying (descend : Visit) (id : BlockId) (c : Cursor) : Build Unit := do
  match c.children with
  | [] => throw .position
  | body :: rest =>
      let stat ← begin id "try" Slot.leftColon
      descend stat body
      let (clauses, final) ← tryClauses rest
      match clauses with
      | some clauses =>
          clauses.children.forM fun clause => do
            let stat ← begin id "except" Slot.spacedColon
            descend stat clause
      | none => pure ()
      finalClause descend id final

def returned (id : BlockId) (c : Cursor) : Build (Option BlockId) := do
  let line ← expr (some id) { left := .text "return" }
  if !c.children.isEmpty then
    let value ← exprIn line
    setTemplate line Slot.spaced
    setRight line (.block value)
    Expression.walk value c
  return some line

def returning (id : BlockId) (c : Cursor) : Build (Option BlockId) := do
  match c.parentKind? with
  | none => return none
  | some parent => if parent.number == 0 then return none else returned id c

def whileLoop (descend : Visit) (id : BlockId) (c : Cursor) : Build Unit := do
  match c.children with
  | [condition, body] =>
      let loop ← begin id "while" Slot.spacedColon
      open_ loop condition
      if body.children.isEmpty then pass loop else descend loop body
  | _ => throw .value

/-- Accepts a node of a statement inside a method; nodes of other kinds are passed over. -/
def accept (descend : Visit) : Accept := fun id c => do
  match c.kind with
  | .varDeclaration =>
      Variable.declare id c
      return some id
  | .assertWord => silent (assertion id c)
  | .breakWord => silent (leave id c)
  | .catchWord => silent (catching descend id c)
  | .continueWord => silent (resume id c)
  | .doWord => silent (doLoop descend id c)
  | .expr =>
      if c.parentKind?.any expressionParents.contains then return some (← exprIn id)
      else return none
  | .forWord => silent (forLoop descend id c)
  | .forEach => silent (forEachLoop descend id c)
  | .ifWord => silent (conditional descend id c)
  | .switchWord => silent (switch descend id c)
  | .synchronizedWord => silent (synchronized descend id c)
  | .throwWord => silent (raising id c)
  | .tryWord => silent (trying descend id c)
  | .returnWord => returning id c
  | .whileWord => silent (whileLoop descend id c)
  | _ => unhandled id c
where
  /-- Work after which the children are not visited. -/
  silent (work : Build Unit) : Build (Option BlockId) := do
    work
    return none

end Statement

end Transcriber
