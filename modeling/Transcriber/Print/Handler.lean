import Transcriber.Helper.Source
import Transcriber.Print.Fill
import Transcriber.Text.Regex.Replace

/-!
# Handlers at work

What the handlers do when they are called.  Some give a value at once; others give a sequence, and
do their work only when the items of the sequence are asked for.

* `Called` — the result of calling a handler.
* `Handler.docStringOf` (`simpleDocString`), `makePackage` (`namespacePackages`), `mainStanzaOf`
  (`scriptMainStanza`), `substituteOutput` (`outputSubs`), `overloadsOf` (`overloadedClassMethods`),
  `sortContentOf` (`classContentSort`), `basesOr` (`defaultBases`), `implementsAnyOf` (`implAny`),
  `moveStaticsOf` (`moveStaticExpressions`), `interfaceParamsOf` (`zopeInterfaceMethodParams`),
  `freshNameFor` (`globalNameCounter`).
* `Handler.call` — calling a handler; a wrong number of arguments is a failure.
* `Value.call` — calling a value, which has to be a handler.
-/

namespace Transcriber

open Build

variable [Chronicle]

inductive Called where
  | value (v : Value)
  /-- A sequence whose items are worked out when they are asked for. -/
  | sequence (items : Build (List Value))

namespace Called

/-- The items of a result.  A search that finds nothing breaks off the sequence. -/
def items : Called → Build (List Value)
  | value v => lift v.items
  | sequence items =>
      tryCatch items fun failure => throw (if failure == .notFound then .interrupted else failure)

/-- A result as a value; a sequence is nothing that could be shown. -/
def toValue : Called → Value
  | value v => v
  | sequence _ => .none

end Called

namespace Value

def blockId : Value → Build BlockId
  | block id => pure id
  | _ => throw .absent

def operand : Value → Operand
  | none => .nothing
  | number n => .number n
  | text s => .text s
  | block id => .block id
  | node s => .node s
  | v => .node v.display

def ofOperand : Operand → Value
  | .nothing => none
  | .number n => number n
  | .text s => text s
  | .block id => block id
  | .node s => node s

def ofParameter (p : Parameter) : Value :=
  .table ([("name", .text p.name), ("type", .text p.type)]
    ++ (p.default.map fun d => ("default", ofOperand d)).toList)

/-- The text of a value a number of times over.  Texts and lists are repeated, numbers multiplied.
-/
def times (count : Int) : Value → Except Failure String
  | text s => .ok (String.join (List.replicate count.toNat s))
  | number n => .ok (toString (n * count))
  | truth b => .ok (toString ((if b then 1 else 0) * count))
  | list items => .ok (list (List.replicate count.toNat items).flatten).display
  | _ => .error .mismatch

def written (texts : Fill.Texts) : Value → Build String
  | block id => texts.output id
  | v => pure v.display

end Value

namespace Handler

def nameText : Option String → String
  | some name => name
  | none => "None"

def lines (texts : List String) : List Value := texts.map .text

def docStringOf (id : BlockId) : Build (List Value) := do
  let b ← block id
  return lines ["\"\"\" generated source for " ++ b.form.settingKey ++ " " ++ nameText b.name
    ++ " \"\"\""]

/-- Makes the file that turns the directory of a module's source into a package, if there is none.
-/
def makePackage (texts : Fill.Texts) (id : BlockId) (package : Value) : Build Unit := do
  let b ← block id
  match b.form with
  | .program { source := some (some path), .. } =>
      if path.isEmpty then
        report .warning "namespace package not created; source input not named."
      else
        let directory := (path.toList.reverse.dropWhile (· != '/')).reverse
        let marker := String.ofList directory ++ "__init__.py"
        if (← get).files.any fun file => file.1 == marker then
          report .warning "namespace package not created; __init__.py exists."
        else
          let name := nameText b.name
          let text := "from pkgutil import extend_path\n"
            ++ "__path__ = extend_path(__path__, __name__)\n"
            ++ "\nfrom " ++ name ++ " import " ++ name ++ "\n"
          modify fun w => { w with files := w.files ++ [(marker, text)] }
          report .info ("created __init__.py file for package " ++ (← package.written texts) ++ ".")
  | .program { source := some none, .. } =>
      report .warning "namespace package not created; source input not named."
  | _ => throw .absent

/-- What stands at the start of inner lines, as the settings have it. -/
def indent : Build Value := return (← get).config.last "indentPrefix" (.text "    ")

def indentAt (level : Int) : Build String := do lift ((← indent).times level)

def isMain (b : Block) : Bool :=
  b.isMethod && b.isPublic && b.isStatic && b.isVoid && b.name == some "main"

/-- The lines that run the main method of the type that has the name of the module. -/
def mainStanzaOf (id : BlockId) : Build (List Value) := do
  let b ← block id
  let w ← get
  let hasMain := b.children.any fun child =>
    w.blocks[child]?.any fun c =>
      c.isClass && c.name == b.name && c.children.any fun m => w.blocks[m]?.any isMain
  if !hasMain then return []
  let indent := (← indent).display
  return lines ["\n\nif __name__ == '__main__':\n" ++ indent ++ "import sys\n" ++ indent
    ++ nameText b.name ++ ".main(sys.argv)"]

def substituteAll (text : String) (rules : List Value) : Build String :=
  rules.foldlM (fun text rule => do
    match ← lift rule.pair with
    | (.text pattern, .text replacement) => lift (Text.Regex.substitute pattern replacement text)
    | _ => throw .mismatch) text

/-- Applies the substitutions that every layer of the settings has for a sort of block. -/
def substituteOutput (config : Config) (sort text : String) : Build String :=
  (config.every (sort ++ "OutputSubs") (.list [])).foldlM
    (fun text layer => do substituteAll text (← lift layer.items)) text

def methodsNamed (parent : BlockId) (name : Option String) : Build (List BlockId) := do
  let w ← get
  return ((← block parent).children.filter fun c => w.blocks[c]?.any fun b =>
    b.isMethod && b.name == name)

/-- Gives the methods behind the first of their name decorators and names of their own.  The name
that they share is read anew each time. -/
def renameOverloads (id : BlockId) : Nat → List BlockId → Build Unit
  | _, [] => pure ()
  | count, other :: rest => do
      let types := (← block other).parameters.map (·.type)
      let mark := "@" ++ nameText (← block id).name ++ ".register(" ++ ", ".intercalate types ++ ")"
      change other fun b => { b with overloaded := some mark }
      let name := nameText (← block id).name ++ "_" ++ toString count
      change other fun b => { b with name := some name }
      renameOverloads id (count + 1) rest

/-- The decorator of a method that is one of several of its name. -/
def overloadsOf (id : BlockId) : Build (List Value) := do
  let b ← block id
  let methods ← methodsNamed (← demand b.parent) b.name
  match methods with
  | [only] =>
      match (← block only).overloaded with
      | some mark => return if mark.isEmpty then [] else lines [mark]
      | none => return []
  | _ =>
      renameOverloads id 0 (methods.drop 1)
      return lines ["@overloaded"]

/-- Children in groups: each method with what stands before it, and what stands behind the last one.
-/
def contentGroups (isMethod : BlockId → Bool) : List BlockId → List (List BlockId)
  | [] => [[]]
  | id :: rest =>
      if isMethod id then [id] :: contentGroups isMethod rest
      else
        match contentGroups isMethod rest with
        | group :: groups => (id :: group) :: groups
        | [] => [[id]]

/-- Sorts the children of a block by the names of its methods.  What stands behind the last method
goes by a number instead of a name; as numbers and names have no order, there is an order only
without methods. -/
def sortContentOf (id : BlockId) : Build Unit := do
  let b ← block id
  let w ← get
  match contentGroups (fun c => w.blocks[c]?.any (·.isMethod)) b.children with
  | [group] => change id fun b => { b with children := group }
  | _ => throw .mismatch

def commonBases : List String := ["object"]

def basesOr (id : BlockId) (others : List String) : Build Value := do
  let b ← block id
  return .list (lines (if b.bases.isEmpty then others else b.bases))

def blocksBelow (blocks : Array Block) : Nat → BlockId → List BlockId
  | 0, _ => []
  | fuel + 1, id =>
      ((blocks[id]?.map (·.children)).getD []).flatMap fun c => c :: blocksBelow blocks fuel c

/-- Whether a base of a block is declared in an enclosing module. -/
def implementsAnyOf (id : BlockId) : Build Bool := do
  let b ← block id
  let w ← get
  let modules := (w.lineage id).filter fun m => w.blocks[m]?.any (·.isModule)
  return modules.any fun m =>
    let declared := blocksBelow w.blocks w.blocks.size m
    b.bases.any fun base => declared.any fun d => w.blocks[d]?.any fun b => b.name == some base

/-- Moves the expressions of a type that mention its name with a dot to the end of the module. -/
def moveStaticsOf (texts : Fill.Texts) (id : BlockId) : Build Unit := do
  let b ← block id
  let name := nameText b.name ++ "."
  let moved ← b.children.filterM fun child => do
    if (← block child).isExpression then
      return Value.occursIn name.toList (← texts.output child).toList
    else return false
  let home ← enclosing id (·.isModule)
  moved.forM fun child => do
    change id fun b => { b with children := b.children.erase child }
    let wrapped ← looseExpr { template := name ++ Slot.right, right := .block child }
    adopt home wrapped (← block home).children.length

/-- The parameters that a method of an interface declares: all but the receiver. -/
def interfaceParamsOf (id : BlockId) : Build (List Value) := do
  let b ← block id
  let parent ← block (← demand b.parent)
  if !parent.isInterface then return b.parameters.map .ofParameter
  return (b.parameters.drop 1).filterMap fun p =>
    if p.name == "self" then none else some (.ofParameter p)

def freshNameFor (base : String) : Build String := do
  let count := (← get).madeUp
  modify fun w => { w with madeUp := count + 1 }
  return "__" ++ base ++ "_" ++ toString count

/-- What a module knows; other things know nothing. -/
def programOf (v : Value) : Build Program := do
  match v with
  | .block id =>
      match (← block id).form with
      | .program p => return p
      | _ => return {}
  | _ => return {}

def declare (form : Expr → Form) (template : String) (module : Value) (declared : Value) :
    Build Called := do
  let parent ← module.blockId
  let _ ← create { form := form { left := declared.operand, template }, parent := some parent }
  return .value .none

def about (items : BlockId → Build (List Value)) (v : Value) : Called :=
  .sequence (do items (← v.blockId))

def call (texts : Fill.Texts) : Handler → List Value → Build Called
  | interpreterLine, [_] => return .sequence (pure (lines ["#!/usr/bin/env python"]))
  | encodingMaker, [] => return .value (.handler (.sourceEncoding "utf-8"))
  | encodingMaker, [v] => return .value (.handler (.sourceEncoding v.display))
  | sourceEncoding encoding, [_] =>
      return .sequence (pure (lines ["# -*- coding: " ++ encoding ++ " -*-"]))
  | docString, [v] => return about docStringOf v
  | importComments, [m, e] => declare .comment ("#import " ++ Slot.left) m e
  | plainImports, [m, e] => declare .expression ("import " ++ Slot.left) m e
  | packageComments, [m, e] => declare .comment ("# package: " ++ Slot.left) m e
  | packageMarkers, [m, e] => do
      makePackage texts (← m.blockId) e
      return .value .none
  | enumNumbers, [_, index, _] => return .value (.text (← index.written texts))
  | enumNames, [_, _, name] => return .value (.text name.inside)
  | mainStanza, [v] => return about mainStanzaOf v
  | substitutions, [v, text] => do
      let sort := (← block (← v.blockId)).form.settingKey
      match text with
      | .text s => return .value (.text (← substituteOutput (← get).config sort s))
      | _ => throw .mismatch
  | overloads, [v] => return about overloadsOf v
  | classMethod, [v] =>
      return about (fun id => do
        let b ← block id
        return if b.isStatic && !b.decorators.contains (.text "classmethod") then lines ["@classmethod"]
          else []) v
  | abstractMethod, [v] =>
      return about (fun id => do
        match (← block id).parent with
        | none => return []
        | some parent =>
            return if (← block parent).isInterface then lines ["@abstractmethod"] else []) v
  | synchronizedMethod, [v] =>
      return about (fun id => do
        return if (← block id).modifiers.contains "synchronized" then lines ["@synchronized"]
          else []) v
  | freshName, [base] => return .value (.text (← freshNameFor (← base.written texts)))
  | shiftSource, [] => return .value (.text (Helper.sourceText Helper.shiftLines))
  | lockSource, [] => return .value (.text (Helper.sourceText Helper.lockLines))
  | shiftHelper, [v] => return .sequence (do
      return if (← programOf v).needsShift then lines Helper.shiftLines else [])
  | abstractHelper, [v] => return .sequence (do
      return if (← programOf v).needsAbstract then lines ["from abc import ABCMeta, abstractmethod"]
        else [])
  | lockHelper, [v] => return .sequence (do
      return if (← programOf v).needsLocks then lines Helper.lockLines else [])
  | sortContent, [v] => do
      sortContentOf (← v.blockId)
      return .value .none
  | params, [v] => do
      return .value (.list ((← block (← v.blockId)).parameters.map .ofParameter))
  | interfaceParams, [v] => return about interfaceParamsOf v
  | bases, [v] => return .value (← basesOr (← v.blockId) commonBases)
  | interfaceBases, [v] => return .value (← basesOr (← v.blockId) ["zope.interface.Interface"])
  | implementsAny, [v] => do
      return .value (if ← implementsAnyOf (← v.blockId) then .truth true else .none)
  | implementingBases, [v] => do
      let id ← v.blockId
      if ← implementsAnyOf id then return .value (.list (lines commonBases))
      else return .value (← basesOr id commonBases)
  | implementsHead, [v] =>
      return about (fun id => do
        if ← implementsAnyOf id then
          return lines ((← block id).bases.map fun base =>
            "zope.interface.implements(" ++ base ++ ")")
        else return []) v
  | moveStatics, [v] => do
      moveStaticsOf texts (← v.blockId)
      return .value .none
  | castCall, [v, _] => do
      setTemplate (← v.blockId) (Slot.left ++ "(" ++ Slot.right ++ ")")
      return .value .none
  | dropCast, [v, _] => do
      setTemplate (← v.blockId) Slot.right
      return .value .none
  | constantMaker, [v] => return .value (.handler (.edit (.constant v.display)))
  | fieldMaker, [_] => throw .absent
  | edit _, [_, _] => throw .absent
  | echo line, _ => return .sequence (pure (lines [line]))
  | _, _ => throw .mismatch

end Handler

def Value.call (texts : Fill.Texts) : Value → List Value → Build Called
  | .handler h, args => h.call texts args
  | _, _ => throw .mismatch

end Transcriber
