import Transcriber.Config.Basic
import Transcriber.Report
import Transcriber.Source.FormatText

/-!
# Revision of syntax trees

Before a syntax tree is turned into blocks, the settings may change it: the setting `astTransforms`
lists selectors, each with an edit for the nodes that it selects.  The tree is walked once for every
pair. An edit takes effect at once, and the walk goes on in the changed tree: children are visited
by position, so a child that is taken out lets the next one slip past.

* `Edit.apply` — one edit at one node.
* `revise` — all edits of the settings.
-/

namespace Transcriber

open Transcriber.Source

/-- A forest under revision, and what there is to say about it. -/
structure Draft where
  forest : Forest
  report : Report := []

/-- Work on a forest that may fail; what was done before the failure stands. -/
abbrev Revise := EStateM Failure Draft

namespace Revise

def demand {α : Type} : Option α → Revise α
  | some a => pure a
  | none => throw .absent

def entry (id : NodeId) : Revise Entry := do demand ((← get).forest.get? id)

def parent (id : NodeId) : Revise (Option NodeId) := return (← entry id).parent

def change (f : Forest → Forest) : Revise Unit := modify fun d => { d with forest := f d.forest }

def setText (id : NodeId) (text : String) : Revise Unit := change fun f => f.setText id text

def warn (message : String) : Revise Unit :=
  modify fun d => { d with report := ⟨.warning, message⟩ :: d.report }

def removeChild (id : NodeId) (child : Option NodeId) : Revise Unit := do
  let children := (← entry id).children
  match child with
  | none => throw .value
  | some child =>
      if children.contains child then change fun f => f.setChildren id (children.erase child)
      else throw .value

def child? (id : NodeId) (kind : Kind) : Revise (Option NodeId) :=
  return (← get).forest.child? id kind

end Revise

def reservedNames : List String := [
  "None", "True", "False", "GenericAlias", "NoneType", "NotImplementedType", "SimpleNamespace",
  "UnionType",
  "DynamicClassAttribute", "async_generator", "builtin_function_or_method", "cell",
  "classmethod_descriptor",
  "code", "coroutine", "ellipsis", "frame", "function", "generator", "getset_descriptor",
  "mappingproxy",
  "member_descriptor", "method", "method-wrapper", "method_descriptor", "module", "traceback",
  "wrapper_descriptor", "and", "as", "assert", "async", "await", "break", "class", "continue",
  "def", "del",
  "elif", "else", "except", "finally", "for", "from", "global", "if", "import", "in", "is",
  "lambda",
  "nonlocal", "not", "or", "pass", "raise", "return", "try", "while", "with", "yield"]

namespace Edit

open Revise

def plainWhole (text : String) : String :=
  match text.toList.getLast? with
  | some c => if c == 'l' || c == 'L' then String.ofList text.toList.dropLast else text
  | none => text

/-- A number with a digit before its point and without the mark of its size. -/
def plainFloat (text : String) : String :=
  let digits := if text.toList.head? == some '.' then '0' :: text.toList else text.toList
  match digits.getLast? with
  | some c => String.ofList (if "fdFD".toList.contains c then digits.dropLast else digits)
  | none => text

/-- The name that takes the place of a type name, if a table has one; the last table comes first. -/
def lookupType (name : String) : List Value → Except Failure (Option String)
  | [] => .ok none
  | table :: rest => do
      if ← table.holds name then
        match table.entry? name with
        | some (.text s) => return some s
        | some v => return some v.display
        | none => throw .mismatch
      else lookupType name rest

/-- Replaces a call of `length` by one with the receiver as its argument: the call is taken out of
its parent, and the receiver, renamed, is put behind the other children. -/
def lengthToCall (id : NodeId) : Revise Unit := do
  let dot ← demand (← parent id)
  let call ← parent dot
  let receiver ← demand (← child? dot .ident)
  setText receiver ("len(" ++ (← entry receiver).head.text ++ ")")
  let around ← demand (← parent (← demand call))
  removeChild around call
  change fun f => f.addChild around receiver

/-- Makes the format text the receiver of a call of `format`. -/
def formatToCall (id : NodeId) : Revise Unit := do
  let dot ← demand (← parent id)
  let call ← demand (← parent dot)
  let arguments ← demand (← child? call .argumentList)
  let forest := (← get).forest
  let expressions := (forest.childrenOf arguments).filter fun c =>
    (forest.get? c).any fun e => e.head.kind == .expr
  match expressions with
  | [] => throw .position
  | first :: _ =>
      let format ← match ← child? first .stringLiteral with
        | some literal => do
            setText literal (FormatText.convert (← entry literal).head.text)
            pure literal
        | none => do
            let format ← demand (← entry first).children.head?
            let head := (← entry format).head
            if head.kind == .ident then
              warn ("Formatting string " ++ head.text ++ " is not automatically translated.")
            else
              let name := (← entry (← demand (← child? format .ident))).head.text
              warn ("Formatting string returned by " ++ name
                ++ "() is not automatically translated.")
            pure format
      match (← entry dot).children with
      | left :: right :: _ =>
          removeChild arguments (← parent format)
          removeChild dot (some left)
          removeChild dot (some right)
          change fun f => (f.addChild dot format).addChild dot right
      | _ => throw .position

def apply (typeNames : List Value) (edit : Edit) (id : NodeId) : Revise Unit := do
  let text := (← entry id).head.text
  match edit with
  | safeName => if reservedNames.contains text then setText id (text ++ "_")
  | constant text => setText id text
  | wholeNumber => setText id (plainWhole text)
  | floatNumber => setText id (plainFloat text)
  | lengthCall => lengthToCall id
  | formatCall => formatToCall id
  | typeName =>
      match lookupType text typeNames.reverse with
      | .ok (some name) => setText id name
      | .ok none => pure ()
      | .error failure => throw failure

end Edit

/-- What a handler does when it is called for a node of a syntax tree. -/
def Handler.revise (typeNames : List Value) (id : NodeId) : Handler → Revise Unit
  | edit e => e.apply typeNames id
  | echo _ => pure ()
  | castCall => pure ()
  | dropCast => pure ()
  | importComments => throw .absent
  | plainImports => throw .absent
  | packageComments => throw .absent
  | packageMarkers => throw .absent
  | substitutions => throw .absent
  | _ => throw .mismatch

mutual

/-- Walks a tree that changes on the way: what is selected at the node is acted on, then the
children are visited. -/
def Revise.walk (s : Selector) (act : NodeId → Revise Unit) : Nat → NodeId → Revise Unit
  | 0, _ => pure ()
  | fuel + 1, id => do
      let selected := s.select (← get).forest (some id)
      selected.found.forM fun node => do act (← Revise.demand node)
      match selected.failure with
      | some failure => throw failure
      | none => Revise.walkChildren s act fuel id 0

def Revise.walkChildren (s : Selector) (act : NodeId → Revise Unit) :
    Nat → NodeId → Nat → Revise Unit
  | 0, _, _ => pure ()
  | fuel + 1, id, index => do
      match ((← get).forest.childrenOf id)[index]? with
      | none => pure ()
      | some child =>
          Revise.walk s act fuel child
          Revise.walkChildren s act fuel id (index + 1)

end

/-- Makes the edits of one pair of a selector and a handler. -/
def reviseWith (typeNames : List Value) (rule : Value) : Revise Unit := do
  match rule.pair with
  | .error failure => throw failure
  | .ok (.selector s, call) =>
      let act := fun id => match call with
        | .handler h => h.revise typeNames id
        | _ => throw .mismatch
      Revise.walk s act (2 * (← get).forest.size + 1) 0
  | .ok _ => throw .absent

def revise (config : Config) : Revise Unit := do
  match (config.last "astTransforms" (.list [])).items with
  | .error failure => throw failure
  | .ok rules => rules.forM (reviseWith (config.every "typeSubs" (.table [])))

end Transcriber
