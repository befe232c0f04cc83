import Transcriber.Print.Handler

/-!
# Blocks by parts

A block can be made from values for its parts, and its parts can be read and changed one by one.

* `Part` — the parts of blocks, `Shape` the sorts of blocks that can be made.
* `Build.make` — a block from values for its parts.
* `Build.part`, `Build.setPart`, `Build.appendPart` — a part of a block.
-/

namespace Transcriber

variable [Chronicle]

namespace Value

def text? : Value → Option String
  | none => .none
  | v => some v.display

def block? : Value → Build (Option BlockId)
  | none => pure .none
  | v => some <$> v.blockId

def texts (v : Value) : Build (List String) := do return (← Build.lift v.items).map display

def ofText? (s : Option String) : Value := (s.map text).getD none

def ofTexts (xs : List String) : Value := list (xs.map text)

end Value

def Parameter.ofValue (v : Value) : Parameter :=
  let part := fun key => ((v.entry? key).map (·.display)).getD ""
  ⟨part "name", part "type", (v.entry? "default").map (·.operand)⟩

/-- A question about a block that has a yes or no for an answer. -/
inductive Test where
  | isAnnotationType | isClass | isComment | isEnum | isExpression | isInterface | isMethod
  | isModule
  | isPublic | isStatement | isStatic | isVoid
deriving DecidableEq, Repr

def Block.passes (b : Block) : Test → Bool
  | .isAnnotationType => b.isAnnotationType
  | .isClass => b.isClass
  | .isComment => b.isComment
  | .isEnum => b.isEnum
  | .isExpression => b.isExpression
  | .isInterface => b.isInterface
  | .isMethod => b.isMethod
  | .isModule => b.isModule
  | .isPublic => b.isPublic
  | .isStatement => b.isStatement
  | .isStatic => b.isStatic
  | .isVoid => b.isVoid

inductive Part where
  | name | type | parent | children | bases | decorators | modifiers | declared | parameters
  | overloaded
  /-- The names of the sort of block: in full, in settings, and for short. -/
  | sortName | settingKey | shortName
  | indent | left | right | template | tail | keyword | opening | source
  | needsShift | needsAbstract | needsLocks
  | test (t : Test)
deriving DecidableEq, Repr

inductive Shape where
  | annotationType | plainClass | enumeration | interface | comment | expression | method | content
  | program | statement
deriving DecidableEq, Repr

namespace Shape

def exprParts : List Part := [.left, .right, .template, .parent, .tail]

def parts : Shape → List Part
  | expression => exprParts
  | comment => exprParts
  | statement => [.keyword, .template, .parent]
  | _ => [.name, .type, .parent]

end Shape

def Form.shortName : Form → String
  | annotationType => "at"
  | plainClass => "klass"
  | expression _ => "expr"
  | content => "methodContent"
  | form => form.settingKey

namespace Build

def make (shape : Shape) (given : List (Part × Value)) : Build BlockId := do
  if !given.all fun (part, _) => shape.parts.contains part then throw .mismatch
  let value := fun part (default : Value) => (given.lookup part).getD default
  let parent := (value .parent .none).block?
  let name := (value .name .none).text?
  let type := (value .type .none).text?
  let plain := fun form => do create { form, name, type, parent := ← parent }
  let parts : Expr := {
    left := (value .left (.text "")).operand, right := (value .right (.text "")).operand,
    template := (value .template (.text Slot.both)).display,
    tail := (value .tail (.text "")).display }
  match shape with
  | .annotationType => plain .annotationType
  | .plainClass => plain .plainClass
  | .enumeration => plain .enumeration
  | .interface => plain .interface
  | .content => plain .content
  | .program => plain (.program {})
  | .method => method (← parent) name type
  | .expression => expr (← parent) parts
  | .comment => comment (← parent) parts
  | .statement =>
      match given.lookup .keyword with
      | none => throw .mismatch
      | some keyword => statement (← parent) keyword.display parts.template

def part (id : BlockId) (part : Part) : Build Value := do
  let b ← block id
  match part, b.form with
  | .test t, _ => return .truth (b.passes t)
  | .name, _ => return .ofText? b.name
  | .type, _ => return .ofText? b.type
  | .parent, _ => return (b.parent.map Value.block).getD .none
  | .children, _ => return .list (b.children.map .block)
  | .bases, _ => return .ofTexts b.bases
  | .decorators, _ => return .list (b.decorators.map .ofOperand)
  | .modifiers, _ => return .ofTexts b.modifiers
  | .declared, _ => return .ofTexts b.declared
  | .parameters, _ => return .list (b.parameters.map .ofParameter)
  | .overloaded, _ => return .ofText? b.overloaded
  | .sortName, form => return .text form.sortName
  | .settingKey, form => return .text form.settingKey
  | .shortName, form => return .text form.shortName
  | .indent, _ => Handler.indent
  | .left, .expression e | .left, .comment e => return .ofOperand e.left
  | .right, .expression e | .right, .comment e => return .ofOperand e.right
  | .template, .expression e | .template, .comment e => return .text e.template
  | .tail, .expression e | .tail, .comment e => return .text e.tail
  | .keyword, .statement keyword _ => return .text keyword
  | .opening, .statement _ opening => return .block opening
  | .source, .program { source := some source, .. } => return .ofText? source
  | .needsShift, .program p => return .truth p.needsShift
  | .needsAbstract, .program p => return .truth p.needsAbstract
  | .needsLocks, .program p => return .truth p.needsLocks
  | _, _ => throw .absent

def setPart (id : BlockId) (part : Part) (v : Value) : Build Unit := do
  match part with
  | .name => change id fun b => { b with name := v.text? }
  | .type => change id fun b => { b with type := v.text? }
  | .parent =>
      let parent ← v.block?
      change id fun b => { b with parent }
  | .children =>
      let children ← (← lift v.items).mapM (·.blockId)
      change id fun b => { b with children }
  | .bases =>
      let bases ← v.texts
      change id fun b => { b with bases }
  | .decorators =>
      let decorators := (← lift v.items).map (·.operand)
      change id fun b => { b with decorators }
  | .modifiers =>
      let modifiers ← v.texts
      change id fun b => { b with modifiers }
  | .declared =>
      let declared ← v.texts
      change id fun b => { b with declared }
  | .parameters =>
      let parameters := (← lift v.items).map Parameter.ofValue
      change id fun b => { b with parameters }
  | .overloaded => change id fun b => { b with overloaded := v.text? }
  | .left => setLeft id v.operand
  | .right => setRight id v.operand
  | .template => setTemplate id v.display
  | .tail => changeExpr id fun e => { e with tail := v.display }
  | .keyword =>
      change id fun b => { b with form := match b.form with
        | .statement _ opening => .statement v.display opening
        | form => form }
  | .opening =>
      let opening ← v.blockId
      change id fun b => { b with form := match b.form with
        | .statement keyword _ => .statement keyword opening
        | form => form }
  | .source => changeProgram id fun p => { p with source := some v.text? }
  | .needsShift => changeProgram id fun p => { p with needsShift := v.truthy }
  | .needsAbstract => changeProgram id fun p => { p with needsAbstract := v.truthy }
  | .needsLocks => changeProgram id fun p => { p with needsLocks := v.truthy }
  | _ => throw .absent

def appendPart (id : BlockId) (which : Part) (v : Value) : Build Unit := do
  match ← part id which with
  | .list items => setPart id which (.list (items ++ [v]))
  | _ => throw .absent

end Build

end Transcriber
