import Transcriber.Block.Workshop
import Transcriber.Text.Spec
import Transcriber.Text.Template

/-!
# Filling the slots of an expression

An expression is written by filling the two slots of its template with the texts of its operands.  A
template may come from a text of the source, so it can hold any field: one that names no operand, or
asks for something an operand does not have, is a failure.

* `Fill.fill` — an expression in writing (`__str__` of `Expression`).
-/

namespace Transcriber.Fill

/-- How a block is written: as output, and as a line of an outline. -/
structure Texts where
  output : BlockId → Build String
  outline : BlockId → Build String

def operandText (texts : Texts) : Operand → Build String
  | .nothing => pure "None"
  | .number n => pure (toString n)
  | .text s => pure s
  | .block id => texts.output id
  | .node s => pure s

def operandQuoted (texts : Texts) : Operand → Build String
  | .nothing => pure "None"
  | .number n => pure (toString n)
  | .text s => pure (Text.quoted s)
  | .block id => texts.outline id
  | .node s => pure s

def lookup (e : Expr) (name : List Char) : Build Operand :=
  if Text.Path.byPosition name then throw .position
  else
    match String.ofList (Text.Path.first name) with
    | "left" => pure e.left
    | "right" => pure e.right
    | _ => throw .key

def access : Operand → Text.Access → Build Operand
  | _, .attribute _ => throw .absent
  | .text s, .item key =>
      if key.all Text.isDigit then
        match s.toList[Text.numberOf key]? with
        | some c => pure (.text c.toString)
        | none => throw .position
      else throw .mismatch
  | _, .item _ => throw .mismatch

def operandOf (e : Expr) (name : List Char) : Build Operand := do
  let first ← lookup e name
  let (steps, complete) := Text.Path.steps name
  let found ← steps.foldlM access first
  if complete then return found else throw .value

def convert (texts : Texts) (operand : Operand) : Option Char → Build Operand
  | none => pure operand
  | some 's' => return .text (← operandText texts operand)
  | some 'r' => return .text (← operandQuoted texts operand)
  | some 'a' =>
      match operand with
      | .text s => pure (.text (Text.quotedAscii s))
      | _ => return .text (← operandQuoted texts operand)
  | some _ => throw .value

def fit (texts : Texts) (operand : Operand) (spec : List Char) : Build String :=
  if spec.isEmpty then operandText texts operand
  else
    match operand with
    | .text s => chars ((Text.Spec.read? spec).bind fun spec => spec.fitText? s.toList)
    | .number n => chars ((Text.Spec.read? spec).bind fun spec => spec.fitNumber? n)
    | _ => throw .mismatch
where
  /-- The fitted text, if the specification makes sense. -/
  chars : Option (List Char) → Build String
    | some cs => pure (String.ofList cs)
    | none => throw .value

/-- Fills a template.  A specification may hold fields itself, down to `depth` levels. -/
def fillTo (texts : Texts) (e : Expr) : Nat → String → Build String
  | 0, _ => throw .value
  | depth + 1, template => do
      let (pieces, complete) := Text.Template.pieces template
      let parts ← pieces.mapM fun piece =>
        match piece with
        | .literal text => pure (String.ofList text)
        | .field field => do
            let operand ← operandOf e field.name
            let operand ← convert texts operand field.conversion
            let spec ← if field.spec.contains '\x7b' then
                String.toList <$> fillTo texts e depth (String.ofList field.spec)
              else pure field.spec
            fit texts operand spec
      if complete then return String.join parts else throw .value

/-- An expression in writing: its filled template and its tail. -/
def fill (texts : Texts) (e : Expr) : Build String := do
  return (← fillTo texts e 2 e.template) ++ e.tail

end Transcriber.Fill
