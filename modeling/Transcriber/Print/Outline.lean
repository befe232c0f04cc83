import Transcriber.Print.Fill

/-!
# Outlines

An outline shows the blocks below a block, one on a line, indented by depth, each with its sort and
what is known of it.  Lines may be colored.

* `Color`, `Color.paint` — colors of the terminal.
* `Outline.line` — the line of a block (`__repr__`).
* `Outline.treeUpTo` — the outline below a block (`dumpRepr`).
-/

namespace Transcriber

inductive Color where
  | black | blue | cyan | green | magenta | red | white | yellow
deriving DecidableEq, Repr

namespace Color

def escape (number : Nat) : String := "\x1b[" ++ toString number ++ "m"

def escapes : List (String × String) := [
  ("BLACK", escape 90), ("BLUE", escape 94), ("CYAN", escape 96), ("GREEN", escape 92),
  ("MAGENTA", escape 95), ("NORMAL", escape 0), ("RED", escape 91), ("WHITE", escape 97),
  ("YELLOW", escape 93)]

def name : Color → String
  | black => "BLACK"
  | blue => "BLUE"
  | cyan => "CYAN"
  | green => "GREEN"
  | magenta => "MAGENTA"
  | red => "RED"
  | white => "WHITE"
  | yellow => "YELLOW"

/-- A text between the escape sequence of a name and the one that ends it, as far as a table has
them. -/
def between (table : List (String × String)) (name text : String) : String :=
  (table.lookup name).getD "" ++ text ++ (table.lookup "NORMAL").getD ""

def table (colored : Bool) : List (String × String) := if colored then escapes else []

def paint (colored : Bool) (color : Color) (text : String) : String :=
  between (table colored) color.name text

end Color

namespace Outline

open Build Color

def shownText : Operand → Option String
  | .text s => if s.isEmpty then none else some s
  | _ => none

def labelled (colored : Bool) (label : String) (color : Color) (text : String) : String :=
  paint colored .white label ++ paint colored color text

def modifierPart (colored : Bool) (b : Block) : List String :=
  if b.modifiers.isEmpty then []
  else [labelled colored "modifiers:" .cyan (",".intercalate b.modifiers)]

def textPart (colored : Bool) (label : String) (text : Option String) : List String :=
  match text with
  | some s => if s.isEmpty then [] else [labelled colored label .cyan s]
  | none => []

def exprParts (colored : Bool) (b : Block) (e : Expr) : List String :=
  let operand := fun label shown =>
    match shown with
    | some s => [labelled colored label .yellow s]
    | none => []
  let left := shownText e.left
  let right := shownText e.right
  [paint colored .blue b.form.settingKey] ++ operand "left:" left ++ operand "right:" right
    ++ modifierPart colored b ++ textPart colored "type:" b.type
    ++ (if left.isNone && right.isNone then [labelled colored "format:" .yellow e.template] else [])
    ++ (if e.tail.isEmpty then [] else [labelled colored "tail:" .black e.tail])

def line (output : BlockId → Build String) (id : BlockId) : Build String := do
  let b ← block id
  let colored := (← get).colored
  let texts : Fill.Texts := ⟨output, fun _ => throw .depth⟩
  match b.form with
  | .comment e =>
      let left ← Fill.operandText texts e.left
      let right ← Fill.operandText texts e.right
      return paint colored .white (b.form.settingKey ++ ":") ++ " " ++ paint colored .black left
        ++ paint colored .black right ++ paint colored .black e.tail
  | .expression e => return " ".intercalate (exprParts colored b e)
  | .statement keyword _ =>
      return paint colored .green b.form.settingKey ++ " "
        ++ labelled colored "keyword:" .cyan keyword
  | form =>
      let name := match b.name with
        | some s => if s.isEmpty then "" else labelled colored "name:" .cyan s
        | none => ""
      return " ".intercalate ([paint colored .green form.settingKey, name]
        ++ textPart colored "type:" b.type ++ modifierPart colored b)

/-- The blocks that stand one level deeper in an outline: the operands of an expression, the
children of any other block. -/
def inner (b : Block) : List BlockId :=
  match b.form.expr? with
  | some e => [e.left, e.right].filterMap fun operand =>
      match operand with
      | .block id => some id
      | _ => none
  | none => b.children

def treeUpTo (output : BlockId → Build String) (indent : Int → Build String) :
    Nat → Int → BlockId → Build String
  | 0, _, _ => throw .depth
  | fuel + 1, level, id => do
      let own := (← indent level) ++ (← line output id) ++ "\n"
      let below ← (inner (← block id)).mapM (treeUpTo output indent fuel (level + 1))
      return own ++ String.join below

end Outline

end Transcriber
