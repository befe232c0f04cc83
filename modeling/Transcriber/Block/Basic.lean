import Transcriber.Block.Slot
import Transcriber.Config.Value
import Transcriber.Text.Blank

/-!
# Blocks

The output program is built from blocks: a module, types, methods, statements, expressions.  A block
has a parent and children; an expression also has operands, which need not be among its children.

* `Block` — the blocks, `Form` what is special to a sort of block.
* `Operand` — the operands of expressions.
* `Parameter` — the parameters of methods.
-/

namespace Transcriber

inductive Operand where
  | nothing
  | number (n : Int)
  | text (s : String)
  | block (id : BlockId)
  | node (text : String)
deriving DecidableEq, Repr

structure Expr where
  left : Operand := .text ""
  right : Operand := .text ""
  template : String := Slot.both
  /-- What is written behind the expression. -/
  tail : String := ""
deriving DecidableEq, Repr

/-- What a module knows beside its blocks. -/
structure Program where
  /-- The file it comes from, if that was said; it may be said that there is none. -/
  source : Option (Option String) := none
  needsShift : Bool := false
  needsAbstract : Bool := false
  needsLocks : Bool := false
deriving DecidableEq, Repr

/-- A sort of block, with what is special to it. -/
inductive Form where
  | annotationType
  | plainClass
  | enumeration
  | interface
  | comment (e : Expr)
  | expression (e : Expr)
  | method
  /-- Statements inside a method. -/
  | content
  | program (p : Program)
  /-- A statement that begins with a keyword; its opening line is an expression. -/
  | statement (keyword : String) (opening : BlockId)
deriving DecidableEq, Repr

namespace Form

def sortName : Form → String
  | annotationType => "Annotation"
  | plainClass => "Class"
  | enumeration => "Enum"
  | interface => "Interface"
  | comment _ => "Comment"
  | expression _ => "Expression"
  | method => "Method"
  | content => "MethodContent"
  | program _ => "Module"
  | statement _ _ => "Statement"

def settingKey : Form → String
  | annotationType => "annotation"
  | plainClass => "class"
  | enumeration => "enum"
  | interface => "interface"
  | comment _ => "comment"
  | expression _ => "expression"
  | method => "method"
  | content => "methodcontent"
  | program _ => "module"
  | statement _ _ => "statement"

def expr? : Form → Option Expr
  | expression e => some e
  | comment e => some e
  | _ => none

def mapExpr (change : Expr → Expr) : Form → Form
  | expression e => expression (change e)
  | comment e => comment (change e)
  | form => form

def mapProgram (change : Program → Program) : Form → Form
  | program p => program (change p)
  | form => form

end Form

structure Parameter where
  name : String
  type : String
  default : Option Operand := none
deriving DecidableEq, Repr

structure Block where
  form : Form
  name : Option String := none
  type : Option String := none
  parent : Option BlockId := none
  children : List BlockId := []
  bases : List String := []
  decorators : List Operand := []
  modifiers : List String := []
  parameters : List Parameter := []
  declared : List String := []
  /-- The decorator of a method that is one of several of its name. -/
  overloaded : Option String := none
deriving DecidableEq, Repr

namespace Block

/-- Whether the block is an expression; comments are. -/
def isExpression (b : Block) : Bool := b.form.expr?.isSome

def isClass (b : Block) : Bool :=
  match b.form with
  | .annotationType => true
  | .plainClass => true
  | .enumeration => true
  | .interface => true
  | _ => false

def isAnnotationType (b : Block) : Bool := b.form == .annotationType

def isEnum (b : Block) : Bool := b.form == .enumeration

def isInterface (b : Block) : Bool := b.form == .interface

def isMethod (b : Block) : Bool := b.form == .method

def isModule (b : Block) : Bool :=
  match b.form with
  | .program _ => true
  | _ => false

def isStatement (b : Block) : Bool :=
  match b.form with
  | .statement _ _ => true
  | _ => false

/-- Whether the block is a comment, or an expression whose left operand is the text of one. -/
def isComment (b : Block) : Bool :=
  match b.form with
  | .comment _ => true
  | .expression e =>
      match e.left with
      | .text s => (Text.trimLeft s.toList).head? == some '#'
      | _ => false
  | _ => false

def isPublic (b : Block) : Bool := b.modifiers.contains "public"

def isStatic (b : Block) : Bool := b.modifiers.contains "static"

def isVoid (b : Block) : Bool := b.type == some "void"

end Block

end Transcriber
