/-!
# Slots of expressions

An expression is written by a template with two slots, one for its left and one for its right
operand. These are the templates from which the others are put together.
-/

namespace Transcriber.Slot

def left : String := "\x7bleft\x7d"

def right : String := "\x7bright\x7d"

/-- Both operands, nothing between them. -/
def both : String := left ++ right

def leftColon : String := left ++ ":"

/-- Both operands, a blank between them. -/
def spaced : String := left ++ " " ++ right

/-- Both operands, a blank between them and a colon at the end. -/
def spacedColon : String := spaced ++ ":"

/-- The template of an operation.  The unsigned shift and its assignment have no operator of their
own in the output language. -/
def operation (op : String) : String :=
  if op == ">>>" then "(" ++ left ++ " & (2**32+" ++ left ++ ")) >> " ++ right
  else if op == ">>>=" then left ++ " = bsr(" ++ left ++ ", " ++ right ++ ")"
  else left ++ " " ++ op ++ " " ++ right

end Transcriber.Slot
