import Transcriber.Print.Handler
import Transcriber.Source.Selector
import Transcriber.Text.CommentText

/-!
# Comments on the way

While a tree is walked, the comments among the tokens are taken along: at every stop the tokens
since the last stop are searched for comments that have not been taken.  A comment on the line of
the stop is written behind the outermost expression at hand; any other becomes comment blocks of its
own.
-/

namespace Transcriber

open Transcriber.Source

variable [Chronicle]

namespace Build

/-- The outermost expression of which a block is a part, or the block itself. -/
def outermost (w : Workshop) : Nat → BlockId → BlockId
  | 0, id => id
  | fuel + 1, id =>
      match w.blocks[id]?.bind (·.parent) with
      | none => id
      | some parent =>
          if w.blocks[parent]?.any (·.isExpression) then outermost w fuel parent else id

/-- The tokens from one place up to another, with their numbers. -/
def tokensBetween (tokens : List Lexeme) (start stop : Int) : List (Lexeme × Nat) :=
  ((Choice.slice (some start) (some stop) none).pick tokens.zipIdx).toOption.getD []

/-- The comments from one place up to another that have not been taken. -/
def newComments (trail : Trail) (stop : Int) : List (Lexeme × Nat) :=
  (tokensBetween trail.tokens trail.last stop).filter fun (token, number) =>
    Kind.comments.contains token.kind && !trail.taken.contains number

def appendTail (sign text : String) (e : Expr) : Expr :=
  let sign := if sign.toList.isPrefixOf e.tail.toList then "" else sign
  { e with tail := e.tail ++ sign ++ String.join (Text.commentLines text) }

/-- Puts a comment behind an expression if they are on one line, else as children of `owner`. -/
def putComment (sign : Value) (owner base : BlockId) (onLine : Bool) (text : String) : Build Spot := do
  if onLine then
    match sign with
    | .text sign =>
        changeExpr base (appendTail sign text)
        return .behind base
    | _ => throw .mismatch
  else
    let lines ← (Text.commentLines text).mapM fun line =>
      comment (some owner) { left := sign.operand, right := .text line }
    return .apart lines

/-- Takes a comment: behind the expression of which `near` is a part if that is on the line of the
stop, else as children of `owner`. -/
def takeComment (sign : Value) (owner near : BlockId) (stop : Int) (token : Lexeme) (number : Nat) :
    Build Unit := do
  modify fun w => { w with trail := { w.trail with taken := number :: w.trail.taken } }
  let w ← get
  let base := outermost w w.blocks.size near
  let onLine ← if (← block base).isExpression then
      match (Choice.index stop).pick w.trail.tokens with
      | .ok (here :: _) => pure (here.line == token.line)
      | .ok [] => pure false
      | .error failure => throw failure
    else pure false
  let spot ← putComment sign owner base onLine token.text
  modify fun w => { w with trail := { w.trail with placed := (number, spot) :: w.trail.placed } }

/-- A stop on the way at a token (`insertComments`). -/
def takeComments (owner near : BlockId) (stop : Int) : Build Unit := do
  let sign := (← get).config.last "commentPrefix" (.text "# ")
  (newComments (← get).trail stop).forM fun (token, number) =>
    takeComment sign owner near stop token number
  modify fun w => { w with trail := { w.trail with last := stop } }

end Build

end Transcriber
