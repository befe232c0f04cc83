import Transcriber.Text.Blank
import Transcriber.Text.Split

/-!
# The text of comments

The lines of a comment without the characters that mark it as one: a slash with stars at the start
of a line, stars with a slash at its end, two slashes at its start.  Lines of blanks are left out.

* `commentLines` — the lines of a comment.
-/

namespace Transcriber.Text

/-- A line without a slash and stars at its start. -/
def dropOpening (cs : List Char) : List Char :=
  match trimLeft cs with
  | '/' :: '*' :: rest => rest.dropWhile (· == '*')
  | _ => cs

/-- A line without stars and a slash at its end. -/
def dropClosing (cs : List Char) : List Char :=
  match cs.reverse.dropWhile isBlank with
  | '/' :: '*' :: rest => (rest.dropWhile (· == '*')).reverse
  | _ => cs

def dropSlashes (cs : List Char) : List Char :=
  match trimLeft cs with
  | '/' :: '/' :: rest => rest
  | _ => cs

def bareLine (line : String) : String :=
  String.ofList (dropSlashes (dropClosing (dropOpening line.toList)))

def commentLines (text : String) : List String :=
  ((split '\n' text).filter fun line => !allBlank line).map bareLine

end Transcriber.Text
