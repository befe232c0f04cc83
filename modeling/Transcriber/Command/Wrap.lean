import Transcriber.Text.Split

/-!
# Lines of limited width

Words are put on lines one behind the other, and a line ends where the next word would not fit.
-/

namespace Transcriber.Wrap

/-- Goes on filling lines.  `used` is the width of the line so far, with a blank behind it to come;
a word that is wider than a line gets a line of its own. -/
def fill (width start : Nat) (line : List String) (used : Nat) : List String → List (List String)
  | [] => if line.isEmpty then [] else [line]
  | word :: rest =>
      if width < used + word.length && !line.isEmpty then
        line :: fill width start [word] (start + word.length + 1) rest
      else fill width start (line ++ [word]) (used + word.length + 1) rest

/-- Fills lines of a width.  The first line begins at `first`, the others at `start`. -/
def lines (width first start : Nat) (words : List String) : List String :=
  (fill width start [] first words).map fun line => " ".intercalate line

def words (text : String) : List String := (Text.split ' ' text).filter fun word => !word.isEmpty

end Transcriber.Wrap
