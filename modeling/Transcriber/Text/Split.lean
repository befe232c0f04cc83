/-!
# Parts of a text

* `parts`, `split` — the parts of a text between the occurrences of a character.
-/

namespace Transcriber.Text

/-- The parts between the occurrences of a character; there is always one more of them than of the
character. -/
def parts (mark : Char) : List Char → List (List Char)
  | [] => [[]]
  | c :: cs =>
      if c == mark then [] :: parts mark cs
      else
        match parts mark cs with
        | [] => [[c]]
        | part :: rest => (c :: part) :: rest

def split (mark : Char) (text : String) : List String :=
  (parts mark text.toList).map String.ofList

end Transcriber.Text
