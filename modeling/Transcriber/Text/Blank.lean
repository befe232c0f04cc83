import Transcriber.Text.Ranges

/-!
# Blanks

A blank is a character with the Unicode property of white space, or one of the four separators 28 to
31.

* `isBlank` — the class.
* `trimLeft`, `allBlank` — blanks at the start of a text, and texts of blanks.
-/

namespace Transcriber.Text

def blanks : Ranges := [
  (9, 13), (28, 32), (133, 133), (160, 160), (5760, 5760), (8192, 8202), (8232, 8233),
  (8239, 8239), (8287, 8287), (12288, 12288)]

def isBlank (c : Char) : Bool := blanks.has c

def trimLeft (cs : List Char) : List Char := cs.dropWhile isBlank

def allBlank (s : String) : Bool := s.toList.all isBlank

end Transcriber.Text
