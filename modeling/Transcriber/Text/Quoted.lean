import Transcriber.Text.Printable

/-!
# Quoted text

A text between quotes, in one line.  Single quotes are used unless the text holds a single quote and
no double quote.  The quote in use and the backslash get a backslash in front; line ends and tabs
have short forms; every other character that cannot be printed is written by its number.

* `quoted` — the quoted form.
* `quotedAscii` — the same, with all characters beyond ASCII written by their numbers.
-/

namespace Transcriber.Text

/-- A number in base sixteen with at least `width` digits. -/
def hex (width n : Nat) : List Char :=
  let digits := Nat.toDigits 16 n
  List.replicate (width - digits.length) '0' ++ digits

def byNumber (c : Char) : List Char :=
  if c.toNat < 0x100 then '\\' :: 'x' :: hex 2 c.toNat
  else if c.toNat < 0x10000 then '\\' :: 'u' :: hex 4 c.toNat
  else '\\' :: 'U' :: hex 8 c.toNat

def quotedChar (quote : Char) (plain : Char → Bool) (c : Char) : List Char :=
  if c == quote || c == '\\' then ['\\', c]
  else if c == '\n' then ['\\', 'n']
  else if c == '\r' then ['\\', 'r']
  else if c == '\t' then ['\\', 't']
  else if plain c then [c]
  else byNumber c

def quoteFor (cs : List Char) : Char := if cs.contains '\'' && !cs.contains '"' then '"' else '\''

/-- A text between quotes; characters that are not `plain` are written by their numbers. -/
def quotedWith (plain : Char → Bool) (s : String) : String :=
  let quote := quoteFor s.toList
  String.ofList (quote :: s.toList.flatMap (quotedChar quote plain) ++ [quote])

def quoted (s : String) : String := quotedWith isPrintable s

def quotedAscii (s : String) : String := quotedWith (fun c => c.toNat < 127 && 32 ≤ c.toNat) s

end Transcriber.Text
