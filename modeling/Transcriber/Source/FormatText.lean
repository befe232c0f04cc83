import Transcriber.Text.Digit

/-!
# Format texts

A Java format text holds specifiers such as `%2$-8.3f` between pieces of plain text.  In the output
language a replacement field such as `{1:8.3f}` stands for a specifier: the argument's position
counts from 0, the sign, `#`, `0`, the width, the comma, the precision and the conversion follow a
colon.  The specifier `%n` becomes the written form of a line end.  Plain text stays as it is.

* `Specifier` — the parts of a specifier, `Specifier.read?` reads one behind its percent sign.
* `Specifier.field` — the replacement field.
* `FormatText.convert` — a whole format text.
-/

namespace Transcriber.Source

structure Specifier where
  /-- The digits of the position of the argument. -/
  index : Option (List Char)
  flags : List Char
  width : List Char
  precision : List Char
  conversion : Char
deriving DecidableEq, Repr

namespace Specifier

def isFlag (c : Char) : Bool := "-+# 0,".toList.contains c

/-- Whether a character is a conversion.  Case does not count, and the long s is an s. -/
def isConversion (c : Char) : Bool := "scdoxefgnSCDOXEFGNſ".toList.contains c

/-- Reads the position of the argument: digits and a dollar sign. -/
def readIndex (cs : List Char) : Option (List Char) × List Char :=
  let digits := cs.takeWhile Text.isDigit
  match digits, cs.drop digits.length with
  | _ :: _, '$' :: rest => (some digits, rest)
  | _, _ => (none, cs)

def readPrecision (cs : List Char) : List Char × List Char :=
  match cs with
  | '.' :: rest =>
      let digits := rest.takeWhile Char.isDigit
      if digits.isEmpty then ([], cs) else ('.' :: digits, rest.drop digits.length)
  | _ => ([], cs)

def read? (cs : List Char) : Option (Specifier × List Char) :=
  let (index, cs) := readIndex cs
  let flags := cs.takeWhile isFlag
  let cs := cs.drop flags.length
  let width := cs.takeWhile Char.isDigit
  let (precision, cs) := readPrecision (cs.drop width.length)
  match cs with
  | c :: rest => if isConversion c then some (⟨index, flags, width, precision, c⟩, rest) else none
  | [] => none

/-- The sign, `#` and `0` among the flags, in this order. -/
def flagPart (flags : List Char) : List Char :=
  (if flags.contains '+' then ['+'] else if flags.contains ' ' then [' '] else [])
    ++ (if flags.contains '#' then ['#'] else [])
    ++ (if flags.contains '0' then ['0'] else [])

def field (s : Specifier) : List Char :=
  if s.conversion == 'n' then ['\\', 'n']
  else
    let position := match s.index with
      | some digits => (toString ((Text.numberOf digits : Int) - 1)).toList
      | none => []
    ['\x7b'] ++ position ++ [':'] ++ flagPart s.flags ++ s.width
      ++ (if s.flags.contains ',' then [','] else []) ++ s.precision ++ [s.conversion, '\x7d']

end Specifier

namespace FormatText

def convertUpTo : Nat → List Char → List Char
  | 0, cs => cs
  | _, [] => []
  | fuel + 1, c :: cs =>
      if c == '%' then
        match Specifier.read? cs with
        | some (s, rest) => s.field ++ convertUpTo fuel rest
        | none => c :: convertUpTo fuel cs
      else c :: convertUpTo fuel cs

def convert (text : String) : String := String.ofList (convertUpTo text.length text.toList)

end FormatText

end Transcriber.Source
