import Transcriber.Text.Digit

/-!
# Templates

A template is a text with fields in braces.  A field names what stands in its place, perhaps with a
conversion behind `!` and a specification behind `:`.  A brace that is text is written twice.

Reading a template stops at the first mistake in it.  What was read until then stands, so that
whoever fills the fields meets a missing name before a mistake further on.

* `Piece` — literal text, or a field.
* `Template.pieces` — the pieces of a template, and whether they are all.
* `Path` — the name of a field, taken apart.
-/

namespace Transcriber.Text

structure Field where
  name : List Char
  conversion : Option Char
  spec : List Char
deriving DecidableEq, Repr

inductive Piece where
  | literal (text : List Char)
  | field (field : Field)
deriving DecidableEq, Repr

namespace Template

def isBrace (c : Char) : Bool := c == '\x7b' || c == '\x7d'

/-- Reads the name of a field up to the character that ends it, which is given too.  Brackets hide
everything up to their end.  There is no name if the template ends first or a brace is opened. -/
def readName (inBrackets : Bool) : List Char → Option (List Char × Char × List Char)
  | [] => none
  | c :: rest =>
      if inBrackets then
        (readName (c != ']') rest).map fun (name, stop, rest) => (c :: name, stop, rest)
      else if c == '\x7b' then none
      else if c == '\x7d' || c == ':' || c == '!' then some ([], c, rest)
      else (readName (c == '[') rest).map fun (name, stop, rest) => (c :: name, stop, rest)

def readSpec : Nat → List Char → Option (List Char × List Char)
  | _, [] => none
  | opened, c :: rest =>
      if c == '\x7d' && opened == 0 then some ([], rest)
      else
        let opened := if c == '\x7b' then opened + 1 else if c == '\x7d' then opened - 1 else opened
        (readSpec opened rest).map fun (spec, rest) => (c :: spec, rest)

def readField (cs : List Char) : Option (Field × List Char) :=
  match readName false cs with
  | none => none
  | some (name, stop, rest) =>
      if stop == '\x7d' then some (⟨name, none, []⟩, rest)
      else if stop == ':' then (readSpec 0 rest).map fun (spec, rest) => (⟨name, none, spec⟩, rest)
      else
        match rest with
        | [] => none
        | conversion :: '\x7d' :: rest => some (⟨name, some conversion, []⟩, rest)
        | conversion :: ':' :: rest =>
            (readSpec 0 rest).map fun (spec, rest) => (⟨name, some conversion, spec⟩, rest)
        | _ => none

/-- The pieces of a template, and whether it was read to its end.  `fuel` bounds their number. -/
def piecesUpTo : Nat → List Char → List Piece × Bool
  | 0, cs => ([], cs.isEmpty)
  | fuel + 1, cs =>
      let text := cs.takeWhile fun c => !isBrace c
      match cs.dropWhile fun c => !isBrace c with
      | [] => (if text.isEmpty then [] else [.literal text], true)
      | [_] => ([], false)
      | brace :: next :: rest =>
          if next == brace then
            let (pieces, complete) := piecesUpTo fuel rest
            (.literal (text ++ [brace]) :: pieces, complete)
          else if brace == '\x7d' then ([], false)
          else
            match readField (next :: rest) with
            | none => ([], false)
            | some (field, rest) =>
                let (pieces, complete) := piecesUpTo fuel rest
                ((if text.isEmpty then [] else [.literal text]) ++ .field field :: pieces, complete)

def pieces (template : String) : List Piece × Bool :=
  piecesUpTo (template.toList.length + 1) template.toList

end Template

/-- A step from a value to a part of it. -/
inductive Access where
  | attribute (name : List Char)
  | item (key : List Char)
deriving DecidableEq, Repr

namespace Path

def first (name : List Char) : List Char := name.takeWhile fun c => c != '.' && c != '['

/-- Whether the first part of a name stands for an argument by its position. -/
def byPosition (name : List Char) : Bool := (first name).all isDigit

/-- The steps behind the first part of a name, and whether they were all readable. -/
def stepsUpTo : Nat → List Char → List Access × Bool
  | _, [] => ([], true)
  | 0, _ => ([], false)
  | fuel + 1, '.' :: rest =>
      let name := rest.takeWhile fun c => c != '.' && c != '['
      if name.isEmpty then ([], false)
      else
        let (steps, complete) := stepsUpTo fuel (rest.drop name.length)
        (.attribute name :: steps, complete)
  | fuel + 1, '[' :: rest =>
      let key := rest.takeWhile (· != ']')
      match rest.drop key.length with
      | [] => ([], false)
      | _ :: rest =>
          if key.isEmpty then ([], false)
          else
            let (steps, complete) := stepsUpTo fuel rest
            (.item key :: steps, complete)
  | _, _ => ([], false)

/-- The steps behind the first part of a name, and whether they were all readable. -/
def steps (name : List Char) : List Access × Bool :=
  stepsUpTo (name.length + 1) (name.drop (first name).length)

end Path

end Transcriber.Text
