import Transcriber.Failure
import Transcriber.Text.Regex.Written

/-!
# Replacing matches

All matches of a regular expression in a text are replaced, from left to right, none overlapping
another.  An empty match may follow a match, but not at the place of another empty match.  The
replacement may refer to groups by number or name.

* `Regex.replaceAll` — replacing the matches.
* `Regex.Replacement.read` — the written form of replacements.
-/

namespace Transcriber.Text

namespace Regex

inductive Part where
  | text (c : Char)
  | group (number : Nat)
deriving DecidableEq, Repr

namespace Replacement

def readReference (compiled : Compiled) (cs : List Char) : Except Failure (Nat × List Char) :=
  match cs with
  | '<' :: rest =>
      let name := rest.takeWhile (· != '>')
      match rest.drop name.length with
      | [] => .error .badPattern
      | _ :: rest =>
          if !name.isEmpty && name.all Char.isDigit then
            if numberOf name ≤ compiled.groups then .ok (numberOf name, rest)
            else .error .badPattern
          else if isGroupName name then
            match compiled.names.lookup (String.ofList name) with
            | some number => .ok (number, rest)
            | none => .error .position
          else .error .badPattern
  | _ => .error .badPattern

def readUpTo (compiled : Compiled) : Nat → List Char → Except Failure (List Part)
  | _, [] => .ok []
  | 0, _ => .error .badPattern
  | fuel + 1, '\\' :: rest =>
      match rest with
      | [] => .error .badPattern
      | 'g' :: rest => do
          let (number, rest) ← readReference compiled rest
          return .group number :: (← readUpTo compiled fuel rest)
      | '\\' :: rest => do return .text '\\' :: (← readUpTo compiled fuel rest)
      | c :: rest =>
          let octal := octalDigits (c :: rest)
          if !octal.isEmpty then do
            match octalChar? octal with
            | some found =>
                return .text found :: (← readUpTo compiled fuel ((c :: rest).drop octal.length))
            | none => throw .badPattern
          else if c.isDigit then do
            let digits := c :: (rest.takeWhile Char.isDigit).take 1
            let number := numberOf digits
            if compiled.groups < number then throw .badPattern
            return .group number :: (← readUpTo compiled fuel (rest.drop (digits.length - 1)))
          else
            match control? c with
            | some control => do return .text control :: (← readUpTo compiled fuel rest)
            | none =>
                if c == 'b' then do return .text '\x08' :: (← readUpTo compiled fuel rest)
                else if c.isAlpha then throw .badPattern
                else do return .text '\\' :: .text c :: (← readUpTo compiled fuel rest)
  | fuel + 1, c :: rest => do return .text c :: (← readUpTo compiled fuel rest)

def read (compiled : Compiled) (s : String) : Except Failure (List Part) :=
  readUpTo compiled (s.length + 1) s.toList

/-- What a replacement stands for after a match from one place to another.  A group that took no
part stands for nothing. -/
def expand (parts : List Part) (start stop : Spot) : List Char :=
  parts.flatMap fun part =>
    match part with
    | .text c => [c]
    | .group 0 => start.upTo stop
    | .group number => (stop.groups.lookup number).getD []

end Replacement

/-- Replaces the matches from a place on.  With `advance` a match at the place itself must not be
empty. -/
def replaceFrom (r : Regex) (parts : List Part) : Nat → Bool → Spot → List Char
  | 0, _, s => s.rest
  | fuel + 1, advance, s =>
      match r.match? advance s with
      | some found =>
          Replacement.expand parts s found ++ replaceFrom r parts fuel (found.left == s.left) found
      | none =>
          match s.rest with
          | [] => []
          | c :: _ => c :: replaceFrom r parts fuel false s.next

def replaceAll (r : Regex) (parts : List Part) (text : String) : String :=
  let s := Spot.ofText text.toList
  String.ofList (replaceFrom r parts (2 * s.left + 2) false s)

/-- Replaces all matches of a written expression by a written replacement, if both can be read. -/
def substitute (pattern replacement text : String) : Except Failure String := do
  match read? pattern with
  | none => throw .badPattern
  | some compiled =>
      let parts ← Replacement.read compiled replacement
      return replaceAll compiled.regex parts text

end Regex

end Transcriber.Text
