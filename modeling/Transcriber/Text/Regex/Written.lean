import Transcriber.Text.Regex

/-!
# The written form of regular expressions

Regular expressions as they are written in settings: `.` `^` `$` `*` `+` `?` `{m,n}` `[...]` `|`
`(...)` and escapes.  Groups are numbered in the order of their opening parentheses and may have
names.
-/

namespace Transcriber.Text

namespace Regex

/-- What has been seen of an expression while reading it. -/
structure Notes where
  /-- The number of groups so far. -/
  count : Nat := 0
  names : List (String × Nat) := []
  /-- The groups that are not closed yet. -/
  unfinished : List Nat := []

def control? : Char → Option Char
  | 'n' => some '\n'
  | 't' => some '\t'
  | 'r' => some '\r'
  | 'a' => some '\x07'
  | 'f' => some '\x0c'
  | 'v' => some '\x0b'
  | _ => none

def class? : Char → Option Member
  | 'd' => some (.digit true)
  | 'D' => some (.digit false)
  | 's' => some (.blank true)
  | 'S' => some (.blank false)
  | 'w' => some (.word true)
  | 'W' => some (.word false)
  | _ => none

def hexValue? (c : Char) : Option Nat :=
  if '0' ≤ c && c ≤ '9' then some (c.toNat - '0'.toNat)
  else if 'a' ≤ c && c ≤ 'f' then some (c.toNat - 'a'.toNat + 10)
  else if 'A' ≤ c && c ≤ 'F' then some (c.toNat - 'A'.toNat + 10)
  else none

/-- Reads a number of `count` digits in base sixteen. -/
def hexNumber? : Nat → Nat → List Char → Option (Nat × List Char)
  | 0, n, cs => some (n, cs)
  | _ + 1, _, [] => none
  | count + 1, n, c :: cs => do hexNumber? count (16 * n + (← hexValue? c)) cs

def isOctal (c : Char) : Bool := '0' ≤ c && c ≤ '7'

/-- The character with a number that is written in base eight, if it is not too large. -/
def octalChar? (digits : List Char) : Option Char :=
  let n := digits.foldl (fun n c => 8 * n + (c.toNat - '0'.toNat)) 0
  if n < 256 then some (Char.ofNat n) else none

/-- The digits of a number in base eight at the start of a text: three if there are three, or any
that begin with a zero. -/
def octalDigits (cs : List Char) : List Char :=
  let digits := (cs.takeWhile isOctal).take 3
  if digits.head? == some '0' || digits.length == 3 then digits else []

/-- The single character that an escape stands for, read behind the backslash. -/
def escapedChar? : List Char → Option (Char × List Char)
  | [] => none
  | 'x' :: rest => (hexNumber? 2 0 rest).map fun (n, rest) => (Char.ofNat n, rest)
  | 'u' :: rest => (hexNumber? 4 0 rest).map fun (n, rest) => (Char.ofNat n, rest)
  | 'U' :: rest => (hexNumber? 8 0 rest).map fun (n, rest) => (Char.ofNat n, rest)
  | c :: rest =>
      match control? c with
      | some control => some (control, rest)
      | none =>
          let digits := octalDigits (c :: rest)
          if !digits.isEmpty then
            (octalChar? digits).map fun c' => (c', (c :: rest).drop digits.length)
          else if c.isAlphanum then none
          else some (c, rest)

/-- A member of a set, read behind what came before; the character is given if it can begin a range.
-/
def readMember : List Char → Option ((Char ⊕ Member) × List Char)
  | [] => none
  | '\\' :: c :: rest =>
      match class? c with
      | some m => some (.inr m, rest)
      | none => if c == 'b' then some (.inl '\x08', rest) else
          (escapedChar? (c :: rest)).map fun (c, rest) => (.inl c, rest)
  | c :: rest => some (.inl c, rest)

/-- What is behind the bracket that closes a set, if a set can be closed here. -/
def closing? (first : Bool) : List Char → Option (List Char)
  | ']' :: rest => if first then none else some rest
  | _ => none

/-- Reads the members of a set up to its closing bracket: a member, perhaps a range, and those behind
it. -/
def readMembers : Nat → Bool → List Char → Option (List Member × List Char)
  | 0, _, _ => none
  | fuel + 1, first, cs =>
      match closing? first cs with
      | some rest => some ([], rest)
      | none => do
          let (item, rest) ← readMember cs
          match item, rest with
          | .inl low, '-' :: ']' :: rest => return ([.range low low, .range '-' '-'], rest)
          | .inl low, '-' :: more =>
              match ← readMember more with
              | (.inl high, rest) =>
                  if high < low then none
                  let (members, rest) ← readMembers fuel false rest
                  return (.range low high :: members, rest)
              | (.inr _, _) => none
          | .inl c, rest =>
              let (members, rest) ← readMembers fuel false rest
              return (.range c c :: members, rest)
          | .inr m, rest =>
              let (members, rest) ← readMembers fuel false rest
              return (m :: members, rest)

def readSet (cs : List Char) : Option (Regex × List Char) :=
  match cs with
  | '^' :: rest =>
      (readMembers (rest.length + 1) true rest).map fun (ms, rest) => (.set false ms, rest)
  | _ => (readMembers (cs.length + 1) true cs).map fun (ms, rest) => (.set true ms, rest)

def readEscape (notes : Notes) : List Char → Option (Regex × List Char)
  | [] => none
  | 'b' :: rest => some (.edge true, rest)
  | 'B' :: rest => some (.edge false, rest)
  | 'A' :: rest => some (.start, rest)
  | 'Z' :: rest => some (.bottom, rest)
  | c :: rest =>
      match class? c with
      | some m => some (.set true [m], rest)
      | none =>
          if '1' ≤ c && c ≤ '9' && (octalDigits (c :: rest)).isEmpty then
            let digits := c :: (rest.takeWhile Char.isDigit).take 1
            let number := numberOf digits
            if number ≤ notes.count && !notes.unfinished.contains number then
              some (.same number, rest.drop (digits.length - 1))
            else none
          else (escapedChar? (c :: rest)).map fun (c, rest) => (.char c, rest)

/-- Reads the bounds of a repetition: at least, at most, and what is behind them. -/
def readBounds : List Char → Option (Nat × Option Nat × List Char)
  | '*' :: rest => some (0, none, rest)
  | '+' :: rest => some (1, none, rest)
  | '?' :: rest => some (0, some 1, rest)
  | '\x7b' :: rest =>
      let low := rest.takeWhile Char.isDigit
      match rest.drop low.length with
      | '\x7d' :: rest =>
          if low.isEmpty then none else some (numberOf low, some (numberOf low), rest)
      | ',' :: rest =>
          let high := rest.takeWhile Char.isDigit
          match rest.drop high.length with
          | '\x7d' :: rest =>
              some (numberOf low, if high.isEmpty then none else some (numberOf high), rest)
          | _ => none
      | _ => none
  | _ => none

def Notes.opened (notes : Notes) (name : Option String) : Option ((Regex → Option Regex) × Notes) :=
  let number := notes.count + 1
  let unfinished := number :: notes.unfinished
  match name with
  | none => some (some ∘ .group number, ⟨number, notes.names, unfinished⟩)
  | some name =>
      if (notes.names.lookup name).isSome then none
      else some (some ∘ .group number, ⟨number, (name, number) :: notes.names, unfinished⟩)

/-- Closes the groups that were opened since. -/
def Notes.closed (notes before : Notes) : Notes := { notes with unfinished := before.unfinished }

def isGroupName (cs : List Char) : Bool :=
  match cs with
  | [] => false
  | c :: rest => isWord c && !isDigit c && rest.all isWord

/-- Reads the kind of a group behind its opening parenthesis: a number to keep its match under, or a
test of what is ahead or behind, or neither. -/
def readGroupStart (notes : Notes) : List Char → Option ((Regex → Option Regex) × Notes × List Char)
  | '?' :: ':' :: rest => some (some, notes, rest)
  | '?' :: '=' :: rest => some (some ∘ .ahead true, notes, rest)
  | '?' :: '!' :: rest => some (some ∘ .ahead false, notes, rest)
  | '?' :: '<' :: '=' :: rest => some (fun a => a.width?.map (.behind true · a), notes, rest)
  | '?' :: '<' :: '!' :: rest => some (fun a => a.width?.map (.behind false · a), notes, rest)
  | '?' :: '>' :: rest => some (some ∘ .atomic, notes, rest)
  | '?' :: 'P' :: '<' :: rest => do
      let name := rest.takeWhile (· != '>')
      match rest.drop name.length with
      | _ :: rest =>
          if !isGroupName name then none
          let (wrap, notes) ← notes.opened (some (String.ofList name))
          return (wrap, notes, rest)
      | [] => none
  | '?' :: _ => none
  | rest => (notes.opened none).map fun (wrap, notes) => (wrap, notes, rest)

/-- Reads a reference to a named group, behind the parenthesis that opens it. -/
def readNamed? (notes : Notes) : List Char → Option (Option (Regex × List Char))
  | '?' :: 'P' :: '=' :: rest =>
      let name := rest.takeWhile (· != ')')
      some <|
        match notes.names.lookup (String.ofList name), rest.drop name.length with
        | some number, _ :: rest =>
            if notes.unfinished.contains number then none else some (.same number, rest)
        | _, _ => none
  | _ => none

mutual

def readAlternatives : Nat → Notes → List Char → Option (Regex × Notes × List Char)
  | 0, _, _ => none
  | fuel + 1, notes, cs => do
      let (first, notes, rest) ← readSequence fuel notes cs
      match rest with
      | '|' :: rest =>
          let (others, notes, rest) ← readAlternatives fuel notes rest
          return (.alt first others, notes, rest)
      | _ => return (first, notes, rest)

def readSequence : Nat → Notes → List Char → Option (Regex × Notes × List Char)
  | 0, _, _ => none
  | fuel + 1, notes, cs =>
      match cs with
      | [] => some (.empty, notes, [])
      | '|' :: _ => some (.empty, notes, cs)
      | ')' :: _ => some (.empty, notes, cs)
      | _ => do
          let (item, notes, rest) ← readItem fuel notes cs
          let (item, rest) ← readRepeats fuel item rest
          let (others, notes, rest) ← readSequence fuel notes rest
          return (.seq item others, notes, rest)

def readRepeats : Nat → Regex → List Char → Option (Regex × List Char)
  | 0, _, _ => none
  | _ + 1, item, cs =>
      match readBounds cs with
      | none => some (item, cs)
      | some (least, most, rest) =>
          if most.any (· < least) || item.isPlace then none
          else
            let (found, rest) := match rest with
              | '?' :: rest => (Regex.repeated item least most false, rest)
              | '+' :: rest => (.atomic (.repeated item least most true), rest)
              | _ => (.repeated item least most true, rest)
            if (readBounds rest).isSome then none else some (found, rest)

def readItem : Nat → Notes → List Char → Option (Regex × Notes × List Char)
  | 0, _, _ => none
  | fuel + 1, notes, cs =>
      match cs with
      | [] => none
      | '.' :: rest => some (.any, notes, rest)
      | '^' :: rest => some (.start, notes, rest)
      | '$' :: rest => some (.finish, notes, rest)
      | '[' :: rest => (readSet rest).map fun (r, rest) => (r, notes, rest)
      | '\\' :: rest => (readEscape notes rest).map fun (r, rest) => (r, notes, rest)
      | '(' :: rest =>
          match readNamed? notes rest with
          | some found => found.map fun (r, rest) => (r, notes, rest)
          | none => do
              let (wrap, within, rest) ← readGroupStart notes rest
              let (inner, within, rest) ← readAlternatives fuel within rest
              match rest with
              | ')' :: rest => return (← wrap inner, within.closed notes, rest)
              | _ => none
      | c :: rest => if (readBounds cs).isSome then none else some (.char c, notes, rest)

end

/-- A regular expression together with its groups. -/
structure Compiled where
  regex : Regex
  groups : Nat
  names : List (String × Nat)

def read? (s : String) : Option Compiled :=
  match readAlternatives (3 * s.length + 3) {} s.toList with
  | some (regex, notes, []) => some ⟨regex, notes.count, notes.names⟩
  | _ => none

end Regex

end Transcriber.Text
