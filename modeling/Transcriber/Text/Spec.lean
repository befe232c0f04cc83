import Transcriber.Text.Digit

/-!
# Specifications of fields

A specification says how a text or a number is fitted into a field: fill character and alignment,
sign, alternate form, width, grouping of digits, precision, and the kind of presentation.  Its parts
come in this order, and each may be left out.

* `Spec.parts?` — the parts of a specification as they are written.
* `Spec.read?` — a specification whose parts go together.
* `Spec.fitText?`, `Spec.fitNumber?` — fitting; there is no result where a part makes no sense.
-/

namespace Transcriber.Text

structure Spec where
  fill : Char := ' '
  align : Option Char := none
  sign : Option Char := none
  /-- Whether a negative zero is to lose its sign. -/
  unsignedZero : Bool := false
  alternate : Bool := false
  /-- Whether the width begins with a zero that counts as fill. -/
  zeroFill : Bool := false
  width : Nat := 0
  group : Option Char := none
  precision : Option Nat := none
  kind : Option Char := none
deriving DecidableEq, Repr

namespace Spec

def isAlign (c : Char) : Bool := c == '<' || c == '>' || c == '=' || c == '^'

/-- Takes a character off the front if it fulfils a test. -/
def optional (test : Char → Bool) : List Char → Option Char × List Char
  | c :: rest => if test c then (some c, rest) else (none, c :: rest)
  | [] => (none, [])

def number (cs : List Char) : List Char × List Char := (cs.takeWhile isDigit, cs.dropWhile isDigit)

/-- The largest width and precision that a specification can ask for. -/
def mostWidth : Nat := Nat.pow 2 63 - 1

def groupFits (group : Char) (kind : Option Char) : Bool :=
  match kind with
  | none => true
  | some kind =>
      "defgEG%F".toList.contains kind || (group == '_' && "boxX".toList.contains kind)

structure Parts where
  fill : Option Char := none
  align : Option Char := none
  sign : Option Char := none
  unsignedZero : Bool := false
  alternate : Bool := false
  zero : Bool := false
  width : List Char := []
  group : Option Char := none
  /-- The digits behind a point. -/
  places : Option (List Char) := none
  kind : Option Char := none
deriving DecidableEq, Repr

def alignment : List Char → Option Char × Option Char × List Char
  | a :: b :: rest =>
      if isAlign b then (some a, some b, rest)
      else if isAlign a then (none, some a, b :: rest) else (none, none, a :: b :: rest)
  | [a] => if isAlign a then (none, some a, []) else (none, none, [a])
  | [] => (none, none, [])

def parts? (cs : List Char) : Option Parts := do
  let (fill, align, cs) := alignment cs
  let (sign, cs) := optional (fun c => c == ' ' || c == '+' || c == '-') cs
  let (unsignedZero, cs) := optional (· == 'z') cs
  let (alternate, cs) := optional (· == '#') cs
  let (zero, cs) := if fill.isNone then optional (· == '0') cs else (none, cs)
  let (width, cs) := number cs
  let (group, cs) := optional (fun c => c == ',' || c == '_') cs
  if (optional (fun c => group.isSome && (c == ',' || c == '_')) cs).1.isSome then none
  let (point, cs) := optional (· == '.') cs
  let (places, cs) := if point.isSome then number cs else ([], cs)
  if point.isSome && places.isEmpty then none
  let (kind, cs) := optional (fun _ => true) cs
  if !cs.isEmpty then none
  return {
    fill, align, sign, unsignedZero := unsignedZero.isSome, alternate := alternate.isSome
    zero := zero.isSome, width, group, places := if point.isSome then some places else none, kind }

def read? (cs : List Char) : Option Spec := do
  let parts ← parts? cs
  if mostWidth < numberOf parts.width || mostWidth < numberOf (parts.places.getD []) then none
  if parts.group.any fun g => !groupFits g parts.kind then none
  return {
    fill := parts.fill.getD (if parts.zero then '0' else ' ')
    align := parts.align, sign := parts.sign, unsignedZero := parts.unsignedZero
    alternate := parts.alternate, zeroFill := parts.zero, width := numberOf parts.width
    group := parts.group, precision := parts.places.map numberOf, kind := parts.kind }

/-- Fills a text up to the width.  `head` is a sign that stays in front of the fill. -/
def pad (spec : Spec) (align : Char) (head body : List Char) : List Char :=
  let missing := spec.width - (head.length + body.length)
  let fill := fun n => List.replicate n spec.fill
  if align == '<' then head ++ body ++ fill missing
  else if align == '^' then fill (missing / 2) ++ head ++ body ++ fill (missing - missing / 2)
  else if align == '=' then head ++ fill missing ++ body
  else fill missing ++ head ++ body

def fitText? (spec : Spec) (text : List Char) : Option (List Char) :=
  if spec.sign.isSome || spec.unsignedZero || spec.alternate || spec.align == some '=' || spec.group.isSome
      || spec.kind.any (· != 's') then none
  else
    let text := match spec.precision with
      | some n => text.take n
      | none => text
    some (spec.pad (spec.align.getD '<') [] text)

def grouped (mark : Char) (size : Nat) (digits : List Char) : List Char :=
  (digits.reverse.zipIdx.flatMap fun (c, i) =>
    if i != 0 && i % size == 0 then [mark, c] else [c]).reverse

def fitNumber? (spec : Spec) (n : Int) : Option (List Char) :=
  if spec.precision.isSome || spec.unsignedZero then none
  else
    let kind := spec.kind.getD 'd'
    let align := spec.align.getD (if spec.zeroFill then '=' else '>')
    if kind == 'c' then
      if spec.sign.isSome || spec.alternate || n < 0 then none
      else some (spec.pad align [] [Char.ofNat n.toNat])
    else
      let base := match kind with
        | 'b' => 2
        | 'o' => 8
        | 'x' => 16
        | 'X' => 16
        | _ => 10
      if base == 10 && kind != 'd' && kind != 'n' then none
      else
        let digits := Nat.toDigits base n.natAbs
        let digits := if kind == 'X' then digits.map Char.toUpper else digits
        let digits := match spec.group with
          | some mark => grouped mark (if base == 10 then 3 else 4) digits
          | none => digits
        let sign := if n < 0 then ['-'] else
          match spec.sign with
          | some '+' => ['+']
          | some ' ' => [' ']
          | _ => []
        let mark := if spec.alternate && base != 10 then ['0', kind] else []
        some (spec.pad align (sign ++ mark) digits)

end Spec

end Transcriber.Text
