/-!
# Classes of characters by ranges of code points

A class of characters is given by the ranges of its code points, or, if these are many, by the lengths
of the stretches inside and outside of it.
-/

namespace Transcriber.Text

/-- Ranges of code points, both ends included. -/
abbrev Ranges := List (Nat × Nat)

namespace Ranges

def hasCode (ranges : Ranges) (code : Nat) : Bool := ranges.any fun r => r.1 ≤ code && code ≤ r.2

def has (ranges : Ranges) (c : Char) : Bool := ranges.hasCode c.toNat

end Ranges

/-- A class of code points by the lengths of its parts: so many are passed over, so many belong to it,
and so on in turn. -/
abbrev Spans := List Nat

namespace Spans

def hasCode : Spans → Nat → Bool
  | gap :: run :: rest, code =>
      gap ≤ code && (code - gap < run || hasCode rest (code - gap - run))
  | _, _ => false

def has (spans : Spans) (c : Char) : Bool := spans.hasCode c.toNat

end Spans

/-- Whether all characters of a list have a property is found by going through the list. -/
instance (priority := 2000) decidableAllChars {p : Char → Prop} [DecidablePred p] (cs : List Char) :
    Decidable (∀ c ∈ cs, p c) :=
  List.decidableBAll p cs

end Transcriber.Text
