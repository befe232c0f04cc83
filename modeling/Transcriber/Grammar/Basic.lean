import Transcriber.Lexical.Scan

/-!
# Grammars

A grammar is a list of productions over a vocabulary of token names.  A right-hand side is built
from tokens, choices among tokens, calls of other rules and groups.

A production may continue what it has read: its `operators` follow its `alternatives` any number of
times, each guarded by a binding level.  Calling such a rule with a level admits only the operators
whose guard is at least that level; this is how binary operators bind with different strength and
associate to the left or to the right.

* `Item`, `Production`, `Ruleset` — the data.
-/

namespace Transcriber.Grammar

open Transcriber.Lexical

/-- How often the body of a group stands. -/
inductive Times where
  | once
  | optional
  | star
  | plus
deriving DecidableEq, Repr

/-- One element of a right-hand side.  A label names the element in the resulting tree node. -/
inductive Item where
  | token (name : String) (label : Option String)
  | oneOf (names : List String) (label : Option String)
  /-- A call of a rule, with the least binding level that it may continue with. -/
  | call (rule : String) (level : Nat) (label : Option String)
  /-- Passes only at a binding level that is at most this one. -/
  | guard (level : Nat)
  /-- Alternatives, standing as often as `times` says. -/
  | group (times : Times) (alternatives : List (List Item))

namespace Item

def tok (name : String) : Item := .token name none

/-- A call without a label, admitting every continuation. -/
def ref (rule : String) : Item := .call rule 0 none

def pick (alternatives : List (List Item)) : Item := .group .once alternatives

def maybe (body : List Item) : Item := .group .optional [body]

def many (body : List Item) : Item := .group .star [body]

def many1 (body : List Item) : Item := .group .plus [body]

/-- Alternatives that are one token each. -/
def tokens (names : List String) : List (List Item) := names.map fun name => [tok name]

/-- Alternatives that are one call each. -/
def refs (rules : List String) : List (List Item) := rules.map fun rule => [ref rule]

/-- Calls of a rule with commas between them. -/
def commas (rule : String) : List Item := [ref rule, many [tok "COMMA", ref rule]]

end Item

/-- A rule: what it begins with, and what may follow any number of times. -/
structure Production where
  name : String
  alternatives : List (List Item)
  operators : List (List Item)

/-- A rule that nothing continues. -/
def Production.rule (name : String) (alternatives : List (List Item)) : Production :=
  ⟨name, alternatives, []⟩

def Production.levels (p : Production) : List Nat :=
  p.operators.filterMap fun operator =>
    match operator with
    | .guard level :: _ => some level
    | _ => none

/-- The names of the token kinds; a kind whose word is always the same has a spelling. -/
structure Vocabulary where
  names : List String
  spellings : List (String × String)

structure Ruleset where
  vocabulary : Vocabulary
  productions : List Production

namespace Vocabulary

/-- The kind with a name; the name `EOF` is the end of the text. -/
def kindOf (v : Vocabulary) (name : String) : Kind :=
  if name = "EOF" then Kind.endOfText else v.names.idxOf name + 1

def nameOf (v : Vocabulary) (kind : Kind) : String :=
  if kind = Kind.endOfText then "EOF" else v.names.getD (kind - 1) "<INVALID>"

def spellingOf (v : Vocabulary) (kind : Kind) : Option String :=
  (v.spellings.lookup (v.nameOf kind)).map fun word => "'" ++ word ++ "'"

def display (v : Vocabulary) (kind : Kind) : String :=
  if kind = Kind.endOfText then "<EOF>" else (v.spellingOf kind).getD (v.nameOf kind)

def lastSpelled (v : Vocabulary) : Kind :=
  v.spellings.foldl (fun last entry => max last (v.kindOf entry.1)) 0

/-- The text of a token that is made up where one of this kind is missing.  Spellings are looked up
in a table that ends with the last spelled kind; before its end a kind without one reads
`<INVALID>`. -/
def missingText (v : Vocabulary) (kind : Kind) : String :=
  let shown :=
    if kind = Kind.endOfText then "EOF"
    else match v.spellingOf kind with
      | some word => word
      | none => if kind ≤ v.lastSpelled then "<INVALID>" else v.nameOf kind
  "<missing " ++ shown ++ ">"

def ofRules (rules : List TokenRule) (spellings : List (String × String)) : Vocabulary :=
  ⟨rules.map TokenRule.name, spellings⟩

end Vocabulary

/-- A set of token kinds, as the bits of a number. -/
structure TokenSet where
  bits : Nat
deriving DecidableEq, Repr

namespace TokenSet

def empty : TokenSet := ⟨0⟩

def single (kind : Kind) : TokenSet := ⟨1 <<< kind⟩

def mem (set : TokenSet) (kind : Kind) : Bool := set.bits.testBit kind

def union (a b : TokenSet) : TokenSet := ⟨a.bits ||| b.bits⟩

def disjoint (a b : TokenSet) : Bool := a.bits &&& b.bits == 0

def ofList (kinds : List Kind) : TokenSet :=
  kinds.foldl (fun set kind => set.union (single kind)) empty

def toList (set : TokenSet) (bound : Nat) : List Kind := (List.range bound).filter set.mem

end TokenSet

namespace Vocabulary

/-- A set of expected kinds: one kind alone, or several between braces. -/
def displaySet (v : Vocabulary) (set : TokenSet) : String :=
  match set.toList (v.names.length + 1) with
  | [] => "\x7b\x7d"
  | [kind] => v.display kind
  | kinds => "\x7b" ++ ", ".intercalate (kinds.map v.display) ++ "\x7d"

end Vocabulary

namespace Ruleset

def ruleIndex (g : Ruleset) (name : String) : Nat :=
  (g.productions.map Production.name).idxOf name

def ruleName (g : Ruleset) (index : Nat) : String :=
  (g.productions[index]?.map Production.name).getD ""

end Ruleset

end Transcriber.Grammar
