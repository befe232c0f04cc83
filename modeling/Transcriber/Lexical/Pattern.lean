/-!
# Token patterns

A `Pattern` is a regular expression over characters.  It is read one character at a time: `step c p`
is what is left to read of `p` after `c`, so a word is matched when stepping through it ends in a
pattern that `accepts`.

* `Pattern.step`, `Pattern.accepts` — reading a character, and being finished.
-/

namespace Transcriber.Lexical

/-- A set of characters, given by closed ranges; `negated` takes the complement. -/
structure CharSet where
  ranges : List (Char × Char)
  negated : Bool
deriving DecidableEq, Repr

namespace CharSet

def mem (set : CharSet) (c : Char) : Bool :=
  (set.ranges.any fun range => range.1 ≤ c && c ≤ range.2) != set.negated

def single (c : Char) : CharSet := ⟨[(c, c)], false⟩

def ofString (s : String) : CharSet := ⟨s.toList.map fun c => (c, c), false⟩

def range (first last : Char) : CharSet := ⟨[(first, last)], false⟩

def union (a b : CharSet) : CharSet := ⟨a.ranges ++ b.ranges, false⟩

def complement (set : CharSet) : CharSet := { set with negated := !set.negated }

end CharSet

/-- Regular expressions over characters, with a zero-width test. -/
inductive Pattern where
  | never
  /-- The empty word. -/
  | blank
  | chars (set : CharSet)
  /-- A word of the first pattern, then a word of the second. -/
  | seq (first second : Pattern)
  /-- A word of either pattern. -/
  | alt (first second : Pattern)
  /-- Any number of words of the pattern. -/
  | star (body : Pattern)
  /-- The empty word, provided that a test of the surroundings can be carried out. -/
  | probe
deriving DecidableEq, Repr

namespace Pattern

/-- Concatenation that drops `blank` and collapses on `never`. -/
def andThen : Pattern → Pattern → Pattern
  | .never, _ => .never
  | .blank, q => q
  | p, .blank => p
  | p, q => .seq p q

/-- Alternation that drops `never` and repetitions. -/
def orElse (p q : Pattern) : Pattern :=
  if p = .never then q
  else if q = .never ∨ p = q then p
  else .alt p q

def accepts : Pattern → Bool
  | .never => false
  | .blank => true
  | .chars _ => false
  | .seq p q => p.accepts && q.accepts
  | .alt p q => p.accepts || q.accepts
  | .star _ => true
  | .probe => true

/-- What is left to read after one character. -/
def step (c : Char) : Pattern → Pattern
  | .never => .never
  | .blank => .never
  | .chars set => if set.mem c then .blank else .never
  | .seq p q =>
      let first := (p.step c).andThen q
      if p.accepts then first.orElse (q.step c) else first
  | .alt p q => (p.step c).orElse (q.step c)
  | .star p => (p.step c).andThen (.star p)
  | .probe => .never

/-- Whether a test stands at the front, with nothing left to read before it. -/
def probes : Pattern → Bool
  | .never => false
  | .blank => false
  | .chars _ => false
  | .seq p q => p.probes || (p.accepts && q.probes)
  | .alt p q => p.probes || q.probes
  | .star p => p.probes
  | .probe => true

def word (s : String) : Pattern :=
  s.toList.foldr (fun c p => (Pattern.chars (.single c)).andThen p) .blank

def all (parts : List Pattern) : Pattern := parts.foldr .seq .blank

def any (parts : List Pattern) : Pattern := parts.foldr .alt .never

def plus (p : Pattern) : Pattern := .seq p (.star p)

def opt (p : Pattern) : Pattern := .alt p .blank

end Pattern

end Transcriber.Lexical
