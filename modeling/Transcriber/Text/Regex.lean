import Transcriber.Text.Blank
import Transcriber.Text.Digit
import Transcriber.Text.Word

/-!
# Regular expressions

Regular expressions with groups.  Matching is prioritized: of two alternatives the first is tried
first, a repetition takes as many rounds as it can, or as few if it is marked so, and the first way
that leads to an overall match counts.  A round that takes no characters is the last of its
repetition.

* `Regex` — the expressions.
-/

namespace Transcriber.Text

inductive Member where
  | range (first last : Char)
  | digit (inside : Bool)
  | blank (inside : Bool)
  | word (inside : Bool)
deriving DecidableEq, Repr

def Member.has (m : Member) (c : Char) : Bool :=
  match m with
  | range first last => first ≤ c && c ≤ last
  | digit inside => isDigit c == inside
  | blank inside => isBlank c == inside
  | word inside => isWord c == inside

inductive Regex where
  | empty
  /-- Any character but a line end. -/
  | any
  /-- A character that is a member, or is none. -/
  | set (inside : Bool) (members : List Member)
  | start
  | finish
  /-- The very end of the text. -/
  | bottom
  /-- A place between a word character and another one, or one that is not such a place; an empty
  text has neither. -/
  | edge (inside : Bool)
  | seq (a b : Regex)
  | alt (a b : Regex)
  /-- A group whose match is kept under a number. -/
  | group (number : Nat) (a : Regex)
  /-- The text that a group has matched. -/
  | same (number : Nat)
  /-- A place at which the expression would match, or would not. -/
  | ahead (inside : Bool) (a : Regex)
  /-- A place behind the given number of characters at which the expression matches just them, or
  does not. -/
  | behind (inside : Bool) (width : Nat) (a : Regex)
  /-- An expression of which only the first way to match counts. -/
  | atomic (a : Regex)
  | repeated (a : Regex) (least : Nat) (most : Option Nat) (greedy : Bool)
deriving DecidableEq, Repr

namespace Regex

def isPlace : Regex → Bool
  | start => true
  | finish => true
  | bottom => true
  | edge _ => true
  | _ => false

/-- The number of characters that every match takes, if that is a fixed one. -/
def width? : Regex → Option Nat
  | any => some 1
  | set _ _ => some 1
  | seq a b => do return (← a.width?) + (← b.width?)
  | alt a b => do
      let w ← a.width?
      if (← b.width?) == w then some w else none
  | group _ a => a.width?
  | same _ => none
  | atomic a => a.width?
  | repeated a least most _ => do if most == some least then return (← a.width?) * least else none
  | _ => some 0

def char (c : Char) : Regex := .set true [.range c c]

/-- A place in a text, with the texts of the groups so far. -/
structure Spot where
  /-- The characters before the place, nearest first. -/
  before : List Char
  rest : List Char
  /-- The length of the rest. -/
  left : Nat
  groups : List (Nat × List Char)

namespace Spot

def ofText (cs : List Char) : Spot := ⟨[], cs, cs.length, []⟩

def next (s : Spot) : Spot :=
  match s.rest with
  | [] => s
  | c :: rest => { s with before := c :: s.before, rest, left := s.left - 1 }

def isWhole (s : Spot) : Bool := s.before.isEmpty && s.rest.isEmpty

/-- The place some characters back, if there are so many. -/
def back? (s : Spot) (width : Nat) : Option Spot :=
  if s.before.length < width then none
  else
    some { s with
      before := s.before.drop width
      rest := (s.before.take width).reverse ++ s.rest
      left := s.left + width }

def upTo (s later : Spot) : List Char := s.rest.take (s.left - later.left)

end Spot

abbrev Continuation := Spot → Option Spot

/-- Goes on behind the next character if that fulfils a test. -/
def step (test : Char → Bool) (k : Continuation) (s : Spot) : Option Spot :=
  match s.rest with
  | [] => none
  | c :: _ => if test c then k s.next else none

def literal : List Char → Continuation → Spot → Option Spot
  | [], k, s => k s
  | c :: cs, k, s => step (· == c) (literal cs k) s

/-- Repeats `body`, at least `least` and at most `most` times. -/
def iterate (body : Continuation → Spot → Option Spot) (greedy : Bool) (k : Continuation) :
    Nat → Nat → Option Nat → Spot → Option Spot
  | 0, _, _, s => k s
  | fuel + 1, least, most, s =>
      let fewer := most.map (· - 1)
      if 0 < least then body (iterate body greedy k fuel (least - 1) fewer) s
      else if most == some 0 then k s
      else
        let round := fun (_ : Unit) =>
          body (fun s' =>
            if s'.left == s.left then k s' else iterate body greedy k fuel 0 fewer s') s
        if greedy then (round ()).orElse fun _ => k s
        else (k s).orElse round

/-- Whether a place is between a word character and another one. -/
def atEdge (s : Spot) : Bool := s.before.head?.any isWord != s.rest.head?.any isWord

/-- Matches at a place and goes on with the continuation. -/
def run : Regex → Continuation → Spot → Option Spot
  | empty, k, s => k s
  | any, k, s => step (· != '\n') k s
  | set inside members, k, s => step (fun c => (members.any fun m => m.has c) == inside) k s
  | start, k, s => if s.before.isEmpty then k s else none
  | finish, k, s => if s.rest.isEmpty || s.rest == ['\n'] then k s else none
  | bottom, k, s => if s.rest.isEmpty then k s else none
  | edge inside, k, s => if !s.isWhole && atEdge s == inside then k s else none
  | seq a b, k, s => a.run (b.run k) s
  | alt a b, k, s => (a.run k s).orElse fun _ => b.run k s
  | group number a, k, s =>
      a.run (fun s' => k { s' with groups := (number, s.upTo s') :: s'.groups }) s
  | same number, k, s =>
      match s.groups.lookup number with
      | some text => literal text k s
      | none => none
  | ahead inside a, k, s =>
      match a.run some s with
      | some found => if inside then k { s with groups := found.groups } else none
      | none => if inside then none else k s
  | behind inside width a, k, s =>
      let found := (s.back? width).bind
        (a.run fun s' => if s'.left == s.left then some s' else none)
      match found with
      | some found => if inside then k { s with groups := found.groups } else none
      | none => if inside then none else k s
  | atomic a, k, s => (a.run some s).bind k
  | repeated a least most greedy, k, s => iterate a.run greedy k (s.left + least + 1) least most s

/-- The end of the match at a place; with `advance` it must take a character. -/
def match? (r : Regex) (advance : Bool) (s : Spot) : Option Spot :=
  r.run (fun s' => if advance && s'.left == s.left then none else some s') { s with groups := [] }

end Regex

end Transcriber.Text
