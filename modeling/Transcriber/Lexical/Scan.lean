import Transcriber.Lexical.Pattern

/-!
# Scanning text into tokens

A token language is a list of `TokenRule`s.  At each position the longest word that some rule
matches is taken, and among the rules that match it the first one names the token.  Where no rule
matches, the characters that some rule could still have begun with, and the one that ended all hope,
are skipped and reported once.

* `longest` — the longest match at the front of a text.
-/

namespace Transcriber.Lexical

/-- One rule of a token language.  Hidden tokens are kept, and a parser does not see them. -/
structure TokenRule where
  name : String
  pattern : Pattern
  hidden : Bool := false

/-- Kinds of tokens: `0` is the end of the text, `k + 1` the rule with index `k`. -/
abbrev Kind := Nat

def Kind.endOfText : Kind := 0

/-- A position in a text: offset from the start, line from 1, column from 0. -/
structure Place where
  offset : Nat
  line : Nat
  column : Nat
deriving DecidableEq, Repr

namespace Place

def first : Place := ⟨0, 1, 0⟩

/-- The position after a character: a line feed starts a new line. -/
def after (p : Place) (c : Char) : Place :=
  if c = '\n' then ⟨p.offset + 1, p.line + 1, 0⟩ else ⟨p.offset + 1, p.line, p.column + 1⟩

def afterAll (p : Place) (cs : List Char) : Place := cs.foldl after p

end Place

structure Token where
  kind : Kind
  text : String
  place : Place
  length : Nat
  hidden : Bool
deriving DecidableEq, Repr

namespace Token

/-- Offset of the first character. -/
def start (t : Token) : Nat := t.place.offset

/-- Offset of the last character; one less than `start` when there is none. -/
def stop (t : Token) : Int := (t.place.offset : Int) + t.length - 1

end Token

/-- A stretch of text that belongs to no token.  `before` counts the tokens found before it. -/
structure Gap where
  text : List Char
  place : Place
  before : Nat
deriving DecidableEq, Repr

inductive Match where
  /-- The longest match, by kind and number of characters. -/
  | token (kind : Kind) (length : Nat)
  /-- No match; this many characters are to be skipped. -/
  | gap (length : Nat)
  /-- A test that cannot be carried out stood in the way. -/
  | stuck
deriving DecidableEq, Repr

/-- Ends a reading: the best match so far, or a gap. -/
def Match.ofBest : Option (Kind × Nat) → Nat → Match
  | some (kind, length), _ => .token kind length
  | none, skipped => .gap skipped

/-- Reads on with the rules that are still alive.  `best` is the longest match so far and `count`
the number of characters read. -/
def longestFrom (probing : Bool) :
    List (Kind × Pattern) → List Char → Nat → Option (Kind × Nat) → Match
  | _, [], count, best => .ofBest best count
  | live, c :: rest, count, best =>
      let next := live.filterMap fun (kind, p) =>
        let q := p.step c
        if q = .never then none else some (kind, q)
      if next.isEmpty then .ofBest best (count + 1)
      else if !probing && next.any (fun entry => entry.2.probes) then .stuck
      else
        let found := (next.find? fun entry => entry.2.accepts).map fun entry => (entry.1, count + 1)
        longestFrom probing next rest (count + 1) (found <|> best)

def liveRules (rules : List TokenRule) : List (Kind × Pattern) :=
  rules.zipIdx.map fun (rule, index) => (index + 1, rule.pattern)

def longest (rules : List TokenRule) (probing : Bool) (text : List Char) : Match :=
  longestFrom probing (liveRules rules) text 0 none

def hiddenKind (rules : List TokenRule) (kind : Kind) : Bool :=
  match rules[kind - 1]? with
  | some rule => kind != 0 && rule.hidden
  | none => false

/-- The tokens of a text and its gaps, in order.  `interrupted` says that scanning stopped at a test
that could not be carried out; then the end is not among the tokens. -/
structure Scan where
  tokens : List Token
  gaps : List Gap
  interrupted : Bool
deriving Repr

def endToken (place : Place) : Token := ⟨Kind.endOfText, "<EOF>", place, 0, false⟩

/-- Scans from a position on; `found` counts the tokens before it. -/
def scanFrom (rules : List TokenRule) (probing : Bool) : Nat → Place → Nat → List Char → Scan
  | 0, place, _, _ => ⟨[endToken place], [], false⟩
  | _ + 1, place, _, [] => ⟨[endToken place], [], false⟩
  | fuel + 1, place, found, c :: cs =>
      match longest rules probing (c :: cs) with
      | .stuck => ⟨[], [], true⟩
      | .token kind length =>
          let taken := (c :: cs).take length
          let token : Token :=
            ⟨kind, String.ofList taken, place, taken.length, hiddenKind rules kind⟩
          let rest := scanFrom rules probing fuel (place.afterAll taken) (found + 1) ((c :: cs).drop length)
          { rest with tokens := token :: rest.tokens }
      | .gap length =>
          let taken := (c :: cs).take length
          let rest := scanFrom rules probing fuel (place.afterAll taken) found ((c :: cs).drop length)
          { rest with gaps := ⟨taken, place, found⟩ :: rest.gaps }

/-- All tokens of a text.  `probing` says whether the tests inside patterns can be carried out; when
they can, they succeed. -/
def scan (rules : List TokenRule) (probing : Bool) (text : String) : Scan :=
  scanFrom rules probing (text.toList.length + 1) .first 0 text.toList

def showChar (c : Char) : String :=
  if c = '\n' then "\\n" else if c = '\t' then "\\t" else if c = '\r' then "\\r" else c.toString

def Gap.message (gap : Gap) : String :=
  "token recognition error at: '" ++ String.join (gap.text.map showChar) ++ "'"

end Transcriber.Lexical
