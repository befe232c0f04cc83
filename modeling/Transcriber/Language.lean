import Transcriber.Grammar.Accessor
import Transcriber.Grammar.Parse
import Transcriber.CompilationUnit.Grammar
import Transcriber.DocComment.Grammar

/-!
# The languages that can be read

A `SourceLanguage` joins a token language and a grammar.  Text is scanned only as far as the parser looks,
so stretches of text that belong to no token are reported only up to there.

* `java`, `javadoc` — Java source, and documentation comments.
* `SourceLanguage.scan`, `SourceLanguage.parse` — reading a text.
* `SourceLanguage.Reading` — the result, with the way from positions back to the text.
-/

namespace Transcriber

open Transcriber.Lexical Transcriber.Grammar

structure SourceLanguage where
  tokenRules : List TokenRule
  grammar : Ruleset
  table : Table
  /-- The rule for whole texts. -/
  start : String

namespace SourceLanguage

def ofGrammar (tokenRules : List TokenRule) (grammar : Ruleset) (start : String) : SourceLanguage :=
  ⟨tokenRules, grammar, .ofNetwork (.ofGrammar grammar), start⟩

def scan (l : SourceLanguage) (probing : Bool) (text : String) : Scan :=
  Lexical.scan l.tokenRules probing text

def kindName (l : SourceLanguage) (kind : Kind) : String := l.grammar.vocabulary.nameOf kind

def terminals (tokens : List Token) : List Terminal :=
  (tokens.filter fun token => !token.hidden).map fun token => ⟨token.kind, token.text⟩

structure Reading where
  outcome : Outcome
  /-- The tokens of the text, as far as it could be scanned. -/
  tokens : Array Token
  /-- The indexes of the tokens that are not hidden, by position. -/
  visible : Array Nat
  /-- The gaps up to the furthest token that was looked at. -/
  gaps : List Gap

def parse (l : SourceLanguage) (strict probing : Bool) (rule : Nat) (text : String) : Reading :=
  let found := l.scan probing text
  let outcome := Grammar.parse l.table strict (terminals found.tokens) rule
  let visible := (found.tokens.zipIdx.filterMap fun (token, index) =>
    if token.hidden then none else some index).toArray
  let furthest := visible.getD outcome.furthest (found.tokens.length - 1)
  ⟨outcome, found.tokens.toArray, visible, found.gaps.filter fun gap => gap.before ≤ furthest⟩

namespace Reading

def indexAt (r : Reading) (position : Nat) : Nat := r.visible.getD position r.tokens.size

/-- The token at a position; the end of the text stands at all positions from its own on. -/
def tokenAt? (r : Reading) (position : Nat) : Option Token :=
  r.tokens[r.indexAt position]? <|> r.tokens.back?

/-- The text from one position to another, hidden tokens included. -/
def textBetween (r : Reading) (start stop : Nat) : String :=
  let first := r.visible.getD start 0
  let last := r.visible.getD stop 0
  let span := (r.tokens.toList.drop first).take (last + 1 - first)
  String.join ((span.takeWhile fun t => t.kind != Kind.endOfText).map Token.text)

def message (r : Reading) (complaint : Complaint) : String :=
  match complaint.wording with
  | .text message => message
  | .unfit start =>
      "no viable alternative at input " ++ Parser.quoted (r.textBetween start complaint.position)

end Reading

end SourceLanguage

def java : SourceLanguage :=
  .ofGrammar CompilationUnit.tokenRules CompilationUnit.grammar "compilationUnit"

def javadoc : SourceLanguage := .ofGrammar DocComment.tokenRules DocComment.grammar "documentation"

end Transcriber
