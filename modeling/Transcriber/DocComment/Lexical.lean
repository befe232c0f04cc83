import Transcriber.Lexical.Scan

/-!
# The tokens of documentation comments

The token language of a documentation comment.  A line break takes along the blanks and the stars
that begin the next line; whether a star may be taken depends on a test of what follows it, written
as `Pattern.probe`.
-/

namespace Transcriber.DocComment

open Transcriber.Lexical

namespace Shape

def letters : CharSet := ⟨[('a', 'z'), ('A', 'Z')], false⟩

def space : Pattern := .plus (.chars (.ofString " \t"))

def star : Pattern := .chars (.single '*')

/-- A line break and, if the next line begins with stars, these and the blanks before them. -/
def lineBreak (mark : String) : Pattern :=
  .seq (.word mark) (.opt (.seq (.opt space) (.plus (.seq star .probe))))

def newline : Pattern := .any [lineBreak "\n", lineBreak "\r\n", lineBreak "\r"]

/-- Characters without a meaning of their own. -/
def text : Pattern :=
  .plus (.chars ((CharSet.ofString "\n\r\t @*\x7b\x7d/").union letters).complement)

end Shape

def tokenRules : List TokenRule := [
  ⟨"NAME", .plus (.chars Shape.letters), false⟩,
  ⟨"NEWLINE", Shape.newline, false⟩,
  ⟨"SPACE", Shape.space, false⟩,
  ⟨"TEXT_CONTENT", Shape.text, false⟩,
  ⟨"AT", .word "@", false⟩,
  ⟨"STAR", Shape.star, false⟩,
  ⟨"SLASH", .word "/", false⟩,
  ⟨"JAVADOC_START", .seq (.word "/**") (.star Shape.star), false⟩,
  ⟨"JAVADOC_END", .all [.opt Shape.space, .star Shape.star, .word "*/"], false⟩,
  ⟨"INLINE_TAG_START", .word "\x7b@", false⟩,
  ⟨"BRACE_OPEN", .word "\x7b", false⟩,
  ⟨"BRACE_CLOSE", .word "\x7d", false⟩]

def spellings : List (String × String) := [
  ("AT", "@"), ("STAR", "*"), ("SLASH", "/"), ("INLINE_TAG_START", "\x7b@"), ("BRACE_OPEN", "\x7b"),
  ("BRACE_CLOSE", "\x7d")]

end Transcriber.DocComment
