import Transcriber.DocComment.Lexical
import Transcriber.Grammar.Basic

/-!
# The grammar of documentation comments

The productions of documentation comments, over the tokens of `Transcriber.DocComment.tokenRules`: a
description, block tags, inline tags and balanced braces inside them.
-/

namespace Transcriber.DocComment

open Transcriber.Grammar
open Transcriber.Grammar.Item (tok ref maybe many many1)
open Transcriber.Grammar.Production (rule)

def textRules : List Production := [
  rule "documentation" [
    [tok "EOF"],
    [tok "JAVADOC_START", many [ref "skipWhitespace"], ref "documentationContent",
      tok "JAVADOC_END", tok "EOF"],
    [many [ref "skipWhitespace"], ref "documentationContent", tok "EOF"]],
  rule "documentationContent" [
    [ref "description", many [ref "skipWhitespace"]],
    [many [ref "skipWhitespace"], ref "tagSection"],
    [ref "description", many1 [tok "NEWLINE"], many [ref "skipWhitespace"], ref "tagSection"]],
  rule "skipWhitespace" [[.oneOf ["SPACE", "NEWLINE"] none]],
  rule "description" [[ref "descriptionLine", many [many1 [ref "descriptionNewline"],
    ref "descriptionLine"]]],
  rule "descriptionLine" [
    [ref "descriptionLineStart", many [ref "descriptionLineElement"]],
    [ref "inlineTag", many [ref "descriptionLineElement"]]],
  rule "descriptionLineStart" [[maybe [tok "SPACE"], many1 [ref "descriptionLineNoSpaceNoAt"],
    .group .star [[ref "descriptionLineNoSpaceNoAt"], [tok "SPACE"], [tok "AT"]]]],
  rule "descriptionLineNoSpaceNoAt" [[.oneOf ["TEXT_CONTENT", "NAME", "STAR", "SLASH", "BRACE_OPEN",
    "BRACE_CLOSE"] none]],
  rule "descriptionLineElement" [[ref "inlineTag"], [ref "descriptionLineText"]],
  rule "descriptionLineText" [[.group .plus [[ref "descriptionLineNoSpaceNoAt"], [tok "SPACE"],
    [tok "AT"]]]],
  rule "descriptionNewline" [[tok "NEWLINE"]]]

def tagRules : List Production := [
  rule "tagSection" [[many1 [ref "blockTag"]]],
  rule "blockTag" [[maybe [tok "SPACE"], tok "AT", ref "blockTagName", maybe [tok "SPACE"],
    many [ref "blockTagContent"]]],
  rule "blockTagName" [[tok "NAME"]],
  rule "blockTagContent" [[ref "blockTagText"], [ref "inlineTag"], [tok "NEWLINE"]],
  rule "blockTagText" [[many1 [ref "blockTagTextElement"]]],
  rule "blockTagTextElement" [[.oneOf ["TEXT_CONTENT", "NAME", "SPACE", "STAR", "SLASH",
    "BRACE_OPEN", "BRACE_CLOSE"] none]],
  rule "inlineTag" [[tok "INLINE_TAG_START", ref "inlineTagName", many [tok "SPACE"],
    maybe [ref "inlineTagContent"], tok "BRACE_CLOSE"]],
  rule "inlineTagName" [[tok "NAME"]],
  rule "inlineTagContent" [[many1 [ref "braceContent"]]],
  rule "braceExpression" [[tok "BRACE_OPEN", many [ref "braceContent"], tok "BRACE_CLOSE"]],
  rule "braceContent" [
    [ref "braceExpression"],
    [ref "braceText", many [many [tok "NEWLINE"], ref "braceText"]]],
  rule "braceText" [[.oneOf ["TEXT_CONTENT", "NAME", "SPACE", "STAR", "SLASH", "NEWLINE"] none]]]

def grammar : Ruleset where
  vocabulary := .ofRules tokenRules spellings
  productions := textRules ++ tagRules

end Transcriber.DocComment
