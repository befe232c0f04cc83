import Transcriber.Lexical.Scan

/-!
# The tokens of Java

The token language of Java 8 source: keywords, literals, separators, operators, blanks and comments,
identifiers.  A keyword is also an identifier by its shape; it is a keyword because its rule comes
first.  Blanks and comments are hidden.
-/

namespace Transcriber.CompilationUnit

open Transcriber.Lexical

namespace Shape

def oneOf (s : String) : Pattern := .chars (.ofString s)

def digit : Pattern := .chars (.range '0' '9')

/-- A run of characters that may hold underscores inside. -/
def grouped (unit : CharSet) : Pattern :=
  .seq (.chars unit) (.opt (.seq (.star (.chars (unit.union (.single '_')))) (.chars unit)))

def digits : Pattern := grouped (.range '0' '9')

def hexSet : CharSet := ⟨[('0', '9'), ('a', 'f'), ('A', 'F')], false⟩

def hexDigits : Pattern := grouped hexSet

def exponent : Pattern := .all [oneOf "eE", .opt (oneOf "+-"), digits]

/-- An escape sequence inside a character or string literal. -/
def escape : Pattern :=
  let octal := Pattern.chars (.range '0' '7')
  let hex := Pattern.chars hexSet
  .seq (oneOf "\\") (.any [
    oneOf "btnfr\"'\\",
    .seq (.opt (.seq (.opt (.chars (.range '0' '3'))) octal)) octal,
    .all [.plus (oneOf "u"), hex, hex, hex, hex]])

/-- The characters that may start an identifier: letters, `$`, `_`, and all beyond ASCII. -/
def letterSet : CharSet :=
  ⟨[('a', 'z'), ('A', 'Z'), ('$', '$'), ('_', '_'), (Char.ofNat 0x80, Char.ofNat 0x10FFFF)], false⟩

def decimal : Pattern :=
  .seq
    (.alt (oneOf "0")
      (.seq (.chars (.range '1' '9')) (.alt (.opt digits) (.seq (.plus (oneOf "_")) digits))))
    (.opt (oneOf "lL"))

def hexadecimal : Pattern := .all [oneOf "0", oneOf "xX", grouped hexSet, .opt (oneOf "lL")]

def octal : Pattern :=
  .all [oneOf "0", .star (oneOf "_"), grouped (.range '0' '7'), .opt (oneOf "lL")]

def binary : Pattern := .all [oneOf "0", oneOf "bB", grouped (.range '0' '1'), .opt (oneOf "lL")]

/-- A floating-point literal in base ten: it has a point, an exponent or a suffix. -/
def float : Pattern :=
  .alt
    (.all [
      .alt (.all [digits, oneOf ".", .opt digits]) (.seq (oneOf ".") digits),
      .opt exponent, .opt (oneOf "fFdD")])
    (.seq digits (.alt (.seq exponent (.opt (oneOf "fFdD"))) (oneOf "fFdD")))

/-- A floating-point literal in base sixteen: its exponent is mandatory. -/
def hexFloat : Pattern :=
  .all [oneOf "0", oneOf "xX",
    .alt (.seq hexDigits (.opt (oneOf "."))) (.all [.opt hexDigits, oneOf ".", hexDigits]),
    oneOf "pP", .opt (oneOf "+-"), digits, .opt (oneOf "fFdD")]

def charLiteral : Pattern :=
  .all [oneOf "'", .alt (.chars (CharSet.ofString "'\\\r\n").complement) escape, oneOf "'"]

def stringLiteral : Pattern :=
  .all [oneOf "\"", .star (.alt (.chars (CharSet.ofString "\"\\\r\n").complement) escape),
    oneOf "\""]

def comment : Pattern :=
  .all [.word "/*",
    .star (.alt (.chars (CharSet.single '*').complement)
      (.seq (.plus (oneOf "*")) (.chars (CharSet.ofString "*/").complement))),
    .plus (oneOf "*"), oneOf "/"]

def lineComment : Pattern := .seq (.word "//") (.star (.chars (CharSet.ofString "\r\n").complement))

def identifier : Pattern :=
  .seq (.chars letterSet) (.star (.chars (letterSet.union (.range '0' '9'))))

end Shape

/-- Tokens that are always the same word, in the order of their kinds, up to the literals. -/
def keywords : List (String × String) := [
  ("ABSTRACT", "abstract"), ("ASSERT", "assert"), ("BOOLEAN", "boolean"), ("BREAK", "break"),
  ("BYTE", "byte"), ("CASE", "case"), ("CATCH", "catch"), ("CHAR", "char"), ("CLASS", "class"),
  ("CONST", "const"), ("CONTINUE", "continue"), ("DEFAULT", "default"), ("DO", "do"),
  ("DOUBLE", "double"), ("ELSE", "else"), ("ENUM", "enum"), ("EXTENDS", "extends"),
  ("FINAL", "final"), ("FINALLY", "finally"), ("FLOAT", "float"), ("FOR", "for"), ("IF", "if"),
  ("GOTO", "goto"), ("IMPLEMENTS", "implements"), ("IMPORT", "import"),
  ("INSTANCEOF", "instanceof"), ("INT", "int"), ("INTERFACE", "interface"), ("LONG", "long"),
  ("NATIVE", "native"), ("NEW", "new"), ("PACKAGE", "package"), ("PRIVATE", "private"),
  ("PROTECTED", "protected"), ("PUBLIC", "public"), ("RETURN", "return"), ("SHORT", "short"),
  ("STATIC", "static"), ("STRICTFP", "strictfp"), ("SUPER", "super"), ("SWITCH", "switch"),
  ("SYNCHRONIZED", "synchronized"), ("THIS", "this"), ("THROW", "throw"), ("THROWS", "throws"),
  ("TRANSIENT", "transient"), ("TRY", "try"), ("VOID", "void"), ("VOLATILE", "volatile"),
  ("WHILE", "while")]

def symbols : List (String × String) := [
  ("LPAREN", "("), ("RPAREN", ")"), ("LBRACE", "\x7b"), ("RBRACE", "\x7d"), ("LBRACK", "["),
  ("RBRACK", "]"), ("SEMI", ";"), ("COMMA", ","), ("DOT", "."), ("ASSIGN", "="), ("GT", ">"),
  ("LT", "<"), ("BANG", "!"), ("TILDE", "~"), ("QUESTION", "?"), ("COLON", ":"), ("EQUAL", "=="),
  ("LE", "<="), ("GE", ">="), ("NOTEQUAL", "!="), ("AND", "&&"), ("OR", "||"), ("INC", "++"),
  ("DEC", "--"), ("ADD", "+"), ("SUB", "-"), ("MUL", "*"), ("DIV", "/"), ("BITAND", "&"),
  ("BITOR", "|"), ("CARET", "^"), ("MOD", "%"), ("ADD_ASSIGN", "+="), ("SUB_ASSIGN", "-="),
  ("MUL_ASSIGN", "*="), ("DIV_ASSIGN", "/="), ("AND_ASSIGN", "&="), ("OR_ASSIGN", "|="),
  ("XOR_ASSIGN", "^="), ("MOD_ASSIGN", "%="), ("LSHIFT_ASSIGN", "<<="), ("RSHIFT_ASSIGN", ">>="),
  ("URSHIFT_ASSIGN", ">>>="), ("ARROW", "->"), ("COLONCOLON", "::"), ("AT", "@"),
  ("ELLIPSIS", "...")]

def fixedRule (entry : String × String) : TokenRule := ⟨entry.1, .word entry.2, false⟩

def tokenRules : List TokenRule :=
  keywords.map fixedRule ++ [
    ⟨"DECIMAL_LITERAL", Shape.decimal, false⟩,
    ⟨"HEX_LITERAL", Shape.hexadecimal, false⟩,
    ⟨"OCT_LITERAL", Shape.octal, false⟩,
    ⟨"BINARY_LITERAL", Shape.binary, false⟩,
    ⟨"FLOAT_LITERAL", Shape.float, false⟩,
    ⟨"HEX_FLOAT_LITERAL", Shape.hexFloat, false⟩,
    ⟨"BOOL_LITERAL", .alt (.word "true") (.word "false"), false⟩,
    ⟨"CHAR_LITERAL", Shape.charLiteral, false⟩,
    ⟨"STRING_LITERAL", Shape.stringLiteral, false⟩,
    ⟨"NULL_LITERAL", .word "null", false⟩] ++
  symbols.map fixedRule ++ [
    ⟨"WS", .plus (Shape.oneOf " \t\r\n\x0c"), true⟩,
    ⟨"COMMENT", Shape.comment, true⟩,
    ⟨"LINE_COMMENT", Shape.lineComment, true⟩,
    ⟨"IDENTIFIER", Shape.identifier, false⟩]

end Transcriber.CompilationUnit
