import Transcriber.CompilationUnit.Lexical
import Transcriber.Grammar.Basic

/-!
# The grammar of Java

The productions of Java 8, over the tokens of `Transcriber.CompilationUnit.tokenRules`.  A rule that
begins with itself, `expression`, is written as what it begins with and the operators that continue
it; the guard of an operator is its binding level, and the level of a call says which operators its
operand may still contain.
-/

namespace Transcriber.CompilationUnit

open Transcriber.Grammar
open Transcriber.Grammar.Item (tok ref pick maybe many many1 tokens refs commas)
open Transcriber.Grammar.Production (rule)

def unitRules : List Production := [
  rule "compilationUnit" [[maybe [ref "packageDeclaration"], many [ref "importDeclaration"],
    many [ref "typeDeclaration"], tok "EOF"]],
  rule "packageDeclaration" [[many [ref "annotation"], tok "PACKAGE", ref "qualifiedName",
    tok "SEMI"]],
  rule "importDeclaration" [[tok "IMPORT", maybe [tok "STATIC"], ref "qualifiedName",
    maybe [tok "DOT", tok "MUL"], tok "SEMI"]],
  rule "typeDeclaration" [
    [many [ref "classOrInterfaceModifier"], pick (refs ["classDeclaration", "enumDeclaration",
      "interfaceDeclaration", "annotationTypeDeclaration"])],
    [tok "SEMI"]],
  rule "modifier" ([[ref "classOrInterfaceModifier"]] ++ tokens ["NATIVE", "SYNCHRONIZED",
    "TRANSIENT", "VOLATILE"]),
  rule "classOrInterfaceModifier" ([[ref "annotation"]] ++ tokens ["PUBLIC", "PROTECTED", "PRIVATE",
    "STATIC", "ABSTRACT", "FINAL", "STRICTFP"]),
  rule "variableModifier" [[tok "FINAL"], [ref "annotation"]]]

def typeRules : List Production := [
  rule "classDeclaration" [[tok "CLASS", tok "IDENTIFIER", maybe [ref "typeParameters"],
    maybe [tok "EXTENDS", ref "typeType"], maybe [tok "IMPLEMENTS", ref "typeList"],
    ref "classBody"]],
  rule "typeParameters" [tok "LT" :: commas "typeParameter" ++ [tok "GT"]],
  rule "typeParameter" [[many [ref "annotation"], tok "IDENTIFIER", maybe [tok "EXTENDS",
    many [ref "annotation"], ref "typeBound"]]],
  rule "typeBound" [[ref "typeType", many [tok "BITAND", ref "typeType"]]],
  rule "enumDeclaration" [[tok "ENUM", tok "IDENTIFIER", maybe [tok "IMPLEMENTS", ref "typeList"],
    tok "LBRACE", maybe [ref "enumConstants"], maybe [tok "COMMA"],
    maybe [ref "enumBodyDeclarations"], tok "RBRACE"]],
  rule "enumConstants" [commas "enumConstant"],
  rule "enumConstant" [[many [ref "annotation"], tok "IDENTIFIER", maybe [ref "arguments"],
    maybe [ref "classBody"]]],
  rule "enumBodyDeclarations" [[tok "SEMI", many [ref "classBodyDeclaration"]]],
  rule "interfaceDeclaration" [[tok "INTERFACE", tok "IDENTIFIER", maybe [ref "typeParameters"],
    maybe [tok "EXTENDS", ref "typeList"], ref "interfaceBody"]],
  rule "classBody" [[tok "LBRACE", many [ref "classBodyDeclaration"], tok "RBRACE"]],
  rule "interfaceBody" [[tok "LBRACE", many [ref "interfaceBodyDeclaration"], tok "RBRACE"]]]

def memberRules : List Production := [
  rule "classBodyDeclaration" [
    [tok "SEMI"],
    [maybe [tok "STATIC"], ref "block"],
    [many [ref "modifier"], ref "memberDeclaration"]],
  rule "memberDeclaration" (refs ["methodDeclaration", "genericMethodDeclaration",
    "fieldDeclaration", "constructorDeclaration", "genericConstructorDeclaration",
    "interfaceDeclaration", "annotationTypeDeclaration", "classDeclaration", "enumDeclaration"]),
  rule "methodDeclaration" [[ref "typeTypeOrVoid", tok "IDENTIFIER", ref "formalParameters",
    many [tok "LBRACK", tok "RBRACK"], maybe [tok "THROWS", ref "qualifiedNameList"],
    ref "methodBody"]],
  rule "methodBody" [[ref "block"], [tok "SEMI"]],
  rule "typeTypeOrVoid" [[ref "typeType"], [tok "VOID"]],
  rule "genericMethodDeclaration" [[ref "typeParameters", ref "methodDeclaration"]],
  rule "genericConstructorDeclaration" [[ref "typeParameters", ref "constructorDeclaration"]],
  rule "constructorDeclaration" [[tok "IDENTIFIER", ref "formalParameters", maybe [tok "THROWS",
    ref "qualifiedNameList"], .call "block" 0 (some "constructorBody")]],
  rule "fieldDeclaration" [[ref "typeType", ref "variableDeclarators", tok "SEMI"]],
  rule "interfaceBodyDeclaration" [
    [many [ref "modifier"], ref "interfaceMemberDeclaration"],
    [tok "SEMI"]],
  rule "interfaceMemberDeclaration" (refs ["constDeclaration", "interfaceMethodDeclaration",
    "genericInterfaceMethodDeclaration", "interfaceDeclaration", "annotationTypeDeclaration",
    "classDeclaration", "enumDeclaration"]),
  rule "constDeclaration" [ref "typeType" :: commas "constantDeclarator" ++ [tok "SEMI"]],
  rule "constantDeclarator" [[tok "IDENTIFIER", many [tok "LBRACK", tok "RBRACK"], tok "ASSIGN",
    ref "variableInitializer"]],
  rule "interfaceMethodDeclaration" [[many [ref "interfaceMethodModifier"],
    pick [[ref "typeTypeOrVoid"], [ref "typeParameters", many [ref "annotation"],
    ref "typeTypeOrVoid"]], tok "IDENTIFIER", ref "formalParameters", many [tok "LBRACK",
    tok "RBRACK"], maybe [tok "THROWS", ref "qualifiedNameList"], ref "methodBody"]],
  rule "interfaceMethodModifier" ([[ref "annotation"]] ++ tokens ["PUBLIC", "ABSTRACT", "DEFAULT",
    "STATIC", "STRICTFP"]),
  rule "genericInterfaceMethodDeclaration" [[ref "typeParameters",
    ref "interfaceMethodDeclaration"]]]

def variableRules : List Production := [
  rule "variableDeclarators" [commas "variableDeclarator"],
  rule "variableDeclarator" [[ref "variableDeclaratorId", maybe [tok "ASSIGN",
    ref "variableInitializer"]]],
  rule "variableDeclaratorId" [[tok "IDENTIFIER", many [tok "LBRACK", tok "RBRACK"]]],
  rule "variableInitializer" [[ref "arrayInitializer"], [ref "expression"]],
  rule "arrayInitializer" [[tok "LBRACE", maybe (commas "variableInitializer" ++
    [maybe [tok "COMMA"]]), tok "RBRACE"]],
  rule "classOrInterfaceType" [[tok "IDENTIFIER", maybe [ref "typeArguments"], many [tok "DOT",
    tok "IDENTIFIER", maybe [ref "typeArguments"]]]],
  rule "typeArgument" [
    [ref "typeType"],
    [many [ref "annotation"], tok "QUESTION", maybe [.oneOf ["EXTENDS", "SUPER"] none,
      ref "typeType"]]],
  rule "qualifiedNameList" [commas "qualifiedName"],
  rule "formalParameters" [[tok "LPAREN", maybe [ref "formalParameterList"], tok "RPAREN"]],
  rule "formalParameterList" [
    commas "formalParameter" ++ [maybe [tok "COMMA", ref "lastFormalParameter"]],
    [ref "lastFormalParameter"]],
  rule "formalParameter" [[many [ref "variableModifier"], ref "typeType",
    ref "variableDeclaratorId"]],
  rule "lastFormalParameter" [[many [ref "variableModifier"], ref "typeType",
    many [ref "annotation"], tok "ELLIPSIS", ref "variableDeclaratorId"]],
  rule "qualifiedName" [[tok "IDENTIFIER", many [tok "DOT", tok "IDENTIFIER"]]]]

def literalRules : List Production := [
  rule "literal" ([[ref "integerLiteral"], [ref "floatLiteral"]] ++ tokens ["CHAR_LITERAL",
    "STRING_LITERAL", "BOOL_LITERAL", "NULL_LITERAL"]),
  rule "integerLiteral" [[.oneOf ["DECIMAL_LITERAL", "HEX_LITERAL", "OCT_LITERAL",
    "BINARY_LITERAL"] none]],
  rule "floatLiteral" [[.oneOf ["FLOAT_LITERAL", "HEX_FLOAT_LITERAL"] none]]]

def annotationRules : List Production := [
  rule "altAnnotationQualifiedName" [[many [tok "IDENTIFIER", tok "DOT"], tok "AT",
    tok "IDENTIFIER"]],
  rule "annotation" [[pick [[tok "AT", ref "qualifiedName"], [ref "altAnnotationQualifiedName"]],
    maybe [tok "LPAREN", .group .optional [[ref "elementValuePairs"], [ref "elementValue"]],
    tok "RPAREN"]]],
  rule "elementValuePairs" [commas "elementValuePair"],
  rule "elementValuePair" [[tok "IDENTIFIER", tok "ASSIGN", ref "elementValue"]],
  rule "elementValue" (refs ["expression", "annotation", "elementValueArrayInitializer"]),
  rule "elementValueArrayInitializer" [[tok "LBRACE", maybe (commas "elementValue"),
    maybe [tok "COMMA"], tok "RBRACE"]],
  rule "annotationTypeDeclaration" [[tok "AT", tok "INTERFACE", tok "IDENTIFIER",
    ref "annotationTypeBody"]],
  rule "annotationTypeBody" [[tok "LBRACE", many [ref "annotationTypeElementDeclaration"],
    tok "RBRACE"]],
  rule "annotationTypeElementDeclaration" [
    [many [ref "modifier"], ref "annotationTypeElementRest"],
    [tok "SEMI"]],
  rule "annotationTypeElementRest" [
    [ref "typeType", ref "annotationMethodOrConstantRest", tok "SEMI"],
    [ref "classDeclaration", maybe [tok "SEMI"]],
    [ref "interfaceDeclaration", maybe [tok "SEMI"]],
    [ref "enumDeclaration", maybe [tok "SEMI"]],
    [ref "annotationTypeDeclaration", maybe [tok "SEMI"]]],
  rule "annotationMethodOrConstantRest" [
    [ref "annotationMethodRest"],
    [ref "annotationConstantRest"]],
  rule "annotationMethodRest" [[tok "IDENTIFIER", tok "LPAREN", tok "RPAREN",
    maybe [ref "defaultValue"]]],
  rule "annotationConstantRest" [[ref "variableDeclarators"]],
  rule "defaultValue" [[tok "DEFAULT", ref "elementValue"]]]

def statementRules : List Production := [
  rule "block" [[tok "LBRACE", many [ref "blockStatement"], tok "RBRACE"]],
  rule "blockStatement" [
    [ref "localVariableDeclaration", tok "SEMI"],
    [ref "statement"],
    [ref "localTypeDeclaration"]],
  rule "localVariableDeclaration" [[many [ref "variableModifier"], ref "typeType",
    ref "variableDeclarators"]],
  rule "localTypeDeclaration" [
    [many [ref "classOrInterfaceModifier"], pick [[ref "classDeclaration"],
      [ref "interfaceDeclaration"]]],
    [tok "SEMI"]],
  rule "statement" [
    [.call "block" 0 (some "blockLabel")],
    [tok "ASSERT", ref "expression", maybe [tok "COLON", ref "expression"], tok "SEMI"],
    [tok "IF", ref "parExpression", ref "statement", maybe [tok "ELSE", ref "statement"]],
    [tok "FOR", tok "LPAREN", ref "forControl", tok "RPAREN", ref "statement"],
    [tok "WHILE", ref "parExpression", ref "statement"],
    [tok "DO", ref "statement", tok "WHILE", ref "parExpression", tok "SEMI"],
    [tok "TRY", ref "block", pick [[many1 [ref "catchClause"], maybe [ref "finallyBlock"]],
      [ref "finallyBlock"]]],
    [tok "TRY", ref "resourceSpecification", ref "block", many [ref "catchClause"],
      maybe [ref "finallyBlock"]],
    [tok "SWITCH", ref "parExpression", tok "LBRACE", many [ref "switchBlockStatementGroup"],
      many [ref "switchLabel"], tok "RBRACE"],
    [tok "SYNCHRONIZED", ref "parExpression", ref "block"],
    [tok "RETURN", maybe [ref "expression"], tok "SEMI"],
    [tok "THROW", ref "expression", tok "SEMI"],
    [tok "BREAK", maybe [tok "IDENTIFIER"], tok "SEMI"],
    [tok "CONTINUE", maybe [tok "IDENTIFIER"], tok "SEMI"],
    [tok "SEMI"],
    [.call "expression" 0 (some "statementExpression"), tok "SEMI"],
    [.token "IDENTIFIER" (some "identifierLabel"), tok "COLON", ref "statement"]],
  rule "catchClause" [[tok "CATCH", tok "LPAREN", many [ref "variableModifier"], ref "catchType",
    tok "IDENTIFIER", tok "RPAREN", ref "block"]],
  rule "catchType" [[ref "qualifiedName", many [tok "BITOR", ref "qualifiedName"]]],
  rule "finallyBlock" [[tok "FINALLY", ref "block"]],
  rule "resourceSpecification" [[tok "LPAREN", ref "resources", maybe [tok "SEMI"], tok "RPAREN"]],
  rule "resources" [[ref "resource", many [tok "SEMI", ref "resource"]]],
  rule "resource" [[many [ref "variableModifier"], ref "classOrInterfaceType",
    ref "variableDeclaratorId", tok "ASSIGN", ref "expression"]],
  rule "switchBlockStatementGroup" [[many1 [ref "switchLabel"], many1 [ref "blockStatement"]]],
  rule "switchLabel" [
    [tok "CASE", pick [[.call "expression" 0 (some "constantExpression")],
      [.token "IDENTIFIER" (some "enumConstantName")]], tok "COLON"],
    [tok "DEFAULT", tok "COLON"]],
  rule "forControl" [
    [ref "enhancedForControl"],
    [maybe [ref "forInit"], tok "SEMI", maybe [ref "expression"], tok "SEMI",
      maybe [.call "expressionList" 0 (some "forUpdate")]]],
  rule "forInit" [[ref "localVariableDeclaration"], [ref "expressionList"]],
  rule "enhancedForControl" [[many [ref "variableModifier"], ref "typeType",
    ref "variableDeclaratorId", tok "COLON", ref "expression"]]]

def expressionRules : List Production := [
  rule "parExpression" [[tok "LPAREN", ref "expression", tok "RPAREN"]],
  rule "expressionList" [commas "expression"],
  rule "methodCall" [
    [tok "IDENTIFIER", tok "LPAREN", maybe [ref "expressionList"], tok "RPAREN"],
    [tok "THIS", tok "LPAREN", maybe [ref "expressionList"], tok "RPAREN"],
    [tok "SUPER", tok "LPAREN", maybe [ref "expressionList"], tok "RPAREN"]],
  ⟨"expression", [
    [ref "primary"],
    [ref "methodCall"],
    [tok "NEW", ref "creator"],
    [tok "LPAREN", many [ref "annotation"], ref "typeType", many [tok "BITAND", ref "typeType"],
      tok "RPAREN", .call "expression" 21 none],
    [.oneOf ["ADD", "SUB", "INC", "DEC"] (some "prefix"), .call "expression" 19 none],
    [.oneOf ["TILDE", "BANG"] (some "prefix"), .call "expression" 18 none],
    [ref "lambdaExpression"],
    [ref "typeType", tok "COLONCOLON", pick [[maybe [ref "typeArguments"], tok "IDENTIFIER"],
      [tok "NEW"]]],
    [ref "classType", tok "COLONCOLON", maybe [ref "typeArguments"], tok "NEW"]], [
    [.guard 17, .oneOf ["MUL", "DIV", "MOD"] (some "bop"), .call "expression" 18 none],
    [.guard 16, .oneOf ["ADD", "SUB"] (some "bop"), .call "expression" 17 none],
    [.guard 15, pick [[tok "LT", tok "LT"], [tok "GT", tok "GT", tok "GT"], [tok "GT", tok "GT"]],
      .call "expression" 16 none],
    [.guard 14, .oneOf ["LE", "GE", "GT", "LT"] (some "bop"), .call "expression" 15 none],
    [.guard 12, .oneOf ["EQUAL", "NOTEQUAL"] (some "bop"), .call "expression" 13 none],
    [.guard 11, .token "BITAND" (some "bop"), .call "expression" 12 none],
    [.guard 10, .token "CARET" (some "bop"), .call "expression" 11 none],
    [.guard 9, .token "BITOR" (some "bop"), .call "expression" 10 none],
    [.guard 8, .token "AND" (some "bop"), .call "expression" 9 none],
    [.guard 7, .token "OR" (some "bop"), .call "expression" 8 none],
    [.guard 6, .token "QUESTION" (some "bop"), ref "expression", tok "COLON",
      .call "expression" 6 none],
    [.guard 5, .oneOf ["ASSIGN", "ADD_ASSIGN", "SUB_ASSIGN", "MUL_ASSIGN", "DIV_ASSIGN",
      "AND_ASSIGN", "OR_ASSIGN", "XOR_ASSIGN", "RSHIFT_ASSIGN", "URSHIFT_ASSIGN", "LSHIFT_ASSIGN",
      "MOD_ASSIGN"] (some "bop"), .call "expression" 5 none],
    [.guard 25, .token "DOT" (some "bop"), pick [[tok "IDENTIFIER"], [ref "methodCall"],
      [tok "THIS"], [tok "NEW", maybe [ref "nonWildcardTypeArguments"], ref "innerCreator"],
      [tok "SUPER", ref "superSuffix"], [ref "explicitGenericInvocation"]]],
    [.guard 24, tok "LBRACK", ref "expression", tok "RBRACK"],
    [.guard 20, .oneOf ["INC", "DEC"] (some "postfix")],
    [.guard 13, .token "INSTANCEOF" (some "bop"), ref "typeType"],
    [.guard 3, tok "COLONCOLON", maybe [ref "typeArguments"], tok "IDENTIFIER"]]⟩,
  rule "lambdaExpression" [[ref "lambdaParameters", tok "ARROW", ref "lambdaBody"]],
  rule "lambdaParameters" [
    [tok "IDENTIFIER"],
    [tok "LPAREN", maybe [ref "formalParameterList"], tok "RPAREN"],
    [tok "LPAREN", tok "IDENTIFIER", many [tok "COMMA", tok "IDENTIFIER"], tok "RPAREN"]],
  rule "lambdaBody" [[ref "expression"], [ref "block"]],
  rule "primary" [
    [tok "LPAREN", ref "expression", tok "RPAREN"],
    [tok "THIS"],
    [tok "SUPER"],
    [ref "literal"],
    [tok "IDENTIFIER"],
    [ref "typeTypeOrVoid", tok "DOT", tok "CLASS"],
    [ref "nonWildcardTypeArguments", pick [[ref "explicitGenericInvocationSuffix"], [tok "THIS",
      ref "arguments"]]]]]

/-- Object creation, type arguments and types. -/
def creatorRules : List Production := [
  rule "classType" [[maybe [ref "classOrInterfaceType", tok "DOT"], many [ref "annotation"],
    tok "IDENTIFIER", maybe [ref "typeArguments"]]],
  rule "creator" [
    [ref "nonWildcardTypeArguments", ref "createdName", ref "classCreatorRest"],
    [ref "createdName", pick [[ref "arrayCreatorRest"], [ref "classCreatorRest"]]]],
  rule "createdName" [
    [tok "IDENTIFIER", maybe [ref "typeArgumentsOrDiamond"], many [tok "DOT", tok "IDENTIFIER",
      maybe [ref "typeArgumentsOrDiamond"]]],
    [ref "primitiveType"]],
  rule "innerCreator" [[tok "IDENTIFIER", maybe [ref "nonWildcardTypeArgumentsOrDiamond"],
    ref "classCreatorRest"]],
  rule "arrayCreatorRest" [[tok "LBRACK", pick [[tok "RBRACK", many [tok "LBRACK", tok "RBRACK"],
    ref "arrayInitializer"], [ref "expression", tok "RBRACK", many [tok "LBRACK", ref "expression",
    tok "RBRACK"], many [tok "LBRACK", tok "RBRACK"]]]]],
  rule "classCreatorRest" [[ref "arguments", maybe [ref "classBody"]]],
  rule "explicitGenericInvocation" [[ref "nonWildcardTypeArguments",
    ref "explicitGenericInvocationSuffix"]],
  rule "typeArgumentsOrDiamond" [[tok "LT", tok "GT"], [ref "typeArguments"]],
  rule "nonWildcardTypeArgumentsOrDiamond" [[tok "LT", tok "GT"], [ref "nonWildcardTypeArguments"]],
  rule "nonWildcardTypeArguments" [[tok "LT", ref "typeList", tok "GT"]],
  rule "typeList" [commas "typeType"],
  rule "typeType" [[many [ref "annotation"], pick [[ref "classOrInterfaceType"],
    [ref "primitiveType"]], many [many [ref "annotation"], tok "LBRACK", tok "RBRACK"]]],
  rule "primitiveType" [[.oneOf ["BOOLEAN", "CHAR", "BYTE", "SHORT", "INT", "LONG", "FLOAT",
    "DOUBLE"] none]],
  rule "typeArguments" [tok "LT" :: commas "typeArgument" ++ [tok "GT"]],
  rule "superSuffix" [[ref "arguments"], [tok "DOT", tok "IDENTIFIER", maybe [ref "arguments"]]],
  rule "explicitGenericInvocationSuffix" [
    [tok "SUPER", ref "superSuffix"],
    [tok "IDENTIFIER", ref "arguments"]],
  rule "arguments" [[tok "LPAREN", maybe [ref "expressionList"], tok "RPAREN"]]]

def spellings : List (String × String) := keywords ++ [("NULL_LITERAL", "null")] ++ symbols

def grammar : Ruleset where
  vocabulary := .ofRules tokenRules spellings
  productions :=
    unitRules ++ typeRules ++ memberRules ++ variableRules ++ literalRules ++ annotationRules ++
      statementRules ++ expressionRules ++ creatorRules

end Transcriber.CompilationUnit
