/-!
# Kinds of syntax tree nodes

Every node of a syntax tree has a kind.  The known kinds have a name, spelled with capitals and
underscores, and a number: they are counted from 1000 in the order of their names.  A node may also
carry a number that belongs to no known kind.

* `Kind` — the kinds.
* `Kind.name?`, `Kind.number`, `Kind.ofName?`, `Kind.ofNumber` — names and numbers.
-/

namespace Transcriber.Source

inductive Kind where
  | abstractWord | bitAnd | bitAndAssign | annotationInitArrayElement | annotationInitBlock
  | annotationInitDefaultKey | annotationInitKeyList | annotationList | annotationMethodDecl
  | annotationScope | annotationTopLevelScope | argumentList | arrayDeclarator
  | arrayDeclaratorList | arrayElementAccess | arrayInitializer | assertWord | assign
  | annotationUse
  | bitShiftRight | bitShiftRightAssign | blockScope | booleanType | breakWord | byteType
  | caseWord | castExpr | catchWord | catchClauseList | charType | characterLiteral | classWord
  | classConstructorCall | classInstanceInitializer | classStaticInitializer | classTopLevelScope
  | colon | comma | comment | constructorDecl | continueWord | dec | decimalLiteral | defaultWord
  | div | divAssign | doWord | dot | dotStar | doubleType | ellipsis | elseWord | enumWord
  | enumTopLevelScope | equal | expr | extendsWord | extendsBoundList | extendsClause | falseWord
  | finalWord | finallyWord | floatType | floatingPointLiteral | forWord | formalParamList
  | formalParamStdDecl | formalParamVarargDecl | forCondition | forEach | forInit | forUpdate
  | functionMethodDecl | genericTypeArgList | genericTypeParamList | greaterOrEqual | greaterThan
  | hexLiteral | ident | ifWord | implementsWord | implementsClause | importWord | inc | instanceOf
  | intType | interfaceWord | interfaceTopLevelScope | docComment | compilationUnit
  | labeledStatement | lbrack | lcurly | lessOrEqual | lessThan | lineComment | localModifierList
  | logicalAnd | logicalNot | logicalOr | longType | lparen | methodCall | minus | minusAssign
  | mod | modifierList | modAssign | nativeWord | newWord | bitNot | notEqual | nullWord
  | octalLiteral | bitOr | bitOrAssign | packageWord | parenthesizedExpr | plus | plusAssign
  | postDec | postInc | preDec | preInc | privateWord | protectedWord | publicWord
  | qualifiedTypeIdent | question | rbrack | rcurly | returnWord | rparen | semi | shiftLeft
  | shiftLeftAssign | shiftRight | shiftRightAssign | shortType | star | starAssign | staticWord
  | staticArrayCreator | strictfpWord | stringLiteral | superWord | superConstructorCall
  | switchWord | switchBlockLabelList | synchronizedWord | thisWord | thisConstructorCall
  | throwWord | throwsWord | throwsClause | transientWord | trueWord | tryWord | typeRef
  | unaryMinus | unaryPlus | varDeclaration | varDeclarator | varDeclaratorList | voidType
  | voidMethodDecl | volatileWord | whileWord | blank | bitXor | bitXorAssign
  /-- A number outside the known kinds. -/
  | other (number : Int)
deriving DecidableEq, Repr

namespace Kind

/-- The known kinds with their names, ordered by name. -/
def table : List (Kind × String) := [
  (.abstractWord, "ABSTRACT"),
  (.bitAnd, "AND"),
  (.bitAndAssign, "AND_ASSIGN"),
  (.annotationInitArrayElement, "ANNOTATION_INIT_ARRAY_ELEMENT"),
  (.annotationInitBlock, "ANNOTATION_INIT_BLOCK"),
  (.annotationInitDefaultKey, "ANNOTATION_INIT_DEFAULT_KEY"),
  (.annotationInitKeyList, "ANNOTATION_INIT_KEY_LIST"),
  (.annotationList, "ANNOTATION_LIST"),
  (.annotationMethodDecl, "ANNOTATION_METHOD_DECL"),
  (.annotationScope, "ANNOTATION_SCOPE"),
  (.annotationTopLevelScope, "ANNOTATION_TOP_LEVEL_SCOPE"),
  (.argumentList, "ARGUMENT_LIST"),
  (.arrayDeclarator, "ARRAY_DECLARATOR"),
  (.arrayDeclaratorList, "ARRAY_DECLARATOR_LIST"),
  (.arrayElementAccess, "ARRAY_ELEMENT_ACCESS"),
  (.arrayInitializer, "ARRAY_INITIALIZER"),
  (.assertWord, "ASSERT"),
  (.assign, "ASSIGN"),
  (.annotationUse, "AT"),
  (.bitShiftRight, "BIT_SHIFT_RIGHT"),
  (.bitShiftRightAssign, "BIT_SHIFT_RIGHT_ASSIGN"),
  (.blockScope, "BLOCK_SCOPE"),
  (.booleanType, "BOOLEAN"),
  (.breakWord, "BREAK"),
  (.byteType, "BYTE"),
  (.caseWord, "CASE"),
  (.castExpr, "CAST_EXPR"),
  (.catchWord, "CATCH"),
  (.catchClauseList, "CATCH_CLAUSE_LIST"),
  (.charType, "CHAR"),
  (.characterLiteral, "CHARACTER_LITERAL"),
  (.classWord, "CLASS"),
  (.classConstructorCall, "CLASS_CONSTRUCTOR_CALL"),
  (.classInstanceInitializer, "CLASS_INSTANCE_INITIALIZER"),
  (.classStaticInitializer, "CLASS_STATIC_INITIALIZER"),
  (.classTopLevelScope, "CLASS_TOP_LEVEL_SCOPE"),
  (.colon, "COLON"),
  (.comma, "COMMA"),
  (.comment, "COMMENT"),
  (.constructorDecl, "CONSTRUCTOR_DECL"),
  (.continueWord, "CONTINUE"),
  (.dec, "DEC"),
  (.decimalLiteral, "DECIMAL_LITERAL"),
  (.defaultWord, "DEFAULT"),
  (.div, "DIV"),
  (.divAssign, "DIV_ASSIGN"),
  (.doWord, "DO"),
  (.dot, "DOT"),
  (.dotStar, "DOTSTAR"),
  (.doubleType, "DOUBLE"),
  (.ellipsis, "ELLIPSIS"),
  (.elseWord, "ELSE"),
  (.enumWord, "ENUM"),
  (.enumTopLevelScope, "ENUM_TOP_LEVEL_SCOPE"),
  (.equal, "EQUAL"),
  (.expr, "EXPR"),
  (.extendsWord, "EXTENDS"),
  (.extendsBoundList, "EXTENDS_BOUND_LIST"),
  (.extendsClause, "EXTENDS_CLAUSE"),
  (.falseWord, "FALSE"),
  (.finalWord, "FINAL"),
  (.finallyWord, "FINALLY"),
  (.floatType, "FLOAT"),
  (.floatingPointLiteral, "FLOATING_POINT_LITERAL"),
  (.forWord, "FOR"),
  (.formalParamList, "FORMAL_PARAM_LIST"),
  (.formalParamStdDecl, "FORMAL_PARAM_STD_DECL"),
  (.formalParamVarargDecl, "FORMAL_PARAM_VARARG_DECL"),
  (.forCondition, "FOR_CONDITION"),
  (.forEach, "FOR_EACH"),
  (.forInit, "FOR_INIT"),
  (.forUpdate, "FOR_UPDATE"),
  (.functionMethodDecl, "FUNCTION_METHOD_DECL"),
  (.genericTypeArgList, "GENERIC_TYPE_ARG_LIST"),
  (.genericTypeParamList, "GENERIC_TYPE_PARAM_LIST"),
  (.greaterOrEqual, "GREATER_OR_EQUAL"),
  (.greaterThan, "GREATER_THAN"),
  (.hexLiteral, "HEX_LITERAL"),
  (.ident, "IDENT"),
  (.ifWord, "IF"),
  (.implementsWord, "IMPLEMENTS"),
  (.implementsClause, "IMPLEMENTS_CLAUSE"),
  (.importWord, "IMPORT"),
  (.inc, "INC"),
  (.instanceOf, "INSTANCEOF"),
  (.intType, "INT"),
  (.interfaceWord, "INTERFACE"),
  (.interfaceTopLevelScope, "INTERFACE_TOP_LEVEL_SCOPE"),
  (.docComment, "JAVADOC_COMMENT"),
  (.compilationUnit, "JAVA_SOURCE"),
  (.labeledStatement, "LABELED_STATEMENT"),
  (.lbrack, "LBRACK"),
  (.lcurly, "LCURLY"),
  (.lessOrEqual, "LESS_OR_EQUAL"),
  (.lessThan, "LESS_THAN"),
  (.lineComment, "LINE_COMMENT"),
  (.localModifierList, "LOCAL_MODIFIER_LIST"),
  (.logicalAnd, "LOGICAL_AND"),
  (.logicalNot, "LOGICAL_NOT"),
  (.logicalOr, "LOGICAL_OR"),
  (.longType, "LONG"),
  (.lparen, "LPAREN"),
  (.methodCall, "METHOD_CALL"),
  (.minus, "MINUS"),
  (.minusAssign, "MINUS_ASSIGN"),
  (.mod, "MOD"),
  (.modifierList, "MODIFIER_LIST"),
  (.modAssign, "MOD_ASSIGN"),
  (.nativeWord, "NATIVE"),
  (.newWord, "NEW"),
  (.bitNot, "NOT"),
  (.notEqual, "NOT_EQUAL"),
  (.nullWord, "NULL"),
  (.octalLiteral, "OCTAL_LITERAL"),
  (.bitOr, "OR"),
  (.bitOrAssign, "OR_ASSIGN"),
  (.packageWord, "PACKAGE"),
  (.parenthesizedExpr, "PARENTESIZED_EXPR"),
  (.plus, "PLUS"),
  (.plusAssign, "PLUS_ASSIGN"),
  (.postDec, "POST_DEC"),
  (.postInc, "POST_INC"),
  (.preDec, "PRE_DEC"),
  (.preInc, "PRE_INC"),
  (.privateWord, "PRIVATE"),
  (.protectedWord, "PROTECTED"),
  (.publicWord, "PUBLIC"),
  (.qualifiedTypeIdent, "QUALIFIED_TYPE_IDENT"),
  (.question, "QUESTION"),
  (.rbrack, "RBRACK"),
  (.rcurly, "RCURLY"),
  (.returnWord, "RETURN"),
  (.rparen, "RPAREN"),
  (.semi, "SEMI"),
  (.shiftLeft, "SHIFT_LEFT"),
  (.shiftLeftAssign, "SHIFT_LEFT_ASSIGN"),
  (.shiftRight, "SHIFT_RIGHT"),
  (.shiftRightAssign, "SHIFT_RIGHT_ASSIGN"),
  (.shortType, "SHORT"),
  (.star, "STAR"),
  (.starAssign, "STAR_ASSIGN"),
  (.staticWord, "STATIC"),
  (.staticArrayCreator, "STATIC_ARRAY_CREATOR"),
  (.strictfpWord, "STRICTFP"),
  (.stringLiteral, "STRING_LITERAL"),
  (.superWord, "SUPER"),
  (.superConstructorCall, "SUPER_CONSTRUCTOR_CALL"),
  (.switchWord, "SWITCH"),
  (.switchBlockLabelList, "SWITCH_BLOCK_LABEL_LIST"),
  (.synchronizedWord, "SYNCHRONIZED"),
  (.thisWord, "THIS"),
  (.thisConstructorCall, "THIS_CONSTRUCTOR_CALL"),
  (.throwWord, "THROW"),
  (.throwsWord, "THROWS"),
  (.throwsClause, "THROWS_CLAUSE"),
  (.transientWord, "TRANSIENT"),
  (.trueWord, "TRUE"),
  (.tryWord, "TRY"),
  (.typeRef, "TYPE"),
  (.unaryMinus, "UNARY_MINUS"),
  (.unaryPlus, "UNARY_PLUS"),
  (.varDeclaration, "VAR_DECLARATION"),
  (.varDeclarator, "VAR_DECLARATOR"),
  (.varDeclaratorList, "VAR_DECLARATOR_LIST"),
  (.voidType, "VOID"),
  (.voidMethodDecl, "VOID_METHOD_DECL"),
  (.volatileWord, "VOLATILE"),
  (.whileWord, "WHILE"),
  (.blank, "WS"),
  (.bitXor, "XOR"),
  (.bitXorAssign, "XOR_ASSIGN")]

def firstNumber : Nat := 1000

def name? (kind : Kind) : Option String := table.lookup kind

def number : Kind → Int
  | other number => number
  | kind => firstNumber + (table.findIdx fun entry => entry.1 == kind)

def ofName? (name : String) : Option Kind := (table.find? fun entry => entry.2 == name).map (·.1)

def ofNumber (number : Int) : Kind :=
  match (if number < firstNumber then none else table[(number - firstNumber).toNat]?) with
  | some entry => entry.1
  | none => .other number

def comments : List Kind := [.comment, .lineComment, .docComment]

def methods : List Kind := [.voidMethodDecl, .functionMethodDecl]

end Kind

end Transcriber.Source
