import Transcriber.Config.Basic

/-!
# The standard settings

The layer of settings that is used unless it is switched off.

* `standardLayer` — the layer.
* `Config.standard` — the settings with this layer alone.
-/

namespace Transcriber

open Transcriber.Source

namespace Standard

def ofKind (k : Kind) : Selector := .kind k none

def named (text : String) : Selector := .kind .ident (some text)

def primitives : List Kind :=
  [.booleanType, .byteType, .charType, .floatType, .intType, .shortType, .longType, .doubleType]

def edits : List (Selector × Edit) :=
  ([(ofKind .nullWord, .constant "None"),
    (ofKind .falseWord, .constant "False"),
    (ofKind .trueWord, .constant "True"),
    (ofKind .ident, .safeName),
    (ofKind .decimalLiteral, .wholeNumber),
    (ofKind .floatingPointLiteral, .floatNumber)] : List (Selector × Edit))
  ++ (primitives.map fun k => (.child (ofKind .typeRef) (ofKind k), .typeName))
  ++ ([
    (.chain (ofKind .methodCall) (ofKind .dot) (named "length"), .lengthCall),
    (.chain (ofKind .methodCall) (ofKind .dot) (.adjacent (named "String") (named "format")),
      .formatCall),
    (.chain (ofKind .typeRef) (ofKind .qualifiedTypeIdent) (ofKind .ident), .typeName)] :
      List (Selector × Edit))

def substitutions : List (String × String) := [
  ("System\\.out\\.println\\((.*)\\)", "print(\\1)"),
  ("System\\.out\\.print_\\((.*?)\\)", "print(\\1, end=\"\")"),
  ("(.*?)\\.equals\\((.*?)\\)", "\\1 == \\2"),
  ("(.*?)\\.equalsIgnoreCase\\((.*?)\\)", "\\1.lower() == \\2.lower()"),
  ("([\\w.]+)\\.size\\(\\)", "len(\\1)"),
  ("(\\s)(\\S*?)(\\.toString\\(\\))", "\\1\\2.__str__()"),
  ("(\\s)def toString", "\\1def __str__"),
  ("(\\s)(\\S*?)(\\.toLowerCase\\(\\))", "\\1\\2.lower()"),
  ("(.*?)IndexOutOfBoundsException\\((.*?)\\)", "\\1IndexError(\\2)"),
  ("\\.__class__\\.getName\\(\\)", ".__class__.__name__"),
  ("\\.getClass\\(\\)", ".__class__"),
  ("\\.getName\\(\\)", ".__name__"),
  ("\\.getInterfaces\\(\\)", ".__bases__"),
  ("String\\.valueOf\\((.*?)\\)", "str(\\1)"),
  ("Math\\.", "")]

def typeNames : List (String × String) := [
  ("Boolean", "bool"), ("boolean", "bool"), ("Byte", "int"), ("byte", "int"), ("Char", "str"),
  ("char", "str"), ("Integer", "int"), ("int", "int"), ("Short", "int"), ("short", "int"),
  ("Long", "long"), ("long", "long"), ("Float", "float"), ("float", "float"), ("Double", "float"),
  ("double", "float"), ("String", "str"), ("java.lang.String", "str"), ("Object", "object"),
  ("IndexOutOfBoundsException", "IndexError"), ("IOException", "IOError")]

def handlers (hs : List Handler) : Value := .list (hs.map .handler)

def textPairs (pairs : List (String × String)) : Value :=
  .list (pairs.map fun (a, b) => .list [.text a, .text b])

end Standard

open Standard in
def standardLayer : Layer := [
  ("indentPrefix", .text "    "),
  ("commentPrefix", .text "# "),
  ("modulePrologueHandlers", .list [
    .handler .interpreterLine, .handler .docString, .text "from __future__ import print_function",
    .handler .shiftHelper, .handler .abstractHelper, .handler .lockHelper]),
  ("moduleEpilogueHandlers", handlers [.mainStanza]),
  ("moduleOutputHandlers", handlers [.substitutions]),
  ("classHeadHandlers", handlers [.docString]),
  ("methodParamHandlers", handlers [.params]),
  ("methodLockFunctionName", .text "lock_for_object"),
  ("classBaseHandlers", handlers [.bases]),
  ("interfaceBaseHandlers", handlers [.bases]),
  ("classPostWalkHandlers", handlers [.moveStatics]),
  ("enumHeadHandlers", handlers [.docString]),
  ("interfaceHeadHandlers", .list [.handler .docString, .text "__metaclass__ = ABCMeta"]),
  ("interfacePostWalkMutators", .list []),
  ("methodHeadHandlers", handlers [.docString]),
  ("methodPrologueHandlers",
    handlers [.abstractMethod, .classMethod, .overloads, .synchronizedMethod]),
  ("enumValueHandler", .handler .enumNames),
  ("expressionVariableNamingHandler", .handler .freshName),
  ("modulePackageDeclarationHandler", .handler .packageComments),
  ("astTransforms", .list (edits.map fun (s, e) => .list [.selector s, .handler (.edit e)])),
  ("expressionCastHandler", .handler .dropCast),
  ("moduleOutputSubs", textPairs substitutions),
  ("typeSubs", .table (typeNames.map fun (a, b) => (a, .text b)))]

def Config.standard : Config := ⟨[standardLayer]⟩

end Transcriber
