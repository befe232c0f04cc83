import Transcriber.Config.Standard

/-!
# Sample layers

Layers of settings for particular programs, to be put over the standard ones.

* `sampleLayers` — the sample of a name.
-/

namespace Transcriber

namespace Samples

open Standard

def castDropLayer : Layer := [("expressionCastHandler", .handler .dropCast)]

def bareModuleLayer : Layer :=
  [("modulePrologueHandlers", .list []), ("moduleEpilogueHandlers", .list [])]

/-- A module that begins with the dispatcher of overloaded methods. -/
def overloadingLayer : Layer :=
  [("modulePrologueHandlers",
    .list [.text "from java2python.mod.include.overloading import overloaded"])]

def genericPairsLayer : Layer := [
  ("moduleOutputSubs", textPairs (substitutions ++ [
    ("import java\\.util", ""),
    ("first\\ \\=\\ T\\(\\)", "first = None"),
    ("second\\ \\=\\ S\\(\\)", "second = None")]))]

def declaredInterfacesLayer : Layer := [
  ("interfaceHeadHandlers", handlers [.docString]),
  ("methodPrologueHandlers", handlers [.classMethod]),
  ("interfaceBaseHandlers", handlers [.interfaceBases]),
  ("classBaseHandlers", handlers [.implementingBases]),
  ("classHeadHandlers", handlers [.implementsHead]),
  ("methodParamHandlers", handlers [.interfaceParams])]

def plainImportsLayer : Layer := [("moduleImportDeclarationHandler", .handler .plainImports)]

def testDefaultsLayer : Layer := [
  ("modulePrologueHandlers", .list [
    .text "from java2python.mod.include.classmethod import classmethod_ as classmethod",
    .text "from java2python.mod.include.overloading import overloaded",
    .text "import zope.interface"]),
  ("outputSubs", textPairs [
    ("(.*?)\\.getMessage\\(\\)", "\\1.message"),
    ("(.*?)(\\w+?)\\.length(.*)", "\\1len(\\2)\\3"),
    ("assertEquals", "self.assertEquals"),
    ("## import junit.framework", "from unittest import *"),
    ("(.*?)\\.getClass\\(\\)", "\\1.__class__"),
    ("(.*?)\\.getName\\(\\)", "\\1.__name__"),
    ("(.*?)\\.getInterfaces\\(\\)", "\\1.__bases__"),
    ("(.*?)\\.fooProp\\(\\)", "\\1.fooProp"),
    ("(.*?)\\.fooProp\\((.+)\\)", "\\1.fooProp = \\2"),
    ("(.*?)lock(.*?) = object\\(\\)", "\\1lock\\2 = Lock()"),
    ("(.*?)StaticInner\\(\\)", "\\1cls.StaticInner()"),
    ("(.*?)outer\\.cls", "\\1outer"),
    ("from java\\.util import \\*", "")])]

end Samples

open Samples in
def sampleLayers : List (String × Layer) := [
  ("Cast0", castDropLayer),
  ("Class00", bareModuleLayer),
  ("Class10", overloadingLayer),
  ("GenericPairs0", genericPairsLayer),
  ("Interface3", declaredInterfacesLayer),
  ("UsePackage0", plainImportsLayer),
  ("defaults", testDefaultsLayer),
  ("__init__", [])]

end Transcriber
