import Transcriber.Source.Selector
import Transcriber.Text.Quoted

/-!
# Values of settings

Settings hold plain values, lists, tables, selectors, and handlers: named functions that shape the
output.  Blocks of the output appear among the values that handlers take and give.

* `Handler` — the handlers.
* `Value` — the values, with their truth, their items and their texts.
-/

namespace Transcriber

open Transcriber.Source

/-- A change to a node of a syntax tree. -/
inductive Edit where
  /-- A name that the output language reserves gets an underscore at its end. -/
  | safeName
  /-- The text becomes a given one. -/
  | constant (text : String)
  /-- A whole number loses the mark of its size. -/
  | wholeNumber
  /-- A number with a point gets a digit before the point and loses the mark of its size. -/
  | floatNumber
  /-- A call of `length` becomes a call with the receiver as its argument. -/
  | lengthCall
  /-- A call of `String.format` becomes a call on the converted format text. -/
  | formatCall
  /-- A type name is replaced by the one that the settings give for it. -/
  | typeName
deriving DecidableEq, Repr

inductive Handler where
  | interpreterLine
  /-- Gives the handler that writes a line with an encoding. -/
  | encodingMaker
  | sourceEncoding (encoding : String)
  | docString
  | importComments
  | plainImports
  | packageComments
  | packageMarkers
  | enumNumbers
  | enumNames
  | mainStanza
  | substitutions
  | overloads
  | classMethod
  | abstractMethod
  | synchronizedMethod
  | freshName
  | shiftSource
  | lockSource
  | shiftHelper
  | abstractHelper
  | lockHelper
  | sortContent
  | params
  | interfaceParams
  | bases
  | interfaceBases
  | implementsAny
  | implementingBases
  | implementsHead
  | moveStatics
  | castCall
  | dropCast
  | reservedNames
  | constantMaker
  | fieldMaker
  /-- Makes a change to a syntax tree. -/
  | edit (edit : Edit)
  /-- Gives one line, whatever it is called with. -/
  | echo (line : String)
deriving DecidableEq, Repr

abbrev BlockId := Nat

inductive Value where
  | none
  | truth (b : Bool)
  | number (n : Int)
  | text (s : String)
  | list (items : List Value)
  | table (entries : List (String × Value))
  | selector (s : Selector)
  | handler (h : Handler)
  | block (id : BlockId)
  | node (text : String)

namespace Value

def truthy : Value → Bool
  | none => false
  | truth b => b
  | number n => n != 0
  | text s => !s.isEmpty
  | list items => !items.isEmpty
  | table entries => !entries.isEmpty
  | _ => true

/-- The items of a value that has some: the members of a list, the characters of a text, the keys of
a table. -/
def items : Value → Except Failure (List Value)
  | list items => .ok items
  | text s => .ok (s.toList.map fun c => .text c.toString)
  | table entries => .ok (entries.map fun (key, _) => .text key)
  | _ => .error .mismatch

def pair (v : Value) : Except Failure (Value × Value) := do
  match ← v.items with
  | [a, b] => return (a, b)
  | _ => throw .value

def entry? (key : String) : Value → Option Value
  | table entries => entries.lookup key
  | _ => Option.none

def occursIn (part : List Char) : List Char → Bool
  | [] => part.isEmpty
  | c :: cs => part.isPrefixOf (c :: cs) || occursIn part cs

def holds (s : String) : Value → Except Failure Bool
  | table entries => .ok (entries.any fun (key, _) => key == s)
  | list items => .ok (items.any fun item => match item with
      | text t => t == s
      | _ => false)
  | text t => .ok (occursIn s.toList t.toList)
  | _ => .error .mismatch

mutual

/-- The text of a value inside a list or table, where texts are quoted. -/
def inside : Value → String
  | none => "None"
  | truth b => if b then "True" else "False"
  | number n => toString n
  | text s => Text.quoted s
  | list items => "[" ++ ", ".intercalate (insideAll items) ++ "]"
  | table entries => "\x7b" ++ ", ".intercalate (insideEntries entries) ++ "\x7d"
  | selector s => (s.describe).toOption.getD ""
  | handler _ => "<function>"
  | block _ => "<block>"
  | node s => s

def insideAll : List Value → List String
  | [] => []
  | v :: vs => v.inside :: insideAll vs

def insideEntries : List (String × Value) → List String
  | [] => []
  | (key, v) :: rest => (Text.quoted key ++ ": " ++ v.inside) :: insideEntries rest

end

def display : Value → String
  | text s => s
  | v => v.inside

end Value

end Transcriber
