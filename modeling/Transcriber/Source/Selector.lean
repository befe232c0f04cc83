import Transcriber.Failure
import Transcriber.Source.Forest

/-!
# Selectors

A selector picks nodes of a forest.  Applied to a node it gives matches in an order, with
repetitions: a node counts once for every way in which it fits.  Walking a tree applies the selector
to every node in preorder.

A selector may fail in the middle; the matches found before stand.  The relation to a parent is
looked at even where there is none: only `anything` accepts that, every other selector fails.

* `Selector` — the selectors.
* `Selector.describe` — the text of a selector.
-/

namespace Transcriber.Source

/-- A plain value that an attribute of a token is compared with. -/
inductive Scalar where
  | text (s : String)
  | number (n : Int)
  | truth (b : Bool)
deriving DecidableEq, Repr

def Scalar.describe : Scalar → String
  | text s => s
  | number n => toString n
  | truth b => if b then "True" else "False"

def Scalar.number? : Scalar → Option Int
  | text _ => none
  | number n => some n
  | truth b => some (if b then 1 else 0)

/-- Whether two plain values are equal.  A truth value counts as the number 0 or 1. -/
def Scalar.same : Scalar → Scalar → Bool
  | text s, text t => s == t
  | a, b =>
      match a.number?, b.number? with
      | some m, some n => m == n
      | _, _ => false

inductive TokenTest where
  /-- No condition. -/
  | anything
  /-- The named attribute has a value. -/
  | equals (value : Scalar)
  /-- The token has a property, which goes by a name. -/
  | check (name : String) (property : Head → Bool)

inductive Choice where
  /-- One child; negative positions count from the end. -/
  | index (position : Int)
  /-- Every `step`-th child from a start to a stop. -/
  | slice (start stop step : Option Int)
  /-- Something that is no position. -/
  | word (text : String)
deriving DecidableEq, Repr

inductive Selector where
  /-- Any node. -/
  | anything
  /-- No rule of its own. -/
  | bare
  /-- A node of a kind, perhaps with a given text. -/
  | kind (kind : Kind) (text : Option String)
  /-- A node whose token passes tests, each of a named attribute. -/
  | token (tests : List (String × TokenTest))
  /-- The chosen children of a node that `e` selects. -/
  | nth (e : Selector) (choice : Choice)
  /-- A node that `f` selects below a parent that `e` selects. -/
  | child (e f : Selector)
  /-- A node that `f` selects below an ancestor that `e` selects. -/
  | descendant (e f : Selector)
  /-- A node that `f` selects right behind a sibling that `e` selects. -/
  | adjacent (e f : Selector)
  /-- A node that `f` selects behind a sibling that `e` selects. -/
  | sibling (e f : Selector)

namespace Choice

/-- A bound of a slice, moved into the list. -/
def bound (length step : Int) (forward backward : Int) : Option Int → Int
  | none => if step < 0 then backward else forward
  | some n =>
      let n := if n < 0 then n + length else n
      if step < 0 then max (-1) (min n (length - 1)) else max 0 (min n length)

/-- The elements at a position and every `step` from there, as long as the position is before
`stop`. -/
def stride {α : Type} (xs : List α) (step stop : Int) : Nat → Int → List α
  | 0, _ => []
  | fuel + 1, at_ =>
      if (if step < 0 then stop < at_ else at_ < stop) then
        (xs[at_.toNat]?).toList ++ stride xs step stop fuel (at_ + step)
      else []

def pick {α : Type} (choice : Choice) (xs : List α) : Except Failure (List α) :=
  let length : Int := xs.length
  match choice with
  | index n =>
      let n := if n < 0 then n + length else n
      if n < 0 then .error .position
      else
        match xs[n.toNat]? with
        | some x => .ok [x]
        | none => .error .position
  | slice start stop step =>
      let step := step.getD 1
      if step == 0 then .error .value
      else
        .ok (stride xs step (bound length step length (-1) stop) (xs.length + 1)
          (bound length step 0 (length - 1) start))
  | word _ => .error .mismatch

def describeBound : Option Int → String
  | some n => toString n
  | none => "None"

def describe : Choice → String
  | index n => toString n
  | slice start stop step =>
      "slice(" ++ describeBound start ++ ", " ++ describeBound stop ++ ", "
        ++ describeBound step ++ ")"
  | word s => s

end Choice

/-- The matches of a selector, and the failure that ended them. -/
structure Matches where
  /-- The matches in order; the absent parent of a root counts too. -/
  found : List (Option NodeId)
  failure : Option Failure := none
deriving DecidableEq, Repr

namespace Matches

def none : Matches := ⟨[], .none⟩

def one (node : Option NodeId) : Matches := ⟨[node], .none⟩

def fail (failure : Failure) : Matches := ⟨[], some failure⟩

/-- The matches of a list of sources, one after the other, up to the first failure. -/
def concat : List Matches → Matches
  | [] => none
  | m :: rest =>
      match m.failure with
      | some _ => m
      | .none => ⟨m.found ++ (concat rest).found, (concat rest).failure⟩

/-- What `next` makes of each match, one after the other.  `next` gives no matches at all to end the
work without a failure. -/
def bind (m : Matches) (next : Option NodeId → Option Matches) : Matches := go m.found
where
  /-- What `next` makes of each of some matches. -/
  go : List (Option NodeId) → Matches
    | [] => ⟨[], m.failure⟩
    | node :: rest =>
        match next node with
        | .none => none
        | some made =>
            match made.failure with
            | some _ => made
            | .none => ⟨made.found ++ (go rest).found, (go rest).failure⟩

/-- The same node once for every match. -/
def countAs (m : Matches) (node : Option NodeId) : Matches := ⟨m.found.map fun _ => node, m.failure⟩

end Matches

namespace TokenTest

def textStarts (start : String) : TokenTest :=
  .check "startswith" fun head => start.toList.isPrefixOf head.text.toList

def lineIn (lines : List Int) : TokenTest := .check "lineIn" fun head => lines.contains head.line

def kindIs (kind : Kind) : TokenTest := .check "typeIs" fun head => head.kind == kind

def attribute? (head : Head) : String → Option Scalar
  | "type" => some (.number head.kind.number)
  | "text" => some (.text head.text)
  | "line" => some (.number head.line)
  | "index" => some (.number head.index)
  | "channel" => some (.number head.channel)
  | _ => none

def passes (head : Head) (name : String) : TokenTest → Except Failure Bool
  | anything => .ok true
  | equals value =>
      match attribute? head name with
      | some found => .ok (found.same value)
      | none => .error .absent
  | check _ property => .ok (property head)

/-- Whether a token passes all tests; they are made in order up to the first that fails. -/
def passesAll (head : Head) : List (String × TokenTest) → Except Failure Bool
  | [] => .ok true
  | (name, test) :: rest => do if ← test.passes head name then passesAll head rest else return false

def describe? : TokenTest → Option String
  | anything => none
  | equals value => some value.describe
  | check name _ => some ("<" ++ name ++ ">")

end TokenTest

namespace Selector

/-- A chain of three selectors.  Only its last two links count: a node that `c` selects below a
parent that `b` selects, whatever stands above that. -/
def chain (_a b c : Selector) : Selector := .child b c

/-- The matches of a selector at a node, or at the absent parent of a root. -/
def select (f : Forest) : Selector → Option NodeId → Matches
  | anything, node => .one node
  | bare, _ => .fail .bareSelector
  | kind k text, node =>
      match node.bind f.get? with
      | none => .fail .absent
      | some entry =>
          if entry.head.kind == k && text.all (· == entry.head.text) then .one node else .none
  | token tests, node =>
      match node.bind f.get? with
      | none => .fail .absent
      | some entry =>
          match TokenTest.passesAll entry.head tests with
          | .ok true => .one node
          | .ok false => .none
          | .error failure => .fail failure
  | nth e choice, node =>
      (e.select f node).bind fun _ =>
        match node.bind f.get? with
        | none => some (.fail .absent)
        | some entry =>
            match choice.pick entry.children with
            | .ok children => some ⟨children.map some, none⟩
            | .error .position => none
            | .error failure => some (.fail failure)
  | child e g, node =>
      (g.select f node).bind fun found =>
        match node with
        | none => some (.fail .absent)
        | some id => some ((e.select f (f.parentOf id)).countAs found)
  | descendant e g, node =>
      (g.select f node).bind fun found =>
        match found with
        | none => some (.fail .absent)
        | some id =>
            some (.concat ((f.ancestors id).map fun a => (e.select f (some a)).countAs found))
  | adjacent e g, node =>
      match node with
      | none => .fail .absent
      | some id =>
          match f.parentOf id with
          | none => .none
          | some parent =>
              let siblings := f.childrenOf parent
              (g.select f node).bind fun found =>
                match (found.bind fun id => siblings.idxOf? id) with
                | none => some (.fail .value)
                | some 0 => none
                | some (index + 1) => some ((e.select f siblings[index]?).countAs found)
  | sibling e g, node =>
      match node with
      | none => .fail .absent
      | some id =>
          match f.parentOf id with
          | none => .none
          | some parent =>
              let siblings := f.childrenOf parent
              (g.select f node).bind fun found =>
                match (found.bind fun id => siblings.idxOf? id) with
                | none => some (.fail .value)
                | some 0 => none
                | some index =>
                    some (.concat ((siblings.take index).map fun s =>
                      (e.select f (some s)).countAs found))

mutual

/-- The matches at a node and then at all nodes below it, as far as `fuel` allows. -/
def walkUpTo (f : Forest) (s : Selector) : Nat → NodeId → Matches
  | 0, _ => .none
  | fuel + 1, id => .concat [s.select f (some id), walkAll f s fuel (f.childrenOf id)]

def walkAll (f : Forest) (s : Selector) : Nat → List NodeId → Matches
  | 0, _ => .none
  | _, [] => .none
  | fuel + 1, id :: rest => .concat [walkUpTo f s fuel id, walkAll f s fuel rest]

end

/-- The matches at a node and then at all nodes below it, in preorder. -/
def walk (f : Forest) (s : Selector) (id : NodeId) : Matches := s.walkUpTo f (2 * f.size + 1) id

/-- The text of a selector.  A kind without a name has none. -/
def describe : Selector → Except Failure String
  | anything => .ok "Star(*)"
  | bare => .ok ""
  | kind k text =>
      match k.name? with
      | none => .error .key
      | some name =>
          let value := match text with
            | some text => "=" ++ text
            | none => ""
          .ok ("Type(" ++ name ++ value ++ ":" ++ toString k.number ++ ")")
  | token tests =>
      let shown := tests.filterMap fun (name, test) => test.describe?.map fun value =>
        name ++ "=" ++ value
      .ok ("Token(" ++ ", ".intercalate shown ++ ")")
  | nth e choice => do return "Nth(" ++ (← e.describe) ++ ")[" ++ choice.describe ++ "]"
  | child e f => do return "Child(" ++ (← e.describe) ++ " > " ++ (← f.describe) ++ ")"
  | descendant e f => do return "Descendant(" ++ (← e.describe) ++ " & " ++ (← f.describe) ++ ")"
  | adjacent e f => do return "AdjacentSibling(" ++ (← e.describe) ++ " + " ++ (← f.describe) ++ ")"
  | sibling e f => do return "AnySibling(" ++ (← e.describe) ++ " / " ++ (← f.describe) ++ ")"

end Selector

end Transcriber.Source
