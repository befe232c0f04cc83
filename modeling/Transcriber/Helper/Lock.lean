import Transcriber.Config.Value

/-!
# Locks and delegation

Two helpers of generated programs.  A synchronized method holds the lock of its receiver while it
runs: each object has one lock, made when it is first asked for.  A class method passes on the
attributes of the function that it wraps.

* `Locks.lockOf` — the lock of an object.
* `Wrapped.attributeOf` — an attribute of a class method.
-/

namespace Transcriber

/-- The objects that have locks; the number of a lock is the position of its object. -/
structure Locks where
  owners : List String
deriving DecidableEq, Repr

namespace Locks

def none : Locks := ⟨[]⟩

def lockOf (l : Locks) (object : String) : Nat × Locks :=
  match l.owners.idxOf? object with
  | some n => (n, l)
  | .none => (l.owners.length, ⟨l.owners ++ [object]⟩)

end Locks

/-- A function that can be made synchronized: its name and the names of its parameters. -/
structure Guarded where
  name : String
  parameters : List String
deriving DecidableEq, Repr

namespace Guarded

def receivers : List String := ["self", "cls"]

/-- Makes a function synchronized; its first parameter has to be a receiver. -/
def check (f : Guarded) : Except Failure Unit :=
  match f.parameters.head? with
  | none => .error .position
  | some first => if receivers.contains first then .ok () else .error .receiver

/-- Calls a synchronized function with positional arguments, the receiver among them, and named
ones.  The lock is that of the first argument, so there has to be one. -/
def call (f : Guarded) (positional : Nat) (named : List String) : Except Failure Unit := do
  f.check
  if positional == 0 then throw .position
  if named.any fun name => f.parameters.contains name then throw .mismatch

end Guarded

structure Wrapped where
  name : String
  attributes : List (String × Value)

namespace Wrapped

def attributeOf (w : Wrapped) (name : String) : Except Failure Value :=
  match w.attributes.lookup name with
  | some value => .ok value
  | none => if name == "__name__" then .ok (.text w.name) else .error .absent

end Wrapped

end Transcriber
