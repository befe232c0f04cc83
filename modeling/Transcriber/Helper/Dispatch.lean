import Transcriber.Helper.Hierarchy

/-!
# Choosing a function by the types of its arguments

Functions are registered for signatures.  A call takes the function whose signature fits the types
of the arguments best: a signature fits if each of its types is in the linear order of the
argument's type, and among those that fit, one that comes no later in every order goes before the
other.  Several that are left over are no trouble if they belong to the same function.  What a
search has found is kept for the next call, until another function is registered.

* `Dispatcher` — the registered functions, and what calls have found.
-/

namespace Transcriber

namespace Signature

variable {C : Type} [DecidableEq C]

def fits (order : C → List C) (types signature : List C) : Bool :=
  signature.length == types.length
    && (signature.zip types).all fun (t, argument) => (order argument).contains t

/-- Whether a signature goes before another one: it is a different one, and each of its types comes
no later in the order of the argument's type. -/
def goesBefore (order : C → List C) (types first second : List C) : Bool :=
  first != second
    && (types.zip (first.zip second)).all fun (argument, s, t) =>
      (order argument).idxOf s ≤ (order argument).idxOf t

end Signature

structure Dispatcher (C F : Type) where
  /-- The function for calls that no signature fits. -/
  fallback : F
  /-- The registered functions, in the order in which their signatures were first registered. -/
  registry : List (List C × F)
  /-- What calls have found since the last registration. -/
  cache : List (List C × F)
deriving DecidableEq, Repr

namespace Dispatcher

variable {C F : Type} [DecidableEq C] [DecidableEq F]

def ofDefault (fallback : F) : Dispatcher C F := ⟨fallback, [], []⟩

/-- Sets the entry of a key; a new key goes to the end. -/
def put (key : List C) (f : F) : List (List C × F) → List (List C × F)
  | [] => [(key, f)]
  | (k, g) :: rest => if k = key then (k, f) :: rest else (k, g) :: put key f rest

/-- Registers a function.  What was found before is forgotten. -/
def register (d : Dispatcher C F) (signature : List C) (f : F) : Dispatcher C F :=
  { d with registry := put signature f d.registry, cache := [] }

/-- The registered signatures that fit, with their functions. -/
def candidates (d : Dispatcher C F) (order : C → List C) (types : List C) : List (List C × F) :=
  d.registry.filter fun entry => Signature.fits order types entry.1

/-- The candidates that no other one goes before. -/
def best (order : C → List C) (types : List C) (candidates : List (List C × F)) :
    List (List C × F) :=
  candidates.filter fun entry =>
    !candidates.any fun other => Signature.goesBefore order types other.1 entry.1

/-- The function for arguments of the given types, or the signatures between which there is no
choice. -/
def find (d : Dispatcher C F) (order : C → List C) (types : List C) : Except (List (List C)) F :=
  match d.registry.lookup types with
  | some f => .ok f
  | none =>
      match d.candidates order types with
      | [] => .ok d.fallback
      | [entry] => .ok entry.2
      | several =>
          match best order types several with
          | [] => .error []
          | entry :: rest =>
              if rest.all fun other => other.2 = entry.2 then .ok entry.2
              else .error ((entry :: rest).map (·.1))

/-- The function that a call with arguments of the given types goes to.  It is searched for only if
no call has found it before. -/
def call (d : Dispatcher C F) (order : C → List C) (types : List C) :
    Except (List (List C)) F × Dispatcher C F :=
  match d.cache.lookup types with
  | some f => (.ok f, d)
  | none =>
      match d.find order types with
      | .ok f => (.ok f, { d with cache := put types f d.cache })
      | .error several => (.error several, d)

/-- The failure of a call between whose signatures there is no choice. -/
def ambiguity (h : Hierarchy) (types : List ClassId) (several : List (List ClassId)) : Failure :=
  .ambiguous (h.describeAll types) ("[" ++ ", ".intercalate (several.map h.describeAll) ++ "]")

end Dispatcher

end Transcriber
