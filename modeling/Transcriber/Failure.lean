/-!
# What can go wrong

Walking a tree, printing blocks and running handlers can fail.  A failure names its cause; only a
few causes carry a message of their own.

* `Failure` — the causes.
* `Failure.message?` — the message of a cause that has one.
-/

namespace Transcriber

inductive Failure where
  /-- Something is asked of a thing that is absent or does not have it. -/
  | absent
  /-- A value has the wrong type, or a handler gets the wrong number of arguments. -/
  | mismatch
  /-- A position lies outside a list. -/
  | position
  /-- A name is not in a table. -/
  | key
  /-- A value of the right type is not acceptable. -/
  | value
  /-- A search among enclosing blocks or nodes ended without a result. -/
  | notFound
  /-- A search ended without a result while a sequence was being produced. -/
  | interrupted
  /-- A variable is used before it has a value. -/
  | unset
  /-- A settings module does not exist. -/
  | noModule
  /-- A bad regular expression. -/
  | badPattern
  /-- The nesting is too deep. -/
  | depth
  /-- The first parameter of a synchronized function is not a receiver. -/
  | receiver
  /-- A name that nothing defines. -/
  | unknownName
  | unknownBlock (name : String)
  /-- A selector without a rule of its own was applied. -/
  | bareSelector
  | shiftCount
  /-- Several registered functions fit a call equally well. -/
  | ambiguous (types candidates : String)
  /-- No log level has that name.  The text is the quoted name. -/
  | logLevel (quoted : String)
deriving DecidableEq, Repr

namespace Failure

def message? : Failure → Option String
  | unknownBlock name => some ("Factory missing \"" ++ name ++ "\" type.")
  | bareSelector => some "Selector class cannot be called."
  | shiftCount => some "bad shift count"
  | ambiguous types candidates =>
      some ("ambigous call; types=" ++ types ++ "; candidates=" ++ candidates)
  | logLevel quoted => some ("invalid loglevel: " ++ quoted)
  | _ => none

end Failure

end Transcriber
