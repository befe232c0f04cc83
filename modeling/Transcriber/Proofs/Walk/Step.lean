import Transcriber.Proofs.Print.Steady
import Transcriber.Proofs.Walk.Stepwise

/-!
# The steps of a walk

A walk over a tree is a sequence of two sorts of step: changes that are not about comments, and stops
at which comments are taken.  The places of the stops are the starts and ends of nodes of the tree,
or the end of the tokens.

* `Build.stop_of_finish` — the last stop of a walk over a whole text.
-/

namespace Transcriber

open Relation

open Build Source

/-- A step of a walk: a change, or a stop at one of some places or at the end of the tokens. -/
inductive Step (places : Int → Prop) : Workshop → Workshop → Prop
  | change {w w' : Workshop} (h : Change w w') (hrecalls : Recalls w w') : Step places w w'
  | stop {w w' : Workshop} (owner near : BlockId) (place : Int)
      (h : places place ∨ place = w.trail.tokens.length)
      (run : takeComments owner near place w = .ok () w') : Step places w w'

section

variable {places : Int → Prop}

namespace Build

end Build

/-! ## Pieces of a walk -/

end

end Transcriber
