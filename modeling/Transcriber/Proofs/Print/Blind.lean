import Transcriber.Proofs.Pair.Agree
import Transcriber.Proofs.Print.Steady

/-!
# Printing looks at blocks only

What is printed depends neither on the report nor on how far the text has been walked: in two
workshops that differ in nothing else, printing gives the same text or fails alike.
-/

namespace Transcriber

/-- The bond between workshops that differ in their reports and trails only. -/
def Bond.beside : Bond where
  rel _ w w' := w' = { w with report := w'.report, trail := w'.trail }
  act _ _ := True
  lost _ _ _ := True
  rel_of_le _ h := h
  rel_after _ _ h := h
  lost_of_rel _ := trivial
  lost_after _ _ := trivial

namespace Build

open Bond

variable {α β : Type}

/-- Work to which neither the report nor the trail matters. -/
def Blind (m : Build α) : Prop := ∀ n, Bond.beside.Does n m m

variable {m : Build α}

theorem blind_rethrow {g : Failure → Failure} (h : Blind m) :
    Blind (tryCatch m fun failure => throw (g failure)) := by
  intro n w w' hrel
  have hend := h n hrel
  change Bond.beside.Outcome n _ w (EStateM.tryCatch m (fun failure => throw (g failure)) w)
    (EStateM.tryCatch m (fun failure => throw (g failure)) w')
  unfold EStateM.tryCatch
  generalize m w = r, m w' = r' at hend
  cases hend with
  | ok hn hrel hacts h => exact .ok hn hrel hacts h
  | error _ => exact .error trivial
  | solo h => exact h.elim

theorem blind_bind_of_gives {Q : α → Prop} {f : α → Build β} (hm : Blind m)
    (hQ : Gives Q m) (hf : ∀ a, Q a → Blind (f a)) : Blind (m >>= f) := by
  intro n
  have hboth : Bond.beside.Agree n (fun _ a a' => a = a' ∧ Q a) m m := by
    intro w w' hrel
    have hend := hm n hrel
    generalize hrun : m w = r, m w' = r' at hend
    cases hend with
    | ok hn hrel hacts h => exact .ok hn hrel hacts ⟨h, hQ hrun⟩
    | error _ => exact .error trivial
    | solo h => exact h.elim
  refine hboth.bind fun n' _ a a' h => ?_
  obtain ⟨rfl, ha⟩ := h
  exact hf a ha n'

theorem blind_reads {f : Workshop → Build α} (h : ∀ w, Blind (f w))
    (hf : ∀ w report trail, f { w with report, trail } = f w) : Blind (get >>= f) := by
  refine fun n => agree_get fun w w' hrel => ?_
  have hsame : f w' = f w := by
    rw [show w' = { w with report := w'.report, trail := w'.trail } from hrel]
    exact hf w _ _
  rw [hsame]
  exact h w n hrel

/-- Work that goes on from any workshop, and does the same whatever the report and the trail. -/
theorem blind_of_apply {a : Workshop → α} {f : Workshop → Workshop} (hrun : ∀ w, m w = .ok (a w) (f w))
    (ha : ∀ w report trail, a { w with report, trail } = a w)
    (hf : ∀ w report trail, ∃ report' trail',
      f { w with report, trail } = { f w with report := report', trail := trail' }) : Blind m := by
  intro n w w' hrel
  have hrel' : w' = { w with report := w'.report, trail := w'.trail } := hrel
  obtain ⟨report', trail', hsame⟩ := hf w w'.report w'.trail
  rw [← hrel'] at hsame
  rw [hrun, hrun, hsame]
  refine .ok (Nat.le_refl n) rfl (.single trivial) ?_
  rw [hrel']
  exact (ha w _ _).symm

/-- Not to look at the report and the trail is a manner of work to which all changes keep. -/
theorem blockManner_blind : BlockManner Blind where
  pure := fun _ _ => agree_pure rfl
  throw := fun failure _ => agree_throw failure
  rethrow := blind_rethrow
  bind_of_gives := blind_bind_of_gives
  reads := blind_reads
  change := fun id f _ => blind_of_apply (a := fun _ => ()) (f := fun w => w.edit id f)
    (fun w => change_apply w id f) (fun _ _ _ => rfl) fun _ report trail => ⟨report, trail, rfl⟩
  create := fun {b} _ => blind_of_apply (a := fun w => w.blocks.size) (f := fun w => w.adjoin b)
    (fun w => create_apply w b) (fun _ _ _ => rfl) fun _ report trail => ⟨report, trail, rfl⟩
  report := fun _ _ => blind_of_apply (a := fun _ => ()) (fun _ => rfl)
    (fun _ _ _ => rfl) fun _ _ trail => ⟨_, trail, rfl⟩
  count := fun _ => blind_of_apply (a := fun _ => ()) (fun _ => rfl)
    (fun _ _ _ => rfl) fun _ report trail => ⟨report, trail, rfl⟩
  file := fun _ => blind_of_apply (a := fun _ => ()) (fun _ => rfl)
    (fun _ _ _ => rfl) fun _ report trail => ⟨report, trail, rfl⟩

theorem blind_dump (level : Int) (id : BlockId) : Blind (dump level id) := by
  have hprinter : Gives (Printer.Steady Blind) printer :=
    gives_bind fun _ => gives_pure (Printer.steady_forLevels blockManner_blind _)
  refine blockManner_blind.bind_of_gives ?_ hprinter fun p hp => hp.dump level id
  exact blind_reads (fun _ => blockManner_blind.pure _) fun _ _ _ => rfl

def answer : EStateM.Result Failure Workshop α → Except Failure α
  | .ok a _ => .ok a
  | .error failure _ => .error failure

/-- Work to which neither the report nor the trail matters gives the same answer in workshops that
differ in nothing else. -/
theorem Blind.answer_eq (h : Blind m) {w w' : Workshop}
    (hsame : w' = { w with report := w'.report, trail := w'.trail }) :
    answer (m w) = answer (m w') := by
  have hend := h 0 hsame
  generalize m w = r, m w' = r' at hend
  cases hend with
  | ok _ _ _ h => exact congrArg Except.ok h
  | error _ => rfl
  | solo h => exact h.elim

end Build

end Transcriber
