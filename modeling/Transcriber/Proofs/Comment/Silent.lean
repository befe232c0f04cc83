import Transcriber.Proofs.Store
import Transcriber.Walk.Comment

/-!
# Texts without comments

Where there are no comments among the tokens, a stop on the way only moves on.
-/

namespace Transcriber

open Build Source

/-- There are no comments among the tokens. -/
def Trail.Silent (trail : Trail) : Prop :=
  ∀ token ∈ trail.tokens, Kind.comments.contains token.kind = false

theorem Source.Choice.mem_of_mem_stride {α : Type} {xs : List α} {step stop : Int} {x : α} :
    ∀ {fuel : Nat} {at_ : Int}, x ∈ stride xs step stop fuel at_ → x ∈ xs := by
  intro fuel
  induction fuel with
  | zero => exact fun h => nomatch h
  | succ fuel ih =>
    intro at_ h
    rw [stride] at h
    by_cases hgo : if step < 0 then stop < at_ else at_ < stop
    · rw [if_pos hgo] at h
      rcases List.mem_append.1 h with h | h
      · exact List.mem_of_getElem? (Option.mem_toList.1 h)
      · exact ih h
    · rw [if_neg hgo] at h
      cases h

namespace Build

theorem mem_of_mem_tokensBetween {tokens : List Lexeme} {start stop : Int} {p : Lexeme × Nat}
    (h : p ∈ tokensBetween tokens start stop) : p.1 ∈ tokens := by
  have hzip : p ∈ tokens.zipIdx := Choice.mem_of_mem_stride h
  exact List.mem_of_getElem? (List.mem_zipIdx_iff_getElem?.1 hzip)

theorem newComments_silent {trail : Trail} (h : trail.Silent) (stop : Int) : newComments trail stop = [] := by
  unfold newComments
  rw [List.filter_eq_nil_iff]
  intro p hp hcomment
  have hkind := (Bool.and_eq_true_iff.1 hcomment).1
  rw [h p.1 (mem_of_mem_tokensBetween hp)] at hkind
  cases hkind

/-- A stop where there are no comments only moves on. -/
theorem takeComments_silent [Chronicle] {w : Workshop} (h : w.trail.Silent) (owner near : BlockId) (stop : Int) :
    takeComments owner near stop w = .ok () { w with trail := { w.trail with last := stop } } := by
  unfold takeComments
  rw [bind_of_ok (get_apply w), bind_of_ok (get_apply w), newComments_silent h]
  rfl

end Build

end Transcriber
