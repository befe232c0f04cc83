import Transcriber.Proofs.Expression.Sheet
import Transcriber.Proofs.Outcome
import Transcriber.Proofs.Print.Standard
import Transcriber.Walk.Expression

/-!
# The craft of expressions

What the single pieces of work on expressions do to a calm workshop: which blocks they touch, and
what the expressions are afterwards.

* `Holds.changed` — other parts for an expression.
* `Calm.takeComments`, `Calm.finish`, `Holds.needShift` — work that changes no expression.
-/

namespace Transcriber

open Build Workshop

/-! ## New expressions and new parts -/

theorem within_adjoin (w : Workshop) (b : Block) : Within (fun j => b.parent = some j) w (w.adjoin b) where
  config := rfl
  tokens := rfl
  size := by
    rw [adjoin_size]
    omega
  viewed j hj := by
    by_cases hp : b.parent = some j
    · rw [adjoin_get_parent w b hp hj, Option.map_map]
      rfl
    · rw [adjoin_get_of_ne w b hp hj]
  kept j hj hp := by rw [adjoin_get_of_ne w b hp hj]

section

variable {w : Workshop} {id : Nat} {s : Scope} {e : Expr}

/-- A new expression inside a block. -/
theorem Calm.inside (hw : Calm w) (hs : InScope w id s) (e' : Expr) (ht : e'.tail = "") :
    Within (· = id) w (w.adjoin { form := .expression e', parent := some id })
      ∧ Holds (w.adjoin { form := .expression e', parent := some id }) w.blocks.size s e' := by
  have hlt := hs.lt_size
  have hwithin : Within (· = id) w (w.adjoin { form := .expression e', parent := some id }) :=
    (within_adjoin w _).mono fun j hj => by cases hj; rfl
  have hnew := adjoin_get_new w { form := .expression e', parent := some id } fun heq => by
    cases heq
    exact absurd hlt (Nat.lt_irrefl _)
  exact ⟨hwithin, hwithin.calm hw, InScope.of_inside hnew rfl rfl hlt (hwithin.inScope hs), ⟨_, hnew, rfl⟩, ht⟩

/-- A new expression inside an expression. -/
theorem Holds.made (h : Holds w id s e) (e' : Expr) (ht : e'.tail = "") :
    ∃ w', expr (some id) e' w = .ok w.blocks.size w' ∧ Within (· = id) w w'
      ∧ w'.blocks.size = w.blocks.size + 1 ∧ Holds w' id s e ∧ Holds w' w.blocks.size s e' := by
  obtain ⟨b, hb, hform⟩ := h.form
  obtain ⟨hwithin, hnew⟩ := h.calm.inside h.scope e' ht
  refine ⟨_, expr_apply w _ e', hwithin, adjoin_size w _, ⟨hnew.calm, hwithin.inScope h.scope, ?_, h.tail⟩, hnew⟩
  refine ⟨{ b with children := b.children ++ [w.blocks.size] }, ?_, hform⟩
  rw [adjoin_get_parent w _ rfl h.lt_size, hb]
  rfl

/-- A new expression that nothing encloses. -/
theorem Calm.made (hw : Calm w) (e' : Expr) (ht : e'.tail = "") :
    ∃ w', looseExpr e' w = .ok w.blocks.size w' ∧ Within (fun _ => False) w w'
      ∧ w'.blocks.size = w.blocks.size + 1 ∧ Holds w' w.blocks.size .loose e' := by
  have hwithin : Within (fun _ => False) w (w.adjoin { form := .expression e', parent := none }) :=
    (within_adjoin w _).mono fun j hj => by cases hj
  have hnew := adjoin_get_new w { form := .expression e', parent := none } (by simp)
  exact ⟨_, expr_apply w _ e', hwithin, adjoin_size w _,
    ⟨hwithin.calm hw, InScope.of_loose hnew rfl rfl, ⟨_, hnew, rfl⟩, ht⟩⟩

theorem Holds.changed (h : Holds w id s e) (f : Expr → Expr) (ht : (f e).tail = "") :
    ∃ w', changeExpr id f w = .ok () w' ∧ Within (· = id) w w'
      ∧ w'.blocks.size = w.blocks.size ∧ Holds w' id s (f e) := by
  obtain ⟨b, hb, hform⟩ := h.form
  have hself : (w.edit id fun b => { b with form := b.form.mapExpr f }).blocks[id]?
      = some { b with form := .expression (f e) } := by
    rw [edit_get_self, hb, Option.map_some, hform]
    rfl
  have hwithin : Within (· = id) w (w.edit id fun b => { b with form := b.form.mapExpr f }) := by
    refine ⟨rfl, rfl, Nat.le_of_eq (edit_size ..).symm, fun j _ => ?_,
      fun j _ hj => by rw [edit_get_of_ne _ _ _ hj]⟩
    by_cases hj : j = id
    · subst hj
      rw [hself, hb, Option.map_some, Option.map_some, Block.hollow, Block.hollow, hform]
      rfl
    · rw [edit_get_of_ne _ _ _ hj]
  exact ⟨_, changeExpr_apply w id f, hwithin, edit_size w _ _,
    ⟨hwithin.calm h.calm, hwithin.inScope h.scope, ⟨_, hself, rfl⟩, ht⟩⟩

/-- An expression says what its operands say. -/
theorem Holds.shows (h : Holds w id s e) {P : Nat → Prop} (hn : ¬ P id) {left right : Doc}
    (hleft : Spells w P e.left left) (hright : Spells w P e.right right) :
    Shows w P id s ⟨e.template, left, right⟩ :=
  ⟨hn, e, h, rfl, hleft, hright⟩

end

/-! ## Work that changes no expression -/

section

variable {w : Workshop} {id : Nat} {s : Scope} {e : Expr}

theorem Source.Choice.stride_nil {α : Type} (step stop : Int) (fuel : Nat) (at_ : Int) :
    stride ([] : List α) step stop fuel at_ = [] := by
  induction fuel generalizing at_ with
  | zero => rfl
  | succ fuel ih =>
    rw [stride, ih]
    simp

/-- Nothing has changed but the place among the tokens. -/
def Moved (w w' : Workshop) : Prop := ∃ trail, trail.tokens = w.trail.tokens ∧ w' = { w with trail }

namespace Moved

variable {w' w'' : Workshop}

theorem trans (h : Moved w w') (h' : Moved w' w'') : Moved w w'' := by
  obtain ⟨trail, htokens, rfl⟩ := h
  obtain ⟨trail', htokens', rfl⟩ := h'
  exact ⟨trail', htokens'.trans htokens, rfl⟩

theorem within (h : Moved w w') : Within (fun _ => False) w w' := by
  obtain ⟨trail, htokens, rfl⟩ := h
  exact ⟨rfl, htokens, Nat.le_refl _, fun _ _ => rfl, fun _ _ _ => rfl⟩

theorem size_eq (h : Moved w w') : w'.blocks.size = w.blocks.size := by
  obtain ⟨trail, -, rfl⟩ := h
  rfl

theorem madeUp_eq (h : Moved w w') : w'.madeUp = w.madeUp := by
  obtain ⟨trail, -, rfl⟩ := h
  rfl

end Moved

theorem Calm.takeComments_moved (hw : Calm w) (owner near : Nat) (stop : Int) :
    ∃ w', takeComments owner near stop w = .ok () w' ∧ Moved w w' := by
  refine ⟨{ w with trail := { w.trail with last := stop } }, ?_, { w.trail with last := stop }, rfl, rfl⟩
  have hnone : newComments w.trail stop = [] := by
    unfold newComments tokensBetween
    rw [hw.tokens]
    change List.filter _ (Source.Choice.stride [] _ _ _ _) = []
    rw [Source.Choice.stride_nil, List.filter_nil]
  unfold Build.takeComments
  rw [bind_of_ok (get_apply w), bind_of_ok (get_apply w), hnone]
  rfl

theorem Calm.takeComments (hw : Calm w) (owner near : Nat) (stop : Int) :
    ∃ w', takeComments owner near stop w = .ok () w' ∧ Within (fun _ => False) w w'
      ∧ w'.blocks.size = w.blocks.size := by
  obtain ⟨w', hrun, hmoved⟩ := hw.takeComments_moved owner near stop
  exact ⟨w', hrun, hmoved.within, hmoved.size_eq⟩

theorem within_report (w : Workshop) (level : Level) (message : String) :
    ∃ w', report level message w = .ok () w' ∧ Within (fun _ => False) w w'
      ∧ w'.blocks.size = w.blocks.size :=
  ⟨_, rfl, ⟨rfl, rfl, Nat.le_refl _, fun _ _ => rfl, fun _ _ _ => rfl⟩, rfl⟩

/-- The standard settings have no handlers that change a block after a visit. -/
theorem Calm.mutate (hw : Calm w) {b : Block} (hb : w.blocks[id]? = some b) : mutate id w = .ok () w :=
  mutate_standard hw.config hb

theorem Calm.finish_moved (hw : Calm w) (c : Source.Cursor) (hid : id < w.blocks.size) :
    ∃ w', finish id c w = .ok () w' ∧ Moved w w' := by
  obtain ⟨w1, hrun1, hmoved1⟩ := hw.takeComments_moved id id c.head.stop
  have hw1 := hmoved1.within.calm hw
  have hsize1 := hmoved1.size_eq
  unfold Build.finish
  rw [bind_of_ok hrun1]
  split
  · obtain ⟨w2, hrun2, hmoved2⟩ := hw1.takeComments_moved id id w1.trail.tokens.length
    have hw2 := hmoved2.within.calm hw1
    have hsize2 := hmoved2.size_eq
    refine ⟨w2, ?_, hmoved1.trans hmoved2⟩
    rw [bind_of_ok (get_apply w1), bind_of_ok hrun2]
    exact hw2.mutate (Array.getElem?_eq_getElem (by omega))
  · exact ⟨w1, hw1.mutate (Array.getElem?_eq_getElem (by omega)), hmoved1⟩

theorem Calm.finish (hw : Calm w) (c : Source.Cursor) (hid : id < w.blocks.size) :
    ∃ w', finish id c w = .ok () w' ∧ Within (fun _ => False) w w' := by
  obtain ⟨w', hrun, hmoved⟩ := hw.finish_moved c hid
  exact ⟨w', hrun, hmoved.within⟩

/-- A module that needs the unsigned shift. -/
def Block.shifting (b : Block) : Block :=
  { b with form := b.form.mapProgram fun p => { p with needsShift := true } }

theorem within_shifting (w : Workshop) (home : Nat) :
    Within (fun _ => False) w (w.edit home Block.shifting) := by
  have hkept : ∀ f : Block → Block, (∀ b, f b.shifting = f b) → ∀ j : Nat,
      (w.edit home Block.shifting).blocks[j]?.map f = w.blocks[j]?.map f := by
    intro f hf j
    rw [edit_get]
    split
    · rw [Option.map_map]
      exact congrArg (fun g => Option.map g _) (funext hf)
    · rfl
  refine ⟨rfl, rfl, Nat.le_of_eq (edit_size w home _).symm, fun j _ => hkept _ ?_ j,
    fun j _ _ => hkept _ ?_ j⟩
  · intro b
    unfold Block.hollow Block.shifting
    cases b.form <;> rfl
  · intro b
    unfold Block.settled Block.shifting
    cases b.form <;> rfl

/-- Only inside a module can note be taken of what it needs. -/
theorem Holds.needShift (h : Holds w id s e) :
    if s.homed then ∃ w', Expression.needShift id w = .ok () w' ∧ Within (fun _ => False) w w'
        ∧ w'.blocks.size = w.blocks.size
    else ∃ w', Expression.needShift id w = .error .notFound w' := by
  have hmodule := h.scope.enclosing_module
  cases hhomed : s.homed with
  | false =>
    rw [hhomed] at hmodule
    exact ⟨w, bind_of_error hmodule⟩
  | true =>
    rw [hhomed] at hmodule
    obtain ⟨home, b, hhome, -⟩ := hmodule
    exact ⟨_, bind_of_ok hhome, within_shifting w home, edit_size w home _⟩

end

end Transcriber
