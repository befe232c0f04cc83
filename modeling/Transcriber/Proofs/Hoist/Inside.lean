import Transcriber.Proofs.Hoist.Line
import Transcriber.Proofs.Statement.Method

/-!
# Expressions inside a method

An expression that stands in a statement knows the method around it, and can put lines before the
statement there.

* `Raised` — what an expression says after a visit, and the lines that the visit has put before it.
-/

namespace Transcriber

open Build Source Expression Workshop

/-! ## The method around a block -/

/-- The nearest enclosing method of a block. -/
def InMethod (w : Workshop) (id home : Nat) : Prop :=
  ∃ chain, Chain w id chain ∧ (chain.find? fun p => p.2.isMethod).map Prod.fst = some home

namespace InMethod

variable {J : Nat → Prop} {w w' : Workshop} {id home : Nat}

variable (h : InMethod w id home)
include h

theorem enclosing : Build.enclosing id (·.isMethod) w = .ok home w := by
  obtain ⟨chain, hchain, hfind⟩ := h
  unfold Build.enclosing
  rw [bind_of_ok (get_apply w), hchain.enclosing_eq, hfind]
  rfl

theorem frame (hw : Within J w w') : InMethod w' id home := by
  obtain ⟨chain, hchain, hfind⟩ := h
  have hlt := hchain.lt_size
  obtain ⟨chain', hchain', hmap⟩ := hchain.congr_numbered Block.parent_of_hollow
    fun j hj => hw.viewed j (by omega)
  -- Whether a block is a method can be told from what stays of it.
  have hview : ∀ chain : List (Nat × Block), (chain.find? fun p => p.2.isMethod).map Prod.fst
      = ((chain.map fun p => (p.1, p.2.hollow)).find? fun p => p.2.isMethod).map Prod.fst := by
    intro chain
    rw [List.find?_map, Option.map_map]
    simp only [Function.comp_def, Block.hollow_isMethod]
  refine ⟨chain', hchain', ?_⟩
  rw [hview, hmap, ← hview, hfind]

theorem method : ∃ b, w.blocks[home]? = some b ∧ b.isMethod = true := by
  obtain ⟨chain, hchain, hfind⟩ := h
  obtain ⟨p, hp, rfl⟩ := Option.map_eq_some_iff.1 hfind
  have hmethod := List.find?_some hp
  exact ⟨p.2, hchain.get_of_mem (List.mem_of_find?_eq_some hp), hmethod⟩

theorem lt_size : home < w.blocks.size := by
  obtain ⟨b, hb, -⟩ := h.method
  exact (Array.getElem?_eq_some_iff.1 hb).1

/-- An expression is no method. -/
theorem inside {n : Nat} {b : Block} {e : Expr} (hb : w.blocks[n]? = some b)
    (hform : b.form = .expression e) (hp : b.parent = some id) (hlt : id < n) : InMethod w n home := by
  obtain ⟨chain, hchain, hfind⟩ := h
  refine ⟨(n, b) :: chain, .inside hb hp hlt hchain, ?_⟩
  have hmethod : b.isMethod = false := by simp [Block.isMethod, hform]
  rw [List.find?_cons, hmethod]
  exact hfind

end InMethod

/-! ## Expressions in their method -/

/-- A block is an expression with given parts, inside a method. -/
structure Inside (w : Workshop) (id home : Nat) (s : Scope) (e : Expr) : Prop where
  holds : Holds w id s e
  inMethod : InMethod w id home

namespace Inside

variable {J : Nat → Prop} {w w' : Workshop} {id home : Nat} {s : Scope} {e : Expr}

variable (h : Inside w id home s e)
include h

theorem frame (hw : Within J w w') (hn : ¬ J id) : Inside w' id home s e :=
  ⟨h.holds.frame hw hn, h.inMethod.frame hw⟩

theorem ne : id ≠ home := by
  rintro rfl
  obtain ⟨b, hb, hform⟩ := h.holds.form
  obtain ⟨c, hc, hmethod⟩ := h.inMethod.method
  cases hb.symm.trans hc
  unfold Block.isMethod at hmethod
  rw [hform] at hmethod
  cases hmethod

/-- A new expression inside an expression. -/
theorem made (e' : Expr) (ht : e'.tail = "") :
    ∃ w', expr (some id) e' w = .ok w.blocks.size w' ∧ Within (· = id) w w'
      ∧ w'.blocks.size = w.blocks.size + 1 ∧ w'.madeUp = w.madeUp ∧ Inside w' id home s e
      ∧ Inside w' w.blocks.size home s e' := by
  have hlt := h.holds.lt_size
  obtain ⟨w', hrun, hwithin, hsize, hself, hnew⟩ := h.holds.made e' ht
  have hmethod := h.inMethod.frame hwithin
  have hget := adjoin_get_new w { form := .expression e', parent := some id }
    fun heq => absurd hlt (by cases heq; exact Nat.lt_irrefl _)
  cases (expr_apply w (some id) e').symm.trans hrun
  exact ⟨_, hrun, hwithin, hsize, rfl, ⟨hself, hmethod⟩, hnew, hmethod.inside hget rfl rfl hlt⟩

theorem changed (f : Expr → Expr) (ht : (f e).tail = "") :
    ∃ w', changeExpr id f w = .ok () w' ∧ Within (· = id) w w' ∧ w'.blocks.size = w.blocks.size
      ∧ w'.madeUp = w.madeUp ∧ Inside w' id home s (f e) := by
  obtain ⟨w', hrun, hwithin, hsize, hself⟩ := h.holds.changed f ht
  have hmethod := h.inMethod.frame hwithin
  cases (changeExpr_apply w id f).symm.trans hrun
  exact ⟨_, hrun, hwithin, hsize, rfl, hself, hmethod⟩

end Inside

/-! ## Lines before the last one -/

theorem insertAt_last {α : Type} (front : List α) (last x : α) :
    insertAt (front ++ [last]) (-1) x = front ++ [x] ++ [last] := by
  have hposition : max 0 (-1 + ((front ++ [last]).length : Int)) = front.length := by
    rw [List.length_append, List.length_singleton]
    omega
  unfold insertAt
  rw [if_pos (by decide), hposition]
  simp

/-- A new expression is put before the last child of a block. -/
theorem inserted {w : Workshop} {home last : Nat} {front : List Nat}
    (hchildren : w.childrenOf home = front ++ [last]) {template left right text : String}
    (htext : Slot.filled? template left right = some text) (hworded : Worded text) :
    ∃ w', (looseExpr { template, left := .text left, right := .text right }
        >>= fun k => adopt home k (-1)) w = .ok () w'
      ∧ Within (· = home) w w' ∧ w'.childrenOf home = front ++ [w.blocks.size] ++ [last]
      ∧ Laid w' w.blocks.size [w.blocks.size] [(0, text)] ∧ w'.madeUp = w.madeUp := by
  obtain ⟨b, hb, hbchildren⟩ : ∃ b, w.blocks[home]? = some b ∧ b.children = front ++ [last] := by
    unfold childrenOf at hchildren
    cases hb : w.blocks[home]? with
    | none => simp [hb] at hchildren
    | some b => exact ⟨b, rfl, by simpa [hb] using hchildren⟩
  have hlt : home < w.blocks.size := (Array.getElem?_eq_some_iff.1 hb).1
  have hne : home ≠ w.blocks.size := Nat.ne_of_lt hlt
  let e : Expr := { template, left := .text left, right := .text right }
  let new : Block := { form := .expression e, parent := none }
  let w' := ((w.adjoin new).edit home fun b =>
    { b with children := insertAt b.children (-1) w.blocks.size }).edit w.blocks.size
      fun b => { b with parent := some home }
  have hsize : w'.blocks.size = w.blocks.size + 1 := by
    rw [edit_size, edit_size, adjoin_size]
  have hold : ∀ j, j < w.blocks.size → j ≠ home → w'.blocks[j]? = w.blocks[j]? := by
    intro j hj hjhome
    rw [edit_get_of_ne _ _ _ (Nat.ne_of_lt hj), edit_get_of_ne _ _ _ hjhome,
      adjoin_get_of_ne w new (by simp [new]) hj]
  have hhome : w'.blocks[home]? = some { b with children := front ++ [w.blocks.size] ++ [last] } := by
    rw [edit_get_of_ne _ _ _ hne, edit_get_self,
      adjoin_get_of_ne w new (by simp [new]) hlt, hb, Option.map_some, hbchildren,
      insertAt_last]
  have hnew : w'.blocks[w.blocks.size]? = some { new with parent := some home } := by
    rw [edit_get_self, edit_get_of_ne _ _ _ hne.symm, adjoin_get_new w new (by simp [new])]
    rfl
  refine ⟨w', rfl, ⟨rfl, rfl, by omega, fun j hj => ?_, fun j hj hjhome => ?_⟩, ?_, ?_, rfl⟩
  · by_cases hjhome : j = home
    · rw [hjhome, hhome, hb]
      rfl
    · rw [hold j hj hjhome]
  · rw [hold j hj hjhome]
  · unfold childrenOf
    rw [hhome]
    rfl
  · refine .expression (Nat.le_refl _) (.block (Nat.le_refl _) hnew rfl rfl (spells_text left)
      (spells_text right)) ?_ hworded .nil
    exact (Doc.text_node rfl rfl).trans htext

/-! ## What a visit raises -/

/-- What an expression in a statement says after a visit, and the lines that the visit has put before
the statement. -/
structure Raised (w : Workshop) (id home : Nat) (s : Scope) (w' : Workshop) (deeds : List Deed)
    (text : String) (count : Nat) : Prop where
  within : Within (fun j => j = id ∨ j = home) w w'
  shows : ∃ sheet, Shows w' (w.blocks.size ≤ ·) id s sheet ∧ sheet.doc.text? = some text
  laid : ∀ front last, w.childrenOf home = front ++ [last] →
    ∃ ids, w'.childrenOf home = front ++ ids ++ [last]
      ∧ Laid w' w.blocks.size ids (flush (deeds.map Deed.text))
  count : w'.madeUp = count

end Transcriber
