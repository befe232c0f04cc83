import Mathlib.Data.List.Chain
import Mathlib.Data.List.Nodup
import Transcriber.Proofs.Store

/-!
# The blocks are a forest

Work on blocks is made of a few acts: a block is made, joins the children of its parent, is changed
without being moved, hung into another one, adopted as a child, or let go.  The blocks stay a forest
through all of them: children and parents know each other, no block is a child twice, and the way from a
block to its parent, the parent of that, and so on comes to an end.

* `Workshop.Grove.act` — one act keeps a grove.
* `Workshop.Grove.isForest` — a grove is a forest.
* `Acts.chronicled` — a chronicle of acts is a chronicle of groves.
-/

namespace Transcriber

open Build Relation List

namespace Workshop

def parentOf (w : Workshop) (id : BlockId) : Option BlockId := w.blocks[id]?.bind (·.parent)

/-- The workshop with a block as the last child of another one. -/
def joined (w : Workshop) (child parent : BlockId) : Workshop :=
  w.edit parent fun b => { b with children := b.children ++ [child] }

/-- The workshop with a block that knows a parent without being its child. -/
def hung (w : Workshop) (child parent : BlockId) : Workshop :=
  w.edit child fun b => { b with parent := some parent }

def adopted (w : Workshop) (home child : BlockId) (position : Int) : Workshop :=
  (w.edit home fun b => { b with children := insertAt b.children position child }).hung child home

def released (w : Workshop) (id child : BlockId) : Workshop :=
  w.edit id fun b => { b with children := b.children.erase child }

/-- The blocks are a forest. -/
structure IsForest (w : Workshop) : Prop where
  /-- A child knows its parent. -/
  linked : ∀ (p : BlockId) (b : Block), w.blocks[p]? = some b → ∀ x ∈ b.children,
    ∃ c : Block, w.blocks[x]? = some c ∧ c.parent = some p
  /-- No block occurs twice among all lists of children. -/
  once : (w.blocks.toList.flatMap (·.children)).Nodup
  /-- Going from parent to parent comes to an end. -/
  ends : ∀ id, ∃ n, (fun above => above.bind w.parentOf)^[n] (some id) = none

/-- The blocks are a forest in which every block is younger than its parent. -/
structure Grove (w : Workshop) : Prop where
  upward : ∀ x p, w.parentOf x = some p → p < x
  linked : ∀ p, ∀ x ∈ w.childrenOf p, w.parentOf x = some p
  once : ∀ p, (w.childrenOf p).Nodup

end Workshop

/-- An act on blocks, which is remembered if a chronicle is kept. -/
inductive Act [Chronicle] : Workshop → Workshop → Prop
  /-- A block is made.  It may know a parent, but is not yet its child. -/
  | make (w : Workshop) (b : Block) (hparent : ∀ p, b.parent = some p → p < w.blocks.size)
      (hchildren : b.children = []) : Act w (w.place b).remember
  /-- A block joins the children of its parent. -/
  | join (w : Workshop) (child parent : BlockId) (hparent : w.parentOf child = some parent)
      (hnew : child ∉ w.childrenOf parent) : Act w (w.joined child parent).remember
  /-- A block is changed, and stays where it is. -/
  | amend (w : Workshop) (id : BlockId) (f : Block → Block)
      (hparent : ∀ b, (f b).parent = b.parent) (hchildren : ∀ b, (f b).children = b.children) :
      Act w (w.edit id f).remember
  /-- A loose block gets to know a parent without becoming its child. -/
  | hang (w : Workshop) (child parent : BlockId) (hloose : w.parentOf child = none) (hlt : parent < child) :
      Act w (w.hung child parent).remember
  /-- A loose block becomes a child of another one. -/
  | adopt (w : Workshop) (home child : BlockId) (position : Int) (hloose : w.parentOf child = none)
      (hlt : home < child) (hsize : child < w.blocks.size) : Act w (w.adopted home child position).remember
  /-- A child is let go. -/
  | release (w : Workshop) (id child : BlockId) : Act w (w.released id child).remember
  /-- Something is done that is not about blocks. -/
  | aside (w w' : Workshop) (h : w'.blocks = w.blocks) (hmoments : w'.moments = w.moments) : Act w w'

/-! ## Parents and children after an act -/

theorem insertAt_perm {α : Type} (xs : List α) (position : Int) (x : α) :
    (insertAt xs position x).Perm (x :: xs) := by
  unfold insertAt
  refine perm_middle.trans (List.Perm.cons x ?_)
  rw [take_append_drop]

namespace Workshop

section

variable (w : Workshop) (id : BlockId) (f : Block → Block) (b : Block) (j : BlockId)

theorem parentOf_eq_none_of_le (h : w.blocks.size ≤ j) : w.parentOf j = none := by
  rw [parentOf, Array.getElem?_eq_none h]
  rfl

theorem childrenOf_eq_nil_of_le (h : w.blocks.size ≤ j) : w.childrenOf j = [] := by
  rw [childrenOf, Array.getElem?_eq_none h]
  rfl

theorem parentOf_edit (hf : ∀ b, (f b).parent = b.parent) : (w.edit id f).parentOf j = w.parentOf j := by
  rw [parentOf, parentOf, edit_get]
  split
  · cases w.blocks[j]? with
    | none => rfl
    | some b => exact hf b
  · rfl

theorem childrenOf_edit (hf : ∀ b, (f b).children = b.children) :
    (w.edit id f).childrenOf j = w.childrenOf j := by
  rw [childrenOf, childrenOf, edit_get]
  split
  · cases w.blocks[j]? with
    | none => rfl
    | some b => exact hf b
  · rfl

theorem parentOf_edit_of_ne (h : j ≠ id) : (w.edit id f).parentOf j = w.parentOf j := by
  rw [parentOf, parentOf, edit_get_of_ne w id f h]

theorem childrenOf_hung (child parent : BlockId) : (w.hung child parent).childrenOf j = w.childrenOf j :=
  childrenOf_edit w child _ j fun _ => rfl

variable {j} in
theorem parentOf_hung_of_ne (child parent : BlockId) (h : j ≠ child) :
    (w.hung child parent).parentOf j = w.parentOf j :=
  parentOf_edit_of_ne w child _ j h

theorem parentOf_hung_self {child : BlockId} (parent : BlockId) (h : child < w.blocks.size) :
    (w.hung child parent).parentOf child = some parent := by
  rw [parentOf, hung, edit_get_self, Array.getElem?_eq_getElem h]
  rfl

variable {w} in
theorem parent_of_parentOf_hung {child parent p : BlockId}
    (h : (w.hung child parent).parentOf child = some p) : parent = p := by
  rw [parentOf, hung, edit_get_self] at h
  cases hb : w.blocks[child]? with
  | none => simp [hb] at h
  | some b => simpa [hb] using h

theorem mem_childrenOf_edit {g : List BlockId → List BlockId}
    (hf : ∀ b, (f b).children = g b.children) {x : BlockId}
    (hx : x ∈ (w.edit id f).childrenOf j) :
    x ∈ w.childrenOf j ∨ j = id ∧ x ∈ g (w.childrenOf j) := by
  rw [childrenOf, edit_get] at hx
  split at hx
  next heq =>
    refine .inr ⟨heq.symm, ?_⟩
    rw [childrenOf]
    cases hb : w.blocks[j]? with
    | none => simp [hb] at hx
    | some b => simpa [hb, hf] using hx
  next => exact .inl hx

theorem nodup_childrenOf_edit {g : List BlockId → List BlockId}
    (hf : ∀ b, (f b).children = g b.children) (h : (w.childrenOf j).Nodup)
    (hg : j = id → (g (w.childrenOf j)).Nodup) : ((w.edit id f).childrenOf j).Nodup := by
  rw [childrenOf, edit_get]
  split
  next heq =>
    have hnodup := hg heq.symm
    rw [childrenOf] at hnodup
    cases hb : w.blocks[j]? with
    | none => exact nodup_nil
    | some b => simpa [hb, hf] using hnodup
  next => exact h

variable {b}

theorem parentOf_place : (w.place b).parentOf j = if j = w.blocks.size then b.parent else w.parentOf j := by
  rw [parentOf, place, Array.getElem?_push]
  split
  · rfl
  · rfl

theorem childrenOf_place (hchildren : b.children = []) : (w.place b).childrenOf j = w.childrenOf j := by
  rw [childrenOf, place, Array.getElem?_push]
  split
  next heq => rw [heq, childrenOf_eq_nil_of_le _ _ (Nat.le_refl _)]; exact hchildren
  next => rfl

end

/-! ## Groves -/

namespace Grove

variable {w : Workshop} (h : w.Grove)
include h

theorem not_mem_childrenOf {x : BlockId} (hloose : w.parentOf x = none) (p : BlockId) :
    x ∉ w.childrenOf p := by
  intro hx
  rw [h.linked p x hx] at hloose
  cases hloose

theorem make {b : Block} (hparent : ∀ p, b.parent = some p → p < w.blocks.size)
    (hchildren : b.children = []) : (w.place b).Grove := by
  have hnew : w.parentOf w.blocks.size = none := parentOf_eq_none_of_le _ _ (Nat.le_refl _)
  refine ⟨fun x p hx => ?_, fun p x hx => ?_, fun p => ?_⟩
  · rw [parentOf_place] at hx
    split at hx
    next heq => exact heq ▸ hparent p hx
    next => exact h.upward x p hx
  · rw [childrenOf_place w p hchildren] at hx
    have hne : x ≠ w.blocks.size := by
      rintro rfl
      exact h.not_mem_childrenOf hnew p hx
    rw [parentOf_place, if_neg hne]
    exact h.linked p x hx
  · rw [childrenOf_place w p hchildren]
    exact h.once p

theorem join {child parent : BlockId} (hparent : w.parentOf child = some parent)
    (hnew : child ∉ w.childrenOf parent) : (w.joined child parent).Grove := by
  have hparents : ∀ x, (w.joined child parent).parentOf x = w.parentOf x :=
    fun x => parentOf_edit w parent _ x fun _ => rfl
  refine ⟨fun x p hx => h.upward x p (hparents x ▸ hx), fun p x hx => ?_, fun p => ?_⟩
  · rw [hparents]
    rcases mem_childrenOf_edit (g := fun xs => xs ++ [child]) w parent _ p (fun _ => rfl) hx
      with hkept | ⟨rfl, hjoined⟩
    · exact h.linked p x hkept
    · rcases mem_append.1 hjoined with hkept | hlast
      · exact h.linked _ x hkept
      · rw [mem_singleton.1 hlast]
        exact hparent
  · refine nodup_childrenOf_edit (g := fun xs => xs ++ [child]) w parent _ p (fun _ => rfl) (h.once p) ?_
    rintro rfl
    rw [← concat_eq_append, nodup_concat]
    exact ⟨hnew, h.once _⟩

theorem amend (id : BlockId) {f : Block → Block} (hparent : ∀ b, (f b).parent = b.parent)
    (hchildren : ∀ b, (f b).children = b.children) : (w.edit id f).Grove := by
  refine ⟨fun x p hx => ?_, fun p x hx => ?_, fun p => ?_⟩
  · rw [parentOf_edit w id f x hparent] at hx
    exact h.upward x p hx
  · rw [childrenOf_edit w id f p hchildren] at hx
    rw [parentOf_edit w id f x hparent]
    exact h.linked p x hx
  · rw [childrenOf_edit w id f p hchildren]
    exact h.once p

theorem hang {child parent : BlockId} (hloose : w.parentOf child = none) (hlt : parent < child) :
    (w.hung child parent).Grove := by
  refine ⟨fun x p hx => ?_, fun p x hx => ?_, fun p => ?_⟩
  · by_cases hchild : x = child
    · subst hchild
      exact parent_of_parentOf_hung hx ▸ hlt
    · rw [parentOf_hung_of_ne w child parent hchild] at hx
      exact h.upward x p hx
  · rw [childrenOf_hung] at hx
    have hne : x ≠ child := by
      rintro rfl
      exact h.not_mem_childrenOf hloose p hx
    rw [parentOf_hung_of_ne w child parent hne]
    exact h.linked p x hx
  · rw [childrenOf_hung]
    exact h.once p

theorem adopt {home child : BlockId} (position : Int) (hloose : w.parentOf child = none)
    (hlt : home < child) (hsize : child < w.blocks.size) :
    (w.adopted home child position).Grove := by
  have hparents : ∀ x, (w.edit home fun b =>
      { b with children := insertAt b.children position child }).parentOf x = w.parentOf x :=
    fun x => parentOf_edit w home _ x fun _ => rfl
  have hkept : ∀ x, x ≠ child → (w.adopted home child position).parentOf x = w.parentOf x :=
    fun x hx => (parentOf_hung_of_ne _ child home hx).trans (hparents x)
  have hold : ∀ p x, x ∈ w.childrenOf p → (w.adopted home child position).parentOf x = some p := by
    intro p x hmem
    have hne : x ≠ child := by
      rintro rfl
      exact h.not_mem_childrenOf hloose p hmem
    rw [hkept x hne]
    exact h.linked p x hmem
  refine ⟨fun x p hx => ?_, fun p x hx => ?_, fun p => ?_⟩
  · by_cases hchild : x = child
    · subst hchild
      exact parent_of_parentOf_hung hx ▸ hlt
    · rw [hkept x hchild] at hx
      exact h.upward x p hx
  · rw [adopted, childrenOf_hung] at hx
    rcases mem_childrenOf_edit (g := fun xs => insertAt xs position child) w home _ p (fun _ => rfl) hx
      with hkept | ⟨rfl, hinserted⟩
    · exact hold p x hkept
    · rcases mem_cons.1 ((insertAt_perm _ _ _).mem_iff.1 hinserted) with rfl | hkept
      · exact parentOf_hung_self _ _ (by rw [edit_size]; exact hsize)
      · exact hold p x hkept
  · rw [adopted, childrenOf_hung]
    refine nodup_childrenOf_edit (g := fun xs => insertAt xs position child) w home _ p
      (fun _ => rfl) (h.once p) fun _ => ?_
    rw [(insertAt_perm _ _ _).nodup_iff, nodup_cons]
    exact ⟨h.not_mem_childrenOf hloose p, h.once p⟩

theorem release (id child : BlockId) : (w.released id child).Grove := by
  have hparents : ∀ x, (w.released id child).parentOf x = w.parentOf x :=
    fun x => parentOf_edit w id _ x fun _ => rfl
  refine ⟨fun x p hx => h.upward x p (hparents x ▸ hx), fun p x hx => ?_, fun p => ?_⟩
  · rw [hparents]
    rcases mem_childrenOf_edit (g := fun xs => xs.erase child) w id _ p (fun _ => rfl) hx with hx | ⟨-, hx⟩
    · exact h.linked p x hx
    · exact h.linked p x (mem_of_mem_erase hx)
  · exact nodup_childrenOf_edit (g := fun xs => xs.erase child) w id _ p (fun _ => rfl) (h.once p)
      fun _ => (h.once p).erase child

/-- Nothing but the blocks matters. -/
theorem of_blocks {w' : Workshop} (hblocks : w'.blocks = w.blocks) : w'.Grove := by
  have hparents : ∀ x, w'.parentOf x = w.parentOf x := fun x => by
    rw [parentOf, parentOf, hblocks]
  have hchildren : ∀ p, w'.childrenOf p = w.childrenOf p := fun p => by
    rw [childrenOf, childrenOf, hblocks]
  refine ⟨fun x p hx => h.upward x p (hparents x ▸ hx), fun p x hx => ?_, fun p => ?_⟩
  · rw [hparents]
    exact h.linked p x (hchildren p ▸ hx)
  · rw [hchildren]
    exact h.once p

theorem act [Chronicle] {w' : Workshop} (hact : Act w w') : w'.Grove := by
  cases hact with
  | make b hparent hchildren => exact (h.make hparent hchildren).of_blocks rfl
  | join child parent hparent hnew => exact (h.join hparent hnew).of_blocks rfl
  | amend id f hparent hchildren => exact (h.amend id hparent hchildren).of_blocks rfl
  | hang child parent hloose hlt => exact (h.hang hloose hlt).of_blocks rfl
  | adopt home child position hloose hlt hsize => exact (h.adopt position hloose hlt hsize).of_blocks rfl
  | release id child => exact (h.release id child).of_blocks rfl
  | aside _ hblocks => exact h.of_blocks hblocks

/-- The way up ends, since it leads to ever older blocks. -/
theorem exists_end (id : BlockId) : ∃ n, (fun above => above.bind w.parentOf)^[n] (some id) = none := by
  induction id using Nat.strongRecOn with
  | _ id ih =>
    cases hp : w.parentOf id with
    | none => exact ⟨1, hp⟩
    | some p =>
      obtain ⟨n, hn⟩ := ih p (h.upward id p hp)
      refine ⟨n + 1, ?_⟩
      rw [Function.iterate_succ_apply, Option.bind_some, hp]
      exact hn

theorem isForest : w.IsForest := by
  have hmem : ∀ p b, w.blocks[p]? = some b → w.childrenOf p = b.children := fun p b hb => by
    rw [childrenOf, hb]
    rfl
  refine ⟨fun p b hb x hx => ?_, ?_, h.exists_end⟩
  · exact Option.bind_eq_some_iff.1 (h.linked p x (hmem p b hb ▸ hx))
  · rw [nodup_flatMap]
    refine ⟨fun b hb => ?_, ?_⟩
    · obtain ⟨p, hp⟩ := mem_iff_getElem?.1 hb
      rw [Array.getElem?_toList] at hp
      exact hmem p b hp ▸ h.once p
    · -- A child of two blocks would have two parents.
      rw [pairwise_iff_getElem]
      intro p q hp hq hpq x hxp hxq
      have hbp : w.blocks[p]? = some w.blocks.toList[p] := by
        rw [← Array.getElem?_toList, getElem?_eq_getElem hp]
      have hbq : w.blocks[q]? = some w.blocks.toList[q] := by
        rw [← Array.getElem?_toList, getElem?_eq_getElem hq]
      have hparent := h.linked p x (hmem p _ hbp ▸ hxp)
      rw [h.linked q x (hmem q _ hbq ▸ hxq)] at hparent
      exact Nat.ne_of_gt hpq (Option.some.inj hparent)

end Grove

end Workshop

/-! ## Sequences of acts -/

section

variable [Chronicle] {w w' : Workshop}

theorem Act.size_le (h : Act w w') : w.blocks.size ≤ w'.blocks.size := by
  have hedit (id : BlockId) (f : Block → Block) : w.blocks.size ≤ (w.edit id f).blocks.size :=
    Nat.le_of_eq (Workshop.edit_size w id f).symm
  cases h with
  | make b => exact Nat.le_trans (Nat.le_succ _) (Nat.le_of_eq (Workshop.place_size w b).symm)
  | join child parent => exact hedit _ _
  | amend id f => exact hedit _ _
  | hang child parent => exact hedit _ _
  | adopt home child position =>
    exact Nat.le_trans (hedit _ _) (Nat.le_of_eq (Workshop.edit_size _ _ _).symm)
  | release id child => exact hedit _ _
  | aside _ h => rw [h]

/-- Sequences of acts on blocks. -/
abbrev Acts : Workshop → Workshop → Prop := ReflTransGen Act

theorem Acts.size_le (h : Acts w w') : w.blocks.size ≤ w'.blocks.size := by
  induction h with
  | refl => exact Nat.le_refl _
  | tail _ hact ih => exact Nat.le_trans ih hact.size_le

theorem Acts.grove (h : Acts w w') (hw : w.Grove) : w'.Grove := by
  induction h with
  | refl => exact hw
  | tail _ hact ih => exact ih.act hact

/-- The blocks of one moment come from those of another by one act. -/
def Advances (later earlier : Array Block) : Prop :=
  ∃ v v' : Workshop, v.blocks = earlier ∧ v'.blocks = later ∧ Act v v'

/-- What a chronicle holds: moments at which the blocks were a grove, one act apart, up to the blocks as
they are. -/
structure Workshop.Chronicled (w : Workshop) : Prop where
  groves : ∀ v : Workshop, v.blocks ∈ w.moments → v.Grove
  chain : w.moments.IsChain Advances
  last : Chronicle.kept = true → w.moments.head? = some w.blocks

theorem Act.chronicled (h : Act w w') (hgrove : w.Grove) (hw : w.Chronicled) : w'.Chronicled := by
  have hgrove' := hgrove.act h
  -- All acts but the last sort are remembered.
  have hnew (hmoments : w'.moments = bif Chronicle.kept then w'.blocks :: w.moments else w.moments) :
      w'.Chronicled := by
    cases hkept : (Chronicle.kept : Bool) with
    | false =>
      rw [hkept, cond_false] at hmoments
      exact ⟨fun v hv => hw.groves v (hmoments ▸ hv), hmoments ▸ hw.chain, fun h => by simp [hkept] at h⟩
    | true =>
      rw [hkept, cond_true] at hmoments
      refine ⟨fun v hv => ?_, ?_, fun _ => by rw [hmoments]; rfl⟩
      · rcases mem_cons.1 (hmoments ▸ hv) with hv | hv
        · exact hgrove'.of_blocks hv
        · exact hw.groves v hv
      · rw [hmoments]
        refine isChain_cons.2 ⟨fun blocks hblocks => ⟨w, w', ?_, rfl, h⟩, hw.chain⟩
        exact Option.some.inj ((hw.last hkept).symm.trans hblocks)
  cases h with
  | aside _ hblocks hmoments =>
    exact ⟨fun v hv => hw.groves v (hmoments ▸ hv), hmoments ▸ hw.chain,
      fun hkept => by rw [hmoments, hblocks]; exact hw.last hkept⟩
  | make b => exact hnew rfl
  | join child parent => exact hnew rfl
  | amend id f => exact hnew rfl
  | hang child parent => exact hnew rfl
  | adopt home child position => exact hnew rfl
  | release id child => exact hnew rfl

theorem Acts.chronicled (h : Acts w w') (hgrove : w.Grove) (hw : w.Chronicled) : w'.Chronicled := by
  induction h with
  | refl => exact hw
  | tail hacts hact ih => exact hact.chronicled (Acts.grove hacts hgrove) ih

end

end Transcriber
