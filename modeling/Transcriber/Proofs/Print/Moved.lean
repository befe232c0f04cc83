import Transcriber.Proofs.Print.Piece

/-!
# Moving expressions out of types

What becomes of a workshop while static expressions are moved to the end of a module: types lose
children, the module gets children, and there are new blocks.

* `Workshop.rearranged_moveAll`, `Workshop.moveAll_get`, `Workshop.moveAll_home`,
  `Workshop.moveAll_owner` — the blocks afterwards.
-/

namespace Transcriber

open Build List Workshop

namespace Workshop

/-- The workshop after an expression has been moved to the end of a module. -/
def moveOut (w : Workshop) (home : BlockId) (v : Move) : Workshop :=
  (w.edit v.owner fun b => { b with children := b.children.erase v.child }).adjoin (v.wrapper home)

/-- The workshop after expressions have been moved to the end of a module. -/
def moveAll (w : Workshop) (home : BlockId) (vs : List Move) : Workshop :=
  vs.foldl (fun w v => w.moveOut home v) w

variable {w : Workshop} {home : BlockId} {v : Move} {vs : List Move}

@[simp] theorem moveAll_nil : w.moveAll home [] = w := rfl

@[simp] theorem moveAll_cons : w.moveAll home (v :: vs) = (w.moveOut home v).moveAll home vs := rfl

theorem moveAll_append (us vs : List Move) :
    w.moveAll home (us ++ vs) = (w.moveAll home us).moveAll home vs :=
  foldl_append ..

@[simp] theorem moveOut_size : (w.moveOut home v).blocks.size = w.blocks.size + 1 := by
  simp [moveOut]

theorem moveOut_get_new (hhome : home < w.blocks.size) :
    (w.moveOut home v).blocks[w.blocks.size]? = some (v.wrapper home) := by
  have hnew := adjoin_get_new (w.edit v.owner fun b => { b with children := b.children.erase v.child })
    (v.wrapper home) (by simpa [Move.wrapper] using Nat.ne_of_lt hhome)
  rwa [edit_size] at hnew

theorem moveOut_get {j : BlockId} (hj : j < w.blocks.size) (hhome : j ≠ home) (howner : j ≠ v.owner) :
    (w.moveOut home v).blocks[j]? = w.blocks[j]? := by
  unfold moveOut
  rw [adjoin_get_of_ne _ _ (by simpa [Move.wrapper] using Ne.symm hhome) (by simpa using hj),
    edit_get_of_ne _ _ _ howner]

theorem moveOut_home {b : Block} (hb : w.blocks[home]? = some b) (howner : home ≠ v.owner) :
    (w.moveOut home v).blocks[home]? = some { b with children := b.children ++ [w.blocks.size] } := by
  have hlt : home < w.blocks.size := (Array.getElem?_eq_some_iff.1 hb).1
  unfold moveOut
  rw [adjoin_get_parent _ _ rfl (by simpa using hlt), edit_get_of_ne _ _ _ howner, hb, edit_size]
  rfl

theorem moveOut_owner {b : Block} (hb : w.blocks[v.owner]? = some b) (howner : home ≠ v.owner) :
    (w.moveOut home v).blocks[v.owner]? = some { b with children := b.children.erase v.child } := by
  have hlt : v.owner < w.blocks.size := (Array.getElem?_eq_some_iff.1 hb).1
  unfold moveOut
  rw [adjoin_get_of_ne _ _ (by simpa [Move.wrapper] using howner) (by simpa using hlt), edit_get_self, hb]
  rfl

/-! ## What is left of the types, what comes to the module -/

/-- What is moved is no method, and it is moved out of a type. -/
structure MovesFrom (w : Workshop) (v : Move) : Prop where
  owner : ∃ o, w.blocks[v.owner]? = some o ∧ o.isClass = true
  child : ∃ c, w.blocks[v.child]? = some c ∧ c.isMethod = false

def HasModule (w : Workshop) (home : BlockId) : Prop :=
  ∃ b, w.blocks[home]? = some b ∧ b.isModule = true

theorem HasModule.lt_size (h : w.HasModule home) : home < w.blocks.size := by
  obtain ⟨b, hb, -⟩ := h
  exact (Array.getElem?_eq_some_iff.1 hb).1

end Workshop

namespace Rearranged

variable {w0 w : Workshop} (h : Rearranged w0 w)

include h

theorem movesFrom {v : Move} (hv : w0.MovesFrom v) : w.MovesFrom v := by
  obtain ⟨⟨o, ho, hclass⟩, c, hc, hmethod⟩ := hv
  obtain ⟨children, ho', -⟩ := h.old ho
  obtain ⟨children', hc', -⟩ := h.old hc
  exact ⟨⟨_, ho', hclass⟩, _, hc', hmethod⟩

theorem hasModule {home : BlockId} (hhome : w0.HasModule home) : w.HasModule home := by
  obtain ⟨b, hb, hmodule⟩ := hhome
  obtain ⟨children, hb', -⟩ := h.old hb
  exact ⟨_, hb', hmodule⟩

end Rearranged

namespace Workshop

variable {w : Workshop} {home : BlockId} {v : Move} {vs : List Move}

theorem HasModule.ne_class (hhome : w.HasModule home) {id : BlockId} {o : Block} (ho : w.blocks[id]? = some o)
    (hclass : o.isClass = true) : home ≠ id := by
  rintro rfl
  obtain ⟨b, hb, hmodule⟩ := hhome
  obtain rfl := Option.some.inj (ho.symm.trans hb)
  cases hform : o.form <;> simp_all [Block.isClass, Block.isModule]

theorem MovesFrom.ne_home (hv : w.MovesFrom v) (hhome : w.HasModule home) : home ≠ v.owner := by
  obtain ⟨o, ho, hclass⟩ := hv.owner
  exact hhome.ne_class ho hclass

theorem rearranged_moveOut (hhome : w.HasModule home) (hv : w.MovesFrom v) :
    Rearranged w (w.moveOut home v) where
  config := rfl
  colored := rfl
  old := by
    intro i b hb
    obtain ⟨c, hc, hmethod⟩ := hv.child
    have hchild : ∀ name, w.isMethodNamed name v.child = false := by
      intro name
      simp [isMethodNamed, hc, hmethod]
    have hne := hv.ne_home hhome
    by_cases hi : i = home
    · subst hi
      obtain ⟨b', hb', hmodule⟩ := hhome
      obtain rfl := Option.some.inj (hb.symm.trans hb')
      refine ⟨_, moveOut_home hb hne, fun _ hnot => ?_, fun name => ?_⟩
      · rw [hmodule] at hnot
        cases hnot
      · have hnew : w.isMethodNamed name w.blocks.size = false := by
          simp [isMethodNamed]
        rw [filter_append, filter_cons_of_neg (by simp [hnew]), filter_nil, append_nil]
    · by_cases howner : i = v.owner
      · subst howner
        obtain ⟨o, ho, hclass⟩ := hv.owner
        obtain rfl := Option.some.inj (hb.symm.trans ho)
        refine ⟨_, moveOut_owner hb hne, fun hnot => ?_, fun name => ?_⟩
        · rw [hclass] at hnot
          cases hnot
        · rw [← erase_filter, erase_of_not_mem]
          simp [hchild name]
      · exact ⟨b.children, (moveOut_get (Array.getElem?_eq_some_iff.1 hb).1 hi howner).trans hb,
          fun _ _ => rfl, fun _ => rfl⟩
  new := by
    intro i b hnone hb
    have hlt := (Array.getElem?_eq_some_iff.1 hb).1
    rw [moveOut_size] at hlt
    have hge := Array.getElem?_eq_none_iff.1 hnone
    obtain rfl : i = w.blocks.size := Nat.le_antisymm (Nat.le_of_lt_succ hlt) hge
    rw [moveOut_get_new hhome.lt_size] at hb
    cases hb
    rfl

theorem rearranged_moveAll (hhome : w.HasModule home) (hvs : ∀ v ∈ vs, w.MovesFrom v) :
    Rearranged w (w.moveAll home vs) := by
  induction vs generalizing w with
  | nil => exact .refl w
  | cons v vs ih =>
    have hfirst := rearranged_moveOut hhome (hvs v (.head _))
    exact hfirst.trans (ih (hfirst.hasModule hhome) fun u hu => hfirst.movesFrom (hvs u (.tail _ hu)))

theorem moveAll_get {j : BlockId} (hj : j < w.blocks.size) (hhome : j ≠ home)
    (hvs : ∀ v ∈ vs, j ≠ v.owner) : (w.moveAll home vs).blocks[j]? = w.blocks[j]? := by
  induction vs generalizing w with
  | nil => rfl
  | cons v vs ih =>
    rw [moveAll_cons, ih (by rw [moveOut_size]; exact Nat.lt_succ_of_lt hj) fun u hu => hvs u (.tail _ hu)]
    exact moveOut_get hj hhome (hvs v (.head _))

theorem moveAll_home {b : Block} (hb : w.blocks[home]? = some b) (hvs : ∀ v ∈ vs, home ≠ v.owner) :
    (w.moveAll home vs).blocks[home]?
      = some { b with children := b.children ++ List.range' w.blocks.size vs.length } := by
  induction vs generalizing w b with
  | nil => simpa using hb
  | cons v vs ih =>
    rw [moveAll_cons, ih (moveOut_home hb (hvs v (.head _))) fun u hu => hvs u (.tail _ hu)]
    simp [List.range'_succ]

theorem moveAll_wrappers (hhome : home < w.blocks.size) (hvs : ∀ v ∈ vs, v.owner < w.blocks.size) :
    List.Forall₂ (fun j (v : Move) => (w.moveAll home vs).blocks[j]? = some (v.wrapper home))
      (List.range' w.blocks.size vs.length) vs := by
  induction vs generalizing w with
  | nil => exact .nil
  | cons v vs ih =>
    rw [length_cons, List.range'_succ, moveAll_cons]
    have hrest := ih (w := w.moveOut home v) (by rw [moveOut_size]; exact Nat.lt_succ_of_lt hhome)
      fun u hu => by
        rw [moveOut_size]
        exact Nat.lt_succ_of_lt (hvs u (.tail _ hu))
    rw [moveOut_size] at hrest
    refine .cons ?_ hrest
    rw [moveAll_get (by rw [moveOut_size]; exact Nat.lt_succ_self _) (Nat.ne_of_gt hhome)
      fun u hu => Nat.ne_of_gt (hvs u (.tail _ hu))]
    exact moveOut_get_new hhome

/-- A type loses the children that are moved out of it. -/
theorem moveAll_owner {owner : BlockId} {b : Block} (hb : w.blocks[owner]? = some b)
    (hne : home ≠ owner) (hvs : ∀ v ∈ vs, v.owner = owner) :
    (w.moveAll home vs).blocks[owner]? = some { b with children := b.children.diff (vs.map Move.child) } := by
  induction vs generalizing w b with
  | nil => simpa using hb
  | cons v vs ih =>
    obtain rfl := hvs v (.head _)
    rw [moveAll_cons, ih (moveOut_owner hb hne) fun u hu => hvs u (.tail _ hu), map_cons, diff_cons]

end Workshop

/-! ## The handler that moves expressions -/

theorem filterM_apply_of_ok {α β : Type} {w : Workshop} {k : α → β} {f : β → Build Bool} {g : α → Bool}
    {xs : List α} (h : ∀ x ∈ xs, f (k x) w = .ok (g x) w) :
    (xs.map k).filterM f w = .ok ((xs.filter g).map k) w := by
  have haux : ∀ acc, (xs.map k).filterAuxM f acc w = .ok (((xs.filter g).map k).reverse ++ acc) w := by
    induction xs with
    | nil => exact fun acc => rfl
    | cons x xs ih =>
      intro acc
      rw [map_cons, filterAuxM, bind_of_ok (h x (.head _)), ih fun y hy => h y (.tail _ hy)]
      cases hx : g x <;> simp [hx]
  unfold filterM
  rw [bind_of_ok (haux [])]
  change EStateM.Result.ok ((_ ++ []).reverse) w = _
  rw [append_nil, reverse_reverse]

theorem insertAt_length {α : Type} (xs : List α) (x : α) : insertAt xs xs.length x = xs ++ [x] := by
  simp [insertAt, Int.not_lt.2 (Int.natCast_nonneg _)]

namespace Handler

variable {w : Workshop} {home : BlockId}

theorem moveOne_apply (hhome : home < w.blocks.size) (v : Move) :
    (do change v.owner fun b => { b with children := b.children.erase v.child }
        let wrapped ← looseExpr { template := v.name ++ "." ++ Slot.right, right := .block v.child }
        adopt home wrapped (← block home).children.length) w = .ok () (w.moveOut home v) := by
  generalize hw1 : (w.edit v.owner fun b => { b with children := b.children.erase v.child }) = w1
  have hsize : home < w1.blocks.size := by rw [← hw1, edit_size]; exact hhome
  obtain ⟨b, hb⟩ : ∃ b, w1.blocks[home]? = some b := ⟨_, Array.getElem?_eq_getElem hsize⟩
  rw [bind_of_ok (change_apply w v.owner _), hw1, looseExpr, bind_of_ok (expr_apply w1 _ _),
    adjoin_eq_place _ _ rfl,
    bind_of_ok (block_apply _ home ((place_get_of_lt w1 _ hsize).trans hb))]
  rw [adopt_eq, bind_of_ok (change_apply _ _ _), change_apply]
  have hblocks : (((w1.place { v.wrapper home with parent := none }).edit home fun c =>
        { c with children := insertAt c.children b.children.length w1.blocks.size }).edit
          w1.blocks.size fun c => { c with parent := some home }).blocks
      = (w1.adjoin (v.wrapper home)).blocks := by
    -- Only the module and the last place are not as they were.
    refine Array.ext_getElem? fun j => ?_
    rcases Nat.lt_trichotomy j w1.blocks.size with hlt | rfl | hgt
    · rw [edit_get_of_ne _ _ _ (Nat.ne_of_lt hlt)]
      by_cases hj : j = home
      · subst hj
        rw [edit_get_self, place_get_of_lt _ _ hlt, adjoin_get_parent w1 _ rfl hlt, hb]
        exact congrArg (fun children => some { b with children }) (insertAt_length b.children _)
      · rw [edit_get_of_ne _ _ _ hj, place_get_of_lt _ _ hlt,
          adjoin_get_of_ne w1 _ (by simpa [Move.wrapper] using Ne.symm hj) hlt]
    · have hne : w1.blocks.size ≠ home := Nat.ne_of_gt hsize
      rw [edit_get_self, edit_get_of_ne _ _ _ hne, place_get_new,
        adjoin_get_new w1 _ (by simpa [Move.wrapper] using hne.symm)]
      rfl
    · rw [Array.getElem?_eq_none (by simpa using Nat.succ_le_of_lt hgt),
        Array.getElem?_eq_none (by simpa using Nat.succ_le_of_lt hgt)]
  unfold moveOut
  rw [hw1]
  exact congrArg (fun blocks => EStateM.Result.ok () { w1 with blocks }) hblocks

theorem moveEach_apply (hhome : home < w.blocks.size) {owner : BlockId} {name : String} {vs : List Move}
    (hvs : ∀ v ∈ vs, v.owner = owner ∧ v.name = name) :
    ((vs.map Move.child).forM fun child => do
      change owner fun b => { b with children := b.children.erase child }
      let wrapped ← looseExpr { template := name ++ "." ++ Slot.right, right := .block child }
      adopt home wrapped (← block home).children.length) w = .ok () (w.moveAll home vs) := by
  induction vs generalizing w with
  | nil => rfl
  | cons v vs ih =>
    obtain ⟨rfl, rfl⟩ := hvs v (.head _)
    rw [map_cons]
    exact (bind_of_ok (moveOne_apply hhome v)).trans (ih (by rw [moveOut_size]; exact Nat.lt_succ_of_lt hhome)
        fun u hu => hvs u (.tail _ hu))

/-- A piece is found in the workshop, and the text of an expression can be read. -/
def Reads (w : Workshop) (texts : Fill.Texts) (p : Piece) : Prop :=
  ∃ c, w.blocks[p.id]? = some c ∧ match p with
    | .line id _ text => c.isExpression = true ∧ texts.output id w = .ok text w
    | _ => c.isExpression = false

/-- The expressions that mention the name of a type are moved out of it. -/
theorem moveStaticsOf_of_asked {α : Type} {texts : Fill.Texts} {id : BlockId} {b : Block} {xs : List α}
    {k : α → BlockId} {move? : α → Option Move} (hb : w.blocks[id]? = some b) (hchildren : b.children = xs.map k)
    (hasked : ∀ x ∈ xs, (do
      if (← block (k x)).isExpression then
        return Value.occursIn (nameText b.name ++ ".").toList (← texts.output (k x)).toList
      else return false : Build Bool) w = .ok (move? x).isSome w)
    (hmove : ∀ x v, move? x = some v → v.child = k x ∧ v.owner = id ∧ v.name = nameText b.name)
    (hhome : w.enclosing? id (·.isModule) = some home) (hsize : home < w.blocks.size) :
    moveStaticsOf texts id w = .ok () (w.moveAll home (xs.filterMap move?)) := by
  have hmoved : (xs.filter fun x => (move? x).isSome).map k = (xs.filterMap move?).map Move.child := by
    clear hasked hchildren
    induction xs with
    | nil => rfl
    | cons x xs ih =>
      cases hx : move? x with
      | none => rw [filter_cons_of_neg (by simp [hx]), filterMap_cons_none hx, ih]
      | some v =>
        rw [filter_cons_of_pos (by simp [hx]), filterMap_cons_some hx, map_cons, map_cons, ih, (hmove x v hx).1]
  have hfound : Build.enclosing id (·.isModule) w = .ok home w := by
    unfold Build.enclosing
    rw [bind_of_ok (get_apply w), hhome]
    rfl
  unfold moveStaticsOf
  rw [bind_of_ok (block_apply w id hb), hchildren,
    bind_of_ok (filterM_apply_of_ok hasked), hmoved, bind_of_ok hfound]
  refine moveEach_apply hsize fun v hv => ?_
  obtain ⟨x, -, hx⟩ := mem_filterMap.1 hv
  exact (hmove x v hx).2

theorem moveStaticsOf_apply {texts : Fill.Texts} {id : BlockId} {b : Block} {members : List Piece}
    (hb : w.blocks[id]? = some b) (hchildren : b.children = members.map Piece.id)
    (hmembers : ∀ p ∈ members, Reads w texts p) (hhome : w.enclosing? id (·.isModule) = some home)
    (hsize : home < w.blocks.size) : moveStaticsOf texts id w
      = .ok () (w.moveAll home (members.filterMap (Piece.move? id (nameText b.name)))) := by
  refine moveStaticsOf_of_asked hb hchildren (fun p hp => ?_) (fun p v hv => ?_) hhome hsize
  · obtain ⟨c, hc, hread⟩ := hmembers p hp
    rw [bind_of_ok (block_apply w p.id hc)]
    cases p with
    | line i c' text =>
      obtain ⟨hexpr, htext⟩ := hread
      rw [if_pos hexpr, bind_of_ok (show texts.output (Piece.line i c' text).id w = .ok text w from htext)]
      change EStateM.Result.ok (Value.occursIn _ _) w = _
      rw [Piece.move?]
      split <;> simp_all
    | suite => rw [if_neg (by simp [hread])]; rfl
    | type => rw [if_neg (by simp [hread])]; rfl
  · obtain ⟨c, rfl, howner, hname⟩ := Piece.move?_eq_some hv
    exact ⟨rfl, howner, hname⟩

end Handler

end Transcriber
