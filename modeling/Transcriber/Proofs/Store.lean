import Transcriber.Proofs.Work

/-!
# Blocks in the store

What the ways to make and change blocks do to the store of a workshop.  Two pure operations are
enough to say it: a block is changed in place, or a block is put at the end and, if it has a parent,
noted there as the last child.

* `Workshop.edit`, `Workshop.adjoin` — the two operations.
* `Build.create_apply`, `Build.statement_apply`, … — the ways to work on blocks in terms of them.
-/

namespace Transcriber

open Array

/-- The sorts of blocks that take statements. -/
def Form.isSuite : Form → Bool
  | .method => true
  | .content => true
  | .statement _ _ => true
  | _ => false

theorem Block.sort_of_isSuite {b : Block} (h : b.form.isSuite = true) :
    b.isExpression = false ∧ b.isModule = false ∧ b.isClass = false := by
  unfold Block.isExpression Block.isModule Block.isClass
  cases hform : b.form <;> simp_all [Form.isSuite, Form.expr?]

namespace Workshop

def childrenOf (w : Workshop) (id : Nat) : List Nat :=
  (w.blocks[id]?.map Block.children).getD []

def edit (w : Workshop) (id : BlockId) (f : Block → Block) : Workshop :=
  { w with blocks := w.blocks.modify id f }

/-- The workshop with a new block, which is the last child of its parent if it has one. -/
def adjoin (w : Workshop) (b : Block) : Workshop :=
  { w with
    blocks := match b.parent with
      | some parent =>
        (w.blocks.push b).modify parent fun p => { p with children := p.children ++ [w.blocks.size] }
      | none => w.blocks.push b }

/-- The workshop with a new block that is nobody's child, even if it knows a parent. -/
def place (w : Workshop) (b : Block) : Workshop := { w with blocks := w.blocks.push b }

section

variable (w : Workshop) (id : BlockId) (f : Block → Block) (b : Block)

@[simp] theorem edit_size : (w.edit id f).blocks.size = w.blocks.size := by
  simp [edit]

@[simp] theorem adjoin_size : (w.adjoin b).blocks.size = w.blocks.size + 1 := by
  unfold adjoin
  cases b.parent <;> simp

@[simp] theorem place_size : (w.place b).blocks.size = w.blocks.size + 1 := by
  simp [place]

theorem edit_get (j : BlockId) :
    (w.edit id f).blocks[j]? = if id = j then w.blocks[j]?.map f else w.blocks[j]? := by
  simp only [edit]
  exact getElem?_modify

@[simp] theorem edit_get_self : (w.edit id f).blocks[id]? = w.blocks[id]?.map f := by
  rw [edit_get, if_pos rfl]

variable {j : BlockId}

theorem edit_get_of_ne (h : j ≠ id) : (w.edit id f).blocks[j]? = w.blocks[j]? := by
  rw [edit_get, if_neg h.symm]

/-- The new block stands at the end, just as it was made, unless it is its own parent. -/
theorem adjoin_get_new (h : b.parent ≠ some w.blocks.size) :
    (w.adjoin b).blocks[w.blocks.size]? = some b := by
  unfold adjoin
  cases hp : b.parent with
  | none => simp
  | some parent =>
    have hne : parent ≠ w.blocks.size := by
      rintro rfl
      exact h hp
    rw [getElem?_modify, if_neg hne, getElem?_push_size]

theorem adjoin_get_parent {parent : BlockId} (hp : b.parent = some parent) (h : parent < w.blocks.size) :
    (w.adjoin b).blocks[parent]?
      = w.blocks[parent]?.map fun p => { p with children := p.children ++ [w.blocks.size] } := by
  unfold adjoin
  rw [hp]
  simp only [getElem?_modify, if_pos]
  rw [getElem?_push_lt h, getElem?_eq_getElem h]

theorem adjoin_get_of_ne (hp : b.parent ≠ some j) (h : j < w.blocks.size) :
    (w.adjoin b).blocks[j]? = w.blocks[j]? := by
  unfold adjoin
  cases hb : b.parent with
  | none => simp [getElem?_push, Nat.ne_of_lt h]
  | some parent =>
    have hne : parent ≠ j := by
      rintro rfl
      exact hp hb
    simp [getElem?_modify, hne, getElem?_push, Nat.ne_of_lt h]

@[simp] theorem place_get_new : (w.place b).blocks[w.blocks.size]? = some b :=
  getElem?_push_size

theorem place_get_of_lt (h : j < w.blocks.size) : (w.place b).blocks[j]? = w.blocks[j]? := by
  simp [place, getElem?_push, Nat.ne_of_lt h]

/-- What is done to a block that was just made is as if it had been made so. -/
theorem edit_adjoin_new (h : b.parent ≠ some w.blocks.size) (hf : (f b).parent = b.parent) :
    (w.adjoin b).edit w.blocks.size f = w.adjoin (f b) := by
  have hblocks : ((w.adjoin b).edit w.blocks.size f).blocks = (w.adjoin (f b)).blocks := by
    refine ext_getElem? fun j => ?_
    rcases Nat.lt_trichotomy j w.blocks.size with hlt | rfl | hgt
    · rw [edit_get_of_ne _ _ _ (Nat.ne_of_lt hlt)]
      by_cases hp : b.parent = some j
      · rw [adjoin_get_parent w b hp hlt, adjoin_get_parent w (f b) (hf.trans hp) hlt]
      · rw [adjoin_get_of_ne w b hp hlt, adjoin_get_of_ne w (f b) (by rw [hf]; exact hp) hlt]
    · rw [edit_get_self, adjoin_get_new w b h, adjoin_get_new w (f b) (by rw [hf]; exact h)]
      rfl
    · rw [getElem?_eq_none (by rw [edit_size, adjoin_size]; omega),
        getElem?_eq_none (by rw [adjoin_size]; omega)]
  exact congrArg (fun blocks => { w with blocks }) hblocks

/-- A block without a parent is nobody's child. -/
theorem adjoin_eq_place (h : b.parent = none) : w.adjoin b = w.place b := by
  unfold adjoin place
  rw [h]

end

end Workshop

namespace Build

variable (w : Workshop) (id : BlockId)

theorem block_apply {b : Block} (h : w.blocks[id]? = some b) : block id w = .ok b w := by
  change demand w.blocks[id]? w = _
  rw [h]
  rfl

theorem change_apply (f : Block → Block) : change id f w = .ok () (w.edit id f) := rfl

/-- What an adoption does to two blocks is done to one after the other. -/
theorem adopt_eq (child : BlockId) (position : Int) : adopt id child position = (do
    change id fun b => { b with children := insertAt b.children position child }
    change child fun b => { b with parent := some id }) := rfl

theorem changeExpr_apply (f : Expr → Expr) :
    changeExpr id f w = .ok () (w.edit id fun b => { b with form := b.form.mapExpr f }) := rfl

theorem create_apply (b : Block) : create b w = .ok w.blocks.size (w.adjoin b) := by
  unfold create Workshop.adjoin
  cases hp : b.parent with
  | none => rfl
  | some parent => rfl

theorem expr_apply (parent : Option BlockId) (e : Expr) :
    expr parent e w = .ok w.blocks.size (w.adjoin { form := .expression e, parent }) :=
  create_apply w _

/-- A statement is made, its opening line is made and gets to know the statement, and the statement
gets to know the line. -/
theorem statement_steps (parent : Option BlockId) (keyword template : String) :
    statement parent keyword template w = .ok w.blocks.size
      ((((w.adjoin { form := .statement keyword 0, parent }).adjoin
          { form := .expression { left := .text keyword, template } }).edit (w.blocks.size + 1)
            fun b => { b with parent := some w.blocks.size }).edit w.blocks.size
              fun b => { b with form := .statement keyword (w.blocks.size + 1) }) := by
  unfold statement
  rw [bind_of_ok (create_apply w _), looseExpr, bind_of_ok (expr_apply _ _ _)]
  simp only [Workshop.adjoin_size]
  rfl

/-- The opening line of a statement stands right behind it. -/
theorem statement_apply (parent : Option BlockId) (keyword template : String) :
    statement parent keyword template w = .ok w.blocks.size
      ((w.adjoin { form := .statement keyword (w.blocks.size + 1), parent }).place
        { form := .expression { left := .text keyword, template }, parent := some w.blocks.size }) := by
  rw [statement_steps]
  -- The two stores are compared place by place: only the last two places have been changed.
  refine congrArg (EStateM.Result.ok _) ?_
  simp only [Workshop.edit, Workshop.place, Workshop.adjoin, Workshop.mk.injEq, true_and, and_true]
  refine ext_getElem? fun j => ?_
  cases parent with
  | none =>
    simp only [getElem?_modify, getElem?_push, size_push]
    grind
  | some p =>
    simp only [getElem?_modify, getElem?_push, size_push, size_modify]
    grind

end Build

end Transcriber
