import Transcriber.Config.Standard
import Transcriber.Proofs.Block.Scope

/-!
# What expressions say

The blocks of an expression form a tree by their operands.  That tree, read off the store, is what
the expression says.  Work on one expression leaves alone what the others say.
-/

namespace Transcriber

/-- What an operand says: it is no block, or an expression with two operands. -/
inductive Doc where
  | atom (operand : Operand)
  | node (template : String) (left right : Doc)

/-- What an expression says. -/
structure Sheet where
  template : String := Slot.both
  left : Doc := .atom (.text "")
  right : Doc := .atom (.text "")

/-- What an operand says that is this expression. -/
def Sheet.doc (sheet : Sheet) : Doc := .node sheet.template sheet.left sheet.right

/-- An operand says something, by way of blocks from a part of the store. -/
inductive Spells (w : Workshop) (P : Nat → Prop) : Operand → Doc → Prop
  | atom {operand : Operand} (h : ∀ id, operand ≠ .block id) : Spells w P operand (.atom operand)
  | block {id : Nat} {b : Block} {e : Expr} {left right : Doc} (hP : P id)
      (hb : w.blocks[id]? = some b) (hform : b.form = .expression e) (htail : e.tail = "")
      (hleft : Spells w P e.left left) (hright : Spells w P e.right right) :
      Spells w P (.block id) (.node e.template left right)

variable {w w' : Workshop} {P : Nat → Prop} {operand : Operand} {doc : Doc}

theorem spells_text (s : String) : Spells w P (.text s) (.atom (.text s)) := .atom fun _ h => by cases h

theorem Spells.mono {Q : Nat → Prop}
    (h : Spells w P operand doc) (hPQ : ∀ j, P j → Q j) : Spells w Q operand doc := by
  induction h with
  | atom h => exact .atom h
  | block hP hb hform htail _ _ ihl ihr => exact .block (hPQ _ hP) hb hform htail ihl ihr

/-- Only blocks that are there say anything. -/
theorem Spells.bounded
    (h : Spells w P operand doc) : Spells w (fun j => P j ∧ j < w.blocks.size) operand doc := by
  induction h with
  | atom h => exact .atom h
  | block hP hb hform htail _ _ ihl ihr =>
    exact .block ⟨hP, (Array.getElem?_eq_some_iff.1 hb).1⟩ hb hform htail ihl ihr

/-! ## Work that touches some blocks -/

/-- A form up to whether a module needs the unsigned shift. -/
def Form.settled : Form → Form
  | .program p => .program { p with needsShift := false }
  | form => form

/-- A block up to whether a module needs the unsigned shift. -/
def Block.settled (b : Block) : Block := { b with form := b.form.settled }

theorem Block.eq_of_settled {b b' : Block} (h : b'.settled = b.settled) (hb : b.isModule = false) :
    b' = b := by
  have hform : b'.form.settled = b.form.settled := congrArg Block.form h
  have hforms : b'.form = b.form := by
    unfold Block.isModule at hb
    cases hf : b.form <;> cases hf' : b'.form <;> simp_all [Form.settled]
  cases b
  cases b'
  simp_all [Block.settled]

theorem get_of_settled {j : Nat} {b : Block} (hb : w.blocks[j]? = some b)
    (hkept : w'.blocks[j]?.map Block.settled = w.blocks[j]?.map Block.settled)
    (hmodule : b.isModule = false) : w'.blocks[j]? = some b := by
  rw [hb] at hkept
  obtain ⟨b', hb', hsettled⟩ := Option.map_eq_some_iff.1 hkept
  rw [hb', Block.eq_of_settled hsettled hmodule]

/-- Blocks of a sort, modules apart, keep their forms, and all else but in methods and expressions. -/
def Formed (P : Nat → Prop) (w w' : Workshop) : Prop :=
  ∀ (j : Nat) (b : Block), P j → w.blocks[j]? = some b → b.isModule = false → ∃ b', w'.blocks[j]? = some b'
    ∧ b'.form = b.form ∧ (b.isMethod = false → b.isExpression = false → b' = b)

namespace Formed

theorem refl (P : Nat → Prop) (w : Workshop) : Formed P w w := fun _ b _ hb _ => ⟨b, hb, rfl, fun _ _ => rfl⟩

variable (h : Formed P w w')
include h

/-- What is said stays, if the blocks stay by which it is said. -/
theorem spells (hs : Spells w P operand doc) : Spells w' P operand doc := by
  induction hs with
  | atom hatom => exact .atom hatom
  | block hP hb hform htail _ _ ihl ihr =>
    obtain ⟨b', hb', hform', -⟩ := h _ _ hP hb (by simp [Block.isModule, hform])
    exact .block hP hb' (hform'.trans hform) htail ihl ihr

theorem kept {w'' : Workshop} (hkept : ∀ j, P j → j < w.blocks.size →
      w''.blocks[j]?.map Block.settled = w'.blocks[j]?.map Block.settled) : Formed P w w'' := by
  intro j b hP hb hmodule
  obtain ⟨b', hb', hform, hsame⟩ := h j b hP hb hmodule
  have hlt := (Array.getElem?_eq_some_iff.1 hb).1
  exact ⟨b', get_of_settled hb' (hkept j hP hlt) (by rw [Block.isModule, hform]; exact hmodule), hform, hsame⟩

end Formed

/-- The work between two workshops touched only old blocks of a given sort, and changed nothing that a view
of them shows. -/
structure Touched (view : Block → Block) (J : Nat → Prop) (w w' : Workshop) : Prop where
  config : w'.config = w.config
  tokens : w'.trail.tokens = w.trail.tokens
  size : w.blocks.size ≤ w'.blocks.size
  viewed : ∀ j, j < w.blocks.size → w'.blocks[j]?.map view = w.blocks[j]?.map view
  kept : ∀ j, j < w.blocks.size → ¬ J j → w'.blocks[j]?.map Block.settled = w.blocks[j]?.map Block.settled

/-- Work that changed nothing about old blocks but the parts of an expression and the children. -/
abbrev Within := Touched Block.hollow

namespace Touched

variable {view : Block → Block} {J J' : Nat → Prop} {w'' : Workshop}

theorem refl (J : Nat → Prop) (w : Workshop) : Touched view J w w :=
  ⟨rfl, rfl, Nat.le_refl _, fun _ _ => rfl, fun _ _ _ => rfl⟩

theorem inScope (h : Within J w w') {id : Nat} {s : Scope} (hs : InScope w id s) : InScope w' id s := by
  have hlt := hs.lt_size
  exact hs.congr fun j hj => h.viewed j (by omega)

variable (h : Touched view J w w')
include h

theorem mono (hJ : ∀ j, J j → J' j) : Touched view J' w w' :=
  ⟨h.config, h.tokens, h.size, h.viewed, fun j hj hn => h.kept j hj fun hJj => hn (hJ j hJj)⟩

/-- What is touched later may be new. -/
theorem trans (h' : Touched view J' w' w'')
    (hJ : ∀ j, J' j → J j ∨ w.blocks.size ≤ j) : Touched view J w w'' where
  config := h'.config.trans h.config
  tokens := h'.tokens.trans h.tokens
  size := Nat.le_trans h.size h'.size
  viewed j hj := (h'.viewed j (Nat.lt_of_lt_of_le hj h.size)).trans (h.viewed j hj)
  kept j hj hn := by
    refine (h'.kept j (Nat.lt_of_lt_of_le hj h.size) fun hJ' => ?_).trans (h.kept j hj hn)
    cases hJ j hJ' with
    | inl hJj => exact hn hJj
    | inr hle => omega

/-- Only modules are changed without being touched. -/
theorem get {j : Nat} {b : Block} (hb : w.blocks[j]? = some b) (hmodule : b.isModule = false) (hn : ¬ J j) :
    w'.blocks[j]? = some b :=
  get_of_settled hb (h.kept j (Array.getElem?_eq_some_iff.1 hb).1 hn) hmodule

theorem formed {v : Workshop} (hv : Formed P v w) (hP : ∀ j, P j → j < v.blocks.size → ¬ J j)
    (hle : v.blocks.size ≤ w.blocks.size) : Formed P v w' :=
  hv.kept fun j hPj hlt => h.kept j (Nat.lt_of_lt_of_le hlt hle) (hP j hPj hlt)

theorem spells (hs : Spells w P operand doc) (hP : ∀ j, P j → j < w.blocks.size → ¬ J j) :
    Spells w' P operand doc :=
  (h.formed (.refl P w) hP (Nat.le_refl _)).spells hs

theorem beyond {n : Nat} (h' : Touched view (· = n) w' w'') (hn : w.blocks.size ≤ n) : Touched view J w w'' :=
  h.trans h' fun _ hj => .inr (hj ▸ hn)

theorem idle (h' : Touched view (fun _ => False) w' w'') : Touched view J w w'' := h.trans h' fun _ hj => hj.elim

theorem childrenOf {id : Nat} (hid : id < w.blocks.size) (hn : ¬ J id) :
    w'.childrenOf id = w.childrenOf id := by
  have hkept := congrArg (Option.map Block.children) (h.kept id hid hn)
  rw [Option.map_map, Option.map_map] at hkept
  exact congrArg (fun o => Option.getD o []) hkept

omit h in
theorem again {id : Nat} (h : Touched view (· = id) w w') (h' : Touched view (· = id) w' w'') :
    Touched view (· = id) w w'' :=
  h.trans h' fun _ hj => .inl hj

end Touched

/-! ## Expressions in their scopes -/

/-- A workshop with the standard settings and no tokens to find comments among. -/
structure Calm (w : Workshop) : Prop where
  config : w.config = .standard
  tokens : w.trail.tokens = []

theorem Touched.calm {view : Block → Block} {J : Nat → Prop} (h : Touched view J w w') (hw : Calm w) : Calm w' :=
  ⟨h.config.trans hw.config, h.tokens.trans hw.tokens⟩

/-- A block is an expression with given parts, in a scope. -/
structure Holds (w : Workshop) (id : Nat) (s : Scope) (e : Expr) : Prop where
  calm : Calm w
  scope : InScope w id s
  form : ∃ b, w.blocks[id]? = some b ∧ b.form = .expression e
  tail : e.tail = ""

namespace Holds

variable {J : Nat → Prop} {id : Nat} {s : Scope} {e : Expr}

theorem lt_size (h : Holds w id s e) : id < w.blocks.size := h.scope.lt_size

theorem unique (h : Holds w id s e) {s' : Scope} {e' : Expr} (h' : Holds w id s' e') : e = e' := by
  obtain ⟨b, hb, hform⟩ := h.form
  obtain ⟨b', hb', hform'⟩ := h'.form
  cases hb.symm.trans hb'
  cases hform.symm.trans hform'
  rfl

theorem frame (h : Holds w id s e) (hw : Within J w w') (hn : ¬ J id) : Holds w' id s e := by
  obtain ⟨b, hb, hform⟩ := h.form
  exact ⟨hw.calm h.calm, hw.inScope h.scope, ⟨b, hw.get hb (by simp [Block.isModule, hform]) hn, hform⟩, h.tail⟩

end Holds

/-- A block says something, in a scope, by way of blocks from a part of the store to which it does
not belong itself. -/
structure Shows (w : Workshop) (P : Nat → Prop) (id : Nat) (s : Scope) (sheet : Sheet) : Prop where
  apart : ¬ P id
  holds : ∃ e, Holds w id s e ∧ e.template = sheet.template
    ∧ Spells w P e.left sheet.left ∧ Spells w P e.right sheet.right

namespace Shows

variable {J Q : Nat → Prop} {id : Nat} {s : Scope} {sheet : Sheet}

variable (h : Shows w P id s sheet)
include h

theorem lt_size : id < w.blocks.size := by
  obtain ⟨e, he, -⟩ := h.holds
  exact he.lt_size

theorem calm : Calm w := by
  obtain ⟨e, he, -⟩ := h.holds
  exact he.calm

theorem mono (hPQ : ∀ j, P j → Q j) (hn : ¬ Q id) : Shows w Q id s sheet := by
  obtain ⟨e, he, htemplate, hleft, hright⟩ := h.holds
  exact ⟨hn, e, he, htemplate, hleft.mono hPQ, hright.mono hPQ⟩

theorem frame (hw : Within J w w') (hn : ¬ J id)
    (hP : ∀ j, P j → j < w.blocks.size → ¬ J j) : Shows w' P id s sheet := by
  obtain ⟨e, he, htemplate, hleft, hright⟩ := h.holds
  exact ⟨h.apart, e, he.frame hw hn, htemplate, hw.spells hleft hP, hw.spells hright hP⟩

theorem spells (hPQ : ∀ j, P j → Q j) (hid : Q id) : Spells w Q (.block id) sheet.doc := by
  obtain ⟨e, he, htemplate, hleft, hright⟩ := h.holds
  obtain ⟨b, hb, hform⟩ := he.form
  rw [Sheet.doc, ← htemplate]
  exact .block hid hb hform he.tail (hleft.mono hPQ) (hright.mono hPQ)

end Shows

end Transcriber
