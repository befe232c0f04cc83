import Transcriber.Proofs.Expression.Clause
import Transcriber.Proofs.Expression.Walk
import Transcriber.Walk.Statement

/-!
# Places for statements

Statements are put into the blocks of methods, of their contents, and of statements.  Such a block
lies inside a type and a module, and stays there whatever is put into it or declared in it.
-/

namespace Transcriber

open Build Source Expression Option

/-- A block without what the work on statements changes: what the work on expressions changes, and
the names that are declared in the block. -/
def Block.bare (b : Block) : Block := { b.hollow with declared := [] }

namespace Block

theorem bare_of_hollow {b b' : Block} (h : b'.hollow = b.hollow) : b'.bare = b.bare := by
  rw [bare, bare, h]

variable (b : Block)

@[simp] theorem bare_isClass : b.bare.isClass = b.isClass := b.hollow_isClass

@[simp] theorem bare_isModule : b.bare.isModule = b.isModule := b.hollow_isModule

theorem parent_of_bare (b b' : Block) (h : b'.bare = b.bare) : b'.parent = b.parent := by
  have hparent : ∀ b : Block, b.parent = b.bare.parent := fun _ => rfl
  rw [hparent, h, ← hparent]

end Block

/-! ## Work that puts things into blocks -/

/-- Work that changed nothing about old blocks but the parts of an expression, the children, and the names
that are declared. -/
abbrev Around := Touched Block.bare

variable {J : Nat → Prop} {w w' : Workshop}

theorem Touched.around (h : Within J w w') : Around J w w' := by
  refine ⟨h.config, h.tokens, h.size, fun j hj => ?_, h.kept⟩
  have hhollow := h.viewed j hj
  cases hb' : w'.blocks[j]? with
  | none =>
    rw [hb'] at hhollow
    rw [map_none, map_eq_none_iff.1 hhollow.symm]
    rfl
  | some b' =>
    rw [hb'] at hhollow
    obtain ⟨b, hb, heq⟩ := map_eq_some_iff.1 hhollow.symm
    rw [hb, map_some, map_some, Block.bare_of_hollow heq]

/-! ## Blocks inside a type and a module -/

/-- There is a type among some blocks, with a name that can be written, and a module. -/
structure Sheltered (bs : List Block) : Prop where
  homed : bs.any (·.isModule) = true
  owned : ∃ b, bs.find? (·.isClass) = some b ∧ Braceless (Handler.nameText b.name)
    ∧ Neat (Handler.nameText b.name)

namespace Sheltered

variable {b : Block} {bs bs' : List Block}

theorem rename_mem (bs : List Block) (name : String) :
    Scope.renameIn bs name ∈ [name, "self." ++ name, "cls." ++ name] := by
  unfold Scope.renameIn
  split
  case isFalse => exact .head _
  case isTrue =>
    split
    case h_1 => exact .head _
    case h_2 m _ =>
      split
      case isTrue => exact .head _
      case isFalse =>
        cases m.isStatic with
        | true => exact .tail _ (.tail _ (.head _))
        | false => exact .tail _ (.head _)

theorem fits (h : Sheltered bs) : Fits (Scope.of bs) false := by
  obtain ⟨b, hb, hname⟩ := h.owned
  refine ⟨h.homed, fun hfalse => (by cases hfalse), fun _ => ⟨b.name, ?_, hname⟩, rename_mem bs⟩
  change (bs.find? (·.isClass)).map (·.name) = _
  rw [hb]
  rfl

theorem cons (h : Sheltered bs) (hb : b.isClass = false) : Sheltered (b :: bs) := by
  obtain ⟨owner, howner, hname⟩ := h.owned
  refine ⟨?_, owner, ?_, hname⟩
  · rw [List.any_cons, h.homed, Bool.or_true]
  · rw [List.find?_cons, hb]
    exact howner

theorem map_bare (bs : List Block) : Sheltered (bs.map Block.bare) ↔ Sheltered bs := by
  have hmodule : (bs.map Block.bare).any (·.isModule) = bs.any (·.isModule) := by
    rw [List.any_map]
    exact congrArg (bs.any ·) (funext Block.bare_isModule)
  have hclass : (bs.map Block.bare).find? (·.isClass) = (bs.find? (·.isClass)).map Block.bare := by
    rw [List.find?_map]
    exact congrArg (fun test => (bs.find? test).map Block.bare) (funext Block.bare_isClass)
  constructor
  · rintro ⟨hhomed, b, hb, hname⟩
    rw [hclass] at hb
    obtain ⟨c, hc, rfl⟩ := map_eq_some_iff.1 hb
    exact ⟨hmodule ▸ hhomed, c, hc, hname⟩
  · rintro ⟨hhomed, b, hb, hname⟩
    exact ⟨hmodule ▸ hhomed, b.bare, by rw [hclass, hb]; rfl, hname⟩

theorem congr (h : Sheltered bs) (heq : bs'.map Block.bare = bs.map Block.bare) : Sheltered bs' := by
  rw [← map_bare, heq, map_bare]
  exact h

end Sheltered

/-- A block lies inside a type and a module, or is one of them. -/
def Housed (w : Workshop) (id : Nat) : Prop :=
  ∃ chain, Chain w id chain ∧ Sheltered (chain.map Prod.snd)

namespace Housed

variable {id : Nat}

theorem lt_size (h : Housed w id) : id < w.blocks.size := by
  obtain ⟨chain, hchain, -⟩ := h
  exact hchain.lt_size

theorem frame (h : Housed w id) (hw : Around J w w') : Housed w' id := by
  obtain ⟨chain, hchain, hsheltered⟩ := h
  have hlt := hchain.lt_size
  obtain ⟨chain', hchain', hmap⟩ := hchain.congr Block.parent_of_bare fun j hj => hw.viewed j (by omega)
  exact ⟨chain', hchain', hsheltered.congr (by rw [List.map_map, List.map_map, hmap])⟩

theorem inScope (h : Housed w id) : ∃ s, InScope w id s ∧ Fits s false := by
  obtain ⟨chain, hchain, hsheltered⟩ := h
  exact ⟨_, ⟨chain, hchain, rfl⟩, hsheltered.fits⟩

/-- A block inside a housed one is housed. -/
theorem inside (h : Housed w id) {n : Nat} {b : Block} (hb : w.blocks[n]? = some b)
    (hp : b.parent = some id) (hlt : id < n) (hclass : b.isClass = false) : Housed w n := by
  obtain ⟨chain, hchain, hsheltered⟩ := h
  exact ⟨_, .inside hb hp hlt hchain, hsheltered.cons hclass⟩

end Housed

/-! ## Places for statements -/

theorem Touched.get_suite (h : Around J w w') {id : Nat} {b : Block}
    (hb : w.blocks[id]? = some b) (hsuite : b.form.isSuite = true) :
    ∃ b', w'.blocks[id]? = some b' ∧ b'.form = b.form := by
  have hbare := h.viewed id (Array.getElem?_eq_some_iff.1 hb).1
  rw [hb] at hbare
  obtain ⟨b', hb', heq⟩ := map_eq_some_iff.1 hbare
  refine ⟨b', hb', ?_⟩
  have hforms : b'.form.hollow = b.form.hollow := congrArg Block.form heq
  cases hf : b.form <;> cases hf' : b'.form <;> simp_all [Form.hollow, Form.isSuite]

/-- A block that takes statements, inside a type and a module, in a calm workshop. -/
structure Site (w : Workshop) (id : Nat) : Prop where
  calm : Calm w
  housed : Housed w id
  form : ∃ b, w.blocks[id]? = some b ∧ b.form.isSuite = true

/-- A new block at a site. -/
structure Begun (w : Workshop) (id : Nat) (b : Block) (n : Nat) (w' : Workshop) : Prop where
  around : Around (· = id) w w'
  new : w.blocks.size ≤ n
  get : w'.blocks[n]? = some b
  childless : b.children = []
  children : w'.childrenOf id = w.childrenOf id ++ [n]
  housed : Housed w' n

theorem Begun.frame {w'' : Workshop} {id n : Nat} {b : Block}
    (h : Begun w id b n w') (hw : Around J w' w'') (hid : id < w.blocks.size)
    (hmodule : b.isModule = false) (hJ : ∀ j, J j → w.blocks.size ≤ j) (hn : ¬ J n) :
    Begun w id b n w'' where
  around := h.around.trans hw fun j hj => .inr (hJ j hj)
  new := h.new
  get := hw.get h.get hmodule hn
  childless := h.childless
  children := by
    rw [hw.childrenOf (Nat.lt_of_lt_of_le hid h.around.size) fun hj => absurd (hJ id hj) (by omega)]
    exact h.children
  housed := h.housed.frame hw

theorem within_place (w : Workshop) (b : Block) : Within (fun _ => False) w (w.place b) := by
  refine ⟨rfl, rfl, ?_, fun j hj => ?_, fun j hj _ => ?_⟩
  · rw [Workshop.place_size]
    omega
  · rw [Workshop.place_get_of_lt w b hj]
  · rw [Workshop.place_get_of_lt w b hj]

namespace Site

variable {id : Nat}

variable (h : Site w id)
include h

theorem lt_size : id < w.blocks.size := h.housed.lt_size

theorem frame (hw : Around J w w') : Site w' id := by
  obtain ⟨b, hb, hsuite⟩ := h.form
  obtain ⟨b', hb', hform⟩ := hw.get_suite hb hsuite
  exact ⟨hw.calm h.calm, h.housed.frame hw, b', hb', hform ▸ hsuite⟩

theorem begun {b : Block} (hp : b.parent = some id) (hchildless : b.children = [])
    (hclass : b.isClass = false) : Begun w id b w.blocks.size (w.adjoin b) := by
  have hlt := h.lt_size
  have hne : b.parent ≠ some w.blocks.size := by
    rw [hp]
    exact fun heq => absurd (Option.some.inj heq) (Nat.ne_of_lt hlt)
  have hwithin : Within (· = id) w (w.adjoin b) := (within_adjoin w b).mono fun j hj => by
    rw [hp] at hj
    exact (Option.some.inj hj).symm
  have hget := Workshop.adjoin_get_new w b hne
  refine ⟨hwithin.around, Nat.le_refl _, hget, hchildless, ?_, ?_⟩
  · obtain ⟨c, hc, -⟩ := h.form
    unfold Workshop.childrenOf
    rw [Workshop.adjoin_get_parent w b hp hlt, hc]
    rfl
  · exact (h.housed.frame hwithin.around).inside hget hp hlt hclass

theorem content : ∃ b w', content id w = .ok w.blocks.size w'
    ∧ Begun w id b w.blocks.size w' ∧ b.form = .content ∧ Site w' w.blocks.size := by
  have hbegun := h.begun (b := { form := .content, parent := some id }) rfl rfl rfl
  exact ⟨_, _, create_apply w _, hbegun, rfl, hbegun.around.calm h.calm, hbegun.housed, _, hbegun.get, rfl⟩

/-- A new expression. -/
theorem expr (e : Expr) (ht : e.tail = "") : ∃ b w' s,
    expr (some id) e w = .ok w.blocks.size w' ∧ Begun w id b w.blocks.size w'
      ∧ w'.blocks.size = w.blocks.size + 1 ∧ Fits s false ∧ Holds w' w.blocks.size s e := by
  have hbegun := h.begun (b := { form := .expression e, parent := some id }) rfl rfl rfl
  obtain ⟨s, hs, hfits⟩ := hbegun.housed.inScope
  exact ⟨_, _, s, expr_apply w _ e, hbegun, Workshop.adjoin_size w _, hfits,
    hbegun.around.calm h.calm, hs, ⟨_, hbegun.get, rfl⟩, ht⟩

end Site

end Transcriber
