import Mathlib.Logic.Relation
import Transcriber.Proofs.Print.Standard
import Transcriber.Proofs.Walk.Stepwise

/-!
# Modules know which helpers they need

Some blocks can only be written in a module that brings a helper along: an unsigned shift needs a
function of its own, an interface the classes for abstract methods, a lock the functions for locks.
The module takes note of it during the walk.  Here the walk is looked at as a whole: a block that
needs a helper is made only where the module takes note of it, and no note is ever lost.

* `lawful_tends` — all work of a walk with the standard settings keeps to that.
-/

namespace Transcriber

open Relation Block Declaration Form

open Build Source

/-- The helpers that a module may need. -/
inductive Aid where
  | shift
  | abstract
  | locks
deriving DecidableEq, Repr

theorem Aid.forall_iff {P : Aid → Prop} : (∀ aid, P aid) ↔ P .shift ∧ P .abstract ∧ P .locks :=
  ⟨fun h => ⟨h _, h _, h _⟩, fun ⟨hs, ha, hl⟩ aid => by cases aid <;> assumption⟩

/-- Whether a module knows that it needs a helper. -/
def Program.provides (p : Program) : Aid → Bool
  | .shift => p.needsShift
  | .abstract => p.needsAbstract
  | .locks => p.needsLocks

/-- Whether a block can only be written where there is a helper. -/
def Block.calls (b : Block) : Aid → Bool
  | .shift => b.form.expr?.any fun e => Slot.shifts.contains e.template
  | .abstract => b.isInterface
  | .locks =>
    match b.form with
    | .method => b.modifiers.contains "synchronized"
    | .statement keyword _ => keyword == "with"
    | _ => false

/-- A module of the workshop knows that it needs a helper. -/
def Workshop.Provides (w : Workshop) (aid : Aid) : Prop :=
  ∃ (i : BlockId) (b : Block) (p : Program),
    w.blocks[i]? = some b ∧ b.form = .program p ∧ p.provides aid = true

/-! ## Blocks -/

/-- A block that is no module and needs no helper, save some. -/
structure Block.Idle (x : Aid → Prop) (b : Block) : Prop where
  module : b.isModule = false
  calls : ∀ aid, b.calls aid = true → x aid

/-- A change of a block after which it needs no more helpers, save some, and knows no less. -/
structure Block.Mild (x : Aid → Prop) (b b' : Block) : Prop where
  sort : b'.form.sortName = b.form.sortName
  provides : ∀ p, b.form = .program p →
    ∃ p', b'.form = .program p' ∧ ∀ aid, p.provides aid = true → p'.provides aid = true
  calls : ∀ aid, b'.calls aid = true → b.calls aid = true ∨ x aid

theorem Form.isModule_of_sortName {b b' : Block} (h : b'.form.sortName = b.form.sortName) :
    b'.isModule = b.isModule := by
  cases hb : b.form <;> cases hb' : b'.form <;> simp_all [isModule, sortName]

section

variable {x : Aid → Prop} {b b' : Block}

theorem Block.mild_of_form (hform : b'.form = b.form) (hmodifiers : b'.modifiers = b.modifiers) :
    b.Mild x b' where
  sort := by rw [hform]
  provides p hp := ⟨p, hform.trans hp, fun _ h => h⟩
  calls aid h := by
    refine .inl ?_
    cases aid <;> simpa [Block.calls, isInterface, hform, hmodifiers] using h

theorem Form.sortName_mapExpr (form : Form) (f : Expr → Expr) :
    (form.mapExpr f).sortName = form.sortName := by
  cases form <;> rfl

/-- A change of the parts of an expression is mild if its template calls no helper then. -/
theorem Block.mild_mapExpr {f : Expr → Expr}
    (hf : ∀ e, (f e).template ∈ Slot.shifts → e.template ∈ Slot.shifts ∨ x .shift) :
    b.Mild x { b with form := b.form.mapExpr f } where
  sort := sortName_mapExpr _ f
  provides p hp := ⟨p, by simp [hp, mapExpr], fun _ h => h⟩
  calls aid h := by
    cases aid with
    | shift =>
      have hcases : ∀ e, b.form.expr? = some e → (b.form.mapExpr f).expr? = some (f e) := by
        cases b.form <;> simp [mapExpr, Form.expr?]
      cases he : b.form.expr? with
      | none =>
        have hnone : (b.form.mapExpr f).expr? = none := by
          cases hb : b.form <;> simp_all [mapExpr, Form.expr?]
        simp [Block.calls, hnone] at h
      | some e =>
        have hshift : (f e).template ∈ Slot.shifts := by
          simpa [Block.calls, hcases e he] using h
        simpa [Block.calls, he] using hf e hshift
    | abstract =>
      refine .inl ?_
      cases hb : b.form <;> simp_all [Block.calls, isInterface, mapExpr]
    | locks =>
      refine .inl ?_
      cases hb : b.form <;> simp_all [Block.calls, mapExpr]

theorem Block.mild_mapProgram {f : Program → Program}
    (hf : ∀ p aid, p.provides aid = true → (f p).provides aid = true) :
    b.Mild x { b with form := b.form.mapProgram f } where
  sort := by cases b.form <;> rfl
  provides p hp := ⟨f p, by simp [hp, mapProgram], hf p⟩
  calls aid h := by
    refine .inl ?_
    cases aid <;> cases hb : b.form <;> simp_all [Block.calls, isInterface, mapProgram, Form.expr?]

/-- The modifiers of a block that is no method say nothing about helpers. -/
theorem Block.mild_of_not_method (hform : b'.form = b.form) (h : b.isMethod = false) : b.Mild x b' where
  sort := by rw [hform]
  provides p hp := ⟨p, hform.trans hp, fun _ h => h⟩
  calls aid hc := by
    refine .inl ?_
    cases aid <;> cases hb : b.form <;> simp_all [Block.calls, isInterface, isMethod]

end

/-! ## Workshops -/

namespace Workshop

/-- From one workshop to the next no note of a module is lost, the sorts of blocks stay, and what
needs a helper, save some, either did so before or the module has a note of it. -/
structure Tended (x : Aid → Prop) (w w' : Workshop) : Prop where
  sort : ∀ {i : BlockId} {b : Block}, w.blocks[i]? = some b →
    ∃ b', w'.blocks[i]? = some b' ∧ b'.form.sortName = b.form.sortName
  modules : ∀ {i : BlockId} {b' : Block}, w'.blocks[i]? = some b' → b'.isModule = true →
    ∃ b, w.blocks[i]? = some b
  provides : ∀ {aid}, w.Provides aid → w'.Provides aid
  calls : ∀ {i : BlockId} {b' : Block} {aid : Aid}, w'.blocks[i]? = some b' → b'.calls aid = true →
    (∃ b : Block, w.blocks[i]? = some b ∧ b.calls aid = true) ∨ w'.Provides aid ∨ x aid

namespace Tended

variable {x y : Aid → Prop} {w w' w'' : Workshop}

theorem refl (x : Aid → Prop) (w : Workshop) : Tended x w w where
  sort h := ⟨_, h, rfl⟩
  modules h _ := ⟨_, h⟩
  provides h := h
  calls h hc := .inl ⟨_, h, hc⟩

theorem trans (h : Tended x w w') (h' : Tended x w' w'') : Tended x w w'' where
  sort hb := by
    obtain ⟨b', hb', hs⟩ := h.sort hb
    obtain ⟨b'', hb'', hs'⟩ := h'.sort hb'
    exact ⟨b'', hb'', hs'.trans hs⟩
  modules hb hm := by
    obtain ⟨b', hb'⟩ := h'.modules hb hm
    obtain ⟨b'', hb'', hs⟩ := h'.sort hb'
    obtain rfl := Option.some.inj (hb.symm.trans hb'')
    exact h.modules hb' ((isModule_of_sortName hs).symm.trans hm)
  provides hp := h'.provides (h.provides hp)
  calls hb hc := by
    rcases h'.calls hb hc with ⟨b', hb', hc'⟩ | hp | hx
    · rcases h.calls hb' hc' with hc | hp | hx
      · exact .inl hc
      · exact .inr (.inl (h'.provides hp))
      · exact .inr (.inr hx)
    · exact .inr (.inl hp)
    · exact .inr (.inr hx)

theorem mono (h : Tended x w w') (hxy : ∀ aid, x aid → y aid) : Tended y w w' :=
  { h with calls := fun hb hc => (h.calls hb hc).imp_right (Or.imp_right (hxy _)) }

/-- What was left open is settled when the module has a note of it in the end. -/
theorem settle (h : Tended x w w') (hx : ∀ aid, x aid → w'.Provides aid) : Tended y w w' := { h with
    calls := fun hb hc => by
      rcases h.calls hb hc with hc | hp | hx'
      · exact .inl hc
      · exact .inr (.inl hp)
      · exact .inr (.inl (hx _ hx')) }

theorem of_blocks
    (hold : ∀ {i : BlockId} {b : Block}, w.blocks[i]? = some b → ∃ b', w'.blocks[i]? = some b' ∧ b.Mild x b')
    (hnew : ∀ {i : BlockId} {b' : Block}, w'.blocks[i]? = some b' → w.blocks[i]? = none → b'.Idle x) :
    Tended x w w' where
  sort hb := by
    obtain ⟨b', hb', hmild⟩ := hold hb
    exact ⟨b', hb', hmild.sort⟩
  modules {i b'} hb' hm := by
    cases hb : w.blocks[i]? with
    | none => exact absurd hm (by rw [(hnew hb' hb).module]; nofun)
    | some b => exact ⟨b, rfl⟩
  provides := by
    rintro aid ⟨i, b, p, hb, hp, haid⟩
    obtain ⟨b', hb', hmild⟩ := hold hb
    obtain ⟨p', hp', hle⟩ := hmild.provides p hp
    exact ⟨i, b', p', hb', hp', hle aid haid⟩
  calls {i b' aid} hb' hc := by
    cases hb : w.blocks[i]? with
    | none => exact .inr (.inr ((hnew hb' hb).calls aid hc))
    | some b =>
      obtain ⟨b1, hb1, hmild⟩ := hold hb
      obtain rfl := Option.some.inj (hb'.symm.trans hb1)
      rcases hmild.calls aid hc with hc | hx
      · exact .inl ⟨b, rfl, hc⟩
      · exact .inr (.inr hx)

theorem edit {id : BlockId} {f : Block → Block}
    (h : ∀ b, w.blocks[id]? = some b → b.Mild x (f b)) : Tended x w (w.edit id f) := by
  refine of_blocks (fun {i b} hb => ?_) fun {i b'} hb' hnone => ?_
  · rw [edit_get]
    split
    next heq =>
      subst heq
      exact ⟨f b, by rw [hb]; rfl, h b hb⟩
    next => exact ⟨b, hb, mild_of_form rfl rfl⟩
  · rw [edit_get, hnone] at hb'
    split at hb' <;> cases hb'

theorem place {b : Block} (h : b.Idle x) : Tended x w (w.place b) := by
  refine of_blocks (fun {i c} hc => ?_) fun {i b'} hb' hnone => ?_
  · have hlt : i < w.blocks.size := (Array.getElem?_eq_some_iff.1 hc).1
    exact ⟨c, (place_get_of_lt w b hlt).trans hc, mild_of_form rfl rfl⟩
  · have hle : w.blocks.size ≤ i := Array.getElem?_eq_none_iff.1 hnone
    have hlt : i < (w.place b).blocks.size := (Array.getElem?_eq_some_iff.1 hb').1
    rw [place_size] at hlt
    obtain rfl : i = w.blocks.size := Nat.le_antisymm (Nat.le_of_lt_succ hlt) hle
    rw [place_get_new] at hb'
    cases hb'
    exact h

theorem adjoin {b : Block} (h : b.Idle x) : Tended x w (w.adjoin b) := by
  have hplace : Tended x w (w.place b) := place h
  cases hp : b.parent with
  | none => exact adjoin_eq_place w b hp ▸ hplace
  | some parent =>
    have heq : w.adjoin b = (w.place b).edit parent fun p =>
        { p with children := p.children ++ [w.blocks.size] } := by
      unfold Workshop.adjoin Workshop.place Workshop.edit
      rw [hp]
    rw [heq]
    exact hplace.trans (edit fun c _ => mild_of_form rfl rfl)

end Tended

end Workshop

/-! ## Work with the standard settings -/

open Workshop (Tended)

/-- With the standard settings, no note is lost and each new need, save some, is noted. -/
def Tends (x : Aid → Prop) (w w' : Workshop) : Prop :=
  w.config = .standard → w'.config = .standard ∧ Tended x w w'

namespace Tends

variable {x y : Aid → Prop} {w w' w'' : Workshop}

theorem refl (x : Aid → Prop) (w : Workshop) : Tends x w w := fun h => ⟨h, .refl x w⟩

theorem trans (h : Tends x w w') (h' : Tends x w' w'') : Tends x w w'' := fun hw =>
  ⟨(h' (h hw).1).1, (h hw).2.trans (h' (h hw).1).2⟩

theorem mono (h : Tends x w w') (hxy : ∀ aid, x aid → y aid) : Tends y w w' := fun hw =>
  ⟨(h hw).1, (h hw).2.mono hxy⟩

theorem of_reaches (h : ReflTransGen (Tends x) w w') : Tends x w w' := by
  induction h with
  | refl => exact .refl x _
  | tail _ hstep ih => exact ih.trans hstep

theorem of_tended (hconfig : w'.config = w.config) (h : Tended x w w') : Tends x w w' := fun hw =>
  ⟨hconfig.trans hw, h⟩

/-- Nothing but the blocks and the settings matters. -/
theorem of_blocks_eq (hconfig : w'.config = w.config) (h : w'.blocks = w.blocks) : Tends x w w' := by
  refine of_tended hconfig (.of_blocks (fun {i b} hb => ?_) fun {i b'} hb' hnone => ?_)
  · exact ⟨b, h ▸ hb, mild_of_form rfl rfl⟩
  · rw [h, hnone] at hb'
    cases hb'

end Tends

section

variable {x : Aid → Prop}

namespace Build

theorem tends_change (id : BlockId) {f : Block → Block} (h : ∀ b : Block, b.Mild x (f b)) :
    Stepwise (Tends x) (change id f) :=
  keeps_modify fun _ => .of_tended rfl (.edit fun b _ => h b)

theorem tends_create {b : Block} (h : b.Idle x) : Stepwise (Tends x) (create b) := by
  intro w i w' hrun
  rw [create_apply] at hrun
  cases hrun
  exact .single (.of_tended rfl (.adjoin h))

variable {template : String} {id : BlockId}

theorem tends_expr (parent : Option BlockId) (left right : Operand) {tail : String}
    (h : template ∉ Slot.shifts) : Stepwise (Tends x) (expr parent { left, right, template, tail }) := by
  refine tends_create ⟨rfl, fun aid hc => ?_⟩
  cases aid <;> simp [Block.calls, Form.expr?, isInterface, h] at hc

theorem tends_comment (parent : Option BlockId) (left right : Operand) {tail : String}
    (h : template ∉ Slot.shifts) :
    Stepwise (Tends x) (comment parent { left, right, template, tail }) := by
  refine tends_create ⟨rfl, fun aid hc => ?_⟩
  cases aid <;> simp [Block.calls, Form.expr?, isInterface, h] at hc

theorem tends_statement (parent : Option BlockId) {keyword : String}
    (hk : keyword = "with" → x .locks) (ht : template ∉ Slot.shifts) :
    Stepwise (Tends x) (statement parent keyword template) := by
  intro w i w' hrun
  rw [statement_apply] at hrun
  cases hrun
  refine .single (.of_tended rfl (.trans (.adjoin ⟨rfl, fun aid hc => ?_⟩) (.place ⟨rfl, fun aid hc => ?_⟩)))
  · cases aid <;> simp [Block.calls, Form.expr?, isInterface] at hc
    exact hk hc
  · cases aid <;> simp [Block.calls, Form.expr?, isInterface, ht] at hc

theorem tends_report (level : Level) (message : String) : Stepwise (Tends x) (report level message) :=
  keeps_modify fun _ => .of_blocks_eq rfl rfl

theorem tends_declareType {form : Form} (hmodule : ∀ p, form ≠ .program p)
    (hform : ∀ aid, ({ form } : Block).calls aid = true → x aid) (id : BlockId) (c : Cursor) :
    Stepwise (Tends x) (declareType form id c) := by
  unfold declareType
  split
  · exact keeps_pure _
  · refine keeps_bind (tends_change _ fun b => mild_of_form rfl rfl) fun _ => ?_
    refine keeps_result (tends_create ⟨?_, fun aid hc => hform aid ?_⟩)
    · cases form <;> simp_all [isModule]
    · cases aid <;> cases form <;> simp_all [Block.calls, isInterface]

theorem tends_putComment (sign : Value) (owner base : BlockId) (onLine : Bool) (text : String) :
    Stepwise (Tends x) (putComment sign owner base onLine text) := by
  unfold putComment
  split
  · split
    · exact keeps_result (tends_change _ fun b => mild_mapExpr fun e h => .inl h)
    · exact keeps_throw _ _
  · exact keeps_result (keeps_mapM fun line _ => tends_comment _ _ _ (by decide))

theorem tends_takeComment (sign : Value) (owner near : BlockId) (stop : Int) (token : Lexeme)
    (number : Nat) : Stepwise (Tends x) (takeComment sign owner near stop token number) := by
  unfold takeComment
  refine keeps_bind (keeps_modify fun _ => .of_blocks_eq rfl rfl) fun _ => ?_
  refine keeps_bind keeps_get fun w => ?_
  refine keeps_bind (keeps_block _) fun b => ?_
  have hlast (onLine : Bool) : Stepwise (Tends x) (do
      let spot ← putComment sign owner (outermost w w.blocks.size near) onLine token.text
      modify fun w => { w with trail := { w.trail with placed := (number, spot) :: w.trail.placed } }) :=
    keeps_bind (tends_putComment _ _ _ _ _) fun _ => keeps_modify fun _ => .of_blocks_eq rfl rfl
  dsimp only
  split
  · split
    · exact keeps_bind (keeps_pure _) hlast
    · exact keeps_bind (keeps_pure _) hlast
    · exact keeps_bind (keeps_throw _ _) hlast
  · exact keeps_bind (keeps_pure _) hlast

theorem tends_takeComments (owner near : BlockId) (stop : Int) :
    Stepwise (Tends x) (takeComments owner near stop) := by
  refine keeps_bind keeps_get fun w => keeps_bind keeps_get fun w' => ?_
  refine keeps_bind (keeps_forM fun token _ => tends_takeComment _ _ _ _ _ _) fun _ => ?_
  exact keeps_modify fun _ => .of_blocks_eq rfl rfl

/-- With the standard settings nothing changes a block after a visit. -/
theorem tends_mutate (id : BlockId) : Stepwise (Tends x) (mutate id) := by
  intro w u w' hrun
  refine .single fun hw => ?_
  obtain ⟨hs, w1, hhandlers, -⟩ := bind_eq_ok.1 hrun
  cases hb : w.blocks[id]? with
  | none =>
    -- Without the block there is no name of a setting.
    unfold Printer.handlers at hhandlers
    have hrest := get_bind_eq_ok.1 hhandlers
    obtain ⟨name, w4, hname, -⟩ := bind_eq_ok.1 hrest
    obtain ⟨b, w5, hblock, -⟩ := bind_eq_ok.1 hname
    rw [(block_eq_ok.1 hblock).1] at hb
    cases hb
  | some b =>
    rw [mutate_standard hw hb] at hrun
    cases hrun
    exact ⟨hw, .refl x w⟩

/-- What is done in passing may be left open as well. -/
theorem tends_of_noted {α : Type} {m : Build α} (h : Stepwise (Tends fun _ => False) m) :
    Stepwise (Tends x) m :=
  fun _ _ _ hrun => .single ((Tends.of_reaches (h hrun)).mono nofun)

theorem of_enclosing {home : BlockId} {test : Block → Bool} {w w' : Workshop}
    (h : enclosing id test w = .ok home w') :
    w = w' ∧ ∃ b, w.blocks[home]? = some b ∧ test b = true := by
  have hfound := get_bind_eq_ok.1 h
  cases hsome : w.enclosing? id test with
  | none =>
    rw [hsome] at hfound
    exact absurd hfound throw_ne_ok
  | some found =>
    rw [hsome] at hfound
    obtain ⟨rfl, rfl⟩ := pure_eq_ok.1 hfound
    have hany : w.blocks[found]?.any test = true := by
      simpa using List.find?_some (show (w.lineage id).find? _ = some found from hsome)
    cases hb : w.blocks[found]? with
    | none => simp [hb] at hany
    | some b => exact ⟨rfl, b, rfl, by simpa [hb] using hany⟩

theorem noted (aid : Aid) {f : Program → Program}
    (hle : ∀ p aid, p.provides aid = true → (f p).provides aid = true)
    (hf : ∀ p, (f p).provides aid = true) {w w' : Workshop}
    (h : (do changeProgram (← enclosing id (·.isModule)) f) w = .ok () w') :
    w'.config = w.config ∧ Tended x w w' ∧ w'.Provides aid := by
  obtain ⟨home, w1, hhome, hchange⟩ := bind_eq_ok.1 h
  obtain ⟨rfl, b, hb, hmodule⟩ := of_enclosing hhome
  obtain rfl := modify_eq_ok.1 hchange
  refine ⟨rfl, .edit fun b _ => mild_mapProgram hle, ?_⟩
  cases hform : b.form with
  | program p =>
    refine ⟨home, _, f p, (Workshop.edit_get_self w home _).trans (by rw [hb]; rfl), ?_, hf p⟩
    simp [hform, mapProgram]
  | _ => simp [isModule, hform] at hmodule

/-! ### What the settings are asked -/

theorem tends_call {part : String} {args : List Value} (h : Asked id part args)
    (form : Form) (texts : Fill.Texts) :
    Stepwise (Tends x)
      ((Config.standard.last (form.settingKey ++ part ++ "Handler") .none).call texts args) := by
  refine h.standard (P := fun v args => Stepwise (Tends x) (v.call texts args)) form (keeps_throw _ _)
    (fun text => ?_) (fun base => ?_) (fun name => ?_) fun index text => keeps_pure _
  · refine keeps_bind (keeps_pure _) fun i => keeps_result (tends_change _ fun b => ?_)
    exact mild_mapExpr fun _ ht => absurd ht (by decide : Slot.right ∉ Slot.shifts)
  · refine keeps_bind (keeps_pure _) fun s => keeps_bind ?_ fun _ => keeps_pure _
    refine keeps_bind keeps_get fun w => ?_
    exact keeps_result (keeps_modify fun _ => .of_blocks_eq rfl rfl)
  · refine keeps_bind (keeps_pure _) fun i => ?_
    exact keeps_result (tends_comment _ _ _ (by decide))

theorem tends_setting {α : Type} (id : BlockId) (part : String) {k : Value → Build α}
    (hk : ∀ v, (∀ args, Asked id part args → Stepwise (Tends x) (callSetting v args)) →
      Stepwise (Tends x) (k v)) :
    Stepwise (Tends x) (setting id part "Handler" .none >>= k) := by
  intro w a w' hrun
  by_cases hw : w.config = .standard
  · obtain ⟨v, w1, hsetting, hrest⟩ := bind_eq_ok.1 hrun
    obtain ⟨b, hb⟩ : ∃ b, w.blocks[id]? = some b := by
      have h1 := get_bind_eq_ok.1 hsetting
      obtain ⟨name, w4, hname, -⟩ := bind_eq_ok.1 h1
      obtain ⟨b, w5, hblock, -⟩ := bind_eq_ok.1 hname
      exact ⟨b, (block_eq_ok.1 hblock).1⟩
    rw [setting_standard hw hb] at hsetting
    cases hsetting
    refine hk _ (fun args hargs => ?_) hrest
    refine keeps_bind (keeps_bind keeps_get fun _ => keeps_pure _) fun p => ?_
    exact keeps_result (tends_call hargs b.form p.texts)
  · exact .single fun h => absurd h hw

end Build

end

theorem Workshop.adjoin_form_new (w : Workshop) (b : Block) :
    ∃ b', (w.adjoin b).blocks[w.blocks.size]? = some b' ∧ b'.form = b.form := by
  unfold adjoin
  cases b.parent with
  | none => exact ⟨b, Array.getElem?_push_size, rfl⟩
  | some parent =>
    rw [Array.getElem?_modify, Array.getElem?_push_size]
    split
    · exact ⟨_, rfl, rfl⟩
    · exact ⟨b, rfl, rfl⟩

/-! ## Modifiers -/

/-- In a list of modifiers, the one with the text of a keyword is that keyword. -/
def Source.Tree.Worded (t : Tree) : Prop :=
  t.kind = .modifierList → ∀ u ∈ t.children, u.text = "synchronized" → u.kind = .synchronizedWord

/-- A workshop with the standard settings in which a block is of some sort. -/
structure Workshop.Sorted (id : BlockId) (sort : String) (w : Workshop) : Prop where
  config : w.config = .standard
  block : ∃ b, w.blocks[id]? = some b ∧ b.form.sortName = sort

theorem Workshop.Sorted.of_tends {id : BlockId} {sort : String} {w w' : Workshop}
    {x : Aid → Prop} (h : w.Sorted id sort) (ht : Tends x w w') : w'.Sorted id sort := by
  obtain ⟨hconfig, htended⟩ := ht h.config
  obtain ⟨b, hb, hs⟩ := h.block
  obtain ⟨b', hb', hs'⟩ := htended.sort hb
  exact ⟨hconfig, b', hb', hs'.trans hs⟩

theorem Form.eq_method_of_sortName {form : Form} (h : form.sortName = "Method") : form = .method := by
  cases form <;> simp_all [sortName]

namespace Modifier

variable {id : BlockId} {d c : Cursor} {w w' : Workshop} {sort : String}

/-- A method that visits its keyword for synchronization lets the module take note of the locks. -/
theorem provides_of_walkUpTo {fuel : Nat} (hsort : w.Sorted id "Method") (hkind : d.kind = .synchronizedWord)
    (hparent : d.parentKind? = some .modifierList)
    (run : walkUpTo fuel id d w = .ok () w') : w'.Provides .locks := by
  cases fuel with
  | zero => exact absurd run throw_ne_ok
  | succ fuel =>
    obtain ⟨b, hb, run⟩ := block_bind_eq_ok.1 run
    have hmethod : b.form = .method := by
      obtain ⟨b', hb', hs⟩ := hsort.block
      obtain rfl := Option.some.inj (hb.symm.trans hb')
      exact eq_method_of_sortName hs
    rw [if_neg (by simp [isExpression, hmethod, Form.expr?])] at run
    obtain ⟨_, w2, hstart, run⟩ := bind_eq_ok.1 run
    obtain ⟨visitor, w3, haccept, run⟩ := bind_eq_ok.1 run
    have hsort2 := hsort.of_tends (.of_reaches (tends_takeComments (x := fun _ => False) _ _ _ hstart))
    obtain ⟨b2, hb2, hs2⟩ := hsort2.block
    obtain ⟨b2', hb2', haccept⟩ := block_bind_eq_ok.1 haccept
    obtain rfl := Option.some.inj (hb2.symm.trans hb2')
    rw [eq_method_of_sortName hs2] at haccept
    simp only [acceptInMethod, hkind, Statement.accept] at haccept
    obtain ⟨_, w4, hlock, hnone⟩ := bind_eq_ok.1 haccept
    obtain ⟨rfl, rfl⟩ := pure_eq_ok.1 hnone
    -- The module takes note; there is nothing to lock here.
    obtain ⟨home, w5, hhome, hlock⟩ := bind_eq_ok.1 hlock
    obtain ⟨_, w6, hnote, hlock⟩ := bind_eq_ok.1 hlock
    obtain ⟨kind, w7, hdemand, hlock⟩ := bind_eq_ok.1 hlock
    rw [hparent] at hdemand
    obtain ⟨rfl, rfl⟩ := pure_eq_ok.1 hdemand
    obtain ⟨-, rfl⟩ := pure_eq_ok.1 hlock
    obtain ⟨hconfig, -, hprovides⟩ := noted (x := fun _ => False) .locks
      (f := fun p => { p with needsLocks := true })
      (fun p aid h => by cases aid <;> first | exact h | rfl) (fun p => rfl)
      (bind_eq_ok.2 ⟨home, w5, hhome, hnote⟩)
    have hstandard := hconfig.trans hsort2.config
    obtain ⟨_, w8, hstop, run⟩ := bind_eq_ok.1 run
    rw [if_neg (by rw [hkind]; decide)] at run
    have hstop' := Tends.of_reaches (tends_takeComments (x := fun _ => False) _ _ _ hstop) hstandard
    exact (Tends.of_reaches (tends_mutate (x := fun _ => False) id run) hstop'.1).2.provides
      (hstop'.2.provides hprovides)

/-- What a list of modifiers leaves open: a method that is synchronized needs locks. -/
def LeftOpen (c : Cursor) (sort : String) (aid : Aid) : Prop :=
  aid = .locks ∧ sort = "Method" ∧ ∃ d ∈ c.children, d.text = "synchronized"

/-- With more modifiers, a block leaves open what the list leaves open. -/
theorem mild_of_modifiers {b b' : Block} (hform : b'.form = b.form)
    (h : ∀ m ∈ b'.modifiers, m ∈ b.modifiers ∨ ∃ d ∈ c.children, d.text = m) :
    b.Mild (LeftOpen c b.form.sortName) b' where
  sort := by rw [hform]
  provides p hp := ⟨p, hform.trans hp, fun _ h => h⟩
  calls aid hc := by
    cases aid with
    | locks =>
      cases hb : b.form with
      | method =>
        have hmem : "synchronized" ∈ b'.modifiers := by
          simpa [Block.calls, hform, hb] using hc
        rcases h _ hmem with hold | hnew
        · exact .inl (by simpa [Block.calls, hb] using hold)
        · exact .inr ⟨rfl, rfl, hnew⟩
      | statement keyword opening => exact .inl (by simpa [Block.calls, hform, hb] using hc)
      | _ => simp [Block.calls, hform, hb] at hc
    | _ => exact .inl (by simpa [Block.calls, isInterface, hform] using hc)

theorem tends_keep (hd : d ∈ c.children) (hsort : w.Sorted id sort) (run : keep id c d w = .ok () w') :
    Tends (LeftOpen c sort) w w' := by
  have hchange : ∀ {f : Block → Block} {w w' : Workshop}, w.Sorted id sort →
      change id f w = .ok () w' → (∀ b, (f b).form = b.form) →
      (∀ b, ∀ m ∈ (f b).modifiers, m ∈ b.modifiers ∨ ∃ d ∈ c.children, d.text = m) →
      Tends (LeftOpen c sort) w w' := by
    intro f w w' hsort run hform hmodifiers
    obtain rfl := modify_eq_ok.1 run
    refine .of_tended rfl (.edit fun b hb => ?_)
    obtain ⟨b', hb', rfl⟩ := hsort.block
    obtain rfl := Option.some.inj (hb.symm.trans hb')
    exact mild_of_modifiers (hform b) (hmodifiers b)
  have hlast : ∀ {w w' : Workshop}, w.Sorted id sort →
      change id (fun b => { b with modifiers := b.modifiers ++ [d.text] }) w = .ok () w' →
      Tends (LeftOpen c sort) w w' := fun hsort run => by
    refine hchange hsort run (fun _ => rfl) fun b m hm => ?_
    rcases List.mem_append.1 hm with hm | hm
    · exact .inl hm
    · exact .inr ⟨d, hd, (List.mem_singleton.1 hm).symm⟩
  unfold keep at run
  dsimp only at run
  split at run
  · obtain ⟨_, w1, hall, run⟩ := bind_eq_ok.1 run
    have hfirst : Tends (LeftOpen c sort) w w1 := by
      refine hchange hsort hall (fun b => ?_) fun b m hm => ?_
      · split
        · split <;> rfl
        · rfl
      · have hmem : m ∈ b.modifiers ++ c.children.map Cursor.text := by
          split at hm
          · split at hm <;> exact hm
          · exact hm
        rcases List.mem_append.1 hmem with hm | hm
        · exact .inl hm
        · obtain ⟨e, he, rfl⟩ := List.mem_map.1 hm
          exact .inr ⟨e, he, rfl⟩
    exact hfirst.trans (hlast (hsort.of_tends hfirst) run)
  · exact hlast hsort run

/-- A loop that keeps to a relation as long as a block is of some sort. -/
theorem tends_forM {α : Type} {x : Aid → Prop} {as : List α} {f : α → Build PUnit}
    (h : ∀ a ∈ as, ∀ {w w' : Workshop}, w.Sorted id sort → f a w = .ok () w' → Tends x w w')
    (hsort : w.Sorted id sort) (run : as.forM f w = .ok () w') : Tends x w w' := by
  induction as generalizing w with
  | nil =>
    obtain ⟨-, rfl⟩ := pure_eq_ok.1 run
    exact .refl x w
  | cons a as ih =>
    obtain ⟨_, w1, hfirst, hrest⟩ := bind_eq_ok.1 run
    have hstep := h a (.head _) hsort hfirst
    exact hstep.trans (ih (fun b hb => h b (.tail _ hb)) (hsort.of_tends hstep) hrest)

theorem tends_accept (hannotate : ∀ d ∈ c.children, d.kind = .annotationUse →
      Stepwise (Tends fun _ => False) (annotate id d)) {visitor : Option BlockId} (hsort : w.Sorted id sort)
    (run : accept id c w = .ok visitor w') : Tends (LeftOpen c sort) w w' := by
  unfold accept at run
  rw [List.partition_eq_filter_filter] at run
  obtain ⟨_, w1, hannotations, run⟩ := bind_eq_ok.1 run
  obtain ⟨_, w2, hothers, run⟩ := bind_eq_ok.1 run
  obtain ⟨-, rfl⟩ := pure_eq_ok.1 run
  have hfirst : Tends (LeftOpen c sort) w w1 := by
    refine tends_forM (fun d hd w w' _ hrun => ?_) hsort hannotations
    obtain ⟨hmem, hkind⟩ := List.mem_filter.1 hd
    exact (Tends.of_reaches (hannotate d hmem (eq_of_beq hkind) hrun)).mono nofun
  refine hfirst.trans (tends_forM (fun d hd w w' hsort hrun => ?_) (hsort.of_tends hfirst) hothers)
  exact tends_keep (List.mem_filter.1 hd).1 hsort hrun

/-- The visits to the modifiers settle what the list has left open. -/
theorem provides_of_forM {fuel : Nat} {cs : List Cursor}
    (hwalk : ∀ d ∈ cs, Stepwise (Tends fun _ => False) (walkUpTo fuel id d)) (hd : d ∈ cs)
    (hkind : d.kind = .synchronizedWord)
    (hparent : d.parentKind? = some .modifierList)
    (hsort : w.Sorted id "Method")
    (run : (cs.forM fun child => do
      walkUpTo fuel id child
      takeComments id id child.head.stop) w = .ok () w') : w'.Provides .locks := by
  have hstep : ∀ e ∈ cs, Stepwise (Tends fun _ => False) (do
      walkUpTo fuel id e
      takeComments id id e.head.stop) := fun e he =>
    keeps_bind (hwalk e he) fun _ => tends_takeComments id id _
  induction cs generalizing w with
  | nil => cases hd
  | cons e cs ih =>
    obtain ⟨_, w1, hfirst, hrest⟩ := bind_eq_ok.1 run
    have htends := Tends.of_reaches (hstep e (.head _) hfirst)
    have htail : ∀ a ∈ cs, a ∈ e :: cs := fun a ha => .tail _ ha
    rcases List.mem_cons.1 hd with rfl | hd
    · -- This is the keyword; what follows loses nothing.
      obtain ⟨_, w2, hvisit, hcomments⟩ := bind_eq_ok.1 hfirst
      have hprovides := provides_of_walkUpTo hsort hkind hparent hvisit
      have hsort2 := hsort.of_tends (.of_reaches (hwalk d (.head _) hvisit))
      have hprovides1 := (Tends.of_reaches
        (tends_takeComments (x := fun _ => False) _ _ _ hcomments) hsort2.config).2.provides hprovides
      have hend := Tends.of_reaches (keeps_forM (fun a ha => hstep a (htail a ha)) hrest)
      exact (hend (hsort.of_tends htends).config).2.provides hprovides1
    · exact ih (fun a ha => hwalk a (htail a ha)) hd (hsort.of_tends htends) hrest
        fun a ha => hstep a (htail a ha)

end Modifier

theorem Variable.tends_announce (id : BlockId) (c declarator : Cursor) :
    Stepwise (Tends fun _ => False) (announce id c declarator) := by
  intro w u w' h
  obtain ⟨name, w1, hname, h1⟩ := bind_eq_ok.1 h
  obtain ⟨_, w2, hnote, h2⟩ := bind_eq_ok.1 h1
  obtain ⟨declared, w3, hexpr, h3⟩ := bind_eq_ok.1 h2
  obtain ⟨type, w4, htype, h4⟩ := bind_eq_ok.1 h3
  obtain ⟨_, w5, hset, h5⟩ := bind_eq_ok.1 h4
  have hread : w3 = w4 := by
    rcases (keeps_typeText (r := fun _ _ => False) id c htype).cases_head with rfl | ⟨_, h, -⟩
    · rfl
    · exact h.elim
  subst hread
  obtain rfl : w = w1 := by
    obtain ⟨_, w6, hdemand, hpure⟩ := bind_eq_ok.1 hname
    obtain ⟨-, rfl⟩ := pure_eq_ok.1 hpure
    rcases (keeps_demand (r := fun _ _ => False) _ hdemand).cases_head with rfl | ⟨_, h, -⟩
    · rfl
    · exact h.elim
  refine .single fun hw => ?_
  have hnoted : Tends (fun _ => False) w w2 := .of_reaches (tends_change id
    (f := fun b => { b with declared := b.declared ++ [name] }) (fun _ => mild_of_form rfl rfl) hnote)
  have hmade : Tends (fun _ => False) w2 w3 :=
    .of_reaches (tends_expr (some id) (.text name) _ (by decide) hexpr)
  have htyped : Tends (fun _ => False) w3 w5 := .of_reaches (tends_change declared
    (f := fun b => { b with type := some type }) (fun _ => mild_of_form rfl rfl) hset)
  have hbefore := (hnoted.trans hmade).trans htyped
  -- The new block is an expression, so its modifiers say nothing about locks.
  have hsort : w5.Sorted declared "Expression" := by
    refine Workshop.Sorted.of_tends ⟨((hnoted.trans hmade) hw).1, ?_⟩ htyped
    rw [expr_apply] at hexpr
    cases hexpr
    obtain ⟨b, hb, hform⟩ := w2.adjoin_form_new _
    exact ⟨b, hb, by rw [hform]; rfl⟩
  have hlast : Tends (fun _ => False) w5 w' := by
    cases hlist : c.child? .modifierList with
    | none =>
      simp only [hlist] at h5
      obtain ⟨-, rfl⟩ := pure_eq_ok.1 h5
      exact .refl _ _
    | some list =>
      simp only [hlist] at h5
      obtain ⟨_, w6, hmodifiers, h6⟩ := bind_eq_ok.1 h5
      obtain ⟨-, rfl⟩ := pure_eq_ok.1 h6
      rw [change_apply] at hmodifiers
      cases hmodifiers
      refine .of_tended rfl (.edit fun b hb => mild_of_not_method rfl ?_)
      obtain ⟨b', hb', hs⟩ := hsort.block
      obtain rfl := Option.some.inj (hb.symm.trans hb')
      cases hform : b.form <;> simp_all [sortName, isMethod]
  exact hbefore.trans hlast hw

/-! ## The whole walk -/

/-- A helper for shifts is called, and the module takes note of it. -/
theorem Build.tends_shift (id : BlockId) {template : String} {m : Build Unit}
    (hm : Stepwise (Tends fun _ => False) m) :
    Stepwise (Tends fun _ => False) (do
      setTemplate id template
      m
      Expression.needShift id) := by
  intro w u w' run
  refine .single fun hw => ?_
  obtain ⟨_, w1, htemplate, run⟩ := bind_eq_ok.1 run
  obtain ⟨_, w2, hoperands, hneed⟩ := bind_eq_ok.1 run
  have hset : Tends (· = .shift) w w1 := .of_reaches
    (tends_change (x := (· = .shift)) id (fun _ => mild_mapExpr fun _ _ => .inr rfl) htemplate)
  have hbefore := hset.trans (.of_reaches (tends_of_noted hm hoperands)) hw
  obtain ⟨hconfig, htended, hprovides⟩ := noted (x := (· = .shift)) .shift
    (f := fun p => { p with needsShift := true })
    (fun p aid h => by cases aid <;> first | exact h | rfl) (fun _ => rfl) hneed
  refine ⟨hconfig.trans hbefore.1, (hbefore.2.trans htended).settle ?_⟩
  rintro aid rfl
  exact hprovides

/-- The module takes note of a helper, and then it is used. -/
theorem Build.tends_noting (aid : Aid) {f : Program → Program}
    (hle : ∀ p aid, p.provides aid = true → (f p).provides aid = true)
    (hf : ∀ p, (f p).provides aid = true) {α : Type} {m : Build α} (hm : Stepwise (Tends (· = aid)) m)
    {id : BlockId} : Stepwise (Tends fun _ => False) (do
      let home ← enclosing id (·.isModule)
      changeProgram home f
      m) := by
  intro w u w' run
  refine .single fun hw => ?_
  obtain ⟨home, w1, hhome, run⟩ := bind_eq_ok.1 run
  obtain ⟨_, w2, hnote, run⟩ := bind_eq_ok.1 run
  obtain ⟨hconfig, htended, hprovides⟩ := noted (x := (· = aid)) aid hle hf
    (bind_eq_ok.2 ⟨home, w1, hhome, hnote⟩)
  have hafter := Tends.of_reaches (hm run) (hconfig.trans hw)
  refine ⟨hafter.1, (htended.trans hafter.2).settle ?_⟩
  rintro _ rfl
  exact hafter.2.provides hprovides

theorem Build.tends_lock (id : BlockId) (parent : Option Kind) {m : BlockId → Build Unit}
    (hm : ∀ stat, Stepwise (Tends fun _ => False) (m stat)) :
    Stepwise (Tends fun _ => False) (Statement.locked id parent m) := by
  refine tends_noting .locks (fun p aid h => by cases aid <;> first | exact h | rfl) (fun _ => rfl) ?_
  refine keeps_bind (keeps_demand _) fun kind => ?_
  split
  · refine keeps_bind (keeps_setting id _ _ _) fun lock => ?_
    refine keeps_bind (tends_statement _ (fun _ => rfl) ?_) fun stat => tends_of_noted (hm stat)
    exact Slot.plain_append _ (by decide)
  · exact keeps_pure _

theorem Build.tends_declareInterface (id : BlockId) (c : Cursor) :
    Stepwise (Tends fun _ => False) (declareInterface id c) :=
  tends_noting .abstract (fun p aid h => by cases aid <;> first | exact h | rfl) (fun _ => rfl)
    (tends_declareType (by rintro p ⟨⟩) (by rintro (_ | _ | _) ⟨⟩; rfl) id c)

/-- The modifiers of a type or method are kept, and then each of them is visited. -/
theorem Modifier.tends_visits {fuel : Nat} {id : BlockId} {c : Cursor} (hc : c.tree.Worded)
    (hkind : c.kind = .modifierList)
    (hannotate : ∀ d ∈ c.children, d.kind = .annotationUse → Stepwise (Tends fun _ => False) (annotate id d))
    (hwalk : ∀ d ∈ c.children, Stepwise (Tends fun _ => False) (walkUpTo fuel id d)) :
    Stepwise (Tends fun _ => False) (do
      let _ ← block id
      let _ ← Modifier.accept id c
      c.children.forM fun child => do
        walkUpTo fuel id child
        takeComments id id child.head.stop) := by
  intro w u w' run
  refine .single fun hw => ?_
  obtain ⟨b, hb, run⟩ := block_bind_eq_ok.1 run
  obtain ⟨visitor, w2, haccept, run⟩ := bind_eq_ok.1 run
  have hsort : w.Sorted id b.form.sortName := ⟨hw, b, hb, rfl⟩
  have hopen := Modifier.tends_accept hannotate hsort haccept
  have hsort2 := hsort.of_tends hopen
  have hvisits := Tends.of_reaches (keeps_forM
    (fun d hd => keeps_bind (hwalk d hd) fun _ => tends_takeComments id id d.head.stop) run)
  have hafter := hvisits hsort2.config
  refine ⟨hafter.1, ((hopen hw).2.trans (hafter.2.mono nofun)).settle ?_⟩
  rintro aid ⟨rfl, hmethod, d, hd, htext⟩
  obtain ⟨t, ht, rfl⟩ := List.mem_map.1 hd
  refine Modifier.provides_of_forM hwalk hd (hc hkind t ht htext) ?_ (hmethod ▸ hsort2) run
  exact congrArg some hkind

open Bond in
/-- All work of a walk with the standard settings lets the module take note of what it needs, in
trees in which modifiers with the text of a keyword are that keyword. -/
theorem lawful_tends :
    (Bond.steps (Tends fun _ => False)).Lawful (Kin.same (Tree.Throughout Tree.Worded)) where
  agree_block _ := agree_steps_block _
  makes_opening _ := makes_steps (keeps_opening _)
  makes_enclosing _ _ := makes_steps (keeps_enclosing _ _)
  does_qualify _ _ := does_steps (keeps_qualify _ _)
  does_setLeft _ _ := does_steps (tends_change _ fun _ => mild_mapExpr fun _ h => .inl h)
  does_setRight _ _ := does_steps (tends_change _ fun _ => mild_mapExpr fun _ h => .inl h)
  does_setTemplate ht _ := does_steps (tends_change _ fun _ => mild_mapExpr fun _ h => absurd h ht)
  makes_expr ht _ := makes_steps (tends_expr _ _ _ ht)
  makes_method _ _ _ := makes_steps (tends_create ⟨rfl, fun aid hc => by cases aid <;> cases hc⟩)
  makes_statement hk ht _ := makes_steps (tends_statement _ (fun h => absurd h hk) ht)
  makes_content _ := makes_steps (tends_create ⟨rfl, fun aid hc => by cases aid <;> cases hc⟩)
  does_adopt ht _ := by
    refine does_steps (keeps_bind (tends_expr _ _ _ ht) fun _ => ?_)
    rw [adopt_eq]
    exact keeps_bind (tends_change _ fun _ => mild_of_form rfl rfl) fun _ =>
      tends_change _ fun _ => mild_of_form rfl rfl
  does_report _ _ := does_steps (tends_report _ _)
  does_amend hf _ := does_steps (tends_change _ fun b => mild_of_form (hf b).form (hf b).modifiers)
  does_release _ _ := by
    refine does_steps (keeps_bind (keeps_block _) fun b => ?_)
    split
    · exact tends_change _ fun _ => mild_of_form rfl rfl
    · exact keeps_throw _ _
  hands_declareType hform _ _ _ := by
    have hall : ∀ form ∈ [annotationType, .plainClass, .enumeration],
        (∀ p, form ≠ .program p) ∧ ∀ aid, ({ form } : Block).calls aid = false := by
      simp [Block.calls, Form.expr?, isInterface, Aid.forall_iff]
    refine hands_steps (tends_declareType (hall _ hform).1 (fun aid hc => ?_) _ _)
    rw [(hall _ hform).2 aid] at hc
    cases hc
  does_before _ _ _ := does_steps (tends_takeComments _ _ _)
  does_after _ _ _ := does_steps (tends_takeComments _ _ _)
  does_rest _ := does_steps (keeps_bind keeps_get fun _ => tends_takeComments _ _ _)
  does_mutate _ := does_steps (tends_mutate _)
  does_setting _ hk := does_steps (tends_setting _ _ fun v hcall =>
    (hk v fun args hargs => does_steps (hcall args hargs)).stepwise)
  does_shift _ _ hm := does_steps (tends_shift _ hm.stepwise)
  does_lock {n _} parent m m' _ hm := does_steps (tends_lock _ parent fun stat =>
    (hm (n + stat + 1) stat (by omega) (Nat.lt_succ_of_le (Nat.le_add_left _ _))).stepwise)
  hands_declareInterface _ _ _ := hands_steps (tends_declareInterface _ _)
  agree_announce _ _ _ _ _ := agree_steps_pair (Variable.tends_announce _ _ _)
  does_modifiers hc hkind _ hannotate hwalk := by
    obtain ⟨rfl, hc⟩ := hc
    have hchild {d : Cursor} (hd : d ∈ _) : (Kin.same (Tree.Throughout Tree.Worded)).akin d d :=
      ⟨rfl, hc.child hd⟩
    refine does_steps (Modifier.tends_visits hc.tree.here hkind
      (fun d hd hkind => (hannotate d d (hchild hd) hd hkind).stepwise) fun d hd => ?_)
    exact (hwalk d d ⟨hchild hd, Cursor.height_child hd, Cursor.height_child hd⟩ hd).stepwise
  does_alone h _ _ _ _ _ := h.elim

end Transcriber
