import Transcriber.Proofs.Block.Forest
import Transcriber.Proofs.Comment.Silent
import Transcriber.Proofs.Pair.Lawful
import Transcriber.Proofs.Print.Standard

/-!
# Workshops in tandem

Two workshops with the standard settings and the same blocks: all work of a walk is done alike in
both of them, and is a sequence of acts on blocks, up to success or failure.  The reports may differ.
The trails may differ as well if there are no comments among the tokens of either; then the second
run may even make stops that the first does not make.

* `Bond.tandem_lawful` — the bond is lawful.
-/

namespace Transcriber

open Build Relation Source

/-! ## Opening lines -/

def Form.line? : Form → Option BlockId
  | .statement _ line => some line
  | _ => none

theorem Form.line_mapExpr (form : Form) (f : Expr → Expr) : (form.mapExpr f).line? = form.line? := by
  cases form <;> rfl

theorem Form.line_mapProgram (form : Form) (f : Program → Program) :
    (form.mapProgram f).line? = form.line? := by
  cases form <;> rfl

/-- The opening lines of all statements are there. -/
def Workshop.Lined (w : Workshop) : Prop :=
  ∀ (i : Nat) (b : Block), w.blocks[i]? = some b → ∀ line : Nat, b.form.line? = some line → line < w.blocks.size

namespace Workshop.Lined

variable {w : Workshop} (h : w.Lined)
include h

theorem edit (k : BlockId) {f : Block → Block} (hf : ∀ b (line : Nat),
      (f b).form.line? = some line → b.form.line? = some line ∨ line < w.blocks.size) :
    (w.edit k f).Lined := by
  intro i b hb line hline
  rw [edit_size]
  rw [edit_get] at hb
  split at hb
  · obtain ⟨b, hget, rfl⟩ := Option.map_eq_some_iff.1 hb
    exact (hf b line hline).elim (h i b hget line) id
  · exact h i b hb line hline

theorem adjoin {b : Block} (hb : ∀ line : Nat, b.form.line? = some line → line < w.blocks.size + 1) :
    (w.adjoin b).Lined := by
  intro i c hc line hline
  rw [adjoin_size]
  have hform : c.form = b.form ∨ ∃ d, w.blocks[i]? = some d ∧ c.form = d.form := by
    unfold Workshop.adjoin at hc
    cases hparent : b.parent with
    | none =>
      simp only [hparent, Array.getElem?_push] at hc
      grind
    | some p =>
      simp only [hparent, Array.getElem?_modify, Array.getElem?_push] at hc
      grind
  rcases hform with hform | ⟨d, hd, hform⟩
  · exact hb line (hform ▸ hline)
  · exact Nat.lt_succ_of_lt (h i d hd line (hform ▸ hline))

theorem adjoin_plain {b : Block} (hb : b.form.line? = none) : (w.adjoin b).Lined :=
  h.adjoin (by rw [hb]; nofun)

theorem of_blocks {w' : Workshop} (hblocks : w'.blocks = w.blocks) : w'.Lined := by
  unfold Lined
  rw [hblocks]
  exact h

end Workshop.Lined

/-! ## New blocks -/

section

variable [Chronicle] (w : Workshop) (b : Block)

/-- The workshop with a new block, which is the last child of its parent if it has one, and both moments
remembered. -/
def Workshop.made : Workshop :=
  match b.parent with
  | none => (w.place b).remember
  | some parent => ((w.place b).remember.joined w.blocks.size parent).remember

namespace Workshop

theorem made_blocks : (w.made b).blocks = (w.adjoin b).blocks := by
  unfold made adjoin
  cases b.parent <;> rfl

theorem remember_blocks : w.remember.blocks = w.blocks := rfl

theorem remember_size : w.remember.blocks.size = w.blocks.size := rfl

theorem made_config : (w.made b).config = w.config := by
  unfold made
  cases b.parent <;> rfl

theorem made_aside (report : Report) (trail : Trail) :
    made { w with report, trail } b = { w.made b with report, trail } := by
  unfold made
  cases b.parent <;> rfl

theorem parentOf_made (hloose : b.parent = none) : (w.made b).parentOf w.blocks.size = none := by
  unfold made
  rw [hloose]
  exact (parentOf_place w w.blocks.size).trans ((if_pos rfl).trans hloose)

omit [Chronicle] in
theorem adjoin_congr {v : Workshop} (h : v.blocks = w.blocks) : (v.adjoin b).blocks = (w.adjoin b).blocks := by
  unfold adjoin
  rw [h]

end Workshop

namespace Build

theorem create_made : create b w = .ok w.blocks.size (w.made b) := by
  unfold create Workshop.made
  cases b.parent <;> rfl

theorem statement_made (parent : Option BlockId) (keyword template : String) :
    statement parent keyword template w = .ok w.blocks.size
      (((((w.made { form := .statement keyword 0, parent }).made
          { form := .expression { left := .text keyword, template } }).hung (w.blocks.size + 1)
            w.blocks.size).remember.edit w.blocks.size
              fun b => { b with form := .statement keyword (w.blocks.size + 1) }).remember) := by
  unfold statement
  rw [bind_of_ok (create_made w _), looseExpr, expr, bind_of_ok (create_made _ _), Workshop.made_blocks,
    Workshop.adjoin_size]
  rfl

end Build

variable {w b}

theorem made_acts (hgrove : w.Grove) (hparent : ∀ p, b.parent = some p → p < w.blocks.size)
    (hchildren : b.children = []) : Acts w (w.made b) := by
  have hmake : Acts w (w.place b).remember := .single (.make w b hparent hchildren)
  unfold Workshop.made
  cases hp : b.parent with
  | none => exact hmake
  | some parent =>
    refine .tail hmake (.join _ _ _ ?_ ?_)
    · exact (Workshop.parentOf_place w w.blocks.size).trans ((if_pos rfl).trans hp)
    · intro hmem
      have hold : w.blocks.size ∈ w.childrenOf parent := by
        rw [← Workshop.childrenOf_place w parent hchildren]
        exact hmem
      have hnone := Workshop.parentOf_eq_none_of_le w w.blocks.size (Nat.le_refl _)
      exact hgrove.not_mem_childrenOf hnone parent hold

end

/-! ## The bond -/

/-- Two workshops have the same blocks, which are a forest.  In quiet there are no comments. -/
structure Tandem (quiet : Bool) (n : Nat) (w w' : Workshop) : Prop where
  known : n ≤ w.blocks.size
  same : w' = { w with report := w'.report, trail := w'.trail }
  config : w.config = .standard
  trail : if quiet then w.trail.Silent ∧ w'.trail.Silent else w'.trail = w.trail
  grove : w.Grove
  lined : w.Lined

/-- The bond between workshops with the same blocks. -/
def Bond.tandem [Chronicle] (quiet : Bool) : Bond where
  rel := Tandem quiet
  act := Act
  lost w0 w _ := Acts w0 w
  rel_of_le hle h := { h with known := Nat.le_trans hle h.known }
  rel_after h hacts h' := { h' with known := Nat.le_trans h.known (Acts.size_le hacts) }
  lost_of_rel _ := .refl
  lost_after hacts h := ReflTransGen.trans hacts h

theorem Build.outermost_congr {w w' : Workshop} (h : w'.blocks = w.blocks) (id : BlockId) :
    outermost w' w'.blocks.size id = outermost w w.blocks.size id := by
  rw [h]
  generalize w.blocks.size = fuel
  induction fuel generalizing id with
  | zero => rfl
  | succ fuel ih =>
    unfold outermost
    rw [h]
    cases w.blocks[id]?.bind (·.parent) with
    | none => rfl
    | some p =>
      dsimp only
      rw [ih]

theorem Build.outermost_lt {w : Workshop} (fuel : Nat) {id : Nat} (h : id < w.blocks.size) :
    outermost w fuel id < w.blocks.size := by
  induction fuel generalizing id with
  | zero => exact h
  | succ fuel ih =>
    unfold Build.outermost
    split
    · exact h
    · split
      next p _ hany =>
        refine ih ?_
        by_contra hlt
        rw [Array.getElem?_eq_none (Nat.le_of_not_lt hlt)] at hany
        cases hany
      next => exact h

namespace Bond.tandem

variable {α β : Type} {quiet : Bool} {n i : Nat} {w w' : Workshop}

theorem blocks_eq (h : Tandem quiet n w w') : w'.blocks = w.blocks := by rw [h.same]

theorem get_of_lt (h : Tandem quiet n w w') (hi : i < n) :
    ∃ b, w.blocks[i]? = some b ∧ w'.blocks[i]? = some b := by
  have hlt : i < w.blocks.size := Nat.lt_of_lt_of_le hi h.known
  refine ⟨w.blocks[i], Array.getElem?_eq_getElem hlt, ?_⟩
  rw [blocks_eq h]
  exact Array.getElem?_eq_getElem hlt

theorem enclosing_eq (h : Tandem quiet n w w') (i : BlockId) (test : Block → Bool) :
    w'.enclosing? i test = w.enclosing? i test := by
  unfold Workshop.enclosing? Workshop.lineage
  rw [blocks_eq h]

/-- Something is done in both workshops that is not about blocks. -/
theorem aside {v v' : Workshop} (h : Tandem quiet n w w') (hblocks : v.blocks = w.blocks)
    (hsame : v' = { v with report := v'.report, trail := v'.trail }) (hconfig : v.config = w.config)
    (htrail : if quiet then v.trail.Silent ∧ v'.trail.Silent else v'.trail = v.trail) :
    Tandem quiet n v v' := by
  refine ⟨by rw [hblocks]; exact h.known, hsame, hconfig.trans h.config, htrail,
    h.grove.of_blocks hblocks, ?_⟩
  intro i b hb line hline
  rw [hblocks] at hb ⊢
  exact h.lined i b hb line hline

/-- Where there are no comments, the second workshop may move on alone. -/
theorem moved_second (h : Tandem true n w w') (stop : Int) :
    Tandem true n w { w' with trail := { w'.trail with last := stop } } := by
  have htrail : w.trail.Silent ∧ w'.trail.Silent := h.trail
  exact { h with same := by rw [h.same], trail := ⟨htrail.1, htrail.2⟩ }

variable [Chronicle]

/-- Work that is made of acts and does the same whatever the report and the trail. -/
theorem agree_apply {Q : Nat → α → α → Prop} {m : Build α} {a : Workshop → α}
    {f : Workshop → Workshop} (hrun : ∀ w, m w = .ok (a w) (f w))
    (ha : ∀ w report trail, a { w with report, trail } = a w)
    (hf : ∀ w report trail, f { w with report, trail } = { f w with report, trail })
    (hconfig : ∀ w, (f w).config = w.config)
    (hacts : ∀ w, n ≤ w.blocks.size → w.Grove → Acts w (f w))
    (hlined : ∀ w, w.Lined → (f w).Lined)
    (hQ : ∀ w, n ≤ w.blocks.size → Q (f w).blocks.size (a w) (a w)) :
    (tandem quiet).Agree n Q m m := by
  intro w w' h
  have hacts := hacts w h.known h.grove
  have htrail : (f w).trail = w.trail := by
    rw [show f w = { f w with report := w.report, trail := w.trail } from hf w w.report w.trail]
  have hsame : f w' = { f w with report := w'.report, trail := w'.trail } := by
    conv_lhs => rw [h.same]
    exact hf w _ _
  rw [hrun, hrun, hsame, show a w' = a w by rw [h.same]; exact ha w _ _]
  refine .ok (Nat.le_trans h.known (Acts.size_le hacts))
    ⟨Nat.le_refl _, rfl, (hconfig w).trans h.config, ?_, hacts.grove h.grove, hlined w h.lined⟩ hacts
    (hQ w h.known)
  rw [htrail]
  exact h.trail

theorem makes_create {b : Block} (hparent : ∀ p : Nat, b.parent = some p → p < n)
    (hchildren : b.children = []) (hline : b.form.line? = none) :
    (tandem quiet).Makes n (create b) (create b) := by
  refine agree_apply (fun w => create_made w b) (fun _ _ _ => rfl) (fun w _ _ => w.made_aside b _ _)
    (fun w => w.made_config b)
    (fun w hn hgrove => made_acts hgrove (fun p hp => Nat.lt_of_lt_of_le (hparent p hp) hn) hchildren)
    (fun w h => (h.adjoin_plain hline).of_blocks (w.made_blocks b)) fun w _ => ⟨rfl, ?_⟩
  rw [w.made_blocks, Workshop.adjoin_size]
  exact Nat.lt_succ_self _

theorem does_change {f : Block → Block} (hparent : ∀ b, (f b).parent = b.parent)
    (hchildren : ∀ b, (f b).children = b.children) (hline : ∀ b, (f b).form.line? = b.form.line?) :
    (tandem quiet).Does n (change i f) (change i f) :=
  agree_apply (a := fun _ => ()) (f := fun w => (w.edit i f).remember) (fun _ => rfl) (fun _ _ _ => rfl)
    (fun _ _ _ => rfl) (fun _ => rfl) (fun w _ _ => .single (.amend w i f hparent hchildren))
    (fun _ h => h.edit i fun b _ hb => .inl (hline b ▸ hb)) fun _ _ => rfl

theorem does_changeExpr (f : Expr → Expr) : (tandem quiet).Does n (changeExpr i f) (changeExpr i f) :=
  does_change (fun _ => rfl) (fun _ => rfl) fun b => b.form.line_mapExpr f

theorem does_changeProgram (f : Program → Program) :
    (tandem quiet).Does n (changeProgram i f) (changeProgram i f) :=
  does_change (fun _ => rfl) (fun _ => rfl) fun b => b.form.line_mapProgram f

theorem makes_statement (hi : i < n) (keyword template : String) :
    (tandem quiet).Makes n (statement (some i) keyword template) (statement (some i) keyword template) := by
  let first : Block := { form := .statement keyword 0, parent := some i }
  let second : Block := { form := .expression { left := .text keyword, template } }
  have hblocks (w : Workshop) : ((w.made first).made second).blocks
      = ((w.adjoin first).adjoin second).blocks := by
    rw [Workshop.made_blocks]
    exact (w.adjoin first).adjoin_congr second (w.made_blocks first)
  refine agree_apply (fun w => statement_made w (some i) keyword template) (fun _ _ _ => rfl)
    (fun w _ _ => ?_) (fun w => ?_) (fun w hn hgrove => ?_) (fun w h => ?_) fun w _ => ⟨rfl, ?_⟩
  · rw [Workshop.made_aside, Workshop.made_aside]
    rfl
  · exact (Workshop.made_config _ _).trans (Workshop.made_config _ _)
  · have hfirst : Acts w (w.made first) := made_acts hgrove
      (fun p hp => by cases hp; exact Nat.lt_of_lt_of_le hi hn) rfl
    have hsecond : Acts (w.made first) ((w.made first).made second) :=
      made_acts (hfirst.grove hgrove) (fun p hp => by cases hp) rfl
    refine .tail (.tail (hfirst.trans hsecond) (.hang _ _ _ ?_ (Nat.lt_succ_self _)))
      (.amend _ _ _ (fun _ => rfl) fun _ => rfl)
    have hloose := (w.made first).parentOf_made second rfl
    rw [Workshop.made_blocks, Workshop.adjoin_size] at hloose
    exact hloose
  · have hmade : (w.adjoin first).Lined :=
      h.adjoin fun line hline => Option.some.inj hline ▸ Nat.succ_pos _
    have hline := (hmade.adjoin_plain (b := second) rfl).of_blocks (hblocks w)
    have hhung := hline.edit (w.blocks.size + 1)
      (f := fun b => { b with parent := some w.blocks.size }) fun _ _ h => .inl h
    have hremembered := hhung.of_blocks (Workshop.remember_blocks _)
    refine (hremembered.edit w.blocks.size (f := fun b =>
      { b with form := .statement keyword (w.blocks.size + 1) }) fun b line h => .inr ?_).of_blocks rfl
    rw [Workshop.remember_size, Workshop.edit_size, hblocks, Workshop.adjoin_size, Workshop.adjoin_size,
      ← Option.some.inj h]
    exact Nat.lt_succ_self _
  · rw [Workshop.remember_size, Workshop.edit_size, Workshop.remember_size, Workshop.hung, Workshop.edit_size,
      hblocks, Workshop.adjoin_size, Workshop.adjoin_size]
    omega

theorem does_adopt (hi : i < n) (e : Expr) :
    (tandem quiet).Does n (do adopt i (← looseExpr e) (-1)) (do adopt i (← looseExpr e) (-1)) := by
  let loose : Block := { form := .expression e }
  refine agree_apply (a := fun _ => ()) (f := fun w => ((w.made loose).adopted i w.blocks.size (-1)).remember)
    (fun _ => rfl) (fun _ _ _ => rfl) (fun _ _ _ => rfl) (fun _ => rfl) (fun w hn hgrove => ?_)
    (fun w h => ?_) fun _ _ => rfl
  · have hmade : Acts w (w.made loose) := made_acts hgrove (fun p hp => by cases hp) rfl
    refine .tail hmade (.adopt _ i _ _ ?_ (Nat.lt_of_lt_of_le hi hn) ?_)
    · exact w.parentOf_made loose rfl
    · rw [Workshop.made_blocks, Workshop.adjoin_size]
      exact Nat.lt_succ_self _
  · have hmade := (h.adjoin_plain (b := loose) rfl).of_blocks (w.made_blocks loose)
    have hinserted := hmade.edit i (f := fun b =>
      { b with children := insertAt b.children (-1) w.blocks.size }) fun _ _ h => .inl h
    exact (hinserted.edit w.blocks.size (f := fun b => { b with parent := some i }) fun _ _ h => .inl h).of_blocks
      rfl

theorem agree_aside {Q : Nat → α → α → Prop} {m : Build α} {a : Workshop → α}
    {f : Workshop → Workshop} (hrun : ∀ w, m w = .ok (a w) (f w))
    (hblocks : ∀ w, (f w).blocks = w.blocks) (hmoments : ∀ w, (f w).moments = w.moments)
    (h : ∀ w w', Tandem quiet n w w' → Tandem quiet n (f w) (f w') ∧ a w' = a w ∧ Q n (a w) (a w)) :
    (tandem quiet).Agree n Q m m := by
  intro w w' hrel
  obtain ⟨hrel', ha, hQ⟩ := h w w' hrel
  rw [hrun, hrun, ha]
  exact .ok (Nat.le_refl _) hrel' (.single (.aside _ _ (hblocks w) (hmoments w))) hQ

theorem does_report (level : Level) (message : String) :
    (tandem quiet).Does n (report level message) (report level message) :=
  agree_aside (a := fun _ => ()) (fun _ => rfl) (fun _ => rfl) (fun _ => rfl) fun w w' h =>
    ⟨aside h rfl (by rw [h.same]) rfl h.trail, rfl, rfl⟩

theorem does_freshName (base : String) :
    (tandem quiet).Does n (Handler.freshNameFor base) (Handler.freshNameFor base) :=
  agree_aside (a := fun w => "__" ++ base ++ "_" ++ toString w.madeUp)
    (f := fun w => { w with madeUp := w.madeUp + 1 }) (fun _ => rfl) (fun _ => rfl) (fun _ => rfl) fun w w' h =>
    ⟨aside h rfl (by rw [h.same]) rfl h.trail, by rw [h.same], rfl⟩

/-! ## What is read -/

theorem agree_block (hi : i < n) : (tandem quiet).Agree n
    (fun n' b b' => b = b' ∧ ∀ p : Nat, b.parent = some p → p < n') (block i) (block i) := by
  intro w w' h
  obtain ⟨b, hb, hb'⟩ := get_of_lt h hi
  rw [block_apply w i hb, block_apply w' i hb']
  refine .ok (Nat.le_refl _) h .refl ⟨rfl, fun p hp => ?_⟩
  exact Nat.lt_trans (h.grove.upward i p (by rw [Workshop.parentOf, hb]; exact hp)) hi

theorem makes_opening (hi : i < n) : (tandem quiet).Makes n (opening i) (opening i) := by
  intro w w' h
  obtain ⟨b, hb, hb'⟩ := get_of_lt h hi
  unfold opening
  rw [bind_of_ok (block_apply w i hb), bind_of_ok (block_apply w' i hb')]
  cases hform : b.form with
  | statement keyword line =>
    refine .ok h.known { h with known := Nat.le_refl _ } .refl ⟨rfl, ?_⟩
    exact h.lined i b hb line (by rw [hform]; rfl)
  | _ => exact .error .refl

theorem makes_enclosing (test : Block → Bool) :
    (tandem quiet).Makes n (enclosing i test) (enclosing i test) := by
  refine agree_get fun w w' h => ?_
  rw [enclosing_eq h]
  cases hfound : w.enclosing? i test with
  | none => exact .error .refl
  | some found =>
    refine .ok h.known { h with known := Nat.le_refl _ } .refl ⟨rfl, ?_⟩
    have htest := List.find?_some hfound
    by_contra hlt
    rw [Array.getElem?_eq_none (Nat.le_of_not_lt hlt)] at htest
    cases htest

theorem does_qualify (name : String) : (tandem quiet).Does n (qualify i name) (qualify i name) := by
  refine agree_get fun w w' h => ?_
  have hlineage : w'.lineage i = w.lineage i := by
    unfold Workshop.lineage
    rw [blocks_eq h]
  rw [enclosing_eq h, hlineage, blocks_eq h]
  split
  · exact .ok (Nat.le_refl _) h .refl rfl
  · generalize (w.enclosing? i fun b => b.isMethod).bind _ = m
    cases m with
    | none => exact .ok (Nat.le_refl _) h .refl rfl
    | some m =>
      dsimp only
      split
      · exact .ok (Nat.le_refl _) h .refl rfl
      · exact .ok (Nat.le_refl _) h .refl rfl

theorem does_release (hi : i < n) (child : BlockId) :
    (tandem quiet).Does n (release i child) (release i child) := by
  unfold release
  refine (agree_block hi).bind_of_le fun n' hn b b' h => ⟨n, Nat.le_refl _, hn, ?_⟩
  rw [h.1]
  split
  · exact agree_apply (a := fun _ => ()) (f := fun w => (w.released i child).remember) (fun _ => rfl)
      (fun _ _ _ => rfl) (fun _ _ _ => rfl) (fun _ => rfl) (fun w _ _ => .single (.release w i child))
      (fun _ h => h.edit i fun _ _ h => .inl h) fun _ _ => rfl
  · exact agree_throw _

theorem setting_bind {Q : Nat → α → β → Prop} {part ending : String} {default : Value}
    {f : Value → Build α} {f' : Value → Build β} (hi : i < n)
    (hf : ∀ form : Form, (tandem quiet).Agree n Q
      (f (Config.standard.last (form.settingKey ++ part ++ ending) default))
      (f' (Config.standard.last (form.settingKey ++ part ++ ending) default))) :
    (tandem quiet).Agree n Q (setting i part ending default >>= f)
      (setting i part ending default >>= f') := by
  intro w w' h
  obtain ⟨b, hb, hb'⟩ := get_of_lt h hi
  have hconfig : w'.config = .standard := by rw [h.same]; exact h.config
  rw [bind_of_ok (setting_standard h.config hb _ _ _), bind_of_ok (setting_standard hconfig hb' _ _ _)]
  exact hf b.form h

theorem does_call {part : String} {args : List Value} (h : Asked i part args) (hi : i < n) (form : Form) :
    (tandem quiet).Does n
      (callSetting (Config.standard.last (form.settingKey ++ part ++ "Handler") .none) args)
      (callSetting (Config.standard.last (form.settingKey ++ part ++ "Handler") .none) args) := by
  have hcast (text : String) : callSetting (.handler .dropCast) [.block i, .node text]
      = (do setTemplate i Slot.right; return .none) := rfl
  have hname (base : String) : callSetting (.handler .freshName) [.text base]
      = (do return .text (← Handler.freshNameFor base)) := rfl
  have hpackage (name : BlockId) : callSetting (.handler .packageComments) [.block i, .block name] = (do
        let _ ← comment (some i) { left := .block name, template := "# package: " ++ Slot.left }
        return .none) := rfl
  refine h.standard (P := fun v args => (tandem quiet).Does n (callSetting v args) (callSetting v args))
    form (agree_throw .mismatch) (fun text => ?_) (fun base => ?_) (fun name => ?_)
    fun index text => agree_pure rfl
  · rw [hcast]
    exact (does_changeExpr _).bind fun _ => agree_pure rfl
  · rw [hname]
    exact (does_freshName base).bind fun _ => agree_pure rfl
  · rw [hpackage]
    exact (makes_create (fun p hp => Option.some.inj hp ▸ hi) rfl rfl).then fun _ => agree_pure rfl

theorem does_mutate (hi : i < n) : (tandem quiet).Does n (mutate i) (mutate i) := by
  intro w w' h
  obtain ⟨b, hb, hb'⟩ := get_of_lt h hi
  have hconfig : w'.config = .standard := by rw [h.same]; exact h.config
  rw [mutate_standard h.config hb, mutate_standard hconfig hb']
  exact .ok (Nat.le_refl _) h .refl rfl

/-! ## Comments -/

theorem does_trail (f : Trail → Trail) : (tandem false).Does n (modify fun w => { w with trail := f w.trail })
      (modify fun w => { w with trail := f w.trail }) := by
  exact agree_aside (a := fun _ => ()) (fun _ => rfl) (fun _ => rfl) (fun _ => rfl) fun w w' h =>
    ⟨aside h rfl (by rw [h.same]) rfl (congrArg f h.trail), rfl, rfl⟩

/-- A comment is written behind an expression, or becomes comment blocks. -/
theorem does_putComment {base owner : Nat} (howner : owner < n) (sign text : String) (onLine : Bool) :
    (tandem quiet).Does n (putComment (.text sign) owner base onLine text)
      (putComment (.text sign) owner base onLine text) := by
  unfold putComment
  split
  · exact (does_changeExpr _).bind fun _ => agree_pure rfl
  · refine Does.bind (does_mapM (P := Eq) (List.forall₂_refl _) fun line line' h => ?_)
      fun _ => agree_pure rfl
    subst h
    exact (makes_create (fun p hp => Option.some.inj hp ▸ howner) rfl rfl).does

/-- A comment is taken alike, if the places among the tokens are the same. -/
theorem does_takeComment {owner near : Nat} (howner : owner < n) (hnear : near < n) (sign : String)
    (stop : Int) (token : Lexeme) (number : Nat) :
    (tandem false).Does n (takeComment (.text sign) owner near stop token number)
      (takeComment (.text sign) owner near stop token number) := by
  unfold takeComment
  refine (does_trail fun trail => { trail with taken := number :: trail.taken }).bind fun _ => ?_
  refine agree_get fun w w' h => ?_
  have htrail : w'.trail = w.trail := h.trail
  rw [outermost_congr (blocks_eq h) near, htrail]
  have hknown : Tandem false w.blocks.size w w' := { h with known := Nat.le_refl _ }
  have hbase := outermost_lt w.blocks.size (Nat.lt_of_lt_of_le hnear h.known)
  refine (Agree.bind (agree_block hbase) (fun n' hn b b' hb => ?_) hknown).after h.known .refl
  have howner : owner < n' := Nat.lt_of_lt_of_le howner (Nat.le_trans h.known hn)
  have hput (onLine : Bool) := (@does_putComment false n' _ (outermost w w.blocks.size near) owner howner
    sign token.text onLine).bind fun spot =>
      does_trail fun trail => { trail with placed := (number, spot) :: trail.placed }
  rw [← hb.1]
  dsimp only
  split
  · split
    · exact hput _
    · exact hput false
    · exact agree_throw _
  · exact hput false

theorem stop_second (h : Tandem true n w w') (owner near : BlockId) (stop : Int) :
    ∃ v', takeComments owner near stop w' = .ok () v' ∧ Tandem true n w v' :=
  ⟨_, takeComments_silent (show w.trail.Silent ∧ w'.trail.Silent from h.trail).2 _ _ _, moved_second h stop⟩

theorem does_takeComments_quiet (owner near : BlockId) (stop stop' : Int) :
    (tandem true).Does n (takeComments owner near stop) (takeComments owner near stop') := by
  intro w w' h
  have htrail : w.trail.Silent ∧ w'.trail.Silent := h.trail
  rw [takeComments_silent htrail.1, takeComments_silent htrail.2]
  exact .ok (Nat.le_refl _) (aside h rfl (by rw [h.same]) rfl ⟨htrail.1, htrail.2⟩)
    (.single (.aside _ _ rfl rfl)) rfl

theorem does_takeComments {owner near : Nat} (howner : owner < n) (hnear : near < n) (stop : Int) :
    (tandem quiet).Does n (takeComments owner near stop) (takeComments owner near stop) := by
  cases quiet with
  | true => exact does_takeComments_quiet owner near stop stop
  | false =>
    refine agree_get fun w w' h => ?_
    have hsign : Config.standard.last "commentPrefix" (.text "# ") = .text "# " := rfl
    have hconfig : w'.config = w.config := by rw [h.same]
    rw [hconfig, h.config, hsign]
    refine agree_get (fun w w' h => ?_) h
    have htrail : w'.trail = w.trail := h.trail
    rw [htrail]
    refine (Does.bind (does_forM (P := Eq) (List.forall₂_refl _) fun p p' hp => ?_)
      fun _ => does_trail fun trail => { trail with last := stop }) h
    subst hp
    exact does_takeComment howner hnear "# " stop p.1 p.2

theorem does_rest (hi : i < n) : (tandem quiet).Does n (do takeComments i i (← get).trail.tokens.length)
      (do takeComments i i (← get).trail.tokens.length) := by
  refine agree_get fun w w' h => ?_
  cases quiet with
  | true => exact does_takeComments_quiet i i _ _ h
  | false =>
    have htrail : w'.trail = w.trail := h.trail
    rw [htrail]
    exact does_takeComments hi hi _ h

/-! ## Declarations -/

theorem does_declares (name : String) :
    (tandem quiet).Does n (change i fun b => { b with declared := b.declared ++ [name] })
      (change i fun b => { b with declared := b.declared ++ [name] }) :=
  does_change (fun _ => rfl) (fun _ => rfl) fun _ => rfl

theorem hands_declareType {K : Kin} (hK : K.Lawful) {c c' : Cursor} (hc : K.akin c c')
    (hplain : c.kind ∉ Kin.controls) {form : Form} (hform : form.line? = none) (hi : i < n) :
    (tandem quiet).Hands n (Declaration.declareType form i c) (Declaration.declareType form i c') := by
  unfold Declaration.declareType
  have hname := hK.child? hc hplain .ident
  generalize c.child? .ident = x, c'.child? .ident = x' at hname
  cases hname with
  | none => exact hands_none
  | some h =>
    dsimp only
    rw [hK.text_eq h.1.akin]
    refine (does_declares _).bind fun _ => ?_
    exact (makes_create (fun p hp => Option.some.inj hp ▸ hi) rfl hform).some

theorem does_keep {K : Kin} (hK : K.Lawful) {c c' d d' : Cursor} (hc : K.akin c c')
    (hkind : c.kind = .modifierList) (hd : K.akin d d') :
    (tandem quiet).Does n (Modifier.keep i c d) (Modifier.keep i c' d') := by
  unfold Modifier.keep
  have htexts : c.children.map Cursor.text = c'.children.map Cursor.text :=
    hK.map_text_eq (hK.akin_children hc (Kin.not_mem_controls hkind (by decide)))
  rw [hK.parentKind_eq hc (by rw [hkind]; decide), htexts, hK.text_eq hd]
  have hone : (tandem quiet).Does n (change i fun b => { b with modifiers := b.modifiers ++ [d'.text] })
      (change i fun b => { b with modifiers := b.modifiers ++ [d'.text] }) :=
    does_change (fun _ => rfl) (fun _ => rfl) fun _ => rfl
  dsimp only
  split
  · refine (does_change (fun b => ?_) (fun b => ?_) fun b => ?_).bind fun _ => hone
    all_goals
      split
      · split <;> rfl
      · rfl
  · exact hone

end Bond.tandem

namespace Bond

open tandem

variable [Chronicle] {quiet : Bool} {K : Kin} (hK : K.Lawful)
include hK

theorem tandem.agree_announce {n i : Nat} {c c' d d' : Cursor} (hc : K.akin c c')
    (hplain : c.kind ∉ Kin.controls) (hd : K.akin d d') (hdplain : d.kind ∉ Kin.controls)
    (hi : i < n) : (tandem quiet).Agree n (fun n' r r' => r = r' ∧ r.1 < n') (Variable.announce i c d)
      (Variable.announce i c' d') := by
  unfold Variable.announce
  refine (does_textOf hK (optionRel_imp (hK.child? hd hdplain .ident)
    fun _ _ h => h.1.akin)).bind fun name => ?_
  refine (does_declares name).bind fun _ => ?_
  refine (makes_create (fun p hp => Option.some.inj hp ▸ hi) rfl rfl).bind fun n1 hn1 k hk => ?_
  refine (does_typeText hK hc hplain fun name => tandem.does_qualify name).bind fun type => ?_
  have hset : (tandem quiet).Does n1 (change k fun b => { b with type := some type }) _ :=
    does_change (fun _ => rfl) (fun _ => rfl) fun _ => rfl
  refine hset.bind fun _ => ?_
  have hlist := hK.child? hc hplain .modifierList
  generalize c.child? .modifierList = x, c'.child? .modifierList = x' at hlist
  cases hlist with
  | none => exact agree_pure ⟨rfl, hk⟩
  | some hlist =>
    have htexts := hK.map_text_eq (hK.akin_children hlist.1.akin (Kin.not_mem_controls hlist.2 (by decide)))
    have hkeep (modifiers : List String) : (tandem quiet).Does n1
        (change k fun b => { b with modifiers := modifiers }) _ :=
      does_change (fun _ => rfl) (fun _ => rfl) fun _ => rfl
    dsimp only
    rw [htexts]
    exact (hkeep _).bind fun _ => agree_pure ⟨rfl, hk⟩

theorem tandem.does_modifiers {n i : Nat} {c c' : Cursor} (hc : K.akin c c') (hkind : c.kind = .modifierList)
    (hannotate : ∀ d d', K.akin d d' → d ∈ c.children → d.kind = .annotationUse →
      (tandem quiet).Does n (Modifier.annotate i d) (Modifier.annotate i d')) :
    (tandem quiet).Does n (Modifier.accept i c) (Modifier.accept i c') := by
  unfold Modifier.accept
  have hchildren := hK.akin_children hc (Kin.not_mem_controls hkind (by decide))
  simp only [List.partition_eq_filter_filter]
  have hannotations := forall₂_filter (p := fun child => child.kind == Kind.annotationUse)
    (q := fun child => child.kind == Kind.annotationUse)
    (fun _ _ h => by rw [hK.kind_eq h]) hchildren
  have hothers := forall₂_filter (p := not ∘ fun child => child.kind == Kind.annotationUse)
    (q := not ∘ fun child => child.kind == Kind.annotationUse)
    (fun _ _ h => by simp only [Function.comp_apply]; rw [hK.kind_eq h]) hchildren
  refine Does.bind (does_forM (forall₂_mem hannotations) fun d d' ⟨hmem, _, hd⟩ => ?_) fun _ => ?_
  · obtain ⟨hmem, hd'⟩ := List.mem_filter.1 hmem
    exact hannotate d d' hd hmem (eq_of_beq hd')
  · exact Does.bind (does_forM hothers fun d d' hd => does_keep hK hc hkind hd) fun _ => agree_pure rfl

omit hK in
/-- The visit of a block around one statement adds nothing where there are no comments. -/
theorem tandem.does_alone {n i : Nat} {c' d : Cursor} {descend' : Visit} {accept' : Accept}
    {m : Build Unit} (hchildren : c'.children = [d]) (hname : c'.kind = .blockScope) (hi : i < n)
    (haccept : ∀ w b, w.blocks[i]? = some b → accept' i c' w = unhandled i c' w)
    (hd : (tandem true).Does n m (descend' i d)) :
    (tandem true).Does n m (visit accept' descend' i c') := by
  intro w w' h
  -- Up to the statement only the trail and the report of the second workshop change.
  obtain ⟨w1, hrun1, hrel1⟩ := stop_second h i i c'.head.start
  obtain ⟨w2, hunhandled, hrel2⟩ : ∃ w2, accept' i c' w1 = .ok (some i) w2 ∧ Tandem true n w w2 := by
    obtain ⟨b, -, hb'⟩ := get_of_lt hrel1 hi
    refine ⟨{ w1 with
      report := ⟨.debug, "no visitor accept method for " ++ "BLOCK_SCOPE"⟩ :: w1.report }, ?_, ?_⟩
    · rw [haccept w1 b hb']
      unfold unhandled
      rw [hname]
      rfl
    · exact { hrel1 with same := by rw [hrel1.same], trail := hrel1.trail }
  have hvisit : visit accept' descend' i c' w' = (descend' i d >>= fun _ => do
          takeComments i i d.head.stop
          finish i c') w2 := by
    unfold visit
    rw [bind_of_ok hrun1, bind_of_ok hunhandled, hchildren]
    change (((descend' i d >>= fun _ => takeComments i i d.head.stop) >>= fun _ => pure PUnit.unit)
      >>= fun _ => finish i c') w2 = _
    simp only [bind_assoc, pure_bind]
  rw [hvisit]
  have hend := hd hrel2
  generalize m w = r at hend ⊢
  generalize hrun : descend' i d w2 = r' at hend
  cases hend with
  | ok hn3 hrel3 hacts _ =>
    obtain ⟨w4, hrun4, hrel4⟩ := stop_second hrel3 i i d.head.stop
    obtain ⟨w5, hrun5, hrel5⟩ := stop_second hrel4 i i c'.head.stop
    obtain ⟨b, -, hb'⟩ := get_of_lt hrel5 (Nat.lt_of_lt_of_le hi hn3)
    have hconfig : w5.config = .standard := by rw [hrel5.same]; exact hrel5.config
    have hmutate : finish i c' w4 = .ok () w5 := by
      unfold finish
      rw [bind_of_ok hrun5, hname]
      exact mutate_standard hconfig hb'
    rw [bind_of_ok hrun, bind_of_ok hrun4, hmutate]
    exact .ok hn3 hrel5 hacts rfl
  | error hlost =>
    rw [bind_of_error hrun]
    exact .error hlost
  | solo hsolo => exact hsolo.elim

variable (hquiet : ∀ c c', K.braced c c' → quiet = true)
include hquiet

/-- The bond between workshops with the same blocks is lawful; blocks around single statements make
no difference in quiet. -/
theorem tandem_lawful : (tandem quiet).Lawful K where
  agree_block := tandem.agree_block
  makes_opening := tandem.makes_opening
  makes_enclosing test _ := tandem.makes_enclosing test
  does_qualify name _ := tandem.does_qualify name
  does_setLeft _ _ := does_changeExpr _
  does_setRight _ _ := does_changeExpr _
  does_setTemplate _ _ := does_changeExpr _
  makes_expr _ hparent := makes_create hparent rfl rfl
  makes_method _ _ hi := makes_create (fun _ hp => Option.some.inj hp ▸ hi) rfl rfl
  makes_statement _ _ hi := tandem.makes_statement hi _ _
  makes_content hi := makes_create (fun _ hp => Option.some.inj hp ▸ hi) rfl rfl
  does_adopt _ hi := tandem.does_adopt hi _
  does_report := tandem.does_report
  does_amend hf _ := does_change (fun b => (hf b).parent) (fun b => (hf b).children)
    fun b => congrArg Form.line? (hf b).form
  does_release child hi := tandem.does_release hi child
  hands_declareType hform hc hplain hi := by
    refine tandem.hands_declareType hK hc hplain ?_ hi
    have hall : ∀ form ∈ [Form.annotationType, .plainClass, .enumeration], form.line? = none := by
      decide
    exact hall _ hform
  does_before hc howner hnear := by
    rw [hK.head_eq hc]
    exact does_takeComments howner hnear _
  does_after hc howner hnear := by
    rcases hc with hc | hc
    · rw [hK.head_eq hc]
      exact does_takeComments howner hnear _
    · obtain rfl := hquiet _ _ hc
      exact does_takeComments_quiet _ _ _ _
  does_rest := tandem.does_rest
  does_mutate := tandem.does_mutate
  does_setting hi hk := setting_bind hi fun form => hk _ fun _ hargs => does_call hargs hi form
  does_shift _ _ hm := by
    refine (does_changeExpr _).bind fun _ => hm.bind fun _ => ?_
    exact (tandem.makes_enclosing _).then fun _ => does_changeProgram _
  does_lock {n _} parent m m' hi hm := by
    refine (tandem.makes_enclosing _).bind fun n1 hn1 home _ => ?_
    refine (does_changeProgram _).bind fun _ => ?_
    refine agree_demand (P := Eq) (by cases parent <;> constructor; rfl) fun kind _ h => ?_
    subst h
    split
    · refine setting_bind (by omega) fun form => ?_
      exact (tandem.makes_statement (by omega) _ _).bind fun n2 hn2 stat hstat => hm n2 stat (by omega) hstat
    · exact agree_pure rfl
  hands_declareInterface hc hplain hi := by
    refine (tandem.makes_enclosing _).bind fun n1 hn1 home _ => ?_
    refine (does_changeProgram _).bind fun _ => ?_
    exact tandem.hands_declareType hK hc hplain rfl (by omega)
  agree_announce := tandem.agree_announce hK
  does_modifiers hc hkind hi hannotate hwalk := by
    refine (agree_block hi).bind_of_le fun n' hn _ _ _ => ⟨_, Nat.le_refl _, hn, ?_⟩
    refine (tandem.does_modifiers hK hc hkind hannotate).bind fun _ => ?_
    have hinside := hK.children_inside hc (Kin.not_mem_controls hkind (by decide))
    refine does_forM (forall₂_mem hinside) fun d d' ⟨hmem, _, hd⟩ => ?_
    rw [hK.head_eq hd.akin]
    exact (hwalk d d' hd hmem).bind fun _ => does_takeComments hi hi _
  does_alone hbraced hchildren hname hi haccept hd := by
    obtain rfl := hquiet _ _ hbraced
    exact tandem.does_alone hchildren hname hi haccept hd

end Bond

end Transcriber
