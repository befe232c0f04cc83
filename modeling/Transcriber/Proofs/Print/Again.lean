import Mathlib.Data.Finset.Card
import Transcriber.Proofs.Print.Standard
import Transcriber.Print.Printer

/-!
# Printing the same again

Expressions are printed from their operands.  While types and modules get other children, expressions
are printed the same again, and so are the lines that open types, methods and statements.

* `opens_again` — the lines that open a block are printed the same again.
-/

namespace Transcriber

open Build List

/-! ## The same success -/

/-- If the first work has success in the first workshop, so has the second one in the second, with
the same result; nothing is changed. -/
def Repeats {α : Type} (w0 w : Workshop) (m0 m : Build α) : Prop :=
  ∀ ⦃a : α⦄ ⦃w' : Workshop⦄, m0 w0 = .ok a w' → w' = w0 ∧ m w = .ok a w

section

variable {α β : Type} {w0 w : Workshop}

variable {m0 m : Build α}

theorem repeats_of_ok {a : α} (h0 : m0 w0 = .ok a w0) (h : m w = .ok a w) : Repeats w0 w m0 m := by
  intro b w' hrun
  rw [h0] at hrun
  cases hrun
  exact ⟨rfl, h⟩

theorem repeats_pure (a : α) : Repeats w0 w (pure a) (pure a) := repeats_of_ok rfl rfl

theorem repeats_throw (failure : Failure) (m : Build α) : Repeats w0 w (throw failure) m :=
  fun _ _ h => absurd h throw_ne_ok

theorem repeats_bind {f0 f : α → Build β} (hm : Repeats w0 w m0 m)
    (hf : ∀ a, m0 w0 = .ok a w0 → Repeats w0 w (f0 a) (f a)) :
    Repeats w0 w (m0 >>= f0) (m >>= f) := by
  intro b w' hrun
  obtain ⟨a, w1, hfirst, hrest⟩ := bind_eq_ok.1 hrun
  obtain ⟨rfl, hagain⟩ := hm hfirst
  obtain ⟨rfl, hrest'⟩ := hf a hfirst hrest
  exact ⟨rfl, bind_eq_ok.2 ⟨a, w, hagain, hrest'⟩⟩

theorem repeats_rethrow {g : Failure → Failure} (h : Repeats w0 w m0 m) :
    Repeats w0 w (tryCatch m0 fun failure => throw (g failure))
      (tryCatch m fun failure => throw (g failure)) := by
  intro a w' hrun
  obtain ⟨hw, hm⟩ := h (rethrow_eq_ok.1 hrun)
  exact ⟨hw, rethrow_eq_ok.2 hm⟩

theorem repeats_mapM {xs : List α} {f0 f : α → Build β} (h : ∀ x ∈ xs, Repeats w0 w (f0 x) (f x)) :
    Repeats w0 w (xs.mapM f0) (xs.mapM f) := by
  induction xs with
  | nil => exact repeats_pure []
  | cons x xs ih =>
    rw [mapM_cons, mapM_cons]
    refine repeats_bind (h x (.head _)) fun a _ => ?_
    refine repeats_bind (ih fun y hy => h y (.tail _ hy)) fun as _ => ?_
    exact repeats_pure _

theorem repeats_map (f : α → β) (h : Repeats w0 w m0 m) : Repeats w0 w (f <$> m0) (f <$> m) := by
  rw [← bind_pure_comp, ← bind_pure_comp]
  exact repeats_bind h fun a _ => repeats_pure _

theorem repeats_block_bind {i : BlockId} {b b' : Block} (hb : w0.blocks[i]? = some b)
    (hb' : w.blocks[i]? = some b') {f0 f : Block → Build β} (h : Repeats w0 w (f0 b) (f b')) :
    Repeats w0 w (block i >>= f0) (block i >>= f) := by
  intro a w' hrun
  rw [bind_of_ok (block_apply w0 i hb)] at hrun
  obtain ⟨hw, hagain⟩ := h hrun
  exact ⟨hw, (bind_of_ok (block_apply w i hb')).trans hagain⟩

theorem repeats_bind_ok {γ : Type} {m : Build β} {a : α} {b : β}
    {f0 : α → Build γ} {f : β → Build γ} (h0 : m0 w0 = .ok a w0) (h : m w = .ok b w)
    (hf : Repeats w0 w (f0 a) (f b)) : Repeats w0 w (m0 >>= f0) (m >>= f) := by
  intro c w' hrun
  rw [bind_of_ok h0] at hrun
  obtain ⟨hw, hagain⟩ := hf hrun
  exact ⟨hw, (bind_of_ok h).trans hagain⟩

theorem Repeats.trans {w1 : Workshop} {m1 : Build α} (h : Repeats w0 w1 m0 m1)
    (h' : Repeats w1 w m1 m) : Repeats w0 w m0 m := by
  intro a w' hrun
  obtain ⟨hw, hagain⟩ := h hrun
  exact ⟨hw, (h' hagain).2⟩

end

/-! ## Other children -/

def Operand.block? : Operand → Option BlockId
  | .block id => some id
  | _ => none

def Workshop.isMethodNamed (w : Workshop) (name : Option String) (id : BlockId) : Bool :=
  w.blocks[id]?.any fun b => b.isMethod && b.name == name

/-- Types and modules may have got other children, though they have the same methods in the same
order; and blocks that are no methods may have been added. -/
structure Rearranged (w0 w : Workshop) : Prop where
  config : w.config = w0.config
  colored : w.colored = w0.colored
  old : ∀ {i : BlockId} {b : Block}, w0.blocks[i]? = some b →
    ∃ children, w.blocks[i]? = some { b with children }
      ∧ (b.isClass = false → b.isModule = false → children = b.children)
      ∧ ∀ name, children.filter (w0.isMethodNamed name) = b.children.filter (w0.isMethodNamed name)
  new : ∀ {i : BlockId} {b : Block}, w0.blocks[i]? = none → w.blocks[i]? = some b → b.isMethod = false

namespace Rearranged

variable {w0 w : Workshop}

theorem refl (w : Workshop) : Rearranged w w :=
  ⟨rfl, rfl, fun {_ b} hb => ⟨b.children, hb, fun _ _ => rfl, fun _ => rfl⟩,
    fun hnone hb => by rw [hnone] at hb; cases hb⟩

section

variable (h : Rearranged w0 w)

include h

theorem isMethodNamed_eq (name : Option String) : w.isMethodNamed name = w0.isMethodNamed name := by
  funext i
  unfold Workshop.isMethodNamed
  cases hb : w0.blocks[i]? with
  | none =>
    cases hb' : w.blocks[i]? with
    | none => rfl
    | some b => simp [h.new hb hb']
  | some b =>
    obtain ⟨children, hb', -⟩ := h.old hb
    rw [hb']
    rfl

/-- What is neither a type nor a module is just as it was. -/
theorem get {i : BlockId} {b : Block} (hb : w0.blocks[i]? = some b) (hclass : b.isClass = false)
    (hmodule : b.isModule = false) : w.blocks[i]? = some b := by
  obtain ⟨children, hb', hsame, -⟩ := h.old hb
  rw [hb', hsame hclass hmodule]

theorem size_le : w0.blocks.size ≤ w.blocks.size := by
  refine Nat.le_of_not_lt fun hlt => ?_
  obtain ⟨children, hb, -⟩ := h.old (Array.getElem?_eq_getElem hlt)
  rw [Array.getElem?_eq_none (Nat.le_refl _)] at hb
  cases hb

theorem trans {w' : Workshop} (h' : Rearranged w w') : Rearranged w0 w' where
  config := h'.config.trans h.config
  colored := h'.colored.trans h.colored
  old := by
    intro i b hb
    obtain ⟨children, hb1, hsame, hnamed⟩ := h.old hb
    obtain ⟨children', hb2, hsame', hnamed'⟩ := h'.old hb1
    refine ⟨children', hb2, fun hclass hmodule => ?_, fun name => ?_⟩
    · exact (hsame' hclass hmodule).trans (hsame hclass hmodule)
    · rw [← h.isMethodNamed_eq, hnamed', h.isMethodNamed_eq, hnamed]
  new := by
    intro i b hnone hb
    cases hb1 : w.blocks[i]? with
    | none => exact h'.new hb1 hb
    | some b1 =>
      obtain ⟨children, hb2, -⟩ := h'.old hb1
      obtain rfl := Option.some.inj (hb.symm.trans hb2)
      exact h.new (b := b1) hnone hb1

end

end Rearranged

/-! ## What blocks mention -/

/-- The blocks that a form mentions: operands, or the line that opens a statement. -/
def Form.mentioned : Form → List BlockId
  | .expression e => [e.left, e.right].filterMap Operand.block?
  | .comment e => [e.left, e.right].filterMap Operand.block?
  | .statement _ opening => [opening]
  | _ => []

/-- The blocks that a block mentions beside its parent and its children. -/
def Block.mentioned (b : Block) : List BlockId :=
  b.form.mentioned ++ b.decorators.filterMap Operand.block?
    ++ b.parameters.filterMap fun p => p.default.bind Operand.block?

def Workshop.HoldsExpr (w : Workshop) (i : BlockId) : Prop :=
  ∃ b e, w.blocks[i]? = some b ∧ b.form.expr? = some e

/-- What blocks mention are expressions. -/
def Workshop.Composed (w : Workshop) : Prop :=
  ∀ (i : BlockId) (b : Block), w.blocks[i]? = some b → ∀ j ∈ b.mentioned, w.HoldsExpr j

namespace Workshop.Composed

variable {w : Workshop} (h : w.Composed) {i : BlockId} {b : Block} (hb : w.blocks[i]? = some b)

include h hb

theorem operands {e : Expr} (he : b.form.expr? = some e) :
    (∀ j, e.left = .block j → w.HoldsExpr j) ∧ ∀ j, e.right = .block j → w.HoldsExpr j := by
  have hmentioned : b.form.mentioned = [e.left, e.right].filterMap Operand.block? := by
    cases hform : b.form with
    | expression e' =>
      rw [hform] at he
      cases he
      rfl
    | comment e' =>
      rw [hform] at he
      cases he
      rfl
    | _ =>
      rw [hform] at he
      cases he
  have hoperand : ∀ o ∈ [e.left, e.right], ∀ j, o = .block j → w.HoldsExpr j := by
    rintro o ho j rfl
    refine h i b hb j (mem_append_left _ (mem_append_left _ ?_))
    rw [hmentioned]
    exact mem_filterMap.2 ⟨_, ho, rfl⟩
  exact ⟨hoperand _ (by simp), hoperand _ (by simp)⟩

theorem decorators : ∀ o ∈ b.decorators, ∀ j, o = .block j → w.HoldsExpr j := by
  rintro o ho j rfl
  exact h i b hb j (mem_append_left _ (mem_append_right _ (mem_filterMap.2 ⟨_, ho, rfl⟩)))

theorem defaults : ∀ p ∈ b.parameters, ∀ j, p.default = some (.block j) → w.HoldsExpr j := by
  intro p hp j hj
  refine h i b hb j (mem_append_right _ (mem_filterMap.2 ⟨p, hp, ?_⟩))
  rw [hj]
  rfl

theorem opening {keyword : String} {opening : BlockId} (hform : b.form = .statement keyword opening) :
    w.HoldsExpr opening := by
  refine h i b hb opening (mem_append_left _ (mem_append_left _ ?_))
  simp [hform, Form.mentioned]

end Workshop.Composed

/-- Expressions are as they were. -/
structure Retained (w0 w : Workshop) : Prop where
  colored : w.colored = w0.colored
  get_expr : ∀ {i : BlockId} {b : Block} {e : Expr}, w0.blocks[i]? = some b → b.form.expr? = some e →
    w.blocks[i]? = some b

namespace Retained

variable {w0 w : Workshop}

theorem refl (w : Workshop) : Retained w w := ⟨rfl, fun hb _ => hb⟩

theorem holdsExpr (h : Retained w0 w) {i : BlockId} (hi : w0.HoldsExpr i) : w.HoldsExpr i := by
  obtain ⟨b, e, hb, he⟩ := hi
  exact ⟨b, e, h.get_expr hb he, he⟩

end Retained

theorem Rearranged.retained {w0 w : Workshop} (h : Rearranged w0 w) : Retained w0 w := by
  refine ⟨h.colored, fun {i b e} hb he => h.get hb ?_ ?_⟩ <;> cases hform : b.form <;>
    simp_all [Block.isClass, Block.isModule, Form.expr?]

/-! ## Texts of expressions -/

namespace Fill

variable {w0 w : Workshop} {region : BlockId → Prop} {texts0 texts : Fill.Texts}
  (hout : ∀ i, region i → Repeats w0 w (texts0.output i) (texts.output i))
  (hline : ∀ i, region i → Repeats w0 w (texts0.outline i) (texts.outline i))

variable {o : Operand}

include hout in
theorem repeats_operandText (ho : ∀ i, o = .block i → region i) :
    Repeats w0 w (operandText texts0 o) (operandText texts o) := by
  cases o with
  | block i => exact hout i (ho i rfl)
  | _ => exact repeats_pure _

include hline in
theorem repeats_operandQuoted (ho : ∀ i, o = .block i → region i) :
    Repeats w0 w (operandQuoted texts0 o) (operandQuoted texts o) := by
  cases o with
  | block i => exact hline i (ho i rfl)
  | _ => exact repeats_pure _

theorem repeats_access (o : Operand) (step : Text.Access) : Repeats w0 w (access o step) (access o step) := by
  unfold access
  split
  · exact repeats_throw _ _
  · split
    · split
      · exact repeats_pure _
      · exact repeats_throw _ _
    · exact repeats_throw _ _
  · exact repeats_throw _ _

theorem gives_access (o : Operand) (step : Text.Access) :
    Gives (fun o' => ∀ i, o' = .block i → region i) (access o step) := by
  unfold access
  split
  · exact gives_throw _ _
  · split
    · split
      · exact gives_pure fun i hi => by cases hi
      · exact gives_throw _ _
    · exact gives_throw _ _
  · exact gives_throw _ _

theorem repeats_foldlM_access (steps : List Text.Access) (o : Operand) :
    Repeats w0 w (steps.foldlM access o) (steps.foldlM access o) := by
  induction steps generalizing o with
  | nil => exact repeats_pure o
  | cons step steps ih =>
    rw [foldlM_cons]
    exact repeats_bind (repeats_access o step) fun o' _ => ih o'

theorem gives_foldlM_access (steps : List Text.Access) (ho : ∀ i, o = .block i → region i) :
    Gives (fun o' => ∀ i, o' = .block i → region i) (steps.foldlM access o) := by
  induction steps generalizing o with
  | nil => exact gives_pure ho
  | cons step steps ih =>
    rw [foldlM_cons]
    exact gives_bind_of_gives (gives_access o step) fun o' ho' => ih ho'

variable {e : Expr} (hleft : ∀ i, e.left = .block i → region i)
  (hright : ∀ i, e.right = .block i → region i)

theorem repeats_operandOf (name : List Char) : Repeats w0 w (operandOf e name) (operandOf e name) := by
  unfold operandOf
  refine repeats_bind ?_ fun first _ => repeats_bind (repeats_foldlM_access _ first) fun found _ => ?_
  · unfold lookup
    split
    · exact repeats_throw _ _
    · split
      · exact repeats_pure _
      · exact repeats_pure _
      · exact repeats_throw _ _
  · split
    · exact repeats_pure _
    · exact repeats_throw _ _

include hleft hright in
theorem gives_operandOf (name : List Char) :
    Gives (fun o => ∀ i, o = .block i → region i) (operandOf e name) := by
  have hlookup : Gives (fun o => ∀ i, o = .block i → region i) (lookup e name) := by
    unfold lookup
    split
    · exact gives_throw _ _
    · split
      · exact gives_pure hleft
      · exact gives_pure hright
      · exact gives_throw _ _
  unfold operandOf
  refine gives_bind_of_gives hlookup fun first hfirst => ?_
  refine gives_bind_of_gives (gives_foldlM_access _ hfirst) fun found hfound => ?_
  split
  · exact gives_pure hfound
  · exact gives_throw _ _

include hout hline in
theorem repeats_convert (ho : ∀ i, o = .block i → region i) (conversion : Option Char) :
    Repeats w0 w (convert texts0 o conversion) (convert texts o conversion) := by
  unfold convert
  split
  · exact repeats_pure _
  · exact repeats_bind (repeats_operandText hout ho) fun _ _ => repeats_pure _
  · exact repeats_bind (repeats_operandQuoted hline ho) fun _ _ => repeats_pure _
  · split
    · exact repeats_pure _
    · exact repeats_bind (repeats_operandQuoted hline ho) fun _ _ => repeats_pure _
  · exact repeats_throw _ _

theorem gives_convert (ho : ∀ i, o = .block i → region i) (conversion : Option Char) :
    Gives (fun o' => ∀ i, o' = .block i → region i) (convert texts o conversion) := by
  have htext (m : Build String) :
      Gives (fun o' => ∀ i, o' = .block i → region i) (do return Operand.text (← m)) :=
    gives_bind fun _ => gives_pure fun i hi => by cases hi
  unfold convert
  split
  · exact gives_pure ho
  · exact htext _
  · exact htext _
  · split
    · exact gives_pure fun i hi => by cases hi
    · exact htext _
  · exact gives_throw _ _

include hout in
theorem repeats_fit (ho : ∀ i, o = .block i → region i) (spec : List Char) :
    Repeats w0 w (fit texts0 o spec) (fit texts o spec) := by
  have hchars (cs : Option (List Char)) : Repeats w0 w (fit.chars cs) (fit.chars cs) := by
    cases cs with
    | none => exact repeats_throw _ _
    | some cs => exact repeats_pure _
  unfold fit
  split
  · exact repeats_operandText hout ho
  · split
    · exact hchars _
    · exact hchars _
    · exact repeats_throw _ _

include hout hline hleft hright in
theorem repeats_fillTo (depth : Nat) (template : String) :
    Repeats w0 w (fillTo texts0 e depth template) (fillTo texts e depth template) := by
  induction depth generalizing template with
  | zero => exact repeats_throw _ _
  | succ depth ih =>
    unfold fillTo
    dsimp only
    refine repeats_bind (repeats_mapM fun piece _ => ?_) fun parts _ => ?_
    · split
      · exact repeats_pure _
      · refine repeats_bind (repeats_operandOf _) fun o ho => ?_
        have hserved := gives_operandOf hleft hright _ ho
        refine repeats_bind (repeats_convert hout hline hserved _) fun o' ho' => ?_
        have hserved' := gives_convert hserved _ ho'
        split
        · exact repeats_bind (repeats_map _ (ih _)) fun spec _ => repeats_fit hout hserved' spec
        · exact repeats_fit hout hserved' _
    · split
      · exact repeats_pure _
      · exact repeats_throw _ _

include hout hline hleft hright in
theorem repeats_fill : Repeats w0 w (fill texts0 e) (fill texts e) :=
  repeats_bind (repeats_fillTo hout hline hleft hright 2 e.template) fun _ _ => repeats_pure _

end Fill

/-- A printer prints expressions as another one did before. -/
def Serves (w0 w : Workshop) (p0 p : Printer) : Prop :=
  ∀ i, w0.HoldsExpr i → Repeats w0 w (p0.text i) (p.text i)

section

variable {w0 w : Workshop} {p0 p : Printer}

theorem repeats_outline (hcomposed : w0.Composed) (hre : Retained w0 w) (hp : Serves w0 w p0 p)
    {i : BlockId} (hi : w0.HoldsExpr i) :
    Repeats w0 w (Outline.line p0.text i) (Outline.line p.text i) := by
  obtain ⟨b, e, hb, he⟩ := hi
  unfold Outline.line
  refine repeats_block_bind hb (hre.get_expr hb he) ?_
  refine repeats_bind_ok (get_apply w0) (get_apply w) ?_
  rw [hre.colored]
  split
  next e' hform =>
    obtain ⟨hleft, hright⟩ := hcomposed.operands hb he
    obtain rfl : e' = e := by simpa [hform, Form.expr?] using he
    refine repeats_bind (Fill.repeats_operandText (by exact hp) hleft) fun left _ => ?_
    refine repeats_bind (Fill.repeats_operandText (by exact hp) hright) fun right _ => ?_
    exact repeats_pure _
  · exact repeats_pure _
  · exact repeats_pure _
  · exact repeats_pure _

/-- One level more on both sides. -/
theorem Serves.next (hcomposed : w0.Composed) (hre : Retained w0 w) (hp : Serves w0 w p0 p) :
    Serves w0 w p0.next p.next := by
  rintro i ⟨b, e, hb, he⟩
  obtain ⟨hleft, hright⟩ := hcomposed.operands hb he
  change Repeats w0 w (Printer.textOf p0 i) (Printer.textOf p i)
  unfold Printer.textOf
  refine repeats_block_bind hb (hre.get_expr hb he) ?_
  rw [he]
  exact Fill.repeats_fill (by exact hp) (fun j hj => repeats_outline hcomposed hre hp hj) hleft hright

theorem Serves.trans {w1 : Workshop} {p1 : Printer} (h : Serves w0 w1 p0 p1) (h' : Serves w1 w p1 p)
    (hre : Retained w0 w1) : Serves w0 w p0 p := by
  intro i hi
  exact (h i hi).trans (h' i (hre.holdsExpr hi))

variable {n : Nat}

theorem serves_forLevels (hcomposed : w0.Composed) (hre : Retained w0 w) {m : Nat} (hle : n ≤ m) :
    Serves w0 w (.forLevels n) (.forLevels m) := by
  induction n generalizing m with
  | zero => exact fun i _ => repeats_throw _ _
  | succ n ih =>
    obtain ⟨m, rfl⟩ : ∃ k, m = k + 1 := ⟨m - 1, by omega⟩
    exact (ih (Nat.le_of_succ_le_succ hle)).next hcomposed hre

/-! ## How many levels are enough -/

open Classical in
/-- The expressions that can be printed with some number of levels. -/
noncomputable def Workshop.printable (w : Workshop) (n : Nat) : Finset BlockId :=
  (Finset.range w.blocks.size).filter fun i => w.HoldsExpr i ∧ ∃ s, (Printer.forLevels n).text i w = .ok s w

theorem Workshop.printable_subset (n : Nat) : w.printable n ⊆ Finset.range w.blocks.size := by
  classical
  exact Finset.filter_subset _ _

theorem Workshop.mem_printable {i : BlockId} : i ∈ w.printable n ↔
    w.HoldsExpr i ∧ ∃ s, (Printer.forLevels n).text i w = .ok s w := by
  classical
  unfold printable
  rw [Finset.mem_filter, Finset.mem_range, and_iff_right_iff_imp]
  rintro ⟨⟨b, e, hb, -⟩, -⟩
  exact (Array.getElem?_eq_some_iff.1 hb).1

variable (hcomposed : w.Composed)

include hcomposed

theorem Workshop.printable_mono (n : Nat) : w.printable n ⊆ w.printable (n + 1) := by
  intro i hi
  obtain ⟨hexpr, s, hs⟩ := mem_printable.1 hi
  have hmore := serves_forLevels hcomposed (.refl w) (Nat.le_succ n) i hexpr hs
  exact mem_printable.2 ⟨hexpr, s, hmore.2⟩

/-- If a level more makes no expression printable, it is not needed. -/
theorem serves_of_printable_subset (h : w.printable (n + 1) ⊆ w.printable n) :
    Serves w w (.forLevels (n + 1)) (.forLevels n) := by
  intro i hi s w' hrun
  obtain ⟨rfl, -⟩ := serves_forLevels hcomposed (.refl w) (Nat.le_refl (n + 1)) i hi hrun
  obtain ⟨-, s', hs'⟩ := Workshop.mem_printable.1 (h (Workshop.mem_printable.2 ⟨hi, s, hrun⟩))
  have hmore := (serves_forLevels hcomposed (.refl w') (Nat.le_succ n) i hi hs').2
  rw [hrun] at hmore
  cases hmore
  exact ⟨rfl, hs'⟩

/-- Each level up to the one that is not needed makes at least one more expression printable. -/
theorem serves_or_le_card (n : Nat) : Serves w w (.forLevels (n + 1)) (.forLevels n)
    ∨ n ≤ (w.printable n).card := by
  induction n with
  | zero => exact .inr (Nat.zero_le _)
  | succ n ih =>
    rcases ih with hserves | hle
    · exact .inl (hserves.next hcomposed (.refl w))
    · by_cases hsub : w.printable (n + 1) ⊆ w.printable n
      · exact .inl ((serves_of_printable_subset hcomposed hsub).next hcomposed (.refl w))
      · have hlt := Finset.card_lt_card
          (Finset.ssubset_iff_subset_ne.2 ⟨Workshop.printable_mono hcomposed n, fun heq =>
            hsub heq.symm.subset⟩)
        exact .inr (by omega)

/-- An expression that can be printed at all is printed with as many levels as there are blocks. -/
theorem serves_of_size (n : Nat) : Serves w w (.forLevels n) (.forLevels w.blocks.size) := by
  have hlast : Serves w w (.forLevels (w.blocks.size + 1)) (.forLevels w.blocks.size) := by
    rcases serves_or_le_card hcomposed w.blocks.size with hserves | hle
    · exact hserves
    · -- All blocks are printable expressions already.
      have hall : w.printable w.blocks.size = Finset.range w.blocks.size :=
        Finset.eq_of_subset_of_card_le (Workshop.printable_subset _) (by simpa using hle)
      refine serves_of_printable_subset hcomposed ?_
      rw [hall]
      exact Workshop.printable_subset _
  induction n with
  | zero => exact fun i _ => repeats_throw _ _
  | succ n ih => exact (ih.next hcomposed (.refl w)).trans hlast (.refl w)

end

/-- A printer with as many levels as there were blocks. -/
theorem serves_deep {w0 w : Workshop} (hcomposed : w0.Composed) (hre : Retained w0 w) {k : Nat}
    (hk : w0.blocks.size ≤ k) (n : Nat) : Serves w0 w (.forLevels n) (.forLevels k) :=
  (serves_of_size hcomposed n).trans (serves_forLevels hcomposed hre hk) (.refl w0)

end Transcriber
