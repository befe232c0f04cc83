import Transcriber.Proofs.Change

/-!
# Handlers and printers only make changes

Handlers are called and blocks are printed while a tree is walked.  Neither takes comments: all they
do to a workshop is made of changes, so they keep to every manner of work to which changes keep.

* `Handler.keeps_call`, `Handler.steady_call` — calling a handler, and what it gives.
-/

namespace Transcriber

open Build Called Value

section

variable {P : ∀ {α : Type}, Build α → Prop} (hP : BlockManner P)
include hP

/-! ## Filling templates -/

/-- Writing blocks keeps to a manner. -/
structure Fill.Texts.Steady (P : ∀ {α : Type}, Build α → Prop) (texts : Fill.Texts) : Prop where
  output : ∀ id, P (texts.output id)
  outline : ∀ id, P (texts.outline id)

namespace Fill

variable {texts : Fill.Texts} (ht : texts.Steady P)

include ht in
theorem keeps_operandText (operand : Operand) : P (operandText texts operand) := by
  cases operand with
  | block id => exact ht.output id
  | _ => exact hP.pure _

include ht in
theorem keeps_operandQuoted (operand : Operand) : P (operandQuoted texts operand) := by
  cases operand with
  | block id => exact ht.outline id
  | _ => exact hP.pure _

theorem keeps_access (operand : Operand) (step : Text.Access) : P (access operand step) := by
  unfold access
  split
  · exact hP.throw _
  · split
    · split
      · exact hP.pure _
      · exact hP.throw _
    · exact hP.throw _
  · exact hP.throw _

theorem keeps_operandOf (e : Expr) (name : List Char) : P (operandOf e name) := by
  unfold operandOf
  refine hP.bind ?_ fun first => ?_
  · unfold lookup
    split
    · exact hP.throw _
    · split
      · exact hP.pure _
      · exact hP.pure _
      · exact hP.throw _
  · refine hP.bind (hP.foldlM fun operand step _ => keeps_access hP operand step) fun found => ?_
    split
    · exact hP.pure _
    · exact hP.throw _

include ht in
theorem keeps_convert (operand : Operand) (conversion : Option Char) :
    P (convert texts operand conversion) := by
  unfold convert
  split
  · exact hP.pure _
  · exact hP.result (keeps_operandText hP ht operand)
  · exact hP.result (keeps_operandQuoted hP ht operand)
  · split
    · exact hP.pure _
    · exact hP.result (keeps_operandQuoted hP ht _)
  · exact hP.throw _

include ht in
theorem keeps_fit (operand : Operand) (spec : List Char) : P (fit texts operand spec) := by
  have hchars : ∀ cs, P (fit.chars cs) := by
    intro cs
    cases cs with
    | none => exact hP.throw _
    | some cs => exact hP.pure _
  unfold fit
  split
  · exact keeps_operandText hP ht operand
  · split
    · exact hchars _
    · exact hchars _
    · exact hP.throw _

include ht in
theorem keeps_fillTo (e : Expr) (depth : Nat) (template : String) : P (fillTo texts e depth template) := by
  induction depth generalizing template with
  | zero => exact hP.throw _
  | succ depth ih =>
    unfold fillTo
    dsimp only
    refine hP.bind (hP.mapM fun piece _ => ?_) fun parts => ?_
    · split
      · exact hP.pure _
      · refine hP.bind (keeps_operandOf hP e _) fun operand => ?_
        refine hP.bind (keeps_convert hP ht operand _) fun operand => ?_
        split
        · exact hP.bind (hP.map (ih _)) fun spec => keeps_fit hP ht operand spec
        · exact hP.bind (hP.pure _) fun spec => keeps_fit hP ht operand spec
    · split
      · exact hP.pure _
      · exact hP.throw _

include ht in
theorem keeps_fill (e : Expr) : P (fill texts e) := hP.result (keeps_fillTo hP ht e 2 _)

end Fill

/-! ## Handlers -/

/-- Asking for the items of a result keeps to a manner. -/
def Called.Steady (P : ∀ {α : Type}, Build α → Prop) (called : Called) : Prop :=
  P called.items

theorem Called.steady_value (v : Value) : (Called.value v).Steady P := hP.lift _

theorem Called.steady_sequence {items : Build (List Value)} (h : P items) :
    (Called.sequence items).Steady P :=
  hP.rethrow h

theorem Value.keeps_blockId (v : Value) : P v.blockId := by
  unfold blockId
  split
  · exact hP.pure _
  · exact hP.throw _

theorem Value.keeps_written {texts : Fill.Texts} (ht : texts.Steady P) (v : Value) : P (v.written texts) := by
  unfold Value.written
  split
  · exact ht.output _
  · exact hP.pure _

namespace Handler

theorem keeps_docStringOf (id : BlockId) : P (docStringOf id) := hP.result (hP.block id)

theorem keeps_indent : P indent := hP.reads (fun _ => hP.pure _) fun _ _ _ => rfl

theorem keeps_indentAt (level : Int) : P (indentAt level) := hP.bind (keeps_indent hP) fun _ => hP.lift _

theorem keeps_mainStanzaOf (id : BlockId) : P (mainStanzaOf id) := by
  unfold mainStanzaOf
  refine hP.bind (hP.block id) fun b => ?_
  refine hP.reads (fun w => ?_) fun _ _ _ => rfl
  dsimp only
  split
  · exact hP.pure _
  · exact hP.result (keeps_indent hP)

theorem keeps_substituteAll (text : String) (rules : List Value) : P (substituteAll text rules) := by
  refine hP.foldlM fun text rule _ => ?_
  refine hP.bind (hP.lift _) fun pair => ?_
  split
  · exact hP.lift _
  · exact hP.throw _

theorem keeps_substituteOutput (config : Config) (sort text : String) :
    P (substituteOutput config sort text) := by
  refine hP.foldlM fun text layer _ => ?_
  exact hP.bind (hP.lift _) fun rules => keeps_substituteAll hP text rules

theorem keeps_methodsNamed (parent : BlockId) (name : Option String) : P (methodsNamed parent name) := by
  refine hP.reads (fun w => ?_) fun _ _ _ => rfl
  exact hP.result (hP.block parent)

theorem keeps_basesOr (id : BlockId) (others : List String) : P (basesOr id others) :=
  hP.result (hP.block id)

theorem keeps_implementsAnyOf (id : BlockId) : P (implementsAnyOf id) := by
  refine hP.bind (hP.block id) fun b => ?_
  exact hP.reads (fun w => hP.pure _) fun _ _ _ => rfl

theorem keeps_interfaceParamsOf (id : BlockId) : P (interfaceParamsOf id) := by
  unfold interfaceParamsOf
  refine hP.bind (hP.block id) fun b => ?_
  refine hP.bind (hP.demand _) fun parent => ?_
  refine hP.bind (hP.block parent) fun p => ?_
  split <;> exact hP.pure _

theorem keeps_programOf (v : Value) : P (programOf v) := by
  unfold programOf
  split
  · refine hP.bind (hP.block _) fun b => ?_
    split <;> exact hP.pure _
  · exact hP.pure _

variable {texts : Fill.Texts}

theorem keeps_makePackage (ht : texts.Steady P) (id : BlockId)
    (package : Value) : P (makePackage texts id package) := by
  unfold makePackage
  refine hP.bind (hP.block id) fun b => ?_
  split
  · split
    · exact hP.report _ _
    · refine hP.reads (fun w => ?_) fun _ _ _ => rfl
      split
      · exact hP.report _ _
      · refine hP.bind (hP.file _) fun _ => ?_
        exact hP.bind (keeps_written hP ht package) fun _ => hP.report _ _
  · exact hP.report _ _
  · exact hP.throw _

theorem keeps_renameOverloads (id : BlockId) (count : Nat) (others : List BlockId) :
    P (renameOverloads id count others) := by
  induction others generalizing count with
  | nil => exact hP.pure _
  | cons other rest ih =>
    unfold renameOverloads
    refine hP.bind (hP.block _) fun _ => hP.bind (hP.block _) fun _ => ?_
    refine hP.bind (hP.change _ fun _ => ⟨rfl, List.Subset.refl _⟩) fun _ => ?_
    refine hP.bind (hP.block _) fun _ => ?_
    exact hP.bind (hP.change _ fun _ => ⟨rfl, List.Subset.refl _⟩) fun _ => ih _

theorem keeps_overloadsOf (id : BlockId) : P (overloadsOf id) := by
  unfold overloadsOf
  refine hP.bind (hP.block id) fun b => ?_
  refine hP.bind (hP.demand _) fun parent => ?_
  refine hP.bind (keeps_methodsNamed hP _ _) fun methods => ?_
  split
  · refine hP.bind (hP.block _) fun only => ?_
    split <;> exact hP.pure _
  · exact hP.result (keeps_renameOverloads hP id 0 _)

theorem keeps_sortContentOf (id : BlockId) : P (sortContentOf id) := by
  unfold sortContentOf
  refine hP.bind (hP.block id) fun b => ?_
  refine hP.reads (fun w => ?_) fun _ _ _ => rfl
  split
  · exact hP.change _ fun _ => ⟨rfl, List.Subset.refl _⟩
  · exact hP.throw _

theorem keeps_moveStaticsOf (ht : texts.Steady P) (id : BlockId) : P (moveStaticsOf texts id) := by
  unfold moveStaticsOf
  refine hP.bind (hP.block id) fun b => ?_
  refine hP.bind (hP.filterM fun child _ => ?_) fun moved => ?_
  · refine hP.bind (hP.block child) fun c => ?_
    split
    · exact hP.result (ht.output child)
    · exact hP.pure _
  · refine hP.bind (hP.enclosing id _) fun home => ?_
    refine hP.forM fun child _ => ?_
    refine hP.bind (hP.change _ fun _ => ⟨rfl, List.Subset.refl _⟩) fun _ => ?_
    refine hP.bind (hP.looseExpr rfl) fun wrapped => ?_
    exact hP.bind (hP.block home) fun _ => hP.adopt _ _ _

theorem keeps_freshNameFor (base : String) : P (freshNameFor base) := by
  refine hP.reads (fun w => ?_) fun _ _ _ => rfl
  exact hP.result (hP.count _)

/-- Declarations become comments only with templates of their own. -/
theorem keeps_declare {form : Expr → Form} {template : String}
    (h : ∀ left, Block.Unremarked { form := form { left, template } })
    (module declared : Value) : P (declare form template module declared) := by
  refine hP.bind (keeps_blockId hP _) fun parent => ?_
  refine hP.result (hP.create ?_)
  exact ⟨(h declared.operand).tail, (h declared.operand).form⟩

omit hP in
theorem unremarked_comment {left : Operand} {template : String} (h : template ≠ Slot.both) :
    Block.Unremarked { form := .comment { left, template } } where
  tail p hp := by
    cases hp
    rfl
  form e he := by
    cases he
    exact h

theorem keeps_asked {α β : Type} {m : BlockId → Build α} {f : BlockId → α → β} (v : Value)
    (h : ∀ id, P (m id)) : P (do let id ← v.blockId; let a ← m id; pure (f id a)) :=
  hP.bind (keeps_blockId hP v) fun id => hP.result (h id)

theorem keeps_call (ht : texts.Steady P) (h : Handler) (args : List Value) : P (h.call texts args) := by
  unfold call
  split
  all_goals first | exact hP.pure _ | exact hP.throw _ | skip
  · exact keeps_declare hP (fun _ => unremarked_comment (by decide)) _ _
  · exact keeps_declare hP (fun _ => Block.unremarked_of_expression rfl rfl) _ _
  · exact keeps_declare hP (fun _ => unremarked_comment (by decide)) _ _
  · exact keeps_asked hP _ fun id => keeps_makePackage hP ht id _
  · exact hP.result (keeps_written hP ht _)
  · refine hP.bind (keeps_blockId hP _) fun id => hP.bind (hP.block id) fun b => ?_
    dsimp only
    split
    · refine hP.reads (fun w => ?_) fun _ _ _ => rfl
      exact hP.result (keeps_substituteOutput hP _ _ _)
    · exact hP.throw _
  · refine hP.bind (keeps_written hP ht _) fun name => ?_
    exact hP.result (keeps_freshNameFor hP name)
  · exact keeps_asked hP _ (keeps_sortContentOf hP)
  · exact keeps_asked hP _ hP.block
  · exact keeps_asked hP _ fun id => keeps_basesOr hP id _
  · exact keeps_asked hP _ fun id => keeps_basesOr hP id _
  · exact keeps_asked hP _ (keeps_implementsAnyOf hP)
  · refine hP.bind (keeps_blockId hP _) fun id => ?_
    refine hP.bind (keeps_implementsAnyOf hP id) fun any => ?_
    split
    · exact hP.pure _
    · exact hP.result (keeps_basesOr hP id _)
  · exact keeps_asked hP _ (keeps_moveStaticsOf hP ht)
  · exact keeps_asked hP _ fun id => hP.setTemplate id _
  · exact keeps_asked hP _ fun id => hP.setTemplate id _

theorem steady_about {items : BlockId → Build (List Value)} (v : Value)
    (h : ∀ id, P (items id)) : (about items v).Steady P :=
  steady_sequence hP (hP.bind (keeps_blockId hP v) h)

theorem steady_call (texts : Fill.Texts) (h : Handler) (args : List Value) :
    Gives (Called.Steady P) (h.call texts args) := by
  unfold call
  split
  all_goals
    first
    | exact gives_pure (steady_value hP _)
    | exact gives_throw _ _
    | exact gives_bind fun _ => gives_bind fun _ => gives_pure (steady_value hP _)
    | skip
  · exact gives_pure (steady_sequence hP (hP.pure _))
  · exact gives_pure (steady_sequence hP (hP.pure _))
  · exact gives_pure (steady_about hP _ (keeps_docStringOf hP))
  · exact gives_bind fun _ => gives_pure (steady_value hP _)
  · exact gives_pure (steady_about hP _ (keeps_mainStanzaOf hP))
  · refine gives_bind fun _ => gives_bind fun _ => ?_
    dsimp only
    split
    · exact gives_bind fun _ => gives_bind fun _ => gives_pure (steady_value hP _)
    · exact gives_throw _ _
  · exact gives_pure (steady_about hP _ (keeps_overloadsOf hP))
  · exact gives_pure (steady_about hP _ fun id => hP.result (hP.block id))
  · refine gives_pure (steady_about hP _ fun id => hP.bind (hP.block id) fun b => ?_)
    split
    · exact hP.pure _
    · exact hP.result (hP.block _)
  · exact gives_pure (steady_about hP _ fun id => hP.result (hP.block id))
  · refine gives_pure (steady_sequence hP ?_)
    exact hP.result (keeps_programOf hP _)
  · refine gives_pure (steady_sequence hP ?_)
    exact hP.result (keeps_programOf hP _)
  · refine gives_pure (steady_sequence hP ?_)
    exact hP.result (keeps_programOf hP _)
  · exact gives_pure (steady_about hP _ (keeps_interfaceParamsOf hP))
  · refine gives_bind fun id => gives_bind fun any => ?_
    split
    · exact gives_pure (steady_value hP _)
    · exact gives_bind fun _ => gives_pure (steady_value hP _)
  · refine gives_pure (steady_about hP _ fun id => hP.bind (keeps_implementsAnyOf hP id) fun any => ?_)
    split
    · exact hP.result (hP.block id)
    · exact hP.pure _
  · exact gives_pure (steady_sequence hP (hP.pure _))

end Handler

theorem Value.keeps_call {texts : Fill.Texts} (ht : texts.Steady P) (v : Value) (args : List Value) :
    P (v.call texts args) := by
  unfold Value.call
  split
  · exact Handler.keeps_call hP ht _ _
  · exact hP.throw _

theorem Value.steady_call (texts : Fill.Texts) (v : Value)
    (args : List Value) : Gives (Called.Steady P) (v.call texts args) := by
  unfold Value.call
  split
  · exact Handler.steady_call hP texts _ _
  · exact gives_throw _ _

/-! ## Printers -/

/-- Printing keeps to a manner. -/
structure Printer.Steady (P : ∀ {α : Type}, Build α → Prop) (p : Printer) : Prop where
  text : ∀ id, P (p.text id)
  dump : ∀ level id, P (p.dump level id)

theorem Outline.keeps_line {output : BlockId → Build String} (ho : ∀ id, P (output id)) (id : BlockId) :
    P (Outline.line output id) := by
  have ht : Fill.Texts.Steady P ⟨output, fun _ => throw .depth⟩ := ⟨ho, fun _ => hP.throw _⟩
  unfold Outline.line
  refine hP.bind (hP.block id) fun b => ?_
  refine hP.reads (fun w => ?_) fun _ _ _ => rfl
  dsimp only
  split
  · refine hP.bind (Fill.keeps_operandText hP ht _) fun left => ?_
    exact hP.bind (Fill.keeps_operandText hP ht _) fun right => hP.pure _
  · exact hP.pure _
  · exact hP.pure _
  · exact hP.pure _

namespace Printer

theorem keeps_handlers (id : BlockId) (part ending : String) : P (handlers id part ending) := by
  refine hP.reads (fun w => ?_) fun _ _ _ => rfl
  refine hP.bind (hP.bind (hP.block id) fun b => hP.pure _) fun name => ?_
  exact hP.bind (hP.mapM fun layer _ => hP.lift _) fun values => hP.pure _

variable {p : Printer} (hp : p.Steady P)

include hp

theorem Steady.texts : p.texts.Steady P := ⟨hp.text, Outline.keeps_line hP hp.text⟩

theorem keeps_callAll (id : BlockId) (part : String) : P (callAll p id part) := by
  refine hP.bind (keeps_handlers hP id part _) fun hs => ?_
  exact hP.mapM fun h _ => hP.rethrow (keeps_call hP (hp.texts hP) h _)

omit hp in
theorem steady_callAll (id : BlockId) (part : String) :
    Gives (fun cs => ∀ c ∈ cs, Called.Steady P c) (callAll p id part) := by
  refine gives_bind fun hs => ?_
  exact gives_mapM fun h _ => gives_rethrow (steady_call hP p.texts h _)

theorem keeps_itemsOf (id : BlockId) (part : String) : P (itemsOf p id part) := by
  refine hP.bind_of_gives (keeps_callAll hP hp id part) (steady_callAll hP id part) ?_
  exact fun cs hcs => hP.result (hP.mapM hcs)

theorem keeps_classLine (id : BlockId) : P (classLine p id) := by
  unfold classLine
  refine hP.bind (keeps_itemsOf hP hp id _) fun items => ?_
  refine hP.bind (hP.mapM fun v _ => ?_) fun bases => ?_
  · split
    · exact hP.pure _
    · exact hP.throw _
  · exact hP.bind (hP.block id) fun b => hP.pure _

theorem keeps_paramText (v : Value) : P (paramText p v) := by
  unfold paramText
  refine hP.bind (hP.lift _) fun hasDefault => ?_
  cases v with
  | table entries =>
    dsimp only
    split
    · refine hP.bind (by split <;> apply_rules [hP.pure, hP.throw]) fun name => ?_
      refine hP.bind (keeps_written hP (hp.texts hP) name) fun _ => ?_
      refine hP.bind (by split <;> apply_rules [hP.pure, hP.throw]) fun default => ?_
      exact hP.result (keeps_written hP (hp.texts hP) default)
    · refine hP.bind (by split <;> apply_rules [hP.pure, hP.throw]) fun name => ?_
      split
      · exact hP.pure _
      · exact hP.throw _
  | _ =>
    dsimp only
    split
    · exact hP.bind (hP.throw _) fun name => hP.bind (keeps_written hP (hp.texts hP) name)
        fun _ => hP.bind (hP.throw _) fun default =>
          hP.result (keeps_written hP (hp.texts hP) default)
    · refine hP.bind (hP.throw _) fun name => ?_
      split
      · exact hP.pure _
      · exact hP.throw _

theorem keeps_methodLine (id : BlockId) : P (methodLine p id) := by
  refine hP.bind (keeps_itemsOf hP hp id _) fun items => ?_
  refine hP.bind (hP.mapM fun v _ => keeps_paramText hP hp v) fun params => ?_
  exact hP.bind (hP.block id) fun b => hP.pure _

theorem keeps_prologue (id : BlockId) : P (prologue p id) := by
  unfold prologue
  refine hP.bind (hP.block id) fun b => ?_
  split
  · exact hP.pure _
  · refine hP.bind (keeps_callAll hP hp id _) fun called => ?_
    split
    · exact hP.pure _
    · split <;> exact hP.pure _

theorem steady_prologue (id : BlockId) : Gives (fun cs => ∀ c ∈ cs, Called.Steady P c) (prologue p id) := by
  have hdecorators : Called.Steady P (decorators id) :=
    steady_sequence hP (hP.result (hP.block id))
  unfold prologue
  refine gives_bind fun b => ?_
  split
  · refine gives_pure fun c hc => ?_
    obtain rfl := List.mem_singleton.1 hc
    exact steady_sequence hP (hP.pure _)
  · refine gives_bind_of_gives (steady_callAll hP id "Prologue") fun called hcalled => ?_
    have hline : ∀ line : Build (List Value), P line →
        ∀ c ∈ called ++ [decorators id, .sequence line], Called.Steady P c := by
      intro line hkeeps c hc
      rcases List.mem_append.1 hc with hc | hc
      · exact hcalled c hc
      · rcases List.mem_cons.1 hc with rfl | hc
        · exact hdecorators
        · obtain rfl := List.mem_singleton.1 hc
          exact steady_sequence hP hkeeps
    split
    · exact gives_pure (hline _ (keeps_classLine hP hp id))
    · split
      · exact gives_pure (hline _ (keeps_methodLine hP hp id))
      · exact gives_pure hcalled

theorem keeps_writeAll (indent : String) {cs : List Called} (hcs : ∀ c ∈ cs, Called.Steady P c) :
    P (writeAll p indent cs) := by
  induction cs with
  | nil => exact hP.pure _
  | cons c cs ih =>
    unfold writeAll
    refine hP.bind (hcs c (.head _)) fun items => ?_
    refine hP.bind (hP.mapM fun item _ => ?_) fun written => ?_
    · split
      · exact hP.pure _
      · exact hP.result (keeps_written hP (hp.texts hP) item)
    · refine hP.bind (ih fun c' hc' => hcs c' (.tail _ hc')) fun _ => ?_
      exact hP.pure _

theorem keeps_writeHead (level : Int) {cs : List Called} (hcs : ∀ c ∈ cs, Called.Steady P c) :
    P (writeHead p level cs) := by
  induction cs with
  | nil => exact hP.pure _
  | cons c cs ih =>
    unfold writeHead
    refine hP.bind (hcs c (.head _)) fun items => ?_
    refine hP.bind (hP.mapM fun item _ => ?_) fun written => ?_
    · split
      · exact hP.pure _
      · exact hP.result (Handler.keeps_indentAt hP level)
      · exact hp.dump level _
      · exact hP.throw _
    · refine hP.bind (ih fun c' hc' => hcs c' (.tail _ hc')) fun _ => ?_
      exact hP.pure _

theorem keeps_hasHead (id : BlockId) : P (hasHead p id) := by
  refine hP.bind_of_gives (keeps_callAll hP hp id _) (steady_callAll hP id _) fun cs hcs => ?_
  induction cs with
  | nil => exact hP.pure _
  | cons c cs ih =>
    unfold hasHead.any
    refine hP.bind (hcs c (.head _)) fun items => ?_
    dsimp only
    split
    · exact hP.pure _
    · exact ih fun c' hc' => hcs c' (.tail _ hc')

omit hP hp in
theorem spaced_congr (w w' : Workshop) (h : w'.blocks = w.blocks) (before : Option BlockId)
    (children : List BlockId) : spaced w' before children = spaced w before children := by
  induction children generalizing before with
  | nil => rfl
  | cons child children ih => rw [spaced, spaced, h, ih]

theorem keeps_body (id : BlockId) : P (body p id) := by
  unfold body
  refine hP.bind (hP.block id) fun b => ?_
  split
  · refine hP.bind (keeps_handlers hP id _ _) fun hs => ?_
    refine hP.bind (hP.forM fun h _ => ?_) fun _ => ?_
    · exact hP.result (keeps_call hP (hp.texts hP) h _)
    · refine hP.bind (keeps_hasHead hP hp id) fun head => ?_
      refine hP.bind (hP.block id) fun b => ?_
      dsimp only
      split
      · exact hP.pure _
      · refine hP.reads (fun w => hP.pure _) fun w report trail => ?_
        have hsame : spaced { w with report, trail } none b.children = spaced w none b.children :=
          spaced_congr w { w with report, trail } rfl none _
        rw [hsame]
  · split
    · refine hP.bind (keeps_hasHead hP hp id) fun head => ?_
      refine hP.bind (hP.block id) fun b => ?_
      dsimp only
      split <;> exact hP.pure _
    · exact hP.pure _

theorem keeps_writeModule (level : Int) (id : BlockId) (fuel index : Nat) :
    P (writeModule p level id fuel index) := by
  induction fuel generalizing index with
  | zero => exact hP.pure _
  | succ fuel ih =>
    unfold writeModule
    refine hP.bind (hP.block id) fun b => ?_
    dsimp only
    split
    · exact hP.pure _
    · rename_i child _
      refine hP.bind (hP.block _) fun after => ?_
      have hrest : ∀ blanks : Nat, P (do
          let blank := lineText (← Handler.indentAt level) ""
          let written ← p.dump level child
          return String.join (List.replicate blanks blank) ++ written
            ++ (← writeModule p level id fuel (index + 1))) := by
        intro blanks
        refine hP.bind (Handler.keeps_indentAt hP level) fun indent => ?_
        refine hP.bind (hp.dump level _) fun written => ?_
        exact hP.result (ih (index + 1))
      cases index with
      | zero => exact hP.bind (hP.pure _) hrest
      | succ before =>
        dsimp only
        split
        · exact hP.bind (hP.block _) fun _ => hP.bind (hP.pure _) hrest
        · exact hP.bind (hP.pure _) hrest

theorem keeps_dumpBlock (level : Int) (id : BlockId) : P (dumpBlock p level id) := by
  unfold dumpBlock
  refine hP.bind (hP.block id) fun b => ?_
  refine hP.bind (Handler.keeps_indentAt hP level) fun indent => ?_
  split
  · exact hP.result (hp.text id)
  · refine hP.bind_of_gives (keeps_prologue hP hp id) (steady_prologue hP hp id) fun cs hcs => ?_
    refine hP.bind (keeps_writeAll hP hp indent hcs) fun opening => ?_
    refine hP.bind_of_gives (keeps_callAll hP hp id _) (steady_callAll hP id _) fun hs hhs => ?_
    refine hP.bind (keeps_writeHead hP hp (level + 1) hhs) fun head => ?_
    have hclosing : ∀ body : String, P (do
        let closing ← writeAll p indent (← callAll p id "Epilogue")
        return opening ++ head ++ body ++ closing) := by
      intro body
      refine hP.bind_of_gives (keeps_callAll hP hp id _) (steady_callAll hP id _) fun es hes => ?_
      exact hP.result (keeps_writeAll hP hp indent hes)
    split
    · refine hP.reads (fun w => ?_) fun _ _ _ => rfl
      exact hP.bind (keeps_writeModule hP hp _ id _ 0) hclosing
    · refine hP.bind (keeps_body hP hp id) fun items => ?_
      refine hP.bind (hP.map (hP.mapM fun item _ => ?_)) hclosing
      cases item with
      | block child => exact hp.dump _ child
      | line text => exact hP.result (Handler.keeps_indentAt hP _)

theorem keeps_textOf (id : BlockId) : P (textOf p id) := by
  unfold textOf
  refine hP.bind (hP.block id) fun b => ?_
  split
  · exact Fill.keeps_fill hP (hp.texts hP) _
  · refine hP.bind (keeps_dumpBlock hP hp _ id) fun printed => ?_
    refine hP.bind (keeps_handlers hP id _ _) fun hs => ?_
    refine hP.bind (hP.foldlM fun v h _ => ?_) fun result => ?_
    · exact hP.result (keeps_call hP (hp.texts hP) h _)
    · split
      · exact hP.pure _
      · exact hP.throw _

theorem Steady.next : p.next.Steady P := ⟨keeps_textOf hP hp, keeps_dumpBlock hP hp⟩

omit hp in
/-- **Printers keep to every manner to which changes keep**, however many levels they are for. -/
theorem steady_forLevels (levels : Nat) : (forLevels levels).Steady P := by
  induction levels with
  | zero => exact ⟨fun _ => hP.throw _, fun _ _ => hP.throw _⟩
  | succ levels ih => exact ih.next hP

end Printer

end

end Transcriber
