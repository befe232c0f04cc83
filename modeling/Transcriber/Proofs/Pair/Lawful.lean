import Transcriber.Proofs.Pair.Agree
import Transcriber.Proofs.Pair.Kin

/-!
# The laws of a bond

A bond is lawful if the small work that a walk is made of agrees on kindred nodes: blocks are made,
changed and looked for, comments are taken where nodes begin and end, settings are asked.  Some work
has to be looked at in one piece, because what the bond asks of the first run may be broken on the
way: the call of a helper that the module does not yet know it needs.

* `Bond.Lawful.does_visit` — visits of kindred nodes agree if the nodes are accepted alike.
-/

namespace Transcriber

open Build Source

/-- The templates that call the helper for unsigned shifts. -/
def Slot.shifts : List String := [
  "bsr(" ++ left ++ ", " ++ right ++ ")",
  left ++ " = bsr(" ++ left ++ ", " ++ right ++ ")"]

/-- The questions that a block asks the handlers of the settings on a walk. -/
inductive Asked (id : BlockId) : String → List Value → Prop
  | cast (text : String) : Asked id "Cast" [.block id, .node text]
  | name (base : String) : Asked id "VariableNaming" [.text base]
  | imported (name : BlockId) : Asked id "ImportDeclaration" [.block id, .block name]
  | package (name : BlockId) : Asked id "PackageDeclaration" [.block id, .block name]
  | value (index : Nat) (text : String) : Asked id "Value" [.block id, .number index, .text text]

/-- What the standard settings have for the questions of a walk: nothing, or the handler that is meant
for the question. -/
theorem Asked.standard {id : BlockId} {part : String} {args : List Value} (h : Asked id part args)
    (form : Form) {P : Value → List Value → Prop} (hnone : P .none args)
    (hcast : ∀ text, P (.handler .dropCast) [.block id, .node text])
    (hname : ∀ base, P (.handler .freshName) [.text base])
    (hpackage : ∀ name, P (.handler .packageComments) [.block id, .block name])
    (hvalue : ∀ (index : Nat) text, P (.handler .enumNames) [.block id, .number index, .text text]) :
    P (Config.standard.last (form.settingKey ++ part ++ "Handler") .none) args := by
  cases h with
  | cast text => cases form <;> first | exact hnone | exact hcast text
  | name base => cases form <;> first | exact hnone | exact hname base
  | imported name => cases form <;> exact hnone
  | package name => cases form <;> first | exact hnone | exact hpackage name
  | value index text => cases form <;> first | exact hnone | exact hvalue index text

/-- A block that stays in its place, and keeps its sort and its modifiers. -/
structure Block.Amended (b b' : Block) : Prop where
  form : b'.form = b.form
  modifiers : b'.modifiers = b.modifiers
  declared : b.declared ⊆ b'.declared
  parent : b'.parent = b.parent
  children : b'.children = b.children

section

variable [Chronicle]

/-- Takes a child that only served for a while out of a block. -/
def Build.release (id child : BlockId) : Build Unit := do
  if (← block id).children.contains child then
    change id fun b => { b with children := b.children.erase child }
  else throw .value

/-- A way to visit nodes in each run agrees on the nodes that are in a relation. -/
def Bond.Visits (B : Bond) (N : Cursor → Cursor → Prop) (descend descend' : Visit) : Prop :=
  ∀ ⦃n i : Nat⦄ ⦃c c' : Cursor⦄, i < n → N c c' → B.Does n (descend i c) (descend' i c')

/-- The small work of a walk agrees on kindred nodes. -/
structure Bond.Lawful (B : Bond) (K : Kin) : Prop where
  agree_block {n i : Nat} (hi : i < n) :
    B.Agree n (fun n' b b' => b = b' ∧ ∀ p, b.parent = some p → p < n') (block i) (block i)
  makes_opening {n i : Nat} (hi : i < n) : B.Makes n (opening i) (opening i)
  makes_enclosing {n i : Nat} (test : Block → Bool) (hi : i < n) :
    B.Makes n (enclosing i test) (enclosing i test)
  does_qualify {n i : Nat} (name : String) (hi : i < n) : B.Does n (qualify i name) (qualify i name)
  does_setLeft {n i : Nat} (operand : Operand) (hi : i < n) :
    B.Does n (setLeft i operand) (setLeft i operand)
  does_setRight {n i : Nat} (operand : Operand) (hi : i < n) :
    B.Does n (setRight i operand) (setRight i operand)
  does_setTemplate {n i : Nat} {template} (ht : template ∉ Slot.shifts)
    (hi : i < n) :
    B.Does n (setTemplate i template) (setTemplate i template)
  makes_expr {n parent left right template} (ht : template ∉ Slot.shifts)
    (hparent : ∀ p, parent = some p → p < n) :
    B.Makes n (expr parent { left, right, template }) (expr parent { left, right, template })
  makes_method {n i : Nat} (name type : Option String) (hi : i < n) :
    B.Makes n (method (some i) name type) (method (some i) name type)
  makes_statement {n i : Nat} {keyword template} (hk : keyword ≠ "with") (ht : template ∉ Slot.shifts)
    (hi : i < n) :
    B.Makes n (statement (some i) keyword template) (statement (some i) keyword template)
  makes_content {n i : Nat} (hi : i < n) : B.Makes n (content i) (content i)
  does_adopt {n i : Nat} {left right template} (ht : template ∉ Slot.shifts) (hi : i < n) :
    B.Does n (do adopt i (← looseExpr { left, right, template }) (-1))
      (do adopt i (← looseExpr { left, right, template }) (-1))
  does_report {n} (level : Level) (message : String) : B.Does n (report level message) (report level message)
  does_amend {n i : Nat} {f} (hf : ∀ b : Block, b.Amended (f b)) (hi : i < n) :
    B.Does n (change i f) (change i f)
  does_release {n i : Nat} (child : BlockId) (hi : i < n) : B.Does n (release i child) (release i child)
  hands_declareType {n i : Nat} {c c' form}
    (hform : form ∈ [Form.annotationType, .plainClass, .enumeration]) (hc : K.akin c c') (hplain : c.kind ∉ Kin.controls) (hi : i < n) :
    B.Hands n (Declaration.declareType form i c) (Declaration.declareType form i c')
  does_before {n owner near : Nat} {c c'} (hc : K.akin c c') (howner : owner < n) (hnear : near < n) :
    B.Does n (takeComments owner near c.head.start) (takeComments owner near c'.head.start)
  does_after {n owner near : Nat} {c c'} (hc : K.Near c c') (howner : owner < n) (hnear : near < n) :
    B.Does n (takeComments owner near c.head.stop) (takeComments owner near c'.head.stop)
  does_rest {n i : Nat} (hi : i < n) : B.Does n (do takeComments i i (← get).trail.tokens.length)
      (do takeComments i i (← get).trail.tokens.length)
  does_mutate {n i : Nat} (hi : i < n) : B.Does n (mutate i) (mutate i)
  does_setting {n i : Nat} {part} {k k' : Value → Build Unit} (hi : i < n)
    (hk : ∀ v, (∀ args, Asked i part args → B.Does n (callSetting v args) (callSetting v args)) →
      B.Does n (k v) (k' v)) :
    B.Does n (setting i part "Handler" .none >>= k) (setting i part "Handler" .none >>= k')
  /-- A helper for shifts is called, and the module takes note of it. -/
  does_shift {n i : Nat} {template} {m m' : Build Unit} (ht : template ∈ Slot.shifts) (hi : i < n)
    (hm : B.Does n m m') :
    B.Does n (do setTemplate i template; m; Expression.needShift i)
      (do setTemplate i template; m'; Expression.needShift i)
  /-- The module takes note that it needs locks, and then they are used. -/
  does_lock {n i : Nat} (parent : Option Kind) {m m' : BlockId → Build Unit} (hi : i < n)
    (hm : ∀ k stat, n ≤ k → stat < k → B.Does k (m stat) (m' stat)) :
    B.Does n (Statement.locked i parent m) (Statement.locked i parent m')
  hands_declareInterface {n i : Nat} {c c'} (hc : K.akin c c') (hplain : c.kind ∉ Kin.controls) (hi : i < n) :
    B.Hands n (Declaration.declareInterface i c) (Declaration.declareInterface i c')
  agree_announce {n i : Nat} {c c' d d'} (hc : K.akin c c') (hplain : c.kind ∉ Kin.controls)
    (hd : K.akin d d') (hdplain : d.kind ∉ Kin.controls) (hi : i < n) :
    B.Agree n (fun n' r r' => r = r' ∧ r.1 < n') (Variable.announce i c d) (Variable.announce i c' d')
  /-- The modifiers of a type or method are kept, and then each of them is visited. -/
  does_modifiers {n i : Nat} {c c' fuel fuel'} (hc : K.akin c c') (hkind : c.kind = .modifierList)
    (hi : i < n)
    (hannotate : ∀ d d', K.akin d d' → d ∈ c.children → d.kind = .annotationUse →
      B.Does n (Modifier.annotate i d) (Modifier.annotate i d'))
    (hwalk : ∀ d d', K.Inside c c' d d' → d ∈ c.children →
      B.Does n (Declaration.walkUpTo fuel i d) (Declaration.walkUpTo fuel' i d')) :
    B.Does n (do
        let _ ← block i
        let _ ← Modifier.accept i c
        c.children.forM fun child => do
          Declaration.walkUpTo fuel i child
          takeComments i i child.head.stop)
      (do
        let _ ← block i
        let _ ← Modifier.accept i c'
        c'.children.forM fun child => do
          Declaration.walkUpTo fuel' i child
          takeComments i i child.head.stop)
  /-- The visit of a block around one statement adds nothing to the visit of the statement. -/
  does_alone {n i : Nat} {c c' d descend'} {accept' : Accept} {m : Build Unit}
    (hbraced : K.braced c c') (hchildren : c'.children = [d]) (hname : c'.kind = .blockScope) (hi : i < n)
    (haccept : ∀ w b, w.blocks[i]? = some b → accept' i c' w = unhandled i c' w)
    (hd : B.Does n m (descend' i d)) : B.Does n m (visit accept' descend' i c')

end

namespace Bond

variable {B : Bond} {K : Kin} {n i : Nat} {c c' : Cursor}
variable {N : Cursor → Cursor → Prop} {descend descend' : Visit}

theorem Visits.mono {N' : Cursor → Cursor → Prop} (h : B.Visits N descend descend')
    (hN : ∀ c c', N' c c' → N c c') : B.Visits N' descend descend' :=
  fun _ _ _ _ hi hc => h hi (hN _ _ hc)

theorem Visits.maybe (hd : B.Visits N descend descend') {d d' : Option Cursor}
    (h : Option.Rel N d d') (hi : i < n) :
    B.Does n (visitMaybe descend i d) (visitMaybe descend' i d') := by
  cases h with
  | some h => exact hd hi h
  | none => exact agree_pure rfl

theorem Visits.each (hd : B.Visits N descend descend') {cs cs' : List Cursor}
    (hcs : List.Forall₂ N cs cs') {ids : List Nat} (hids : ∀ i ∈ ids, i < n) :
    B.Does n (visitEach descend cs ids) (visitEach descend' cs' ids) := by
  induction hcs generalizing ids with
  | nil => exact agree_pure rfl
  | cons hc _ ih =>
    cases ids with
    | nil => exact agree_pure rfl
    | cons i ids =>
      refine (hd (hids i (.head _)) hc).bind fun _ => ?_
      exact ih fun j hj => hids j (.tail _ hj)

theorem does_textOf (hK : K.Lawful) {d d' : Option Cursor} (h : Option.Rel K.akin d d') :
    B.Does n (textOf d) (textOf d') :=
  agree_demand h fun _ _ h => agree_pure (hK.text_eq h)

theorem does_typeText (hK : K.Lawful) (hc : K.akin c c') (hplain : c.kind ∉ Kin.controls)
    (hqualify : ∀ name, B.Does n (qualify i name) (qualify i name)) :
    B.Does n (typeText i c) (typeText i c') := by
  unfold typeText
  refine agree_demand (hK.child? hc hplain .typeRef) fun type type' ⟨htype, hkind⟩ => ?_
  have hinside := hK.children_inside htype.akin (Kin.not_mem_controls hkind (by decide))
  generalize type.children = ds, type'.children = ds' at hinside
  cases hinside with
  | nil => exact agree_throw _
  | cons hfirst _ =>
    dsimp only
    rw [hK.kind_eq hfirst.akin]
    split
    next hqualified =>
      have hkind' := (hK.kind_eq hfirst.akin).trans (eq_of_beq hqualified)
      have hnames := hK.childrenOf hfirst.akin (Kin.not_mem_controls hkind' (by decide)) .ident
      refine Does.bind (does_mapM hnames fun d d' hd => ?_) fun names => hqualify _
      rw [hK.text_eq hd.1.akin]
      exact hqualify _
    next =>
      rw [hK.text_eq hfirst.akin]
      exact hqualify _

namespace Lawful

variable [Chronicle] (hB : B.Lawful K) (hK : K.Lawful)

section

include hB

theorem makes_exprAt {left right : Operand} {template : String} (ht : template ∉ Slot.shifts)
    (hi : i < n) : B.Makes n (expr (some i) { left, right, template })
      (expr (some i) { left, right, template }) :=
  hB.makes_expr ht fun _ h => Option.some.inj h ▸ hi

theorem makes_exprIn (hi : i < n) : B.Makes n (exprIn i) (exprIn i) := hB.makes_exprAt (by decide) (by omega)

theorem makes_looseExpr {left right : Operand} {template : String} (ht : template ∉ Slot.shifts) :
    B.Makes n (looseExpr { left, right, template }) (looseExpr { left, right, template }) :=
  hB.makes_expr ht nofun

theorem makes_openRight (left : Operand) (hi : i < n) :
    B.Makes n (openRight i left) (openRight i left) := by
  have hi : i < n := hi
  refine (hB.makes_exprAt (by decide) (by omega)).bind fun n1 hn1 r hr => ?_
  exact (hB.does_setRight _ (by omega)).bind fun _ => agree_pure ⟨rfl, hr⟩

theorem does_finish (hc : K.akin c c') (hhead : c.head = c'.head) (hi : i < n) :
    B.Does n (finish i c) (finish i c') := by
  unfold finish
  rw [show c.kind = c'.kind from congrArg Head.kind hhead]
  refine (hB.does_after (.inl hc) (by omega) (by omega)).bind fun _ => ?_
  split
  · exact Does.bind_assoc (hB.does_rest (by omega)) fun _ => hB.does_mutate (by omega)
  · exact hB.does_mutate (by omega)

theorem hands_unhandled (hhead : c.head = c'.head) (hi : i < n) :
    B.Hands n (unhandled i c) (unhandled i c') := by
  unfold unhandled
  rw [show c.kind = c'.kind from congrArg Head.kind hhead]
  refine agree_demand (P := Eq) (by cases c'.kind.name? <;> constructor; rfl) fun name _ hname => ?_
  exact hname ▸ (hB.does_report _ _).hand (by omega)

end

include hB hK

/-- Whoever goes on with kindred nodes visits their children alike. -/
theorem does_proceed (hc : K.akin c c') {visitor : Option BlockId}
    (hvisitor : ∀ v : Nat, visitor = some v → v < n)
    (hd : B.Visits (K.Within c c') descend descend') (hi : i < n) :
    B.Does n (do
        match visitor with
        | some v =>
            c.children.forM fun child => do
              descend v child
              takeComments i v child.head.stop
        | none => pure ()
        finish i c)
      (do
        match visitor with
        | some v =>
            c'.children.forM fun child => do
              descend' v child
              takeComments i v child.head.stop
        | none => pure ()
        finish i c') := by
  have hfinish := hB.does_finish hc (hK.head_eq hc) hi
  cases visitor with
  | none => exact hfinish
  | some v =>
    have hv := hvisitor v rfl
    refine Does.bind (does_forM (hK.children_within hc) fun d d' hdd => ?_) fun _ => hfinish
    exact (hd hv hdd).bind fun _ => hB.does_after hdd.near (by omega) (by omega)

/-- Visits of kindred nodes agree if the nodes are accepted alike. -/
theorem does_visit {accept accept' : Accept} (hc : K.akin c c')
    (haccept : B.Hands n (accept i c) (accept' i c'))
    (hd : B.Visits (K.Within c c') descend descend') (hi : i < n) :
    B.Does n (visit accept descend i c) (visit accept' descend' i c') := by
  refine (hB.does_before hc (by omega) (by omega)).bind fun _ => ?_
  refine Agree.bind haccept fun n1 hn1 visitor _ h => ?_
  rw [← h.1]
  exact hB.does_proceed hK hc h.2 hd (by omega)

end Lawful

end Bond

end Transcriber
