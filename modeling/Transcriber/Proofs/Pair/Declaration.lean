import Transcriber.Proofs.Pair.Statement

/-!
# Declarations side by side

Blocks of every sort accept and visit kindred nodes alike.
-/

namespace Transcriber

open Build Source Declaration Kin

/-- Work on a list that keeps some results. -/
theorem Bond.agree_filterMapM {B : Bond} {n : Nat} {α β α' β' : Type} {P : α → α' → Prop}
    {T : β → β' → Prop} {xs : List α} {xs' : List α'} {f : α → Build (Option β)}
    {f' : α' → Build (Option β')} (hxs : List.Forall₂ P xs xs')
    (hf : ∀ k, n ≤ k → ∀ a a', P a a' → B.Agree k (fun _ => Option.Rel T) (f a) (f' a')) :
    B.Agree n (fun _ => List.Forall₂ T) (xs.filterMapM f) (xs'.filterMapM f') := by
  induction hxs generalizing n with
  | nil =>
    rw [List.filterMapM_nil, List.filterMapM_nil]
    exact agree_pure .nil
  | cons h _ ih =>
    rw [List.filterMapM_cons, List.filterMapM_cons]
    refine (hf n (Nat.le_refl _) _ _ h).bind fun n1 hn1 b b' hb => ?_
    have hrest := ih fun k hk => hf k (Nat.le_trans hn1 hk)
    cases hb with
    | none => exact hrest
    | some hb => exact hrest.bind fun _ _ bs bs' hbs => agree_pure (.cons hb hbs)

/-- Elements of annotation types with the same name and type, and kindred defaults. -/
structure Kin.Elements (K : Kin) (e e' : Element) : Prop where
  name : e.name = e'.name
  type : e.type = e'.type
  default : Option.Rel K.akin e.default e'.default

namespace Bond.Lawful

variable [Chronicle] {B : Bond} {K : Kin} (hB : B.Lawful K) (hK : K.Lawful)
variable {n i : Nat} {c c' : Cursor}

section

include hB

theorem agree_at {α : Type} {Q : Nat → α → α → Prop} {f f' : Block → Build α} (hi : i < n)
    (h : ∀ w w' b, B.rel n w w' → w.blocks[i]? = some b → w'.blocks[i]? = some b →
      B.Outcome n Q w (f b w) (f' b w')) :
    B.Agree n Q (block i >>= f) (block i >>= f') := by
  intro w w' hrel
  have hlook := hB.agree_block hi hrel
  generalize hrun : block i w = r, hrun' : block i w' = r' at hlook
  cases hlook with
  | ok _ _ _ heq =>
    obtain ⟨hb, rfl⟩ := block_eq_ok.1 hrun
    obtain ⟨hb', rfl⟩ := block_eq_ok.1 hrun'
    rw [bind_of_ok hrun, bind_of_ok hrun', ← heq.1]
    exact h _ _ _ hrel hb (heq.1 ▸ hb')
  | error hlost =>
    rw [bind_of_error hrun, bind_of_error hrun']
    exact .error hlost
  | solo hsolo _ =>
    refine .solo hsolo fun a w2 ha => ?_
    obtain ⟨b, hb, hrest⟩ := block_bind_eq_ok.1 ha
    have hend := h w w b (B.rel_of_solo hsolo n w w) hb hb
    rw [hrest] at hend
    exact hend.first

theorem does_declares (name : String) (hi : i < n) :
    B.Does n (change i fun b => { b with declared := b.declared ++ [name] })
      (change i fun b => { b with declared := b.declared ++ [name] }) :=
  hB.does_amend (fun _ => ⟨rfl, rfl, List.subset_append_left _ _, rfl, rfl⟩) (by omega)

theorem does_addParameter (parameter : Parameter) (hi : i < n) :
    B.Does n (change i fun b => { b with parameters := b.parameters ++ [parameter] })
      (change i fun b => { b with parameters := b.parameters ++ [parameter] }) :=
  hB.does_amend (fun _ => ⟨rfl, rfl, List.Subset.refl _, rfl, rfl⟩) (by omega)

end

include hB hK

/-! ## Annotations -/

variable {cs cs' : List Cursor}

theorem does_namedValues (hcs : List.Forall₂ K.akin cs cs') (hi : i < n) :
    B.Does n (Modifier.namedValues i cs) (Modifier.namedValues i cs') := by
  induction hcs generalizing n i with
  | nil => exact agree_pure rfl
  | cons hc hrest ih =>
    unfold Modifier.namedValues
    rw [forall₂_isEmpty hrest, hK.text_eq hc]
    refine (hB.makes_exprAt (Slot.plain_item _ _) (by omega)).bind fun n1 hn1 v hv => ?_
    refine (hB.does_setLeft _ (by omega)).bind fun _ => ?_
    refine ((hB.visits_near hK).maybe (forall₂_head? (hK.near_children hc)) (by omega)).bind fun _ => ?_
    refine (hB.makes_exprIn (by omega)).bind fun n2 hn2 next hnext => ?_
    exact (hB.does_setRight _ (by omega)).bind fun _ => ih hnext

variable (hc : K.akin c c') (hi : i < n)
include hc hi

theorem does_annotate (hkind : c.kind = .annotationUse) :
    B.Does n (Modifier.annotate i c) (Modifier.annotate i c') := by
  unfold Modifier.annotate
  have hchild := hK.child? hc (not_mem_controls hkind (by decide))
  refine (does_textOf hK (optionRel_imp (hchild .ident) fun _ _ h => h.1.akin)).bind fun name => ?_
  have hinit := hchild .annotationInitBlock
  generalize c.child? .annotationInitBlock = x, c'.child? .annotationInitBlock = x' at hinit
  cases hinit with
  | none => exact agree_pure rfl
  | @some init init' hinit =>
    obtain ⟨hinit, hinitKind⟩ := hinit
    have hpart := hK.child? hinit.akin (not_mem_controls hinitKind (by decide))
    refine (hB.makes_looseExpr (by decide)).bind fun n1 hn1 d hd => ?_
    refine (hB.makes_exprIn (by omega)).bind fun n2 hn2 k hk => ?_
    refine (hB.does_setRight _ (by omega)).bind fun _ => ?_
    have hadd : B.Does n2 (change i fun b => { b with decorators := b.decorators ++ [.block d] })
        (change i fun b => { b with decorators := b.decorators ++ [.block d] }) :=
      hB.does_amend (fun _ => ⟨rfl, rfl, List.Subset.refl _, rfl, rfl⟩) (by omega)
    have hvalue := hpart .annotationInitDefaultKey
    generalize init.child? .annotationInitDefaultKey = y,
      init'.child? .annotationInitDefaultKey = y' at hvalue
    cases hvalue with
    | some hvalue =>
      have hfirst := forall₂_head? (hK.near_children hvalue.1.akin)
      exact ((hB.visits_near hK).maybe hfirst (by omega)).bind fun _ => hadd
    | none =>
      refine agree_demand (hpart .annotationInitKeyList) fun keys keys' ⟨hkeys, hkeysKind⟩ => ?_
      exact (hB.does_namedValues hK (hK.akin_children hkeys.akin
        (not_mem_controls hkeysKind (by decide))) hk).bind fun _ => hadd

/-! ## Types and methods -/

theorem does_takeBases : B.Does n (takeBases i c) (takeBases i c') := by
  have htexts : (c.descendantsOf .ident).map Cursor.text = (c'.descendantsOf .ident).map Cursor.text :=
    hK.map_text_eq (hK.akin_descendants hc .ident (by decide))
  unfold takeBases
  rw [htexts]
  exact hB.does_amend (fun _ => ⟨rfl, rfl, List.Subset.refl _, rfl, rfl⟩) (by omega)

theorem makes_constructor : B.Makes n (constructor_ i c) (constructor_ i c') := by
  unfold constructor_
  rw [forall₂_isEmpty (hK.akin_descendants hc .superConstructorCall (by decide))]
  refine Agree.bind (hB.agree_block (by omega)) fun n1 hn1 b b' h => ?_
  rw [← h.1]
  refine (hB.makes_method _ _ (by omega)).bind fun n2 hn2 m hm => ?_
  dsimp only
  split
  · exact (hB.makes_exprAt (by decide) (by omega)).then fun _ => agree_pure ⟨rfl, hm⟩
  · exact agree_pure ⟨rfl, hm⟩

theorem makes_procedure (hplain : c.kind ∉ Kin.controls) : B.Makes n (procedure i c) (procedure i c') := by
  refine (does_textOf hK (optionRel_imp (hK.child? hc hplain .ident)
    fun _ _ h => h.1.akin)).bind fun name => ?_
  exact (hB.does_declares name (by omega)).bind fun _ => hB.makes_method _ _ (by omega)

theorem makes_function (hplain : c.kind ∉ Kin.controls) : B.Makes n (function i c) (function i c') := by
  unfold function
  refine agree_demand (hK.child? hc hplain .typeRef) fun type type' ⟨htype, hkind⟩ => ?_
  have hparts := hK.akin_children htype.akin (not_mem_controls hkind (by decide))
  generalize type.children = ts, type'.children = ts' at hparts
  cases hparts with
  | nil => exact agree_throw _
  | cons hfirst _ =>
    dsimp only
    rw [hK.text_eq hfirst]
    refine (does_textOf hK (optionRel_imp (hK.child? hc hplain .ident)
      fun _ _ h => h.1.akin)).bind fun name => ?_
    exact (hB.does_declares name (by omega)).bind fun _ => hB.makes_method _ _ (by omega)

theorem hands_inClass (hlist : c.kind ≠ .modifierList) :
    B.Hands n (acceptInClass i c) (acceptInClass i c') := by
  unfold acceptInClass
  have hkind := hK.kind_eq hc
  rw [hkind]
  generalize c'.kind = k at hkind
  split
  · exact (hB.does_declare hK hc (not_mem_controls hkind (by decide)) hi).hand (by omega)
  · exact hands_none
  · exact hB.hands_declareType (by decide) hc (not_mem_controls hkind (by decide)) (by omega)
  · exact hB.hands_declareType (by decide) hc (not_mem_controls hkind (by decide)) (by omega)
  · exact hB.hands_declareInterface hc (not_mem_controls hkind (by decide)) (by omega)
  · exact absurd hkind hlist
  · exact (hB.does_takeBases hK hc hi).silent
  · exact (hB.does_takeBases hK hc hi).silent
  · exact (hB.makes_constructor hK hc hi).some
  · exact (hB.makes_function hK hc hi (not_mem_controls hkind (by decide))).some
  · exact (hB.makes_procedure hK hc hi (not_mem_controls hkind (by decide))).some
  · exact hB.hands_unhandled (hK.head_eq hc) hi

/-! ## Names of packages and imports -/

theorem does_declareName {part : String} (hasked : ∀ name, Asked i part [.block i, .block name]) :
    B.Does n (declareName part i c) (declareName part i c') := by
  unfold declareName
  refine (hB.makes_looseExpr (by decide)).bind fun n1 hn1 name hname => ?_
  refine ((hB.visits_near hK).maybe (forall₂_head? (hK.near_children hc)) (by omega)).bind fun _ => ?_
  refine hB.does_setting (by omega) fun handler hcall => ?_
  split
  · exact (hcall _ (hasked name)).bind fun _ => agree_pure rfl
  · exact agree_pure rfl

theorem hands_inModule : B.Hands n (acceptInModule i c) (acceptInModule i c') := by
  unfold acceptInModule
  have hkind := hK.kind_eq hc
  rw [hkind]
  generalize c'.kind = k at hkind
  split
  · exact hB.hands_declareType (by decide) hc (not_mem_controls hkind (by decide)) (by omega)
  · exact hB.hands_declareType (by decide) hc (not_mem_controls hkind (by decide)) (by omega)
  · exact hB.hands_declareType (by decide) hc (not_mem_controls hkind (by decide)) (by omega)
  · exact hB.hands_declareInterface hc (not_mem_controls hkind (by decide)) (by omega)
  · exact (hB.does_declareName hK hc hi .imported).silent
  · exact (hB.does_declareName hK hc hi .package).silent
  · exact hB.hands_unhandled (hK.head_eq hc) hi

/-! ## Annotation types -/

theorem agree_declareElement (hkind : c.kind = .annotationMethodDecl) :
    B.Agree n (fun _ e e' => K.Elements e e') (declareElement i c) (declareElement i c') := by
  unfold declareElement
  have hchildren := hK.akin_children hc (not_mem_controls hkind (by decide))
  have htype := hK.typed hc hkind 1
  generalize c.children = cs, c'.children = cs' at hchildren htype
  rcases hchildren with _ | ⟨_, hchildren⟩
  · exact agree_throw _
  cases hchildren with
  | nil => exact agree_throw _
  | @cons type type' _ _ _ hchildren =>
    rcases hchildren with _ | ⟨hname, hrest⟩
    · exact agree_throw _
    have hfirst : Option.Rel K.akin type.children.head? type'.children.head? := by
      cases htype with
      | some h => exact h
    dsimp only
    generalize type.children = ts, type'.children = ts' at hfirst
    match ts, ts', hfirst with
    | [], [], _ => exact agree_throw _
    | first :: _, first' :: _, .some hfirst =>
      dsimp only
      rw [hK.text_eq hfirst, hK.text_eq hname]
      refine (hB.makes_method _ _ (by omega)).bind fun n1 hn1 m hm => ?_
      refine (hB.makes_exprAt (by decide) (by omega)).then fun _ => ?_
      exact agree_pure ⟨rfl, rfl, forall₂_head? hrest⟩

omit hK hc in
theorem does_addApplication : B.Does n (addApplication i) (addApplication i) := by
  unfold addApplication
  refine (hB.makes_method _ _ (by omega)).bind fun n1 hn1 m hm => ?_
  refine (hB.does_addParameter _ (by omega)).bind fun _ => ?_
  exact (hB.makes_exprAt (by decide) (by omega)).then fun _ => (hB.makes_exprAt (by decide) (by omega)).done

omit hc in
theorem does_addConstructor {es es' : List Element} (hes : List.Forall₂ K.Elements es es') :
    B.Does n (addConstructor i es) (addConstructor i es') := by
  unfold addConstructor
  refine (hB.makes_method _ _ (by omega)).bind fun n1 hn1 m hm => ?_
  refine does_forM hes fun e e' he => ?_
  have hrest (k : Nat) (hk : n1 ≤ k) (default : Operand) :
      B.Does k (keepElement m e default) (keepElement m e' default) := by
    unfold keepElement
    rw [he.name, he.type]
    exact (hB.does_addParameter _ (by omega)).bind fun _ => (hB.makes_exprAt (by decide) (by omega)).done
  have hdefault := he.default
  generalize e.default = x, e'.default = x' at hdefault
  cases hdefault with
  | none => exact hrest n1 (Nat.le_refl _) _
  | some h =>
    refine (hB.makes_looseExpr (by decide)).bind fun n2 hn2 value hvalue => ?_
    exact (hB.visits_expression hK hvalue h).bind fun _ => hrest n2 hn2 _

theorem does_annotationScope {descend descend' : Visit}
    (hd : B.Visits (K.Within c c') descend descend') (hkind : c.kind = .annotationTopLevelScope) :
    B.Does n (annotationScope descend i c) (annotationScope descend' i c') := by
  unfold annotationScope
  have hinside := hK.children_inside hc (not_mem_controls hkind (by decide))
  refine (agree_filterMapM (T := K.Elements) hinside fun k hk d d' hdd => ?_).bind fun n1 hn1 es es' hes => ?_
  · have hdkind := hK.kind_eq hdd.akin
    rw [hdkind]
    split
    next h =>
      exact (hB.agree_declareElement hK hdd.akin (by omega) (hdkind.trans (eq_of_beq h))).bind
        fun _ _ e e' he => agree_pure (.some he)
    next =>
      split
      next h =>
        exact (hB.does_declare hK hdd.akin
          (not_mem_controls (hdkind.trans (eq_of_beq h)) (by decide)) (by omega)).bind
          fun _ => agree_pure .none
      next => exact (hd (by omega) hdd.within).bind fun _ => agree_pure .none
  · refine (hB.does_addApplication (by omega)).bind fun _ => ?_
    exact (hB.does_addConstructor hK (by omega) hes).bind fun _ => agree_throw _

/-! ## Enumerations -/

omit hc in
theorem does_constantArguments (hcs : List.Forall₂ K.akin cs cs') :
    B.Does n (constantArguments i cs) (constantArguments i cs') := by
  induction hcs generalizing n i with
  | nil => exact agree_pure rfl
  | cons hc hrest ih =>
    unfold constantArguments
    rw [forall₂_isEmpty hrest]
    refine (hB.makes_looseExpr (Slot.plain_item "" _)).bind fun n1 hn1 argument hargument => ?_
    refine (hB.does_setLeft _ (by omega)).bind fun _ => ?_
    refine (hB.visits_expression hK hargument hc).bind fun _ => ?_
    refine (hB.makes_looseExpr (by decide)).bind fun n2 hn2 next hnext => ?_
    exact (hB.does_setRight _ (by omega)).bind fun _ => ih hnext

variable {handler : Value}
  (hcall : ∀ args, Asked i "Value" args → B.Does n (callSetting handler args) (callSetting handler args))
include hcall

/-- A constant: one with arguments stands beside the enumeration. -/
theorem does_constant (index : Nat) (hkind : c.kind = .ident) :
    B.Does n (constant handler i index c) (constant handler i index c') := by
  unfold constant
  refine Agree.bind (hB.agree_block (by omega)) fun n1 hn1 b _ ⟨hsame, hparent⟩ => ?_
  subst hsame
  rw [forall₂_isEmpty (hK.akin_descendants hc .argumentList (by decide)), hK.text_eq hc]
  split
  · refine (hB.makes_exprAt (Slot.plain_append_right _) (by omega)).bind fun n2 hn2 l hl => ?_
    refine ((hcall _ (.value index c'.text)).mono (by omega)).bind fun _ => ?_
    exact (hB.makes_openRight _ (by omega)).done
  · refine (hB.makes_expr (by decide) hparent).bind fun n2 hn2 l hl => ?_
    refine (hB.makes_looseExpr (by decide)).bind fun n3 hn3 list hlist => ?_
    refine (hB.does_setRight _ (by omega)).bind fun _ => ?_
    refine agree_demand (hK.child? hc (not_mem_controls hkind (by decide)) .argumentList)
      fun arguments arguments' ⟨h, _⟩ => ?_
    exact hB.does_constantArguments hK hlist (hK.akin_descendants h.akin .expr (by decide))

omit hc in
theorem does_constants (index : Nat) (hcs : List.Forall₂ (fun d d' => K.akin d d' ∧ d.kind = .ident) cs cs') :
    B.Does n (constants handler i index cs) (constants handler i index cs') := by
  induction hcs generalizing index with
  | nil => exact agree_pure rfl
  | cons hc hrest ih =>
    unfold constants
    exact (hB.does_constant hK hc.1 hi hcall index hc.2).bind fun _ => ih (index + 1)

omit hcall

theorem hands_inEnum (hlist : c.kind ≠ .modifierList) : B.Hands n (acceptInEnum i c) (acceptInEnum i c') := by
  unfold acceptInEnum
  have hkind := hK.kind_eq hc
  rw [hkind]
  split
  next hscope =>
    have hplain := not_mem_controls (hkind.trans (eq_of_beq hscope)) (by decide)
    have hnames := (hK.childrenOf hc hplain .ident).imp fun _ _ h => And.intro h.1.akin h.2
    refine Does.bind_assoc (hB.does_setting hi fun handler hcall => ?_) fun _ => hands_some hi
    exact hB.does_constants hK hi hcall 0 hnames
  next => exact hB.hands_inClass hK hc hi hlist

/-! ## All blocks -/

section

variable {descend descend' : Visit} (hd : B.Visits (K.Within c c') descend descend')
include hd

theorem hands_inMethod (hlist : c.kind ≠ .modifierList) :
    B.Hands n (acceptInMethod descend i c) (acceptInMethod descend' i c') := by
  unfold acceptInMethod
  have hkind := hK.kind_eq hc
  rw [hkind]
  generalize c'.kind = k at hkind
  split
  · exact absurd hkind hlist
  · have hplain := not_mem_controls hkind (by decide)
    refine (does_typeText hK hc hplain fun name => hB.does_qualify name (by omega)).bind fun type => ?_
    refine (does_textOf hK (optionRel_imp (hK.child? hc hplain .ident)
      fun _ _ h => h.1.akin)).bind fun name => ?_
    exact (hB.does_addParameter _ (by omega)).hand (by omega)
  · refine (does_textOf hK (optionRel_imp (hK.child? hc (not_mem_controls hkind (by decide)) .ident)
      fun _ _ h => h.1.akin)).bind fun name => ?_
    exact (hB.does_addParameter _ (by omega)).hand (by omega)
  · exact hB.hands_statement hK hc hd hi

/-- Blocks of every sort accept kindred nodes alike; lists of modifiers are looked at apart. -/
theorem hands_declaration (hlist : c.kind ≠ .modifierList) :
    B.Hands n (accept descend i c) (accept descend' i c') := by
  have hwalk : B.Visits (K.Within c c') Expression.walk Expression.walk :=
    (hB.visits_near hK).mono fun _ _ h => h.near
  unfold accept
  refine hB.agree_at hi fun w w' b hrel _ _ => ?_
  cases b.form with
  | program p => exact hB.hands_inModule hK hc hi hrel
  | plainClass => exact hB.hands_inClass hK hc hi hlist hrel
  | interface => exact hB.hands_inClass hK hc hi hlist hrel
  | enumeration => exact hB.hands_inEnum hK hc hi hlist hrel
  | annotationType =>
    dsimp only
    have hkind := hK.kind_eq hc
    rw [hkind]
    split
    next hscope =>
      exact (hB.does_annotationScope hK hc hi hd (hkind.trans (eq_of_beq hscope))).silent hrel
    next => exact hB.hands_inClass hK hc hi hlist hrel
  | method => exact hB.hands_inMethod hK hc hi hd hlist hrel
  | content => exact hB.hands_statement hK hc hd hi hrel
  | statement keyword opening => exact hB.hands_statement hK hc hd hi hrel
  | expression e => exact hB.hands_expression hK hc hwalk hi hrel
  | comment e => exact hB.hands_expression hK hc hwalk hi hrel

end

end Bond.Lawful

/-! ## Whole trees -/

namespace Declaration

variable [Chronicle] {c : Cursor} {i : Nat}

/-- Only types and methods know what to do with modifiers. -/
theorem accept_of_modifierList {descend : Visit} {id : BlockId} (hkind : c.kind = .modifierList) :
    accept descend id c = (do
      let b ← block id
      if b.isClass || b.isMethod then Modifier.accept id c else unhandled id c) := by
  unfold accept
  refine congrArg (block id >>= ·) (funext fun b => ?_)
  cases hform : b.form <;>
    simp [Block.isClass, Block.isMethod, hform, acceptInModule, acceptInClass, acceptInEnum,
      acceptInMethod, Statement.accept, Expression.accept, Expression.template?,
      Expression.plainOperators, Expression.fixedTemplate?, Expression.stepKind?,
      Expression.literals, hkind]

theorem accept_blockScope (hkind : c.kind = .blockScope) (descend : Visit) {w : Workshop}
    {b : Block} (hb : w.blocks[i]? = some b) : accept descend i c w = unhandled i c w := by
  unfold accept
  rw [bind_of_ok (block_apply w i hb)]
  obtain ⟨form⟩ := b
  cases form with
  | program p => simp only [acceptInModule, hkind]
  | plainClass => simp only [acceptInClass, hkind]
  | interface => simp only [acceptInClass, hkind]
  | enumeration => simp [acceptInEnum, acceptInClass, hkind]
  | annotationType => simp [acceptInClass, hkind]
  | method => simp only [acceptInMethod, Statement.accept, hkind]
  | content => simp only [Statement.accept, hkind]
  | statement keyword opening => simp only [Statement.accept, hkind]
  | expression e => exact congrFun (Expression.accept_blockScope hkind _ _) w
  | comment e => exact congrFun (Expression.accept_blockScope hkind _ _) w

end Declaration

namespace Bond.Lawful

variable [Chronicle] {B : Bond} {K : Kin} (hB : B.Lawful K) (hK : K.Lawful)
include hB hK

/-- Visits of kindred lists of modifiers: the block that keeps them goes on with them itself. -/
theorem does_visit_modifiers {n i fuel fuel' : Nat} {c c' : Cursor} (hc : K.akin c c')
    (hkind : c.kind = .modifierList) (hi : i < n)
    (hd : B.Visits (K.Within c c') (walkUpTo fuel) (walkUpTo fuel')) :
    B.Does n (visit (accept (walkUpTo fuel)) (walkUpTo fuel) i c)
      (visit (accept (walkUpTo fuel')) (walkUpTo fuel') i c') := by
  have hkind' : c'.kind = .modifierList := (hK.kind_eq hc).symm.trans hkind
  have hkeep := (hB.does_modifiers hc hkind hi (fun d d' hdd _ h => hB.does_annotate hK hdd hi h)
    (fun d d' hdd _ => hd hi hdd.within)).bind fun _ => hB.does_finish hc (hK.head_eq hc) hi
  refine (hB.does_before hc (by omega) (by omega)).bind fun _ => ?_
  rw [accept_of_modifierList hkind, accept_of_modifierList hkind', bind_assoc, bind_assoc]
  refine hB.agree_at hi fun w w' b hrel hb hb' => ?_
  split
  · have hrun := hkeep hrel
    simp only [bind_assoc] at hrun
    rw [bind_of_ok (block_apply w i hb), bind_of_ok (block_apply w' i hb')] at hrun
    simp only [Modifier.accept, bind_assoc, pure_bind] at hrun ⊢
    exact hrun
  · refine Agree.bind (hB.hands_unhandled (hK.head_eq hc) hi) (fun k hk visitor _ h => ?_) hrel
    rw [← h.1]
    exact hB.does_proceed hK hc h.2 hd (by omega)

/-- Blocks visit trees alike, as deep as the trees are. -/
theorem does_declaration (k' : Nat) : ∀ ⦃k n i : Nat⦄ ⦃c c' : Cursor⦄,
    i < n → K.Near c c' → c.tree.height ≤ k → c'.tree.height ≤ k' →
      B.Does n (walkUpTo k i c) (walkUpTo k' i c') := by
  induction k' with
  | zero =>
    intro _ _ _ _ c' _ _ _ hk'
    obtain ⟨_, hfuel⟩ := Tree.exists_fuel hk'
    cases hfuel
  | succ k' ih =>
    intro k n i c c' hi hc hk hk'
    obtain ⟨k, rfl⟩ := Tree.exists_fuel hk
    refine hB.agree_at hi fun w w' b hrel hb hb' => ?_
    cases hexpression : b.isExpression with
    | true => exact hB.visits_near hK hi hc hrel
    | false =>
      rcases hc with hakin | hbraced
      · have hd : B.Visits (K.Within c c') (walkUpTo k) (walkUpTo k') := fun _ _ _ _ hi h =>
          ih hi h.near (by have := h.lt; omega) (by have := h.lt'; omega)
        by_cases hlist : c.kind = .modifierList
        · exact hB.does_visit_modifiers hK hakin hlist hi hd hrel
        · exact hB.does_visit hK hakin (hB.hands_declaration hK hakin hi hd hlist) hd hi hrel
      · -- The block in the second tree adds nothing, so the first run has not moved on.
        obtain ⟨-, hkind, d, hchildren, hakin⟩ := hK.braced hbraced
        have hlt : d.tree.height < c'.tree.height :=
          Cursor.height_child (hchildren ▸ List.mem_singleton_self d)
        have hrun : walkUpTo (k + 1) i c w = visit (accept (walkUpTo k)) (walkUpTo k) i c w := by
          refine (bind_of_ok (block_apply w i hb)).trans ?_
          rw [hexpression]
          rfl
        have hagree := hB.does_alone hbraced hchildren hkind hi
          (fun w b hb => accept_blockScope hkind (walkUpTo k') hb)
          (ih hi (.inl hakin) hk (by omega)) hrel
        rw [hrun] at hagree
        exact hagree

/-- Blocks visit trees that belong together alike. -/
theorem visits_declaration : B.Visits K.Near walk walk :=
  fun _ _ _ _ hi hc => hB.does_declaration hK _ hi hc (Nat.le_refl _) (Nat.le_refl _)

end Bond.Lawful

end Transcriber
