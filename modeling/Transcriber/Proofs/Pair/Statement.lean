import Transcriber.Proofs.Pair.Expression

/-!
# Statements side by side

Blocks inside methods accept kindred statements alike.
-/

namespace Transcriber

open Build Source Statement Kin

namespace Bond.Lawful

variable [Chronicle] {B : Bond} {K : Kin} (hB : B.Lawful K) (hK : K.Lawful)
variable {n i : Nat} {c c' : Cursor}

section

include hB

theorem does_pass (hi : i < n) : B.Does n (pass i) (pass i) := (hB.makes_exprAt (by decide) (by omega)).done

theorem makes_begin {keyword template : String} (hk : keyword ≠ "with")
    (ht : template ∉ Slot.shifts) (hi : i < n) :
    B.Makes n (begin i keyword template) (begin i keyword template) :=
  hB.makes_statement hk ht hi

end

omit [Chronicle] in
theorem agree_childAt {α α' : Type} {Q : Nat → α → α' → Prop} {P : Cursor → Cursor → Prop} {k : Nat}
    {f : Cursor → Build α} {f' : Cursor → Build α'} (h : Option.Rel P c.children[k]? c'.children[k]?)
    (hf : ∀ d d', P d d' → B.Agree n Q (f d) (f' d')) :
    B.Agree n Q (childAt c k >>= f) (childAt c' k >>= f') := by
  unfold childAt
  generalize c.children[k]? = x, c'.children[k]? = x' at h
  cases h with
  | some h => exact hf _ _ h
  | none => exact agree_throw _

include hB hK

theorem does_open {d d' : Option Cursor} (hd : Option.Rel K.akin d d') (hi : i < n) :
    B.Does n (open_ i d) (open_ i d') :=
  (hB.makes_opening (by omega)).bind fun _ _ _ hk => (hB.visits_expression hK).maybe hd (by omega)

/-! ## Declarations of variables -/

section Variable

variable (hc : K.akin c c') (hplain : c.kind ∉ Kin.controls)
include hc hplain

omit [Chronicle] hB in
theorem does_emptyValue (type : String) :
    B.Does n (Variable.emptyValue type c) (Variable.emptyValue type c') := by
  unfold Variable.emptyValue
  refine agree_demand (hK.child? hc hplain .typeRef) fun node node' ⟨hnode, hkind⟩ => ?_
  have hplain := not_mem_controls hkind (by decide)
  have harray : (node.child? .arrayDeclaratorList).isSome = (node'.child? .arrayDeclaratorList).isSome := by
    have h := hK.child? hnode.akin hplain .arrayDeclaratorList
    generalize node.child? .arrayDeclaratorList = x, node'.child? .arrayDeclaratorList = x' at h
    cases h <;> rfl
  rw [harray]
  split
  · exact agree_pure rfl
  · refine agree_demand (hK.head? hnode.akin hplain) fun first first' hfirst => ?_
    rw [hK.kind_eq hfirst.akin]
    exact agree_pure rfl

variable {d d' : Cursor} (hd : K.akin d d') (hdplain : d.kind ∉ Kin.controls)
include hd hdplain

theorem does_assign (type : String) (hi : i < n) :
    B.Does n (Variable.assign i type c d) (Variable.assign i type c' d') := by
  unfold Variable.assign
  refine (hB.makes_openRight _ (by omega)).bind fun n1 hn1 k hk => ?_
  have hvalue := hK.child? hd hdplain .expr
  have harray := hK.child? hd hdplain .arrayInitializer
  generalize d.child? .expr = x, d'.child? .expr = x' at hvalue
  generalize d.child? .arrayInitializer = y, d'.child? .arrayInitializer = y' at harray
  cases hvalue with
  | some hvalue => exact hB.visits_expression hK hk hvalue.1.akin
  | none =>
    cases harray with
    | some harray =>
      refine (hB.makes_exprAt (by decide) (by omega)).bind fun n2 hn2 l hl => ?_
      refine (hB.does_setRight _ (by omega)).bind fun _ => ?_
      have hvalues := hK.childrenOf harray.1.akin (not_mem_controls harray.2 (by decide)) .expr
      exact hB.does_row (hB.visits_expression hK) (by decide) (hvalues.imp fun _ _ h => h.1.akin)
        (by omega) hl
    | none =>
      refine Does.bind (does_emptyValue hK hc hplain type) fun s => ?_
      exact (hB.makes_openRight _ (by omega)).done

omit hd hdplain in
theorem does_declare (hi : i < n) : B.Does n (Variable.declare i c) (Variable.declare i c') := by
  unfold Variable.declare
  refine agree_demand (hK.child? hc hplain .varDeclaratorList) fun list list' ⟨hlist, hkind⟩ => ?_
  have hdeclarators := hK.childrenOf hlist.akin (not_mem_controls hkind (by decide)) .varDeclarator
  refine does_forM hdeclarators fun d d' ⟨hd, hdkind⟩ => ?_
  have hdplain := not_mem_controls hdkind (by decide)
  refine Agree.bind (hB.agree_announce hc hplain hd.akin hdplain (by omega)) fun n1 hn1 r _ ⟨h, hr⟩ => ?_
  subst h
  exact hB.does_assign hK hc hplain hd.akin hdplain r.2 hr

end Variable

/-! ## Statements without bodies -/

section

variable (hc : K.akin c c') (hi : i < n)
include hc hi

theorem does_assertion (hkind : c.kind = .assertWord) : B.Does n (assertion i c) (assertion i c') := by
  refine (hB.makes_begin (by decide) (by decide) (by omega)).bind fun n1 hn1 k hk => ?_
  exact hB.does_open hK (optionRel_imp (hK.head? hc (not_mem_controls hkind (by decide)))
    fun _ _ h => h.akin) (by omega)

theorem does_leave (hkind : c.kind = .breakWord) : B.Does n (leave i c) (leave i c') := by
  unfold leave
  rw [hK.breaks_eq hc hkind, hK.children_isEmpty_eq hc]
  split
  · split
    · exact (hB.does_report _ _).bind fun _ => (hB.makes_begin (by decide) (by decide) (by omega)).done
    · exact (hB.makes_begin (by decide) (by decide) (by omega)).done
  · exact agree_pure rfl

theorem does_resume (hkind : c.kind = .continueWord) : B.Does n (resume i c) (resume i c') := by
  unfold resume
  have hloop := hK.loop hc hkind
  generalize c.ancestors.find? _ = x, c'.ancestors.find? _ = x' at hloop
  cases hloop with
  | none => exact agree_throw _
  | @some loop loop' hloop =>
    obtain ⟨hloopKind, hstep⟩ := hloop
    have hrest (k : Nat) (hk : i < k) : B.Does k (resumeLine i c) (resumeLine i c') := by
      unfold resumeLine
      rw [hK.children_isEmpty_eq hc]
      refine (hB.makes_begin (by decide) (by decide) (by omega)).then fun _ => ?_
      split
      · exact hB.does_report _ _
      · exact agree_pure rfl
    dsimp only
    rw [hloopKind]
    split
    · refine (hB.makes_exprIn (by omega)).bind fun n1 hn1 k hk => ?_
      exact ((hB.visits_expression hK).maybe hstep (by omega)).bind fun _ => hrest n1 (by omega)
    · exact hrest n hi

theorem does_raising (hkind : c.kind = .throwWord) : B.Does n (raising i c) (raising i c') := by
  refine (hB.makes_begin (by decide) (by decide) (by omega)).bind fun n1 hn1 k hk => ?_
  exact agree_childAt (hK.get? hc (not_mem_controls hkind (by decide)) 0) fun d d' hd =>
    hB.does_open hK (.some hd.akin) (by omega)

theorem hands_returned : B.Hands n (returned i c) (returned i c') := by
  unfold returned
  rw [hK.children_isEmpty_eq hc]
  refine (hB.makes_exprAt (by decide) (by omega)).bind fun n1 hn1 l hl => ?_
  dsimp only
  split
  · refine (hB.makes_exprIn (by omega)).bind fun n2 hn2 v hv => ?_
    refine (hB.does_setTemplate (by decide) (by omega)).bind fun _ => ?_
    refine (hB.does_setRight _ (by omega)).bind fun _ => ?_
    exact (hB.visits_expression hK hv hc).hand (by omega)
  · exact hands_some hl

theorem hands_returning (hkind : c.kind = .returnWord) : B.Hands n (returning i c) (returning i c') := by
  unfold returning
  have hparents := hK.returns_eq hc hkind
  have hreturned := hB.hands_returned hK hc hi
  generalize c.parentKind? = x, c'.parentKind? = x' at hparents
  cases x with
  | none =>
    cases x' with
    | none => exact hands_none
    | some parent' =>
      have hzero : (parent'.number == 0) = true := hparents.symm
      dsimp only
      rw [if_pos hzero]
      exact hands_none
  | some parent =>
    cases x' with
    | none =>
      have hzero : (parent.number == 0) = true := hparents
      dsimp only
      rw [if_pos hzero]
      exact hands_none
    | some parent' =>
      have heq : (parent.number == 0) = (parent'.number == 0) := hparents
      dsimp only
      rw [heq]
      split
      · exact hands_none
      · exact hreturned

end

/-! ## Statements with bodies -/

variable {descend descend' : Visit}

section

variable (hc : K.akin c c') (hd : B.Visits (K.Within c c') descend descend') (hi : i < n)
include hc hd hi

omit [Chronicle] hB hd hi in
theorem bound_eq (hplain : c.kind ∉ Kin.controls) :
    (match c.child? .ident with | some k => .node k.text | none => .nothing : Operand)
      = match c'.child? .ident with | some k => .node k.text | none => .nothing := by
  have h := hK.child? hc hplain .ident
  generalize c.child? .ident = x, c'.child? .ident = x' at h
  cases h with
  | none => rfl
  | some h =>
    dsimp only
    rw [hK.text_eq h.1.akin]

theorem does_catching (hkind : c.kind = .catchWord) :
    B.Does n (catching descend i c) (catching descend' i c') := by
  unfold catching
  have hplain := not_mem_controls hkind (by decide)
  refine agree_demand (hK.child? hc hplain .formalParamStdDecl) fun e e' he => ?_
  have heplain := not_mem_controls he.2 (by decide)
  refine agree_demand (hK.child? he.1.akin heplain .typeRef) fun type type' htype => ?_
  have hname : (type.descendantsOf .ident).map (·.text) = (type'.descendantsOf .ident).map (·.text) :=
    hK.map_text_eq (hK.akin_descendants htype.1.akin .ident (by decide))
  refine agree_demand (hK.child? hc hplain .blockScope) fun body body' hbody => ?_
  dsimp only
  rw [hname, hK.children_isEmpty_eq hbody.1.akin]
  have hbound := bound_eq hK he.1.akin heplain
  have hcaught {name : String} {bound bound' : Operand} (h : bound = bound') :
      B.Does n (caught descend i name bound body) (caught descend' i name bound' body') := by
    subst h
    refine (hB.makes_opening (by omega)).bind fun n1 hn1 l hl => ?_
    refine (hB.does_setTemplate (by decide) (by omega)).bind fun _ => ?_
    refine (hB.makes_looseExpr (by decide)).bind fun n2 hn2 k hk => ?_
    exact (hB.does_setRight _ (by omega)).bind fun _ => hd (by omega) hbody.1.within
  split
  · exact (hB.does_pass (by omega)).bind fun _ => hcaught hbound
  · exact hcaught hbound

theorem does_forLoop (hkind : c.kind = .forWord) :
    B.Does n (forLoop descend i c) (forLoop descend' i c') := by
  unfold forLoop
  have hchild := hK.child? hc (not_mem_controls hkind (by decide))
  have hinit := optionRel_imp (hchild .forInit) fun _ _ h => h.1.within
  refine (hd.maybe hinit (by omega)).bind fun _ => ?_
  refine (hB.makes_begin (by decide) (by decide) (by omega)).bind fun n1 hn1 l hl => ?_
  refine agree_demand (hchild .forCondition) fun condition condition' ⟨hcondition, _⟩ => ?_
  dsimp only
  rw [hK.children_isEmpty_eq hcondition.akin]
  have hrest (k : Nat) (hk : n1 ≤ k) : B.Does k (forBody descend i c) (forBody descend' i c') := by
    refine (hB.makes_content (by omega)).bind fun n2 hn2 inside hinside => ?_
    refine agree_demand (hchild .blockScope) fun body body' ⟨hbody, _⟩ => ?_
    rw [hK.children_isEmpty_eq hbody.akin]
    refine does_ite_bind (fun _ => hB.does_pass (by omega)) (fun _ => hd hinside hbody.within) fun _ => ?_
    refine (hB.makes_exprIn (by omega)).bind fun n3 hn3 step hstep => ?_
    have hupdate := optionRel_imp (hchild .forUpdate) fun _ _ h => h.1.akin
    exact (hB.visits_expression hK).maybe hupdate (by omega)
  split
  · refine (hB.makes_opening (by omega)).bind fun n2 hn2 o ho => ?_
    exact (hB.does_setRight _ (by omega)).bind fun _ => hrest n2 hn2
  · exact (hB.does_open hK (.some hcondition.akin) (by omega)).bind fun _ => hrest n1 (Nat.le_refl _)

theorem does_forEachLoop : B.Does n (forEachLoop descend i c) (forEachLoop descend' i c') := by
  unfold forEachLoop
  have hwalk := hB.visits_expression hK
  refine (hB.makes_begin (by decide) (by decide) (by omega)).bind fun n1 hn1 l hl => ?_
  refine (hB.makes_looseExpr (by decide)).bind fun n2 hn2 e he => ?_
  refine (hB.makes_opening (by omega)).bind fun n3 hn3 o ho => ?_
  refine (hB.does_setRight _ (by omega)).bind fun _ => ?_
  refine (hwalk.maybe (hK.named hc .ident (by decide)) (by omega)).bind fun _ => ?_
  refine (hB.makes_looseExpr (by decide)).bind fun n4 hn4 s hs => ?_
  refine (hB.does_setRight _ (by omega)).bind fun _ => ?_
  refine (hwalk.maybe (hK.named hc .expr (by decide)) (by omega)).bind fun _ => ?_
  refine (hB.makes_content (by omega)).bind fun n5 hn5 k hk => ?_
  have hbody := forall₂_get? (hK.children_within hc) 4
  generalize c.children[4]? = x, c'.children[4]? = x' at hbody
  cases hbody with
  | none => exact agree_throw _
  | some h => exact hd hk h

theorem does_doLoop (hkind : c.kind = .doWord) : B.Does n (doLoop descend i c) (doLoop descend' i c') := by
  unfold doLoop
  have hcontrol : c.kind ∈ Kin.controls := by rw [hkind]; decide
  have hlimb := hK.limb_within hc hcontrol 1
  have hwithin := hK.children_within hc
  generalize c.children = cs, c'.children = cs' at hlimb hwithin
  rcases hwithin with _ | ⟨hbody, _ | ⟨_, _ | ⟨_, _⟩⟩⟩
  · exact agree_throw _
  · exact agree_throw _
  · refine (hB.makes_begin (by decide) (by decide) (by omega)).bind fun n1 hn1 l hl => ?_
    refine (hB.makes_opening (by omega)).bind fun n2 hn2 o ho => ?_
    refine (hB.does_setRight _ (by omega)).bind fun _ => ?_
    refine (hd (by omega) hbody).bind fun _ => ?_
    refine (hB.makes_begin (by decide) (by decide) (by omega)).bind fun n3 hn3 t ht => ?_
    have hcondition := akin_of_limb hlimb (by rw [hkind]; rfl)
    exact (hB.does_open hK (.some hcondition) (by omega)).bind fun _ =>
      (hB.makes_begin (by decide) (by decide) (by omega)).done
  · exact agree_throw _

theorem does_whileLoop (hkind : c.kind = .whileWord) :
    B.Does n (whileLoop descend i c) (whileLoop descend' i c') := by
  unfold whileLoop
  have hcontrol : c.kind ∈ Kin.controls := by rw [hkind]; decide
  have hlimb := hK.limb_within hc hcontrol 0
  have hlimb' := hK.limb_within hc hcontrol 1
  have hwithin := hK.children_within hc
  generalize c.children = cs, c'.children = cs' at hlimb hlimb' hwithin
  rcases hwithin with _ | ⟨_, _ | ⟨hbody, _ | ⟨_, _⟩⟩⟩
  · exact agree_throw _
  · exact agree_throw _
  · refine (hB.makes_begin (by decide) (by decide) (by omega)).bind fun n1 hn1 l hl => ?_
    have hcondition := akin_of_limb hlimb (by rw [hkind]; rfl)
    refine (hB.does_open hK (.some hcondition) (by omega)).bind fun _ => ?_
    rw [hK.isEmpty_of_limb hlimb' fun d h => isEmpty_of_bears (.inr (hkind ▸ h))]
    split
    · exact hB.does_pass (by omega)
    · exact hd hl hbody
  · exact agree_throw _

omit hK hc in
theorem does_groupContent {cs cs' : List Cursor} (hcs : List.Forall₂ (K.Within c c') cs cs') :
    B.Does n (groupContent descend i cs) (groupContent descend' i cs') := by
  refine (hB.makes_content (by omega)).bind fun n1 hn1 k hk => ?_
  refine (does_forM hcs fun d d' h => hd hk h).bind fun _ => ?_
  rw [forall₂_isEmpty hcs]
  split
  · exact hB.does_pass (by omega)
  · exact agree_pure rfl

omit hc in
theorem does_group {s k : Nat} (hs : s < n) (hk : k < n) (first isDefault : Bool) {e e' : Cursor}
    (he : K.Inside c c' e e') :
    B.Does n (group descend i s k first isDefault e) (group descend' i s k first isDefault e') := by
  have hchildren := (hK.children_within he.akin).imp fun _ _ h => he.within.trans h
  have hcontent {k : Nat} (hk : n ≤ k) {cs cs' : List Cursor} (hcs : List.Forall₂ (K.Within c c') cs cs') :=
    hB.does_groupContent hd (show i < k by omega) hcs
  unfold group
  split
  · split
    · refine (hB.makes_opening (by omega)).bind fun n2 hn2 o ho => ?_
      exact (hB.does_setRight _ (by omega)).bind fun _ => hcontent (by omega) hchildren
    · exact hcontent (Nat.le_refl n) hchildren
  · refine (hB.makes_exprIn (by omega)).bind fun n2 hn2 v hv => ?_
    refine ((hB.visits_expression hK).maybe (hK.named he.akin .expr (by decide)) (by omega)).bind fun _ => ?_
    refine (hB.makes_looseExpr (by decide)).bind fun n3 hn3 t ht => ?_
    refine (hB.makes_opening (by omega)).bind fun n4 hn4 o ho => ?_
    exact (hB.does_setRight _ (by omega)).bind fun _ => hcontent (by omega) (List.forall₂_drop 1 hchildren)

omit hc in
theorem does_groups {s : Nat} (hs : s < n) (first : Bool) {cs cs' : List Cursor}
    (hcs : List.Forall₂ (K.Inside c c') cs cs') :
    B.Does n (groups descend i s first cs) (groups descend' i s first cs') := by
  induction hcs generalizing first with
  | nil => exact agree_pure rfl
  | @cons e e' es es' he hrest ih =>
    unfold groups
    dsimp only
    rw [hK.kind_eq he.akin]
    generalize (e'.kind == Kind.defaultWord) = isDefault
    -- What follows the opening of the group.
    have hnext (n1 : Nat) (hn1 : n ≤ n1) (k : Nat) (hk : k < n1) : B.Does n1
        (do group descend i s k first isDefault e; groups descend i s false es)
        (do group descend' i s k first isDefault e'; groups descend' i s false es') :=
      (hB.does_group hK hd (by omega) (by omega) hk first isDefault he).bind fun _ => (ih false).mono (by omega)
    cases first with
    | true => exact (hB.makes_begin (by decide) (by decide) (by omega)).bind hnext
    | false =>
      cases isDefault with
      | true => exact (hB.makes_begin (by decide) (by decide) (by omega)).bind hnext
      | false => exact (hB.makes_begin (by decide) (by decide) (by omega)).bind hnext

theorem does_switch (hkind : c.kind = .switchWord) :
    B.Does n (switch descend i c) (switch descend' i c') := by
  unfold switch
  have hplain := not_mem_controls hkind (by decide)
  refine agree_demand (hK.child? hc hplain .switchBlockLabelList) fun labels labels' h => ?_
  obtain ⟨hlabels, hlabelsKind⟩ := h
  rw [hK.children_isEmpty_eq hlabels.akin]
  have hinside := (hK.children_inside hlabels.akin
    (not_mem_controls hlabelsKind (by decide))).imp fun _ _ h => hlabels.trans h
  split
  · refine (hB.makes_exprIn (by omega)).bind fun n1 hn1 s hs => ?_
    refine ((hB.visits_expression hK).maybe
      (optionRel_imp (hK.child? hc hplain .parenthesizedExpr) fun _ _ h => h.1.akin) (by omega)).bind
      fun _ => ?_
    exact (hB.does_groups hK hd (by omega) hs true hinside).bind fun _ => hB.does_release s (by omega)
  · exact agree_pure rfl

theorem does_synchronized (hkind : c.kind = .synchronizedWord) :
    B.Does n (synchronized descend i c) (synchronized descend' i c') := by
  unfold synchronized
  have hget := hK.get? hc (not_mem_controls hkind (by decide))
  rw [hK.parentKind_eq hc (by rw [hkind]; decide)]
  refine hB.does_lock c'.parentKind? hi fun k stat hk hstat => ?_
  refine agree_childAt (hget 0) fun lock lock' hlock => ?_
  refine (hB.does_open hK (.some hlock.akin) (by omega)).bind fun _ => ?_
  exact agree_childAt (hget 1) fun body body' hbody => hd hstat hbody.within

omit [Chronicle] hB hc hd hi in
theorem agree_tryClauses {es es' : List Cursor} (hes : List.Forall₂ (K.Inside c c') es es') :
    B.Agree n (fun _ r r' => Option.Rel (K.Inside c c') r.1 r'.1 ∧ Option.Rel (K.Inside c c') r.2 r'.2)
      (tryClauses es) (tryClauses es') := by
  rcases hes with _ | ⟨hfirst, _ | ⟨hsecond, _ | ⟨_, _⟩⟩⟩
  · exact agree_throw _
  · refine agree_pure ?_
    rw [hK.kind_eq hfirst.akin]
    split
    · exact ⟨.some hfirst, .none⟩
    · exact ⟨.none, .some hfirst⟩
  · exact agree_pure ⟨.some hfirst, .some hsecond⟩
  · exact agree_throw _

omit hK hc in
theorem does_finalClause {final final' : Option Cursor} : Option.Rel (K.Within c c') final final' →
    B.Does n (finalClause descend i final) (finalClause descend' i final') := by
  rintro (h | _)
  · exact (hB.makes_begin (by decide) (by decide) (by omega)).bind fun _ _ _ hk => hd hk h
  · exact agree_pure rfl

theorem does_trying (hkind : c.kind = .tryWord) : B.Does n (trying descend i c) (trying descend' i c') := by
  unfold trying
  have hinside := hK.children_inside hc (not_mem_controls hkind (by decide))
  generalize c.children = cs, c'.children = cs' at hinside
  rcases hinside with _ | ⟨hbody, hrest⟩
  · exact agree_throw _
  refine (hB.makes_begin (by decide) (by decide) (by omega)).bind fun n1 hn1 k hk => ?_
  refine (hd hk hbody.within).bind fun _ => ?_
  refine (agree_tryClauses hK hrest).bind fun n2 hn2 r r' hr => ?_
  obtain ⟨clauses, final⟩ := r
  obtain ⟨clauses', final'⟩ := r'
  have hfinal := does_finalClause hB hd (show i < n2 by omega) (optionRel_imp hr.2 fun _ _ h => h.within)
  cases hr.1 with
  | none => exact hfinal
  | some hclauses =>
    refine Does.bind (does_forM (hK.children_within hclauses.akin) fun e e' he => ?_) fun _ => hfinal
    exact (hB.makes_begin (by decide) (by decide) (by omega)).bind fun _ _ _ hk => hd hk (hclauses.within.trans he)

omit hc in
theorem does_branch {s : Nat} (hs : s < n) {d d' : Cursor} (hwithin : K.Within c c' d d')
    (hlimb : K.Limb .ifWord 1 d d') : B.Does n (branch descend i s d) (branch descend' i s d') := by
  have hbeside : B.Does n (do descend (← content i) d) (do descend' (← content i) d') :=
    (hB.makes_content (by omega)).bind fun _ _ _ hk => hd hk hwithin
  unfold branch
  rcases hlimb with hakin | ⟨hbraced, hbears⟩
  · rw [hK.kind_eq hakin]
    split
    · exact (hB.makes_exprIn (by omega)).bind fun _ _ _ hk => hB.visits_expression hK hk hakin
    · exact hbeside
  · obtain ⟨-, hscope, -⟩ := hK.braced hbraced
    have hkind : ¬ (d.kind == .expr) = true := by simpa [Kin.bears, Cursor.kind] using hbears
    rw [if_neg hkind, hscope, if_neg (by decide)]
    exact hbeside

omit hc hi in
/-- The branches of a conditional behind the first: induction on the depth of the second one. -/
theorem does_otherwise (k' : Nat) : ∀ ⦃k n : Nat⦄ ⦃d d' : Cursor⦄, i < n →
    K.Within c c' d d' → K.Limb .ifWord 2 d d' → d.tree.height ≤ k → d'.tree.height ≤ k' →
      B.Does n (otherwise descend i k d) (otherwise descend' i k' d') := by
  induction k' with
  | zero =>
    intro _ _ _ d' _ _ _ _ hk'
    obtain ⟨_, hfuel⟩ := Tree.exists_fuel hk'
    cases hfuel
  | succ k' ih =>
    intro k n d d' hi hwithin hlimb hk hk'
    obtain ⟨k, rfl⟩ := Tree.exists_fuel hk
    unfold otherwise
    have hempty := hK.isEmpty_of_limb (.some ⟨hwithin, hlimb⟩) fun d h => isEmpty_of_bears (.inl h)
    -- A body that is no expression stands beside the line that opens it.
    have hbody : B.Does n (elseBranch descend i d) (elseBranch descend' i d') := by
      unfold elseBranch
      rw [hempty]
      refine (hB.makes_begin (by decide) (by decide) (by omega)).bind fun n1 hn1 s hs => ?_
      split
      · exact hB.does_pass (by omega)
      · exact (hB.makes_content (by omega)).bind fun _ _ _ hk => hd hk hwithin
    rcases hlimb with hakin | ⟨hbraced, hbears⟩
    · rw [hK.kind_eq hakin]
      split
      next hif =>
        have hkind := (hK.kind_eq hakin).trans (eq_of_beq hif)
        have hparts := hK.limb_within hakin (show d.kind ∈ Kin.controls by rw [hkind]; decide)
        rw [hkind] at hparts
        refine (hB.makes_begin (by decide) (by decide) (by omega)).bind fun n1 hn1 s hs => ?_
        refine agree_childAt (hparts 0) fun e e' he => ?_
        have htest := akin_of_limb (.some he) rfl
        refine (hB.does_open hK (.some htest) (by omega)).bind fun _ => ?_
        refine agree_childAt (hparts 1) fun e e' he => ?_
        refine (hB.does_branch hK hd (by omega) hs (hwithin.trans he.1) he.2).bind fun _ => ?_
        have hnext := hparts 2
        generalize d.children[2]? = x, d'.children[2]? = x' at hnext
        cases hnext with
        | none => exact agree_pure rfl
        | some h =>
          exact ih (by omega) (hwithin.trans h.1) h.2 (by have := h.1.lt; omega) (by have := h.1.lt'; omega)
      next =>
        split
        · refine (hB.makes_begin (by decide) (by decide) (by omega)).bind fun n1 hn1 s hs => ?_
          exact (hB.makes_exprIn (by omega)).bind fun _ _ _ hk => hB.visits_expression hK hk hakin
        · split
          · exact hbody
          · exact agree_pure rfl
    · obtain ⟨hbraceable, hscope, -⟩ := hK.braced hbraced
      have hexpr : ¬ (d.kind == .expr) = true := by
        have h := (Bool.and_eq_true_iff.1 hbears).1
        simpa [Cursor.kind] using h
      have hif : ¬ (d.kind == .ifWord) = true := fun h => absurd ((eq_of_beq h) ▸ hbraceable) (by decide)
      have hnumber : (d.kind.number != 0) = true := Kind.number_ne_zero fun n hother => by
        simp [hother, Kin.braceable] at hbraceable
      have hscopeIf : ¬ (Kind.blockScope == .ifWord) = true := by decide
      have hscopeExpr : ¬ (Kind.blockScope == .expr) = true := by decide
      have hscopeNumber : (Kind.blockScope.number != 0) = true := Kind.number_ne_zero (by nofun)
      rw [if_neg hif, if_neg hexpr, if_pos hnumber, hscope, if_neg hscopeIf, if_neg hscopeExpr,
        if_pos hscopeNumber]
      exact hbody

theorem does_conditional (hkind : c.kind = .ifWord) :
    B.Does n (conditional descend i c) (conditional descend' i c') := by
  unfold conditional
  have hparts := hK.limb_within hc (show c.kind ∈ Kin.controls by rw [hkind]; decide)
  rw [hkind] at hparts
  refine (hB.makes_begin (by decide) (by decide) (by omega)).bind fun n1 hn1 s hs => ?_
  refine agree_childAt (hparts 0) fun e e' he => ?_
  have htest := akin_of_limb (.some he) rfl
  refine (hB.does_open hK (.some htest) (by omega)).bind fun _ => ?_
  refine agree_childAt (hparts 1) fun e e' he => ?_
  refine (hB.does_branch hK hd (by omega) hs he.1 he.2).bind fun _ => ?_
  have hnext := hparts 2
  have hwithin := hK.children_within hc
  generalize c.children = cs, c'.children = cs' at hnext hwithin
  rcases hwithin with _ | ⟨_, _ | ⟨_, _ | ⟨_, _ | ⟨_, _⟩⟩⟩⟩
  · exact agree_pure rfl
  · exact agree_pure rfl
  · exact agree_pure rfl
  · cases hnext with
    | some h => exact hB.does_otherwise hK hd _ (by omega) h.1 h.2 (Nat.le_refl _) (Nat.le_refl _)
  · exact agree_pure rfl

/-! ## All statements -/

/-- Blocks inside methods accept kindred statements alike. -/
theorem hands_statement : B.Hands n (Statement.accept descend i c) (Statement.accept descend' i c') := by
  unfold Statement.accept
  have hkind := hK.kind_eq hc
  rw [hkind]
  generalize c'.kind = k at hkind
  split
  · exact (hB.does_declare hK hc (not_mem_controls hkind (by decide)) hi).hand (by omega)
  · exact (hB.does_assertion hK hc hi hkind).silent
  · exact (hB.does_leave hK hc hi hkind).silent
  · exact (hB.does_catching hK hc hd hi hkind).silent
  · exact (hB.does_resume hK hc hi hkind).silent
  · exact (hB.does_doLoop hK hc hd hi hkind).silent
  · rw [hK.line_eq hc hkind]
    split
    · exact (hB.makes_exprIn (by omega)).some
    · exact hands_none
  · exact (hB.does_forLoop hK hc hd hi hkind).silent
  · exact (hB.does_forEachLoop hK hc hd hi).silent
  · exact (hB.does_conditional hK hc hd hi hkind).silent
  · exact (hB.does_switch hK hc hd hi hkind).silent
  · exact (hB.does_synchronized hK hc hd hi hkind).silent
  · exact (hB.does_raising hK hc hi hkind).silent
  · exact (hB.does_trying hK hc hd hi hkind).silent
  · exact hB.hands_returning hK hc hi hkind
  · exact (hB.does_whileLoop hK hc hd hi hkind).silent
  · exact hB.hands_unhandled (hK.head_eq hc) hi

end

end Bond.Lawful

end Transcriber
