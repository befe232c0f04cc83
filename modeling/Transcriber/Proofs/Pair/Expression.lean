import Transcriber.Proofs.Pair.Lawful

/-!
# Expressions side by side

Expressions accept and visit kindred nodes alike.
-/

namespace Transcriber

open Build Source

/-! ## Templates that call no helper -/

namespace Slot

/-- The templates that call the helper for shifts end with a parenthesis. -/
theorem plain_of_getLast {template : String} (h : template.toList.getLast? ≠ some ')') :
    template ∉ shifts := by
  intro hmem
  have hall : ∀ t ∈ shifts, t.toList.getLast? = some ')' := by decide
  exact h (hall template hmem)

theorem plain_append (text : String) {ending : String}
    (h : ending.toList.getLast? ≠ some ')' ∧ ending.toList.getLast? ≠ none) :
    text ++ ending ∉ shifts := by
  refine plain_of_getLast ?_
  rw [String.toList_append, List.getLast?_append]
  cases hlast : ending.toList.getLast? with
  | none => exact absurd hlast h.2
  | some c =>
    rw [hlast] at h
    exact h.1

theorem plain_append_right (text : String) : text ++ right ∉ shifts := plain_append text (by decide)

theorem plain_item (text : String) (last : Prop) [Decidable last] :
    text ++ right ++ (if last then "" else ", ") ∉ shifts := by
  split
  · rw [String.append_empty]
    exact plain_append_right text
  · exact plain_append _ (by decide)

theorem plain_super (name : String) : "super(" ++ name ++ ", self)" ∉ shifts := by
  intro hmem
  have hall : ∀ t ∈ shifts, t.toList.head? ≠ some 's' := by decide
  exact hall _ hmem (by simp)

end Slot

namespace Expression

theorem plain_of_template? {kind : Kind} {text template : String}
    (h : template? kind text = some template) : template ∉ Slot.shifts := by
  unfold template? at h
  split at h
  · cases h
    exact Slot.plain_append_right _
  · unfold fixedTemplate? at h
    split at h <;> first | (cases h; decide) | cases h

theorem plain_of_stepKind? {kind : Kind} {step : String} {before : Bool}
    (h : stepKind? kind = some (step, before)) : Slot.left ++ step ∉ Slot.shifts := by
  unfold stepKind? at h
  split at h <;> first | (cases h; decide) | cases h

theorem accept_blockScope [Chronicle] {c : Cursor} (hkind : c.kind = .blockScope) (descend : Visit)
    (id : BlockId) : accept descend id c = unhandled id c := by
  unfold accept
  rw [hkind]
  rfl

end Expression

/-! ## Nodes of expressions -/

open Expression

namespace Bond.Lawful

variable [Chronicle] {B : Bond} {K : Kin} (hB : B.Lawful K) (hK : K.Lawful)
variable {n i : Nat} {c c' : Cursor} {descend descend' : Visit}
include hB

theorem does_row {N : Cursor → Cursor → Prop} (hd : B.Visits N descend descend') {slot : String}
    (hslot : ∀ mark ∈ ["", ", "], slot ++ mark ∉ Slot.shifts) {home : Nat} {cs cs' : List Cursor}
    (hcs : List.Forall₂ N cs cs') (hhome : home < n) (hi : i < n) :
    B.Does n (row descend slot home i cs) (row descend' slot home i cs') := by
  induction hcs generalizing n i with
  | nil => exact agree_pure rfl
  | cons hc hrest ih =>
    unfold row
    rw [forall₂_isEmpty hrest]
    refine (hB.makes_exprAt (hslot _ ?_) (by omega)).bind fun n1 hn1 item hitem => ?_
    · split
      · exact .head _
      · exact .tail _ (.head _)
    refine (hB.does_setLeft _ (by omega)).bind fun _ => ?_
    refine (hd hitem hc).bind fun _ => ?_
    refine (hB.makes_exprIn (by omega)).bind fun n2 hn2 next hnext => ?_
    refine (hB.does_setRight _ (by omega)).bind fun _ => ?_
    exact ih (by omega) hnext

include hK

variable (hc : K.akin c c') (hd : B.Visits (K.Within c c') descend descend') (hi : i < n)
include hc hd hi

theorem does_operands : B.Does n (operands descend i c) (operands descend' i c') := by
  refine (hB.makes_exprIn (by omega)).bind fun n1 hn1 l hl => ?_
  refine (hB.makes_exprIn (by omega)).bind fun n2 hn2 r hr => ?_
  refine (hB.does_setLeft _ (by omega)).bind fun _ => ?_
  refine (hB.does_setRight _ (by omega)).bind fun _ => ?_
  exact hd.each (hK.children_within hc) (by simp; omega)

theorem does_looseOperands : B.Does n (looseOperands descend i c) (looseOperands descend' i c') := by
  refine (hB.makes_exprIn (by omega)).bind fun n1 hn1 l hl => ?_
  refine (hB.makes_looseExpr (by decide)).bind fun n2 hn2 r hr => ?_
  refine (hB.does_setLeft _ (by omega)).bind fun _ => ?_
  refine (hB.does_setRight _ (by omega)).bind fun _ => ?_
  exact hd.each (hK.children_within hc) (by simp; omega)

theorem does_call (hplain : c.kind ∉ Kin.controls) : B.Does n (call descend i c) (call descend' i c') := by
  refine (hB.does_setTemplate (by decide) (by omega)).bind fun _ => ?_
  refine (hB.makes_exprIn (by omega)).bind fun n1 hn1 callee hcallee => ?_
  refine (hB.does_setLeft _ (by omega)).bind fun _ => ?_
  have hhead := optionRel_imp (hK.head? hc hplain) fun _ _ h => h.within
  refine (hd.maybe hhead (by omega)).bind fun _ => ?_
  refine agree_demand (hK.child? hc hplain .argumentList) fun list list' ⟨hlist, hkind⟩ => ?_
  refine (hB.makes_exprIn (by omega)).bind fun n2 hn2 first hfirst => ?_
  refine (hB.does_setRight _ (by omega)).bind fun _ => ?_
  have hchildren := hK.children_inside hlist.akin (Kin.not_mem_controls hkind (by decide))
  exact hB.does_row hd (by decide) (hchildren.imp fun _ _ h => (hlist.trans h).within) (by omega) hfirst

theorem does_castTo (name : String) : B.Does n (castTo descend i c name) (castTo descend' i c' name) := by
  have hrest := hB.does_operands hK hc hd hi
  unfold castTo
  rw [hK.text_eq hc]
  split
  next hname =>
    have hplain : ∀ t ∈ constructorTypes, t ++ "(" ++ Slot.right ++ ")" ∉ Slot.shifts := by decide
    exact (hB.does_setTemplate (hplain name (by simpa using hname)) (by omega)).bind fun _ => hrest
  next =>
    refine hB.does_setting hi fun handler hcall => ?_
    split
    · exact (hcall _ (.cast _)).bind fun _ => hrest
    · exact (hB.does_report _ _).bind fun _ => hrest

theorem does_cast (hplain : c.kind ∉ Kin.controls) :
    B.Does n (Expression.cast descend i c) (Expression.cast descend' i c') := by
  unfold Expression.cast
  refine agree_demand (hK.child? hc hplain .typeRef) fun type type' ⟨htype, hkind⟩ => ?_
  refine agree_demand (hK.head? htype.akin (Kin.not_mem_controls hkind (by decide)))
    fun named named' hnamed => ?_
  dsimp only
  rw [hK.kind_eq hnamed.akin]
  refine does_ite_bind (fun hqualified => ?_) (fun _ => agree_pure (hK.text_eq hnamed.akin))
    (hB.does_castTo hK hc hd hi)
  have hkind' := (hK.kind_eq hnamed.akin).trans (eq_of_beq hqualified)
  exact does_textOf hK (optionRel_imp
    (hK.head? hnamed.akin (Kin.not_mem_controls hkind' (by decide))) fun _ _ h => h.akin)

theorem does_increment (hplain : c.kind ∉ Kin.controls) {step : String}
    (hstep : Slot.left ++ step ∉ Slot.shifts) (before : Bool) :
    B.Does n (increment descend i c step before) (increment descend' i c' step before) := by
  unfold increment
  rw [← hK.head_eq hc]
  split
  next =>
    refine (does_textOf hK (optionRel_imp (hK.child? hc hplain .ident)
      fun _ _ h => h.1.akin)).bind fun name => ?_
    refine hB.does_setting hi fun handler hcall => ?_
    refine (hcall _ (.name name)).bind fun v => ?_
    refine (hB.makes_enclosing _ (by omega)).bind fun n1 hn1 home hhome => ?_
    -- What is left to do after the old value may have been kept.
    have hrest : B.Does n1 (do
          let left ← expr (some i) { template := Slot.left, left := if before then .text name else v.operand }
          setLeft i (.block left)
          let stepped ← looseExpr { template := Slot.left ++ step, left := .text name }
          adopt home stepped (-1))
        (do
          let left ← expr (some i) { template := Slot.left, left := if before then .text name else v.operand }
          setLeft i (.block left)
          let stepped ← looseExpr { template := Slot.left ++ step, left := .text name }
          adopt home stepped (-1)) := by
      refine (hB.makes_exprAt (by decide) (by omega)).bind fun n2 hn2 l hl => ?_
      exact (hB.does_setLeft _ (by omega)).bind fun _ => hB.does_adopt hstep (by omega)
    dsimp only
    split
    · exact Does.bind_assoc (hB.does_adopt (by decide) (by omega)) fun _ => hrest
    · exact hrest
  next => exact (hB.does_setTemplate hstep (by omega)).bind fun _ => hB.does_operands hK hc hd hi

theorem does_choice : B.Does n (choice descend i c) (choice descend' i c') := by
  refine (hB.does_setTemplate (by decide) (by omega)).bind fun _ => ?_
  refine (hB.makes_exprIn (by omega)).bind fun n1 hn1 l hl => ?_
  refine (hB.does_setLeft _ (by omega)).bind fun _ => ?_
  refine (hB.makes_exprAt (by decide) (by omega)).bind fun n2 hn2 r hr => ?_
  refine (hB.does_setRight _ (by omega)).bind fun _ => ?_
  refine (hB.makes_exprIn (by omega)).bind fun n3 hn3 condition hcondition => ?_
  refine (hB.does_setLeft _ (by omega)).bind fun _ => ?_
  refine (hB.makes_exprIn (by omega)).bind fun n4 hn4 otherwise hotherwise => ?_
  refine (hB.does_setRight _ (by omega)).bind fun _ => ?_
  exact hd.each (hK.children_within hc) (by simp; omega)

theorem hands_shift {template : String} (ht : template ∈ Slot.shifts) :
    B.Hands n (shift descend i c template) (shift descend' i c' template) := by
  have h := (hB.does_shift ht hi (hB.does_looseOperands hK hc hd hi)).silent
  simpa only [shift, bind_assoc] using h

theorem hands_construct (hkind : c.kind = .classConstructorCall) :
    B.Hands n (construct descend i c) (construct descend' i c') := by
  have hplain := Kin.not_mem_controls hkind (by decide)
  refine (hB.does_call hK hc hd hi hplain).bind fun _ => ?_
  have htype := hK.child? hc hplain .qualifiedTypeIdent
  generalize c.child? .qualifiedTypeIdent = x, c'.child? .qualifiedTypeIdent = x' at htype
  cases htype with
  | none => exact hands_none
  | some htype =>
    have hnames := hK.akin_children htype.1.akin (Kin.not_mem_controls htype.2 (by decide))
    dsimp only
    rw [hK.children_isEmpty_eq htype.1.akin]
    split
    · refine Does.bind (does_mapM hnames fun d d' hd => ?_) fun names => (hB.does_setLeft _ (by omega)).silent
      rw [hK.text_eq hd]
      exact hB.does_qualify _ (by omega)
    · exact hands_none

theorem hands_instanceOf (hplain : c.kind ∉ Kin.controls) :
    B.Hands n (instanceOf descend i c) (instanceOf descend' i c') := by
  have hchild (kind : Kind) : Option.Rel (K.Within c c') (c.child? kind) (c'.child? kind) :=
    optionRel_imp (hK.child? hc hplain kind) fun _ _ h => h.1.within
  refine (hB.does_setTemplate (by decide) (by omega)).bind fun _ => ?_
  refine (hB.makes_exprIn (by omega)).bind fun n1 hn1 r hr => ?_
  refine (hB.does_setRight _ (by omega)).bind fun _ => ?_
  refine (hd.maybe (hchild .ident) (by omega)).bind fun _ => ?_
  refine (hB.makes_exprIn (by omega)).bind fun n2 hn2 l hl => ?_
  exact (hB.does_setLeft _ (by omega)).bind fun _ => (hd.maybe (hchild .typeRef) (by omega)).silent

theorem hands_newArray (hplain : c.kind ∉ Kin.controls) :
    B.Hands n (newArray descend i c) (newArray descend' i c') := by
  refine (hB.makes_looseExpr (by decide)).bind fun n1 hn1 r hr => ?_
  refine (hB.does_setRight _ (by omega)).bind fun _ => ?_
  refine (hB.makes_looseExpr (by decide)).bind fun n2 hn2 size hsize => ?_
  refine (hB.does_setLeft _ (by omega)).bind fun _ => ?_
  have hexpr := optionRel_imp (hK.child? hc hplain .expr) fun _ _ h => h.1.within
  exact (hd.maybe hexpr (by omega)).silent

theorem hands_expression : B.Hands n (accept descend i c) (accept descend' i c') := by
  unfold accept
  have hkind := hK.kind_eq hc
  rw [hkind, ← hK.text_eq hc]
  generalize c'.kind = k at hkind
  split
  next template htemplate =>
    exact (hB.does_setTemplate (plain_of_template? htemplate) (by omega)).bind fun _ =>
      (hB.does_operands hK hc hd hi).silent
  split
  next step before hstep =>
    have hplain : c.kind ∉ Kin.controls := by
      rw [hkind]
      rintro hmem
      simp only [Kin.controls, List.mem_cons, List.not_mem_nil, or_false] at hmem
      rcases hmem with rfl | rfl | rfl | rfl <;> cases hstep
    exact (hB.does_increment hK hc hd hi hplain (plain_of_stepKind? hstep) before).silent
  split
  · exact (hB.does_setLeft _ (by omega)).silent
  split
  · exact (hB.does_cast hK hc hd hi (Kin.not_mem_controls hkind (by decide))).silent
  · exact hB.hands_shift hK hc hd hi (by decide)
  · exact hB.hands_shift hK hc hd hi (by decide)
  · exact hB.hands_construct hK hc hd hi hkind
  · exact (hB.does_setTemplate (by decide) (by omega)).bind fun _ => (hB.does_looseOperands hK hc hd hi).silent
  · exact (hB.makes_openRight _ (by omega)).some
  · exact (hB.does_qualify _ (by omega)).bind fun _ => (hB.does_setLeft _ (by omega)).silent
  · exact hB.hands_instanceOf hK hc hd hi (Kin.not_mem_controls hkind (by decide))
  · exact (hB.does_call hK hc hd hi (Kin.not_mem_controls hkind (by decide))).silent
  · unfold parentheses
    rw [hK.parentKind_eq hc (by rw [hkind]; decide)]
    refine agree_demand (P := Eq) (by cases c'.parentKind? <;> constructor; rfl) fun parent _ h => ?_
    subst h
    split
    · exact (hands_some hi)
    · refine (hB.makes_openRight _ (by omega)).bind fun n1 hn1 r hr => ?_
      exact (hB.does_setTemplate (by decide) (by omega)).hand (by omega)
  · refine (hB.does_call hK hc hd hi (Kin.not_mem_controls hkind (by decide))).bind fun _ => ?_
    exact (hB.does_setLeft _ (by omega)).silent
  · exact hB.hands_newArray hK hc hd hi (Kin.not_mem_controls hkind (by decide))
  · refine (hB.makes_enclosing _ (by omega)).bind fun n1 hn1 owner howner => ?_
    refine Agree.bind (hB.agree_block (by omega)) fun n2 hn2 b b' h => ?_
    rw [h.1]
    refine (hB.makes_looseExpr (Slot.plain_super _)).bind fun n3 hn3 r hr => ?_
    exact (hB.does_setRight _ (by omega)).silent
  · refine (hB.makes_enclosing _ (by omega)).bind fun n1 hn1 owner howner => ?_
    refine Agree.bind (hB.agree_block (by omega)) fun n2 hn2 b b' h => ?_
    rw [h.1]
    refine (hB.makes_looseExpr (by decide)).bind fun n3 hn3 r hr => ?_
    exact (hB.does_setRight _ (by omega)).hand (by omega)
  · exact (hB.makes_openRight _ (by omega)).then fun _ => hands_none
  · exact (hB.does_choice hK hc hd hi).silent
  · exact (hB.makes_openRight _ (by omega)).then fun _ => hands_none
  · exact (hB.makes_openRight _ (by omega)).then fun _ => hands_none
  · exact hB.hands_unhandled (hK.head_eq hc) hi

/-! ## Whole trees -/

omit hc hd hi

/-- Expressions visit trees alike, as deep as the trees are. -/
theorem does_expression (k' : Nat) : ∀ ⦃k n i : Nat⦄ ⦃c c' : Cursor⦄, i < n → K.Near c c' →
    c.tree.height ≤ k → c'.tree.height ≤ k' → B.Does n (walkUpTo k i c) (walkUpTo k' i c') := by
  induction k' with
  | zero =>
    intro _ _ _ _ c' _ _ _ hk'
    obtain ⟨_, hfuel⟩ := Tree.exists_fuel hk'
    cases hfuel
  | succ k' ih =>
    intro k n i c c' hi hc hk hk'
    rcases hc with hc | hc
    · obtain ⟨k, rfl⟩ := Tree.exists_fuel hk
      have hd : B.Visits (K.Within c c') (walkUpTo k) (walkUpTo k') :=
        fun _ _ _ _ hi h => ih hi h.near (by have := h.lt; omega) (by have := h.lt'; omega)
      exact hB.does_visit hK hc (hB.hands_expression hK hc hd hi) hd hi
    · obtain ⟨-, hkind, d, hchildren, hd⟩ := hK.braced hc
      have hlt : d.tree.height < c'.tree.height := Cursor.height_child (hchildren ▸ List.mem_singleton_self d)
      exact hB.does_alone hc hchildren hkind hi
        (fun w _ _ => congrFun (accept_blockScope hkind _ _) w) (ih hi (.inl hd) hk (by omega))

/-- Expressions visit trees that belong together alike. -/
theorem visits_near : B.Visits K.Near walk walk :=
  fun _ _ _ _ hi hc => hB.does_expression hK _ hi hc (Nat.le_refl _) (Nat.le_refl _)

theorem visits_expression : B.Visits K.akin walk walk := (hB.visits_near hK).mono fun _ _ => .inl

end Bond.Lawful

end Transcriber
