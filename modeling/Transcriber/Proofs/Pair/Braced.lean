import Transcriber.Proofs.Pair.Kin

/-!
# Blocks around single statements

The body of a control statement may be a single statement or a block that holds it.  Two trees may
differ in that, wherever it makes no difference.
-/

namespace Transcriber

open Source List Statement

namespace Source

/-- The children of a node stand where they are looked for: what a loop over elements is about stands
before its body, and the type of an element of an annotation type is not a loop. -/
structure Tree.Arranged (kind : Kind) (children : List Tree) : Prop where
  subject : kind = .forEach → ∃ t, children[3]? = some t ∧ t.kind = .expr
  typed : kind = .annotationMethodDecl → ∀ t ∈ children, t.kind ≠ .doWord

mutual

/-- Trees that are the same, but for blocks in the second around single statements. -/
inductive Tree.Braced : Tree → Tree → Prop
  | node (head : Head) {children children' : List Tree} (harranged : Tree.Arranged head.kind children)
      (h : Tree.BracedAll head.kind 0 children children') :
      Tree.Braced (.node head children) (.node head children')

/-- The children of two nodes at a position: the second may have a block around it. -/
inductive Tree.Branch : Kind → Nat → Tree → Tree → Prop
  | plain {kind : Kind} {n : Nat} {t t' : Tree} (h : Tree.Braced t t') : Tree.Branch kind n t t'
  | block {kind : Kind} {n : Nat} {t t' : Tree} (head : Head) (hscope : head.kind = .blockScope)
      (hkind : t.kind ∈ Kin.braceable) (hbears : Kin.bears kind n t = true) (h : Tree.Braced t t') :
      Tree.Branch kind n t (.node head [t'])

/-- The children of two nodes from a position on. -/
inductive Tree.BracedAll : Kind → Nat → List Tree → List Tree → Prop
  | nil {kind : Kind} {n : Nat} : Tree.BracedAll kind n [] []
  | cons {kind : Kind} {n : Nat} {t t' : Tree} {ts ts' : List Tree} (h : Tree.Branch kind n t t')
      (hs : Tree.BracedAll kind (n + 1) ts ts') : Tree.BracedAll kind n (t :: ts) (t' :: ts')

end

namespace Tree

variable {t t' : Tree} {kind : Kind} {n : Nat} {ts ts' : List Tree}

theorem Braced.head_eq (h : t.Braced t') : t.head = t'.head := by
  cases h with
  | node head _ _ => rfl

theorem Braced.arranged (h : t.Braced t') : Arranged t.kind t.children := by
  cases h with
  | node head harranged _ => exact harranged

theorem Braced.children (h : t.Braced t') : BracedAll t.kind 0 t.children t'.children := by
  cases h with
  | node head _ h => exact h

/-- Where no block may stand, none does. -/
theorem Branch.plain_of_not_bears (h : Branch kind n t t') (hbears : Kin.bears kind n t = false) :
    t.Braced t' := by
  cases h with
  | plain h => exact h
  | block head _ _ hb _ =>
    rw [hbears] at hb
    cases hb

theorem BracedAll.forall₂ (h : BracedAll kind n ts ts') :
    List.Forall₂ (fun t t' => ∃ n, Branch kind n t t') ts ts' := by
  induction ts generalizing n ts' with
  | nil =>
    cases h
    exact .nil
  | cons t ts ih =>
    cases h with
    | cons h hs => exact .cons ⟨_, h⟩ (ih hs)

theorem BracedAll.get? (h : BracedAll kind n ts ts') (k : Nat) :
    Option.Rel (Branch kind (n + k)) ts[k]? ts'[k]? := by
  induction k generalizing n ts ts' with
  | zero =>
    cases h with
    | nil => exact .none
    | cons h _ => exact .some h
  | succ k ih =>
    cases h with
    | nil => exact .none
    | cons _ hs =>
      rw [show n + (k + 1) = n + 1 + k by omega]
      exact ih hs

end Tree

end Source

namespace Kin

variable {kind : Kind} {t : Tree}

/-- Only bodies of control statements may stand in blocks. -/
theorem mem_controls_of_bears {n : Nat} (h : bears kind n t = true) : kind ∈ controls := by
  unfold bears at h
  split at h <;> first | decide | cases h

/-- An expression may stand in a block below a loop over elements only. -/
theorem forEach_of_bears_expr {n : Nat} (h : bears kind n t = true)
    (hexpr : t.kind = .expr) : kind = .forEach ∧ n = 4 := by
  unfold bears at h
  split at h <;> simp_all

theorem bears_zero (h : kind ≠ .doWord) : bears kind 0 t = false := by
  unfold bears
  split <;> simp_all

end Kin

/-! ## Places in two trees -/

namespace Source.Cursor

/-- Places that belong together in two trees.  Above the second there may be blocks around single
statements. -/
inductive Akin : Cursor → Cursor → Prop
  | root {t t' : Tree} (h : t.Braced t') : Akin ⟨t, []⟩ ⟨t', []⟩
  | child {p p' : Cursor} {t t' : Tree} (hp : Akin p p') (h : t.Braced t') :
      Akin ⟨t, p.tree :: p.above⟩ ⟨t', p'.tree :: p'.above⟩
  | inside {p p' : Cursor} {t t' : Tree} {n : Nat} {head : Head} (hp : Akin p p') (h : t.Braced t')
      (hscope : head.kind = .blockScope) (hkind : t.kind ∈ Kin.braceable)
      (hbears : Kin.bears p.kind n t = true) :
      Akin ⟨t, p.tree :: p.above⟩ ⟨t', .node head [t'] :: p'.tree :: p'.above⟩

/-- A statement, and the block around its like. -/
inductive InBlock : Cursor → Cursor → Prop
  | mk {p p' : Cursor} {t t' : Tree} {n : Nat} {head : Head} (hp : Akin p p') (h : t.Braced t')
      (hscope : head.kind = .blockScope) (hkind : t.kind ∈ Kin.braceable)
      (hbears : Kin.bears p.kind n t = true) :
      InBlock ⟨t, p.tree :: p.above⟩ ⟨.node head [t'], p'.tree :: p'.above⟩

variable {c c' : Cursor}

theorem Akin.tree (h : Akin c c') : c.tree.Braced c'.tree := by
  cases h with
  | root h => exact h
  | child _ h => exact h
  | inside _ h => exact h

theorem Akin.kind_eq (h : Akin c c') : c.kind = c'.kind := congrArg Head.kind h.tree.head_eq

/-- Branches of kindred places belong together. -/
theorem Akin.branch (hc : Akin c c') {n : Nat} {t t' : Tree} (h : Tree.Branch c.kind n t t') :
    Akin ⟨t, c.tree :: c.above⟩ ⟨t', c'.tree :: c'.above⟩
      ∨ InBlock ⟨t, c.tree :: c.above⟩ ⟨t', c'.tree :: c'.above⟩ ∧ Kin.bears c.kind n t = true := by
  cases h with
  | plain h => exact .inl (.child hc h)
  | block head hscope hkind hbears h => exact .inr ⟨.mk hc h hscope hkind hbears, hbears⟩

variable {key : Kind}

/-- Nodes of a kind are found alike among the children, if none of them has a block around it, or
another one is found before. -/
theorem Akin.find? (hc : Akin c c') (hscope : key ≠ .blockScope) {n : Nat}
    {ts ts' : List Tree} (h : Tree.BracedAll c.kind n ts ts')
    (hfirst : ∀ k t, ts[k]? = some t → t.kind ∈ Kin.braceable → Kin.bears c.kind (n + k) t = true →
      t.kind = key → ∃ j < k, ∃ s, ts[j]? = some s ∧ s.kind = key) :
    Option.Rel Akin ((ts.map fun t => (⟨t, c.tree :: c.above⟩ : Cursor)).find? (·.kind == key))
      ((ts'.map fun t => (⟨t, c'.tree :: c'.above⟩ : Cursor)).find? (·.kind == key)) := by
  induction ts generalizing n ts' with
  | nil =>
    cases h
    exact .none
  | cons t ts ih =>
    cases h with
    | cons h hs =>
      rename_i t' ts'
      -- A child found in place of the first is found among the rest.
      have hrest (hne : t.kind ≠ key) := ih hs fun k u hu hkind hbears hkey => by
        rw [show n + 1 + k = n + (k + 1) by omega] at hbears
        obtain ⟨j, hj, s, hs, hskey⟩ := hfirst (k + 1) u hu hkind hbears hkey
        cases j with
        | zero =>
          cases hs
          exact absurd hskey hne
        | succ j => exact ⟨j, by omega, s, hs, hskey⟩
      rw [map_cons, map_cons, List.find?_cons, List.find?_cons]
      cases h with
      | plain h =>
        have hkind : (t'.kind == key) = (t.kind == key) :=
          congrArg (fun head : Head => head.kind == key) h.head_eq.symm
        change Option.Rel Akin (match t.kind == key with | true => _ | false => _)
          (match t'.kind == key with | true => _ | false => _)
        rw [hkind]
        cases hfound : t.kind == key with
        | true => exact .some (.child hc h)
        | false => exact hrest fun heq => by simp [heq] at hfound
      | block head hblock hkind hbears h =>
        have hne : t.kind ≠ key := fun heq => by
          obtain ⟨j, hj, -⟩ := hfirst 0 t rfl hkind hbears heq
          exact absurd hj (Nat.not_lt_zero j)
        have hfalse : (t.kind == key) = false := beq_eq_false_iff_ne.2 hne
        have hfalse' : (head.kind == key) = false := by
          rw [hblock]
          exact beq_eq_false_iff_ne.2 hscope.symm
        change Option.Rel Akin (match t.kind == key with | true => _ | false => _)
          (match head.kind == key with | true => _ | false => _)
        rw [hfalse, hfalse']
        exact hrest hne

/-- Names and expressions are found alike among the children. -/
theorem Akin.child? (hc : Akin c c') (hkey : key ∈ [Kind.ident, .expr]) :
    Option.Rel Akin (c.child? key) (c'.child? key) := by
  have hscope : key ≠ .blockScope := by
    rintro rfl
    exact absurd hkey (by decide)
  refine hc.find? hscope hc.tree.children fun k t ht hkind hbears heq => ?_
  obtain rfl : key = .expr := by
    rcases mem_cons.1 hkey with rfl | hkey
    · rw [heq] at hkind
      exact absurd hkind (by decide)
    · exact mem_singleton.1 hkey
  obtain ⟨heach, hk⟩ := Kin.forEach_of_bears_expr hbears heq
  obtain ⟨s, hs, hexpr⟩ := hc.tree.arranged.subject heach
  exact ⟨3, by omega, s, hs, hexpr⟩

/-- The first parts of the types of elements of annotation types belong together. -/
theorem Akin.typed (hc : Akin c c') (hkind : c.kind = .annotationMethodDecl) (n : Nat) :
    Option.Rel (fun d d' => Option.Rel Akin d.children.head? d'.children.head?) c.children[n]?
      c'.children[n]? := by
  have hrel := hc.tree.children.get? n
  have harranged := hc.tree.arranged.typed hkind
  rw [Nat.zero_add, show c.tree.kind = Kind.annotationMethodDecl from hkind] at hrel
  rw [children, children, getElem?_map, getElem?_map]
  have hmem (t : Tree) (ht : c.tree.children[n]? = some t) : t ∈ c.tree.children := mem_of_getElem? ht
  generalize c.tree.children[n]? = x, c'.tree.children[n]? = x' at hrel hmem
  cases hrel with
  | none => exact .none
  | some h =>
    rename_i t t'
    have hbraced : t.Braced t' := h.plain_of_not_bears rfl
    have hd : Akin ⟨t, c.tree :: c.above⟩ ⟨t', c'.tree :: c'.above⟩ := .child hc hbraced
    have hparts := hbraced.children
    have hdo : t.kind ≠ .doWord := harranged t (hmem t rfl)
    refine .some ?_
    change Option.Rel Akin (t.children.map _).head? (t'.children.map _).head?
    generalize t.children = ts, t'.children = ts' at hparts
    cases hparts with
    | nil => exact .none
    | cons h _ => exact .some (.child hd (h.plain_of_not_bears (Kin.bears_zero hdo)))

/-! ## What is found at any depth -/

theorem sought_ne_blockScope (hkey : key ∈ Kin.sought) : key ≠ .blockScope := by
  rintro rfl
  exact absurd hkey (by decide)

/-- Kindred places with what is below them. -/
theorem Akin.filter_cons (hc : Akin c c') {ds ds' : List Cursor}
    (h : List.Forall₂ Akin (ds.filter (·.kind == key)) (ds'.filter (·.kind == key))) :
    List.Forall₂ Akin ((c :: ds).filter (·.kind == key)) ((c' :: ds').filter (·.kind == key)) := by
  rw [List.filter_cons, List.filter_cons, hc.kind_eq]
  split
  · exact .cons hc h
  · exact h

mutual

theorem akin_below {key : Kind} (hkey : key ∈ Kin.sought) :
    ∀ {t t' : Tree} {above above' : List Tree}, Akin ⟨t, above⟩ ⟨t', above'⟩ →
      List.Forall₂ Akin ((below above t).filter (·.kind == key)) ((below above' t').filter (·.kind == key))
  | .node head ts, .node head' ts', above, above', hc =>
    akin_belowAll hkey (c := ⟨.node head ts, above⟩) (d := ⟨.node head' ts', above'⟩) hc hc.tree.children

theorem akin_belowAll {key : Kind} (hkey : key ∈ Kin.sought) {c d : Cursor} (hc : Akin c d) :
    ∀ {n : Nat} {ts ts' : List Tree}, Tree.BracedAll c.kind n ts ts' →
      List.Forall₂ Akin ((belowAll (c.tree :: c.above) ts).filter (·.kind == key))
        ((belowAll (d.tree :: d.above) ts').filter (·.kind == key))
  | _, [], _, .nil => .nil
  | _, t :: ts, _, .cons h hs => by
      have hrest := akin_belowAll hkey hc hs
      rw [belowAll, belowAll, ← cons_append, ← cons_append, filter_append, filter_append]
      refine rel_append ?_ hrest
      cases h with
      | plain h =>
        have hchild := Akin.child hc h
        exact hchild.filter_cons (akin_below hkey hchild)
      | block head hscope hkind hbears h =>
        -- The block itself is not looked for; its only child is.
        rename_i t'
        have hchild := Akin.inside hc h hscope hkind hbears
        have hskip (ds : List Cursor) :
            ((⟨.node head [t'], d.tree :: d.above⟩ : Cursor) :: ds).filter (·.kind == key)
              = ds.filter (·.kind == key) := by
          refine filter_cons_of_neg fun heq => sought_ne_blockScope hkey ?_
          rw [← eq_of_beq heq]
          exact hscope
        rw [hskip, below, belowAll, belowAll, append_nil]
        exact hchild.filter_cons (akin_below hkey hchild)

end

/-! ## The way up -/

theorem Akin.parentKind_eq (h : Akin c c') (hkind : c.kind ∉ Kin.braceable) :
    c.parentKind? = c'.parentKind? := by
  cases h with
  | root _ => rfl
  | child hp _ => exact congrArg some hp.kind_eq
  | inside _ _ _ hbraceable _ => exact absurd hbraceable hkind

/-- An expression is a statement below a loop over elements as well as inside a block. -/
theorem Akin.line_eq (h : Akin c c') (hkind : c.kind = .expr) : c.parentKind?.any expressionParents.contains
      = c'.parentKind?.any expressionParents.contains := by
  cases h with
  | root _ => rfl
  | child hp _ =>
    exact congrArg (fun kind => Option.any expressionParents.contains (some kind)) hp.kind_eq
  | @inside p p' t t' n head hp _ hscope _ hbears =>
    have heach : p.kind = .forEach := (Kin.forEach_of_bears_expr hbears hkind).1
    change expressionParents.contains p.kind = expressionParents.contains head.kind
    rw [heach, hscope]
    rfl

theorem Akin.returns_eq (h : Akin c c') :
    c.parentKind?.all (·.number == 0) = c'.parentKind?.all (·.number == 0) := by
  cases h with
  | root _ => rfl
  | child hp _ => exact congrArg (fun kind => Option.all (fun k : Kind => k.number == 0) (some kind)) hp.kind_eq
  | @inside p p' t t' n head hp _ hscope _ hbears =>
    have hnumber : (p.kind.number != 0) = true := Kind.number_ne_zero fun n hother => by
      have hcontrol := Kin.mem_controls_of_bears hbears
      simp [hother, Kin.controls] at hcontrol
    have hblock : (Kind.blockScope.number != 0) = true := Kind.number_ne_zero (by nofun)
    change (p.kind.number == 0) = (head.kind.number == 0)
    rw [hscope]
    simp_all

theorem breaksLoop_block {head : Head} (hscope : head.kind = .blockScope) (t : Tree)
    (above : List Tree) (rest : List Cursor) :
    breaksLoop (⟨.node head [t], above⟩ :: rest) = breaksLoop rest := by
  have hkind : (⟨.node head [t], above⟩ : Cursor).kind = .blockScope := hscope
  rw [breaksLoop, hkind]
  rfl

theorem Akin.breaks_eq (h : Akin c c') : breaksLoop c.ancestors = breaksLoop c'.ancestors := by
  have hup {p p' : Cursor} (hp : Akin p p') (ih : breaksLoop p.ancestors = breaksLoop p'.ancestors) :
      breaksLoop (p :: p.ancestors) = breaksLoop (p' :: p'.ancestors) := by
    rw [breaksLoop, breaksLoop, hp.kind_eq, ih]
  induction h with
  | root _ => rfl
  | child hp _ ih => exact hup hp ih
  | inside hp _ hscope _ _ ih => exact (hup hp ih).trans (breaksLoop_block hscope _ _ _).symm

/-- The loop around a place is found alike. -/
theorem Akin.loop (h : Akin c c') :
    Option.Rel Akin (c.ancestors.find? fun a => Statement.loops.contains a.kind)
      (c'.ancestors.find? fun a => Statement.loops.contains a.kind) := by
  have hup {p p' : Cursor} (hp : Akin p p')
      (ih : Option.Rel Akin (p.ancestors.find? fun a => Statement.loops.contains a.kind)
        (p'.ancestors.find? fun a => Statement.loops.contains a.kind)) :
      Option.Rel Akin ((p :: p.ancestors).find? fun a => Statement.loops.contains a.kind)
        ((p' :: p'.ancestors).find? fun a => Statement.loops.contains a.kind) := by
    rw [List.find?_cons, List.find?_cons, hp.kind_eq]
    split
    · exact .some hp
    · exact ih
  induction h with
  | root _ => exact .none
  | child hp _ ih => exact hup hp ih
  | @inside p p' t t' n head hp _ hscope _ _ ih =>
    have hskip : Statement.loops.contains (⟨.node head [t'], p'.tree :: p'.above⟩ : Cursor).kind = false := by
      change Statement.loops.contains head.kind = false
      rw [hscope]
      rfl
    change Option.Rel Akin _ (List.find? _ (_ :: p' :: p'.ancestors))
    rw [List.find?_cons, hskip]
    exact hup hp ih

/-- The step of a counting loop is found alike: no block stands around children of such a loop. -/
theorem Akin.forUpdate (h : Akin c c') : Option.Rel Akin (c.child? .forUpdate) (c'.child? .forUpdate) := by
  refine h.find? (by decide) h.tree.children fun k t _ hkind _ heq => ?_
  rw [heq] at hkind
  exact absurd hkind (by decide)

end Source.Cursor

/-! ## The kinship -/

namespace Kin

/-- Both runs visit the same tree, but for blocks around single statements. -/
def braces : Kin where
  akin := Cursor.Akin
  braced := Cursor.InBlock

theorem braces_lawful : braces.Lawful where
  head_eq := fun _ _ h => h.tree.head_eq
  near_children := fun c c' h => by
    have hall := h.tree.children.forall₂
    refine forall₂_map_left_iff.2 (forall₂_map_right_iff.2 (hall.imp fun t t' hbranch => ?_))
    obtain ⟨n, hbranch⟩ := hbranch
    exact (h.branch hbranch).imp id And.left
  akin_children := fun c c' h hplain => by
    have hall := h.tree.children.forall₂
    refine forall₂_map_left_iff.2 (forall₂_map_right_iff.2 (hall.imp fun t t' hbranch => ?_))
    obtain ⟨n, hbranch⟩ := hbranch
    exact (h.branch hbranch).resolve_right fun hblock => hplain (mem_controls_of_bears hblock.2)
  limbs := fun c c' h _ n => by
    have hget := h.tree.children.get? n
    rw [Nat.zero_add] at hget
    rw [Cursor.children, Cursor.children, getElem?_map, getElem?_map]
    generalize c.tree.children[n]? = x, c'.tree.children[n]? = x' at hget
    cases hget with
    | none => exact .none
    | some hbranch => exact .some (h.branch hbranch)
  named := fun _ _ h _ hkey => h.child? hkey
  typed := fun _ _ h hkind n => h.typed hkind n
  akin_descendants := fun _ _ h _ hkey => Cursor.akin_below hkey h
  parentKind_eq := fun _ _ h hkind => h.parentKind_eq hkind
  line_eq := fun _ _ h hkind => h.line_eq hkind
  returns_eq := fun _ _ h _ => h.returns_eq
  breaks_eq := fun _ _ h _ => h.breaks_eq
  loop := fun _ _ h _ => optionRel_imp h.loop fun _ _ hl => ⟨hl.kind_eq, hl.forUpdate⟩
  braced := fun _ _ h => by
    cases h with
    | mk hp h hscope hkind hbears => exact ⟨hkind, hscope, _, rfl, .inside hp h hscope hkind hbears⟩

end Kin

end Transcriber
