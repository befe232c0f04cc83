import Transcriber.Proofs.Paired
import Transcriber.Proofs.Source.Every
import Transcriber.Proofs.Source.Height
import Transcriber.Walk.Declaration

/-!
# Trees walked side by side

Two runs may walk two trees that are not quite the same: a statement may stand by itself in the one
and as the only statement of a block in the other.  Kinship says which nodes are visited together.

* `Kin.Lawful.child?`, `Kin.Lawful.childrenOf`, … — nodes near kindred nodes are kindred.
-/

namespace Transcriber

open Build Source

theorem optionRel_imp {α β : Type} {R R' : α → β → Prop} {a : Option α} {b : Option β}
    (h : Option.Rel R a b) (himp : ∀ a b, R a b → R' a b) : Option.Rel R' a b := by
  cases h with
  | some h => exact .some (himp _ _ h)
  | none => exact .none

theorem Source.Kind.number_ne_zero {kind : Kind} (h : ∀ n, kind ≠ .other n) : (kind.number != 0) = true := by
  unfold Kind.number
  split
  next n => exact absurd rfl (h n)
  next =>
    have hpos : 0 < Kind.firstNumber := by decide
    rw [bne_iff_ne]
    omega

/-! ## Kinship -/

/-- The nodes that two runs visit together. -/
structure Kin where
  /-- Nodes that belong together. -/
  akin : Cursor → Cursor → Prop
  /-- A statement that stands by itself, and the block that holds its like alone. -/
  braced : Cursor → Cursor → Prop

namespace Kin

/-- Nodes that belong together, where the second may have a block around it. -/
def Near (K : Kin) (c c' : Cursor) : Prop := K.akin c c' ∨ K.braced c c'

/-- The statements whose body may stand by itself. -/
def controls : List Kind := [.ifWord, .whileWord, .doWord, .forEach]

/-- The statements around which a block may stand. -/
def braceable : List Kind := [.expr, .returnWord, .breakWord, .continueWord, .throwWord]

/-- The kinds of nodes that are looked for at any depth. -/
def sought : List Kind := [.ident, .superConstructorCall, .argumentList, .expr]

/-- Whether the same blocks are made if a block stands around a child of a node, as long as there are
no comments among the tokens: never around an expression that is not looked at as a statement, nor
around a statement without parts where such a statement is taken for an empty body.  Behind `if` and
`else` an expression is then a child of the statement itself; it prints the same unless it holds an
increment or decrement, but the blocks are others. -/
def bears : Kind → Nat → Tree → Bool
  | .ifWord, 1, t => t.kind != .expr
  | .ifWord, 2, t => t.kind != .expr && !t.children.isEmpty
  | .whileWord, 1, t => t.kind != .expr && !t.children.isEmpty
  | .doWord, 0, t => t.kind != .expr
  | .forEach, 4, _ => true
  | _, _, _ => false

/-- Children that belong together, at a position below nodes of a kind. -/
def Limb (K : Kin) (kind : Kind) (position : Nat) (d d' : Cursor) : Prop :=
  K.akin d d' ∨ K.braced d d' ∧ bears kind position d.tree = true

/-- Kindred nodes below two nodes. -/
structure Inside (K : Kin) (c c' d d' : Cursor) : Prop where
  akin : K.akin d d'
  lt : d.tree.height < c.tree.height
  lt' : d'.tree.height < c'.tree.height

/-- Nodes below two nodes that belong together. -/
structure Within (K : Kin) (c c' d d' : Cursor) : Prop where
  near : K.Near d d'
  lt : d.tree.height < c.tree.height
  lt' : d'.tree.height < c'.tree.height

variable {c d d' c' : Cursor}

theorem not_mem_controls {kind : Kind} (hkind : c.kind = kind) (h : kind ∉ controls) : c.kind ∉ controls :=
  hkind ▸ h

variable {K : Kin}

/-- A statement that is taken for a body with parts has parts. -/
theorem isEmpty_of_bears (h : bears .ifWord 2 d.tree = true ∨ bears .whileWord 1 d.tree = true) :
    d.children.isEmpty = false := by
  have hparts : (d.tree.kind != .expr && !d.tree.children.isEmpty) = true := h.elim id id
  rw [Cursor.children, List.isEmpty_map]
  simpa using (Bool.and_eq_true_iff.1 hparts).2

/-- No block stands around a child at a place where it would make a difference. -/
theorem akin_of_limb {kind : Kind} {n : Nat} {P : Cursor → Cursor → Prop}
    (h : Option.Rel (fun d d' => P d d' ∧ K.Limb kind n d d') (some d) (some d'))
    (hbears : bears kind n d.tree = false) : K.akin d d' := by
  cases h with
  | some h =>
    rcases h.2 with hakin | hbraced
    · exact hakin
    · exact absurd (hbears.symm.trans hbraced.2) (by decide)

theorem Inside.within (h : K.Inside c c' d d') : K.Within c c' d d' := ⟨.inl h.akin, h.lt, h.lt'⟩

theorem Inside.trans {e e' : Cursor} (h : K.Inside c c' d d') (h' : K.Inside d d' e e') :
    K.Inside c c' e e' :=
  ⟨h'.akin, Nat.lt_trans h'.lt h.lt, Nat.lt_trans h'.lt' h.lt'⟩

theorem Within.trans {e e' : Cursor} (h : K.Within c c' d d') (h' : K.Within d d' e e') :
    K.Within c c' e e' :=
  ⟨h'.near, Nat.lt_trans h'.lt h.lt, Nat.lt_trans h'.lt' h.lt'⟩

/-- What is asked of the nodes that two runs visit together. -/
structure Lawful (K : Kin) : Prop where
  head_eq : ∀ ⦃c c'⦄, K.akin c c' → c.head = c'.head
  near_children : ∀ ⦃c c'⦄, K.akin c c' → List.Forall₂ K.Near c.children c'.children
  akin_children : ∀ ⦃c c'⦄, K.akin c c' → c.kind ∉ controls → List.Forall₂ K.akin c.children c'.children
  limbs : ∀ ⦃c c'⦄, K.akin c c' → c.kind ∈ controls → ∀ n : Nat,
    Option.Rel (K.Limb c.kind n) c.children[n]? c'.children[n]?
  /-- Names and expressions among the children are found alike. -/
  named : ∀ ⦃c c'⦄, K.akin c c' → ∀ kind ∈ [Kind.ident, .expr],
    Option.Rel K.akin (c.child? kind) (c'.child? kind)
  /-- The first parts of the types of elements of annotation types are akin. -/
  typed : ∀ ⦃c c'⦄, K.akin c c' → c.kind = .annotationMethodDecl → ∀ n : Nat,
    Option.Rel (fun d d' => Option.Rel K.akin d.children.head? d'.children.head?) c.children[n]?
      c'.children[n]?
  akin_descendants : ∀ ⦃c c'⦄, K.akin c c' → ∀ kind ∈ sought,
    List.Forall₂ K.akin (c.descendantsOf kind) (c'.descendantsOf kind)
  parentKind_eq : ∀ ⦃c c'⦄, K.akin c c' → c.kind ∉ braceable → c.parentKind? = c'.parentKind?
  /-- An expression is a statement in the one tree iff it is one in the other. -/
  line_eq : ∀ ⦃c c'⦄, K.akin c c' → c.kind = .expr → c.parentKind?.any Statement.expressionParents.contains
      = c'.parentKind?.any Statement.expressionParents.contains
  /-- A `return` stands below no node, or one without a kind, in both trees or in none. -/
  returns_eq : ∀ ⦃c c'⦄, K.akin c c' → c.kind = .returnWord →
    c.parentKind?.all (·.number == 0) = c'.parentKind?.all (·.number == 0)
  breaks_eq : ∀ ⦃c c'⦄, K.akin c c' → c.kind = .breakWord →
    Statement.breaksLoop c.ancestors = Statement.breaksLoop c'.ancestors
  /-- The loop around a `continue` is of the same kind, and its steps are akin. -/
  loop : ∀ ⦃c c'⦄, K.akin c c' → c.kind = .continueWord → Option.Rel
      (fun l l' => l.kind = l'.kind ∧ Option.Rel K.akin (l.child? .forUpdate) (l'.child? .forUpdate))
      (c.ancestors.find? fun a => Statement.loops.contains a.kind)
      (c'.ancestors.find? fun a => Statement.loops.contains a.kind)
  /-- A block holds the like of what stands by itself in the other tree. -/
  braced : ∀ ⦃c c'⦄, K.braced c c' →
    c.kind ∈ braceable ∧ c'.kind = .blockScope ∧ ∃ d, c'.children = [d] ∧ K.akin c d

namespace Lawful

variable (hK : K.Lawful) (hc : K.akin c c')
include hK hc

theorem kind_eq : c.kind = c'.kind := congrArg Head.kind (hK.head_eq hc)

theorem text_eq : c.text = c'.text := congrArg Head.text (hK.head_eq hc)

theorem children_within : List.Forall₂ (K.Within c c') c.children c'.children :=
  (forall₂_mem (hK.near_children hc)).imp fun _ _ ⟨hd, hd', h⟩ =>
    ⟨h, Cursor.height_child hd, Cursor.height_child hd'⟩

/-- The children at a position below statements that may have bodies. -/
theorem limb_within (hcontrol : c.kind ∈ controls) (n : Nat) :
    Option.Rel (fun d d' => K.Within c c' d d' ∧ K.Limb c.kind n d d') c.children[n]? c'.children[n]? := by
  have hlimb := hK.limbs hc hcontrol n
  have hwithin := forall₂_get? (hK.children_within hc) n
  generalize c.children[n]? = x, c'.children[n]? = x' at hlimb hwithin
  cases hlimb with
  | none => exact .none
  | some h =>
    cases hwithin with
    | some hwithin => exact .some ⟨hwithin, h⟩

theorem children_isEmpty_eq : c.children.isEmpty = c'.children.isEmpty :=
  forall₂_isEmpty (hK.near_children hc)

omit hc in
/-- Limbs of which none is without parts where the other has some. -/
theorem isEmpty_of_limb {kind : Kind} {n : Nat} {d d' : Cursor} {P : Cursor → Cursor → Prop}
    (h : Option.Rel (fun d d' => P d d' ∧ K.Limb kind n d d') (some d) (some d'))
    (hn : ∀ d : Cursor, bears kind n d.tree = true → d.children.isEmpty = false) :
    d.children.isEmpty = d'.children.isEmpty := by
  cases h with
  | some h =>
    rcases h.2 with hakin | ⟨hbraced, hbears⟩
    · exact forall₂_isEmpty (hK.near_children hakin)
    · obtain ⟨-, -, e, hchildren, -⟩ := hK.braced hbraced
      rw [hn d hbears, hchildren]
      rfl

variable (hplain : c.kind ∉ controls)
include hplain

theorem children_inside : List.Forall₂ (K.Inside c c') c.children c'.children :=
  (forall₂_mem (hK.akin_children hc hplain)).imp fun _ _ ⟨hd, hd', h⟩ =>
    ⟨h, Cursor.height_child hd, Cursor.height_child hd'⟩

theorem head? : Option.Rel (K.Inside c c') c.children.head? c'.children.head? :=
  forall₂_head? (hK.children_inside hc hplain)

theorem get? (n : Nat) : Option.Rel (K.Inside c c') c.children[n]? c'.children[n]? :=
  forall₂_get? (hK.children_inside hc hplain) n

theorem childrenOf (kind : Kind) :
    List.Forall₂ (fun d d' => K.Inside c c' d d' ∧ d.kind = kind) (c.childrenOf kind)
      (c'.childrenOf kind) := by
  have hall : List.Forall₂ (K.Inside c c') (c.childrenOf kind) (c'.childrenOf kind) :=
    forall₂_filter (fun _ _ h => by rw [hK.kind_eq h.akin]) (hK.children_inside hc hplain)
  refine (forall₂_mem hall).imp fun d d' ⟨hd, _, h⟩ => ⟨h, ?_⟩
  exact eq_of_beq (List.mem_filter.1 hd).2

theorem child? (kind : Kind) : Option.Rel (fun d d' => K.Inside c c' d d' ∧ d.kind = kind) (c.child? kind)
      (c'.child? kind) := by
  have hsome : Option.Rel (K.Inside c c') (c.child? kind) (c'.child? kind) :=
    forall₂_find? (fun _ _ h => by rw [hK.kind_eq h.akin]) (hK.children_inside hc hplain)
  have hkind : ∀ d, c.child? kind = some d → d.kind = kind := fun d hd => by
    simpa using List.find?_some hd
  generalize c.child? kind = x, c'.child? kind = x' at hsome hkind
  cases hsome with
  | none => exact .none
  | some h => exact .some ⟨h, hkind _ rfl⟩

end Lawful

theorem Lawful.map_text_eq (hK : K.Lawful) {cs cs' : List Cursor}
    (h : List.Forall₂ K.akin cs cs') : cs.map Cursor.text = cs'.map Cursor.text :=
  map_eq_of_forall₂ (fun _ _ h => hK.text_eq h) h

/-! ## The same tree twice -/

theorem optionRel_self {α : Type} {R : α → α → Prop} {x : Option α} (h : ∀ a, x = some a → R a a) :
    Option.Rel R x x := by
  cases x with
  | none => exact .none
  | some a => exact .some (h a rfl)

/-- Both runs visit the same tree, and the trees around each node have a property. -/
def same (G : Tree → Prop) : Kin where
  akin := fun c c' => c = c' ∧ c.Within G
  braced := fun _ _ => False

theorem same_lawful (G : Tree → Prop) [Tree.Hereditary G] : (same G).Lawful where
  head_eq := fun _ _ h => by rw [h.1]
  near_children := fun c _ h => by
    obtain ⟨rfl, hc⟩ := h
    exact List.forall₂_same.2 fun d hd => .inl ⟨rfl, hc.child hd⟩
  akin_children := fun c _ h _ => by
    obtain ⟨rfl, hc⟩ := h
    exact List.forall₂_same.2 fun d hd => ⟨rfl, hc.child hd⟩
  limbs := fun c _ h _ n => by
    obtain ⟨rfl, hc⟩ := h
    exact optionRel_self fun d hd => .inl ⟨rfl, hc.get? hd⟩
  named := fun c _ h kind _ => by
    obtain ⟨rfl, hc⟩ := h
    exact optionRel_self fun d hd => ⟨rfl, hc.child? hd⟩
  typed := fun c _ h _ n => by
    obtain ⟨rfl, hc⟩ := h
    exact optionRel_self fun d hd => optionRel_self fun e he => ⟨rfl, (hc.get? hd).head? he⟩
  akin_descendants := fun c _ h kind _ => by
    obtain ⟨rfl, hc⟩ := h
    exact List.forall₂_same.2 fun d hd => ⟨rfl, hc.descendantsOf hd⟩
  parentKind_eq := fun _ _ h _ => by rw [h.1]
  line_eq := fun _ _ h _ => by rw [h.1]
  returns_eq := fun _ _ h _ => by rw [h.1]
  breaks_eq := fun _ _ h _ => by rw [h.1]
  loop := fun c _ h _ => by
    obtain ⟨rfl, hc⟩ := h
    refine optionRel_self fun l hl => ⟨rfl, optionRel_self fun d hd => ⟨rfl, ?_⟩⟩
    exact (hc.ancestor (List.mem_of_find?_eq_some hl)).child? hd
  braced := fun _ _ h => h.elim

end Kin

end Transcriber
