import Transcriber.Source.Tree

/-!
# Properties of all nodes

A property of what nodes carry can hold of all nodes of a tree.  A cursor is a place in a tree; there
the property is to hold of all nodes that can be reached from the place, downwards or upwards.

* `Cursor.Within.child`, `Cursor.Within.descendantsOf`, `Cursor.Within.ancestor` — what holds around a
  cursor holds around the cursors nearby.
-/

namespace Transcriber.Source

/-- All nodes of a tree have a property. -/
inductive Tree.Every (P : Head → Prop) : Tree → Prop
  | node {head : Head} {children : List Tree} (h : P head) (hs : ∀ t ∈ children, t.Every P) :
      Tree.Every P (.node head children)

variable {P : Head → Prop} {t : Tree}

@[simp] theorem Tree.every_node {head : Head} {children : List Tree} :
    (Tree.node head children).Every P ↔ P head ∧ ∀ t ∈ children, t.Every P := by
  constructor
  · rintro ⟨h, hs⟩
    exact ⟨h, hs⟩
  · rintro ⟨h, hs⟩
    exact .node h hs

theorem Tree.Every.head (h : t.Every P) : P t.head := by
  cases h with
  | node h hs => exact h

theorem Tree.Every.child {u : Tree} (h : t.Every P) (hu : u ∈ t.children) : u.Every P := by
  cases h with
  | node h hs => exact hs u hu

/-- A property of trees that goes down to the children. -/
class Tree.Hereditary (G : Tree → Prop) : Prop where
  child : ∀ {t u : Tree}, G t → u ∈ t.children → G u

instance Tree.hereditary_true : Tree.Hereditary fun _ => True := ⟨fun _ _ => trivial⟩

instance Tree.hereditary_every (P : Head → Prop) : Tree.Hereditary (Tree.Every P) :=
  ⟨fun ht hu => ht.child hu⟩

/-- A property that a tree has with all trees below it. -/
inductive Tree.Throughout (P : Tree → Prop) : Tree → Prop
  | node {head : Head} {children : List Tree} (here : P (.node head children))
      (below : ∀ t ∈ children, Throughout P t) : Throughout P (.node head children)

@[simp] theorem Tree.throughout_node {P : Tree → Prop} {head : Head} {children : List Tree} :
    (Tree.node head children).Throughout P ↔ P (.node head children) ∧ ∀ t ∈ children, t.Throughout P := by
  constructor
  · rintro ⟨here, below⟩
    exact ⟨here, below⟩
  · rintro ⟨here, below⟩
    exact .node here below

theorem Tree.Throughout.here {P : Tree → Prop} (h : t.Throughout P) : P t := by
  cases h with
  | node here _ => exact here

instance Tree.hereditary_throughout (P : Tree → Prop) : Tree.Hereditary (Tree.Throughout P) where
  child ht hu := by
    cases ht with
    | node _ below => exact below _ hu

namespace Cursor

/-- The trees below and above a cursor have a property. -/
def Within (G : Tree → Prop) (c : Cursor) : Prop := ∀ t ∈ c.tree :: c.above, G t

section

variable {G : Tree → Prop} {c d : Cursor}

theorem Within.tree (h : c.Within G) : G c.tree := h _ (.head _)

theorem within_ofTree {t : Tree} (h : G t) : (ofTree t).Within G := by
  intro u hu
  obtain rfl := List.mem_singleton.1 hu
  exact h

theorem Within.below_of {t : Tree} {above : List Tree} (h : ∀ u ∈ above, G u) (ht : G t) :
    Within G ⟨t, above⟩ := by
  intro u hu
  rcases List.mem_cons.1 hu with rfl | hu
  · exact ht
  · exact h u hu

theorem Within.ancestor (h : c.Within G) (hd : d ∈ c.ancestors) : d.Within G := by
  have hgo : ∀ above : List Tree, (∀ u ∈ above, G u) → ∀ d ∈ ancestors.go above, Within G d := by
    intro above
    induction above with
    | nil => exact fun _ d hd => nomatch hd
    | cons t above ih =>
      intro habove d hd
      have hrest : ∀ u ∈ above, G u := fun u hu => habove u (.tail _ hu)
      rcases List.mem_cons.1 hd with rfl | hd
      · exact Within.below_of hrest (habove t (.head _))
      · exact ih hrest d hd
  exact hgo c.above (fun u hu => h u (.tail _ hu)) d hd

mutual

theorem within_below [Tree.Hereditary G] {above : List Tree} (h : ∀ u ∈ above, G u) :
    ∀ {t : Tree}, G t → ∀ d ∈ below above t, Within G d
  | .node head children, ht, d, hd => by
      refine within_belowAll ?_ (fun u hu => Tree.Hereditary.child ht hu) d hd
      intro u hu
      rcases List.mem_cons.1 hu with rfl | hu
      · exact ht
      · exact h u hu

theorem within_belowAll [Tree.Hereditary G] {above : List Tree} (h : ∀ u ∈ above, G u) :
    ∀ {ts : List Tree}, (∀ t ∈ ts, G t) → ∀ d ∈ belowAll above ts, Within G d
  | [], _, d, hd => nomatch hd
  | t :: ts, hts, d, hd => by
      rcases List.mem_cons.1 hd with rfl | hd
      · exact Within.below_of h (hts t (.head _))
      · rcases List.mem_append.1 hd with hd | hd
        · exact within_below h (hts t (.head _)) d hd
        · exact within_belowAll h (fun u hu => hts u (.tail _ hu)) d hd

end

variable [Tree.Hereditary G]

theorem Within.child (h : c.Within G) (hd : d ∈ c.children) : d.Within G := by
  obtain ⟨t, ht, rfl⟩ := List.mem_map.1 hd
  exact Within.below_of h (Tree.Hereditary.child h.tree ht)

variable {kind : Kind}

theorem Within.child? (h : c.Within G) (hd : c.child? kind = some d) : d.Within G :=
  h.child (List.mem_of_find?_eq_some hd)

theorem Within.head? (h : c.Within G) (hd : c.children.head? = some d) : d.Within G :=
  h.child (List.mem_of_mem_head? hd)

theorem Within.childrenOf (h : c.Within G) (hd : d ∈ c.childrenOf kind) : d.Within G :=
  h.child (List.mem_filter.1 hd).1

theorem Within.get? {i : Nat} (h : c.Within G) (hd : c.children[i]? = some d) : d.Within G :=
  h.child (List.mem_of_getElem? hd)

theorem Within.descendantsOf (h : c.Within G) (hd : d ∈ c.descendantsOf kind) : d.Within G :=
  within_below (fun u hu => h u (.tail _ hu)) h.tree d (List.mem_filter.1 hd).1

end

/-- All nodes below and above a cursor have a property, with all that hangs on the nodes above. -/
def Every (P : Head → Prop) (c : Cursor) : Prop := ∀ t ∈ c.tree :: c.above, t.Every P

variable {c d : Cursor}

theorem Every.within (h : c.Every P) : c.Within (Tree.Every P) := h

theorem Every.tree (h : c.Every P) : c.tree.Every P := h _ (.head _)

theorem Every.head (h : c.Every P) : P c.head := h.tree.head

theorem every_ofTree {t : Tree} (h : t.Every P) : (ofTree t).Every P := within_ofTree h

theorem Every.child (h : c.Every P) (hd : d ∈ c.children) : d.Every P := h.within.child hd

theorem Every.inner {t u : Tree} {above : List Tree} (h : Cursor.Every P ⟨t, above⟩) (hu : u ∈ t.children) :
    Cursor.Every P ⟨u, t :: above⟩ :=
  h.child (List.mem_map_of_mem hu)

variable {kind : Kind}

theorem Every.child? (h : c.Every P) (hd : c.child? kind = some d) : d.Every P := h.within.child? hd

theorem Every.childrenOf (h : c.Every P) (hd : d ∈ c.childrenOf kind) : d.Every P := h.within.childrenOf hd

def EveryBelow (P : Head → Prop) (c : Cursor) : Prop := c.tree.Every P

theorem Every.below (h : c.Every P) : c.EveryBelow P := h.tree

theorem EveryBelow.head (h : c.EveryBelow P) : P c.head := Tree.Every.head h

theorem EveryBelow.child (h : c.EveryBelow P) (hd : d ∈ c.children) : d.EveryBelow P := by
  obtain ⟨t, ht, rfl⟩ := List.mem_map.1 hd
  exact Tree.Every.child h ht

theorem EveryBelow.child? (h : c.EveryBelow P) (hd : c.child? kind = some d) : d.EveryBelow P :=
  h.child (List.mem_of_find?_eq_some hd)

theorem EveryBelow.head? (h : c.EveryBelow P) (hd : c.children.head? = some d) : d.EveryBelow P :=
  h.child (List.mem_of_mem_head? hd)

theorem EveryBelow.get? {i : Nat} (h : c.EveryBelow P) (hd : c.children[i]? = some d) : d.EveryBelow P :=
  h.child (List.mem_of_getElem? hd)

end Cursor

end Transcriber.Source
