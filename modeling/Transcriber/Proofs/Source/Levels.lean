import Transcriber.Config.Standard
import Transcriber.Proofs.Source.Every
import Transcriber.Proofs.Source.Selection
import Transcriber.Revision

/-!
# Chains of three selectors

A chain of three selectors reads as if it named a node, its parent and its grandparent.  It asks for
the node and the parent only.  So a chain selects what it is read to select in exactly those trees
in which the grandparents fit anyhow, and the edits of the standard settings that are bound to
chains also reach nodes elsewhere.

* `Selector.walk_chain_two_levels` — the nodes that it does select.
* `Selector.length_edited_without_call` — a sum that an edit for calls makes a call of `len`.
-/

namespace Transcriber.Source.Selector

/-- A node that `c` selects, below a parent that `b` selects, below a grandparent that `a`
selects. -/
def OnThirdLevel (f : Forest) (a b c : Selector) (id : NodeId) : Prop :=
  c.Meets f id ∧ ∃ p, f.parentOf id = some p ∧ b.Meets f p ∧ ∃ g, f.parentOf p = some g ∧ a.Meets f g

section

variable {f : Forest} {shape : Shape} {a b c : Selector}

theorem mem_found_chain (hbears : f.Bears none shape) (hnodup : shape.nodes.Nodup)
    (hchain : (child b c).Relational) (hroot : (child b c).Grounded f shape.id) {id : NodeId} :
    some id ∈ ((chain a b c).walk f shape.id).found ↔
      id ∈ shape.nodes ∧ c.Meets f id ∧ ∃ p, f.parentOf id = some p ∧ b.Meets f p := by
  rw [chain, mem_found_walk hbears hnodup hchain hroot, Meets]

/-- The nodes that a chain selects are those on the third level iff `a` fits above every parent. -/
theorem third_level_iff {selected : NodeId → Prop} (hselected : ∀ id ∈ shape.nodes,
      (selected id ↔ c.Meets f id ∧ ∃ p, f.parentOf id = some p ∧ b.Meets f p)) :
    (∀ id ∈ shape.nodes, (selected id ↔ OnThirdLevel f a b c id)) ↔
      ∀ id ∈ shape.nodes, ∀ p, c.Meets f id → f.parentOf id = some p → b.Meets f p →
        ∃ g, f.parentOf p = some g ∧ a.Meets f g := by
  constructor
  · intro hthird id hid p hc hp hb
    obtain ⟨-, q, hq, -, habove⟩ := (hthird id hid).1 ((hselected id hid).2 ⟨hc, p, hp, hb⟩)
    rwa [Option.some.inj (hq.symm.trans hp)] at habove
  · intro habove id hid
    rw [hselected id hid]
    constructor
    · rintro ⟨hc, p, hp, hb⟩
      exact ⟨hc, p, hp, hb, habove id hid p hc hp hb⟩
    · rintro ⟨hc, p, hp, hb, -⟩
      exact ⟨hc, p, hp, hb⟩

end

/-- A chain selects a node that `c` selects below a parent that `b` selects, in preorder and as
often as the two fit together, and takes no notice of `a`.  It selects exactly the nodes on the third
level in those trees, and no others, in which `a` fits above every such parent. -/
theorem walk_chain_two_levels (f : Forest) (shape : Shape) (hbears : f.Bears none shape)
    (hnodup : shape.nodes.Nodup) (a b c : Selector) (hb : b.Relational) (hc : c.Relational)
    (hrootb : b.Grounded f shape.id) (hrootc : c.Grounded f shape.id)
    (hroot : ¬c.Meets f shape.id) :
    (chain a b c).walk f shape.id
        = ⟨shape.nodes.flatMap fun id => List.replicate
            (c.times f id * ((f.parentOf id).map (b.times f)).getD 0) (some id), none⟩ ∧
      (∀ id, some id ∈ ((chain a b c).walk f shape.id).found ↔
        id ∈ shape.nodes ∧ c.Meets f id ∧ ∃ p, f.parentOf id = some p ∧ b.Meets f p) ∧
      ((∀ id ∈ shape.nodes,
          (some id ∈ ((chain a b c).walk f shape.id).found ↔ OnThirdLevel f a b c id)) ↔
        ∀ id ∈ shape.nodes, ∀ p, c.Meets f id → f.parentOf id = some p → b.Meets f p →
          ∃ g, f.parentOf p = some g ∧ a.Meets f g) := by
  have hchain : (child b c).Relational := ⟨hb, hc⟩
  have hfree : (child b c).Grounded f shape.id := ⟨hrootb, hrootc, hroot⟩
  have hmem : ∀ id, some id ∈ ((chain a b c).walk f shape.id).found ↔
      id ∈ shape.nodes ∧ c.Meets f id ∧ ∃ p, f.parentOf id = some p ∧ b.Meets f p :=
    fun _ => mem_found_chain hbears hnodup hchain hfree
  refine ⟨?_, hmem, third_level_iff fun id hid => ?_⟩
  · rw [chain, walk_eq hbears hnodup hchain hfree]
    rfl
  · rw [hmem id]
    exact and_iff_right hid

def lengthPlusOne : Tree :=
  .node { kind := .expr } [.node { kind := .assign } [.node { kind := .ident, text := "x" } [],
    .node { kind := .plus } [.node { kind := .dot } [.node { kind := .ident, text := "a" } [],
        .node { kind := .ident, text := "length" } []],
      .node { kind := .decimalLiteral, text := "1" } []]]]

/-- The chain that the standard settings have for calls of `length`. -/
def lengthOfCall : Selector :=
  .chain (Standard.ofKind .methodCall) (Standard.ofKind .dot) (Standard.named "length")

/-- In `x = a.length + 1` the chain for calls selects the name `length`, whose parent is a dot. -/
theorem walk_chain_selects_length :
    let f := Forest.ofTree lengthPlusOne
    ¬(Standard.named "length").Meets f 0 ∧ lengthOfCall.walk f 0 = ⟨[some 6], none⟩ ∧
      ¬∀ id ∈ (lengthPlusOne.shapeFrom 0).nodes,
        (some id ∈ (lengthOfCall.walk f 0).found ↔
          OnThirdLevel f (Standard.ofKind .methodCall) (Standard.ofKind .dot)
            (Standard.named "length") id) := by
  intro f
  have hroot : ¬(Standard.named "length").Meets f 0 := by
    rintro ⟨entry, hentry, hfits⟩
    obtain rfl : _ = entry := Option.some.inj hentry
    exact absurd hfits (by decide)
  obtain ⟨hwalk, -, hiff⟩ := walk_chain_two_levels f (lengthPlusOne.shapeFrom 0)
    (Forest.bears_ofTree _) (Tree.nodup_shapeFrom _ _) (Standard.ofKind .methodCall)
    (Standard.ofKind .dot) (Standard.named "length") trivial trivial trivial trivial hroot
  refine ⟨hroot, hwalk.trans (by decide), fun hthird => ?_⟩
  -- the dot is below a sum
  obtain ⟨g, hg, entry, hentry, hfits⟩ :=
    hiff.1 hthird 6 (by decide) 4 ⟨_, rfl, by decide⟩ rfl ⟨_, rfl, by decide⟩
  obtain rfl : 3 = g := Option.some.inj hg
  obtain rfl : _ = entry := Option.some.inj hentry
  exact absurd hfits (by decide)

/-- The standard settings turn `x = a.length + 1`, where there is no call, into `x = len(a)`: their
chain for calls selects a node that has no call above it. -/
theorem length_edited_without_call :
    lengthPlusOne.Every (fun head => head.kind ≠ .methodCall) ∧
      (lengthOfCall, Edit.lengthCall) ∈ Standard.edits ∧
      some 6 ∈ (lengthOfCall.walk (Forest.ofTree lengthPlusOne) 0).found ∧
      (match revise Config.standard ⟨Forest.ofTree lengthPlusOne, []⟩ with
        | .ok _ d => (d.forest.childrenOf 1).map fun id => (d.forest.get? id).map (·.head.text)
        | .error _ _ => []) = [some "x", some "len(a)"] := by
  refine ⟨?_, ?_, ?_, ?_⟩
  · simp [lengthPlusOne]
  · simp [Standard.edits, lengthOfCall]
  · decide
  · decide +kernel

end Transcriber.Source.Selector
