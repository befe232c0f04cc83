import Transcriber.Source.Tree

/-!
# The height of trees

What is below a node is lower than the node.

* `Tree.height_child`, `Cursor.height_child` — a child is lower.
-/

namespace Transcriber

open Source

variable {t : Tree}

theorem Source.Tree.height_le_of_mem {ts : List Tree} (h : t ∈ ts) : t.height ≤ Tree.heightAll ts := by
  induction ts with
  | nil => cases h
  | cons u ts ih =>
    rw [Tree.heightAll]
    rcases List.mem_cons.1 h with rfl | h
    · exact Nat.le_max_left _ _
    · exact Nat.le_trans (ih h) (Nat.le_max_right _ _)

theorem Source.Tree.height_eq (t : Tree) : t.height = Tree.heightAll t.children + 1 := by
  cases t with
  | node head children => rfl

theorem Source.Tree.height_child {u : Tree} (h : u ∈ t.children) : u.height < t.height := by
  rw [t.height_eq]
  exact Nat.lt_succ_of_le (height_le_of_mem h)

/-- A bound on the depth that reaches to the foot of a tree is not used up at its root. -/
theorem Source.Tree.exists_fuel {fuel : Nat} (h : t.height ≤ fuel) : ∃ n, fuel = n + 1 := by
  rw [t.height_eq] at h
  exact ⟨fuel - 1, by omega⟩

namespace Source.Cursor

variable {c d : Cursor}

theorem height_child (h : d ∈ c.children) : d.tree.height < c.tree.height := by
  obtain ⟨t, ht, rfl⟩ := List.mem_map.1 h
  exact Tree.height_child ht

theorem height_child? {kind : Kind} (h : c.child? kind = some d) : d.tree.height < c.tree.height :=
  height_child (List.mem_of_find?_eq_some h)

theorem height_get? {i : Nat} (h : c.children[i]? = some d) : d.tree.height < c.tree.height :=
  height_child (List.mem_of_getElem? h)

theorem height_head? (h : c.children.head? = some d) : d.tree.height < c.tree.height :=
  height_child (List.mem_of_mem_head? h)

end Source.Cursor

end Transcriber
