import Mathlib.Data.List.Basic
import Mathlib.Data.List.Nodup
import Mathlib.Data.Fintype.Card
import Mathlib.Logic.Relation
import Transcriber.Source.Forest

/-!
# Trees in a forest

A forest keeps the children and the parent of a node apart, so its links need not fit together.  A
shape says how the numbers of some nodes hang together as a tree.  A forest bears a shape if the
links of all its nodes are those of the shape, downwards and upwards.

* `Forest.Bears.member` — what that says of each node.
* `Forest.Bears.way` — the way up from a node ends, after fewer steps than there are nodes.
-/

namespace Transcriber.Source

open List

/-- The numbers of nodes that hang together as a tree. -/
inductive Shape where
  | node (id : NodeId) (children : List Shape)

namespace Shape

def id : Shape → NodeId
  | node id _ => id

mutual

/-- The nodes in preorder. -/
def nodes : Shape → List NodeId
  | node id children => id :: nodesAll children

/-- The nodes of several trees, one tree after the other. -/
def nodesAll : List Shape → List NodeId
  | [] => []
  | s :: rest => s.nodes ++ nodesAll rest

end

@[simp] theorem id_node (id : NodeId) (children : List Shape) : (node id children).id = id := rfl

theorem id_mem_nodes : ∀ s : Shape, s.id ∈ s.nodes
  | node _ _ => .head _

theorem length_nodes_pos (s : Shape) : 0 < s.nodes.length := length_pos_of_mem s.id_mem_nodes

/-- The roots of several trees come in the order of their nodes. -/
theorem ids_sublist : ∀ ss : List Shape, (ss.map id).Sublist (nodesAll ss)
  | [] => List.Sublist.slnil
  | node id children :: rest => by
      simp only [map_cons, id_node, nodesAll, nodes, cons_append]
      exact .cons_cons id ((ids_sublist rest).trans (sublist_append_right ..))

end Shape

namespace Forest

mutual

/-- The nodes of a shape are in a forest, with the links that the shape has; its root has the given
parent. -/
def Bears (f : Forest) (top : Option NodeId) : Shape → Prop
  | .node id children =>
    (∃ head, f.get? id = some ⟨head, children.map Shape.id, top⟩) ∧ f.BearsAll id children

/-- A forest bears several shapes whose roots have one parent. -/
def BearsAll (f : Forest) (parent : NodeId) : List Shape → Prop
  | [] => True
  | s :: rest => f.Bears (some parent) s ∧ f.BearsAll parent rest

end

/-- A node and its links, among the nodes of trees whose roots have the parent `top`. -/
structure Member (f : Forest) (top : Option NodeId) (roots nodes : List NodeId) (id : NodeId) :
    Prop where
  present : (f.get? id).isSome
  children : (f.childrenOf id).Sublist nodes
  parent : (id ∈ roots ∧ f.parentOf id = top) ∨ ∃ p ∈ nodes, f.parentOf id = some p ∧ id ∈ f.childrenOf p

variable {f : Forest}

variable {id a : NodeId} {top : Option NodeId} {s : Shape}

theorem childrenOf_of_get? {entry : Entry} (h : f.get? id = some entry) :
    f.childrenOf id = entry.children := by
  simp [childrenOf, h]

theorem parentOf_of_get? {entry : Entry} (h : f.get? id = some entry) : f.parentOf id = entry.parent := by
  simp [parentOf, h]

theorem Member.mono {roots roots' nodes nodes' : List NodeId}
    (h : f.Member top roots nodes id) (hroots : roots ⊆ roots') (hnodes : nodes.Sublist nodes') :
    f.Member top roots' nodes' id where
  present := h.present
  children := h.children.trans hnodes
  parent := h.parent.imp (fun ⟨hid, htop⟩ => ⟨hroots hid, htop⟩)
    fun ⟨p, hp, hlink⟩ => ⟨p, hnodes.subset hp, hlink⟩

mutual

theorem Bears.member : ∀ {s : Shape} {top : Option NodeId}, f.Bears top s →
    ∀ id ∈ s.nodes, f.Member top [s.id] s.nodes id
  | .node root children, top, ⟨⟨head, hget⟩, hall⟩, id, hid => by
      have hchildren := childrenOf_of_get? hget
      rcases mem_cons.1 hid with rfl | hid
      · refine ⟨by rw [hget]; rfl, ?_, .inl ⟨mem_singleton_self _, parentOf_of_get? hget⟩⟩
        rw [hchildren]
        exact (Shape.ids_sublist children).cons _
      · have hmember := hall.member id hid
        refine ⟨hmember.present, hmember.children.cons _, .inr ?_⟩
        rcases hmember.parent with ⟨hroot, hparent⟩ | ⟨p, hp, hlink⟩
        · exact ⟨root, .head _, hparent, hchildren ▸ hroot⟩
        · exact ⟨p, .tail _ hp, hlink⟩

theorem BearsAll.member : ∀ {ss : List Shape} {parent : NodeId}, f.BearsAll parent ss →
    ∀ id ∈ Shape.nodesAll ss, f.Member (some parent) (ss.map Shape.id) (Shape.nodesAll ss) id
  | [], _, _, _, hid => nomatch hid
  | s :: rest, parent, ⟨hs, hrest⟩, id, hid => by
      rcases mem_append.1 hid with hid | hid
      · exact (hs.member id hid).mono (by simp) (sublist_append_left ..)
      · exact (hrest.member id hid).mono (by simp) (sublist_append_right ..)

end

/-- The way up from a node to one whose parent is `top`. -/
def Way (f : Forest) (top : Option NodeId) : NodeId → List NodeId → Prop
  | id, [] => f.parentOf id = top
  | id, p :: above => f.parentOf id = some p ∧ f.Way top p above

theorem Way.concat {root : NodeId} (hroot : f.parentOf root = top) :
    ∀ {above : List NodeId} {id : NodeId}, f.Way (some root) id above → f.Way top id (above ++ [root])
  | [], _, h => ⟨h, hroot⟩
  | _ :: _, _, ⟨hp, habove⟩ => ⟨hp, habove.concat hroot⟩

mutual

theorem Bears.way : ∀ {s : Shape} {top : Option NodeId}, f.Bears top s →
    ∀ id ∈ s.nodes, ∃ above, f.Way top id above ∧ above.length < s.nodes.length
  | .node root children, top, ⟨⟨head, hget⟩, hall⟩, id, hid => by
      have htop := parentOf_of_get? hget
      rcases mem_cons.1 hid with rfl | hid
      · exact ⟨[], htop, Shape.length_nodes_pos _⟩
      · obtain ⟨above, hway, hlength⟩ := hall.way id hid
        exact ⟨above ++ [root], hway.concat htop, by simpa [Shape.nodes] using hlength⟩

theorem BearsAll.way : ∀ {ss : List Shape} {parent : NodeId}, f.BearsAll parent ss →
    ∀ id ∈ Shape.nodesAll ss, ∃ above, f.Way (some parent) id above ∧
      above.length < (Shape.nodesAll ss).length
  | [], _, _, _, hid => nomatch hid
  | s :: rest, parent, ⟨hs, hrest⟩, id, hid => by
      simp only [Shape.nodesAll, length_append]
      rcases mem_append.1 hid with hid | hid
      · obtain ⟨above, hway, hlength⟩ := hs.way id hid
        exact ⟨above, hway, by omega⟩
      · obtain ⟨above, hway, hlength⟩ := hrest.way id hid
        exact ⟨above, hway, by omega⟩

end

theorem Way.ancestorsUpTo_eq : ∀ {above : List NodeId} {id : NodeId}, f.Way none id above →
    ∀ {fuel : Nat}, above.length ≤ fuel → f.ancestorsUpTo fuel id = above
  | [], _, _, 0, _ => rfl
  | [], _, h, _ + 1, _ => by simp [ancestorsUpTo, show f.parentOf _ = none from h]
  | p :: above, _, ⟨hp, habove⟩, fuel + 1, hfuel => by
      simp only [ancestorsUpTo, hp]
      rw [habove.ancestorsUpTo_eq (Nat.le_of_succ_le_succ hfuel)]

/-- A node stands above another one: it is the parent, or above the parent. -/
def Above (f : Forest) : NodeId → NodeId → Prop :=
  Relation.TransGen fun p id => f.parentOf id = some p

theorem Way.mem_iff : ∀ {above : List NodeId} {id : NodeId}, f.Way none id above → (a ∈ above ↔ f.Above a id)
  | [], id, h => by
      refine iff_of_false not_mem_nil fun ha => ?_
      obtain ⟨p, -, hp⟩ := Relation.TransGen.tail'_iff.1 ha
      simp [show f.parentOf id = none from h] at hp
  | p :: above, id, ⟨hp, habove⟩ => by
      rw [mem_cons, habove.mem_iff]
      constructor
      · rintro (rfl | ha)
        · exact .single hp
        · exact .tail ha hp
      · intro ha
        obtain ⟨q, hq, hqid⟩ := Relation.TransGen.tail'_iff.1 ha
        obtain rfl : q = p := Option.some.inj (hqid.symm.trans hp)
        exact (Relation.reflTransGen_iff_eq_or_transGen.1 hq).imp (fun h => h.symm) fun h => h

theorem Bears.length_nodes_le (h : f.Bears top s) (hnodup : s.nodes.Nodup) : s.nodes.length ≤ f.size := by
  have hlt : s.nodes ⊆ List.range f.size := by
    intro id hid
    have := (h.member id hid).present
    simpa [get?, size] using this
  simpa using (subperm_of_subset hnodup hlt).length_le

/-- In a tree with no node twice, the ancestors of a node are the nodes above it. -/
theorem Bears.mem_ancestors (h : f.Bears none s) (hnodup : s.nodes.Nodup)
    (hid : id ∈ s.nodes) : a ∈ f.ancestors id ↔ f.Above a id := by
  obtain ⟨above, hway, hlength⟩ := h.way id hid
  rw [ancestors, hway.ancestorsUpTo_eq (hlength.le.trans (h.length_nodes_le hnodup)), hway.mem_iff]

section

variable (h : f.Bears none s) (hid : id ∈ s.nodes)
include h hid

theorem Bears.parent_mem {p : NodeId}
    (hp : f.parentOf id = some p) : p ∈ s.nodes ∧ id ∈ f.childrenOf p := by
  rcases (h.member id hid).parent with ⟨-, hnone⟩ | ⟨q, hq, hlink, hchild⟩
  · simp [hnone] at hp
  · obtain rfl : q = p := Option.some.inj (hlink.symm.trans hp)
    exact ⟨hq, hchild⟩

theorem Bears.eq_root (hnone : f.parentOf id = none) : id = s.id := by
  rcases (h.member id hid).parent with ⟨hroot, -⟩ | ⟨q, -, hlink, -⟩
  · exact mem_singleton.1 hroot
  · simp [hnone] at hlink

theorem Bears.mem_nodes_of_above (ha : f.Above a id) : a ∈ s.nodes := by
  induction ha using Relation.TransGen.head_induction_on with
  | single hp => exact (h.parent_mem hid hp).1
  | head hp _ ih => exact (h.parent_mem ih hp).1

end

mutual

/-- Whether a shape is borne depends only on its own nodes. -/
theorem Bears.congr {g : Forest} : ∀ {s : Shape} {top : Option NodeId}, f.Bears top s →
    (∀ id ∈ s.nodes, g.get? id = f.get? id) → g.Bears top s
  | .node root _, _, ⟨⟨head, hget⟩, hall⟩, hsame =>
    ⟨⟨head, (hsame root (.head _)).trans hget⟩, hall.congr fun id hid => hsame id (.tail _ hid)⟩

theorem BearsAll.congr {g : Forest} : ∀ {ss : List Shape} {parent : NodeId}, f.BearsAll parent ss →
    (∀ id ∈ Shape.nodesAll ss, g.get? id = f.get? id) → g.BearsAll parent ss
  | [], _, _, _ => trivial
  | _ :: _, _, ⟨hs, hrest⟩, hsame =>
    ⟨hs.congr fun id hid => hsame id (mem_append_left _ hid),
      hrest.congr fun id hid => hsame id (mem_append_right _ hid)⟩

end

end Forest

namespace Tree

mutual

/-- The shape of a tree whose nodes are numbered in preorder. -/
def shapeFrom (start : NodeId) : Tree → Shape
  | .node _ children => .node start (shapesFrom (start + 1) children)

/-- The shapes of trees that are numbered one after the other. -/
def shapesFrom (start : NodeId) : List Tree → List Shape
  | [] => []
  | t :: rest => t.shapeFrom start :: shapesFrom (start + t.size) rest

end

@[simp] theorem id_shapeFrom (start : NodeId) : ∀ t : Tree, (t.shapeFrom start).id = start
  | .node _ _ => rfl

mutual

theorem nodes_shapeFrom : ∀ (start : NodeId) (t : Tree), (t.shapeFrom start).nodes = List.range' start t.size
  | start, .node _ children => by
      simp only [shapeFrom, Shape.nodes, size, List.range'_succ, nodes_shapesFrom (start + 1) children]

theorem nodes_shapesFrom : ∀ (start : NodeId) (ts : List Tree),
    Shape.nodesAll (shapesFrom start ts) = List.range' start (sizeAll ts)
  | _, [] => rfl
  | start, t :: rest => by
      simp only [shapesFrom, Shape.nodesAll, sizeAll, nodes_shapeFrom start t,
        nodes_shapesFrom (start + t.size) rest, List.range'_append_1]

end

theorem nodup_shapeFrom (t : Tree) (start : NodeId) : (t.shapeFrom start).nodes.Nodup := by
  rw [nodes_shapeFrom]
  exact nodup_range'

end Tree

namespace Forest

/-- What planting trees does: the forest grows by their nodes, and keeps the nodes that it has. -/
structure Grown (f g : Forest) (count : Nat) : Prop where
  size_eq : g.size = f.size + count
  get?_eq : ∀ id < f.size, g.get? id = f.get? id

theorem Grown.trans {f g h : Forest} {m n : Nat} (hfg : f.Grown g m) (hgh : g.Grown h n) :
    f.Grown h (m + n) where
  size_eq := by rw [hgh.size_eq, hfg.size_eq, Nat.add_assoc]
  get?_eq := fun id hid => by
    rw [hgh.get?_eq id (by rw [hfg.size_eq]; omega), hfg.get?_eq id hid]

theorem grown_push (f : Forest) (entry : Entry) : f.Grown ⟨f.entries.push entry⟩ 1 where
  size_eq := by simp [size]
  get?_eq := fun id hid => by
    simp [get?, Array.getElem?_push, show id ≠ f.entries.size from hid.ne]

@[simp] theorem size_setChildren (f : Forest) (id : NodeId) (children : List NodeId) :
    (f.setChildren id children).size = f.size := by
  simp [setChildren, modify, size]

theorem get?_setChildren_of_ne (f : Forest) {id other : NodeId} (children : List NodeId)
    (h : other ≠ id) : (f.setChildren id children).get? other = f.get? other := by
  simp [setChildren, modify, get?, Array.getElem?_modify, h.symm]

theorem get?_setChildren_self (f : Forest) {id : NodeId} (children : List NodeId) :
    (f.setChildren id children).get? id = (f.get? id).map fun e => { e with children } := by
  simp [setChildren, modify, get?, Array.getElem?_modify]

mutual

theorem plant_bears : ∀ (f : Forest) (top : Option NodeId) (t : Tree),
    (f.plant top t).2 = f.size ∧ f.Grown (f.plant top t).1 t.size ∧
      (f.plant top t).1.Bears top (t.shapeFrom f.size)
  | f, top, .node head children => by
      have hpush := grown_push f ⟨head, [], top⟩
      obtain ⟨hids, hgrown, hbears⟩ := plantAll_bears ⟨f.entries.push ⟨head, [], top⟩⟩ f.size children
      rw [hpush.size_eq] at hids hbears
      -- the root is the first new node; its children are filled in last
      have hroot := hgrown.get?_eq f.size (by rw [hpush.size_eq]; omega)
      have hall := hpush.trans hgrown
      refine ⟨rfl, ⟨?_, fun id hid => ?_⟩, ⟨head, ?_⟩, hbears.congr fun id hid => ?_⟩
      · exact (size_setChildren ..).trans (by rw [hall.size_eq, Tree.size, Nat.add_comm 1])
      · exact (get?_setChildren_of_ne _ _ hid.ne).trans (hall.get?_eq id hid)
      · refine (get?_setChildren_self ..).trans ?_
        rw [hroot, hids]
        simp [get?, size]
      · rw [Tree.nodes_shapesFrom, mem_range'_1] at hid
        exact get?_setChildren_of_ne _ _ (Nat.ne_of_gt hid.1)

theorem plantAll_bears : ∀ (f : Forest) (parent : NodeId) (ts : List Tree),
    (f.plantAll parent ts).2 = (Tree.shapesFrom f.size ts).map Shape.id ∧
      f.Grown (f.plantAll parent ts).1 (Tree.sizeAll ts) ∧
      (f.plantAll parent ts).1.BearsAll parent (Tree.shapesFrom f.size ts)
  | _, _, [] => ⟨rfl, ⟨rfl, fun _ _ => rfl⟩, trivial⟩
  | f, parent, t :: rest => by
      obtain ⟨hid, hgrown, hbears⟩ := plant_bears f (some parent) t
      obtain ⟨hids, hgrownAll, hbearsAll⟩ := plantAll_bears (f.plant (some parent) t).1 parent rest
      rw [hgrown.size_eq] at hids hbearsAll
      refine ⟨?_, hgrown.trans hgrownAll, hbears.congr fun id hmem => ?_, hbearsAll⟩
      · rw [Tree.shapesFrom, map_cons, Tree.id_shapeFrom]
        exact congrArg₂ List.cons hid hids
      · rw [Tree.nodes_shapeFrom, mem_range'_1] at hmem
        exact hgrownAll.get?_eq id (by rw [hgrown.size_eq]; exact hmem.2)

end

/-- Planting a tree gives a forest with the links of the tree, numbered in preorder. -/
theorem bears_ofTree (t : Tree) : (ofTree t).Bears none (t.shapeFrom 0) := (plant_bears empty none t).2.2

end Forest

end Transcriber.Source
