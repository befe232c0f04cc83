import Transcriber.Proofs.Source.Selection
import Transcriber.Revision

/-!
# Edits that change texts only

Most edits of a syntax tree replace the text of a node by another one, which depends on the old
text alone, and pick their nodes by kind and by the kind of the parent.  Such an edit leaves all
links as they are, so a walk that makes it on the way meets the nodes that a walk of the unchanged
tree meets, and what it does is said node by node.

* `Revise.walk_rewrites_from`, `reviseWith_rewrites` — a walk that makes a change of texts.
-/

namespace Transcriber

open Transcriber.Source List

/-- A change of texts: the nodes that it is for, by the kind of their parent and their own kind, and
what it makes of a text. -/
structure Rewriting where
  picks : Option Kind → Kind → Bool
  change : String → String

namespace Rewriting

/-- What becomes of the text of a node below a parent of a kind. -/
def text (r : Rewriting) (above : Option Kind) (head : Head) : String :=
  if r.picks above head.kind then r.change head.text else head.text

/-- What becomes of the token of a node when several changes are made in turn. -/
def headAfter (rs : List Rewriting) (above : Option Kind) (head : Head) : Head :=
  rs.foldl (fun head r => { head with text := r.text above head }) head

@[simp] theorem headAfter_nil (above : Option Kind) (head : Head) : headAfter [] above head = head :=
  rfl

@[simp] theorem headAfter_cons (r : Rewriting) (rs : List Rewriting) (above : Option Kind)
    (head : Head) :
    headAfter (r :: rs) above head = headAfter rs above { head with text := r.text above head } :=
  rfl

/-- Changes of texts change nothing but the text. -/
theorem headAfter_eq (rs : List Rewriting) (above : Option Kind) (head : Head) :
    headAfter rs above head = { head with text := (headAfter rs above head).text } := by
  induction rs generalizing head with
  | nil => rfl
  | cons r rs ih => exact ih { head with text := r.text above head }

theorem kind_headAfter (rs : List Rewriting) (above : Option Kind) (head : Head) :
    (headAfter rs above head).kind = head.kind := by
  rw [headAfter_eq]

/-- A text that changes belongs to a node that one of the changes is for. -/
theorem headAfter_of_forall_not {rs : List Rewriting} {above : Option Kind} {head : Head}
    (h : ∀ r ∈ rs, r.picks above head.kind = false) : headAfter rs above head = head := by
  induction rs with
  | nil => rfl
  | cons r rs ih =>
    have hr := h r (.head _)
    rw [headAfter_cons, text, hr]
    exact ih fun q hq => h q (.tail _ hq)

end Rewriting

namespace Source.Forest

def kindAbove (f : Forest) (id : NodeId) : Option Kind :=
  (f.parentOf id).bind fun p => (f.get? p).map (·.head.kind)

def retext (f : Forest) (new : NodeId → Head → String) : Forest :=
  ⟨f.entries.mapIdx fun id e => { e with head := { e.head with text := new id e.head } }⟩

/-- A forest in which changes of texts are made at the listed nodes. -/
def rewritten (f : Forest) (rs : List Rewriting) (done : List NodeId) : Forest :=
  f.retext fun id head => if id ∈ done then (Rewriting.headAfter rs (f.kindAbove id) head).text else head.text

variable {f : Forest} {id : NodeId} {new : NodeId → Head → String}

theorem ext_get? {f g : Forest} (h : ∀ id, f.get? id = g.get? id) : f = g := by
  cases f
  cases g
  exact congrArg Forest.mk (Array.ext_getElem? h)

@[simp] theorem get?_retext : (f.retext new).get? id
    = (f.get? id).map fun e => { e with head := { e.head with text := new id e.head } } := by
  simp [retext, get?]

@[simp] theorem size_retext : (f.retext new).size = f.size := by
  simp [retext, size]

@[simp] theorem parentOf_retext : (f.retext new).parentOf id = f.parentOf id := by
  rw [parentOf, parentOf, get?_retext]
  cases f.get? id <;> rfl

@[simp] theorem childrenOf_retext : (f.retext new).childrenOf id = f.childrenOf id := by
  rw [childrenOf, childrenOf, get?_retext]
  cases f.get? id <;> rfl

@[simp] theorem kindAbove_retext : (f.retext new).kindAbove id = f.kindAbove id := by
  unfold kindAbove
  rw [parentOf_retext]
  refine Option.bind_congr fun p _ => ?_
  rw [get?_retext]
  cases f.get? p <;> rfl

theorem retext_congr {other : NodeId → Head → String}
    (h : ∀ id e, f.get? id = some e → new id e.head = other id e.head) :
    f.retext new = f.retext other := by
  refine ext_get? fun id => ?_
  rw [get?_retext, get?_retext]
  rcases he : f.get? id with _ | e
  · rfl
  · simp only [Option.map_some, h id e he]

mutual

theorem Bears.retext : ∀ {s : Shape} {top : Option NodeId}, f.Bears top s → (f.retext new).Bears top s
  | .node id _, _, ⟨⟨head, hget⟩, hall⟩ =>
    ⟨⟨{ head with text := new id head }, by rw [get?_retext, hget]; rfl⟩, hall.retext⟩

theorem BearsAll.retext : ∀ {ss : List Shape} {parent : NodeId}, f.BearsAll parent ss →
    (f.retext new).BearsAll parent ss
  | [], _, _ => trivial
  | _ :: _, _, ⟨hs, hrest⟩ => ⟨hs.retext, hrest.retext⟩

end

theorem retext_eq_self (h : ∀ id e, f.get? id = some e → new id e.head = e.head.text) : f.retext new = f := by
  refine ext_get? fun id => ?_
  rw [get?_retext]
  rcases he : f.get? id with _ | e
  · rfl
  · simp only [Option.map_some, h id e he]

theorem retext_retext {next : NodeId → Head → String} : (f.retext new).retext next
      = f.retext fun id head => next id { head with text := new id head } := by
  refine ext_get? fun id => ?_
  rw [get?_retext, get?_retext, get?_retext]
  cases f.get? id <;> rfl

variable {r : Rewriting} {rs : List Rewriting} {done : List NodeId}

theorem rewritten_nil : f.rewritten rs [] = f := retext_eq_self fun _ _ _ => if_neg not_mem_nil

variable {e : Entry}

theorem get?_rewritten_of_mem (rs : List Rewriting) (he : f.get? id = some e) (hid : id ∈ done) :
    (f.rewritten rs done).get? id
      = some { e with head := Rewriting.headAfter rs (f.kindAbove id) e.head } := by
  rw [rewritten, get?_retext, he, Option.map_some, if_pos hid, ← Rewriting.headAfter_eq]

theorem get?_rewritten_of_not_mem (f : Forest) (rs : List Rewriting) (hid : id ∉ done) :
    (f.rewritten rs done).get? id = f.get? id := by
  rw [rewritten, get?_retext]
  simp only [if_neg hid]
  cases f.get? id <;> rfl

theorem rewritten_rewritten : (f.rewritten [r] done).rewritten rs done = f.rewritten (r :: rs) done := by
  simp only [rewritten, retext_retext, kindAbove_retext]
  refine retext_congr fun id e _ => ?_
  by_cases hid : id ∈ done
  · simp only [if_pos hid]
    rfl
  · simp only [if_neg hid]

theorem rewritten_append_of_not_picks (he : f.get? id = some e)
    (hnot : r.picks (f.kindAbove id) e.head.kind = false) :
    f.rewritten [r] (done ++ [id]) = f.rewritten [r] done := by
  refine retext_congr fun other e' he' => ?_
  by_cases hother : other = id
  · subst hother
    obtain rfl : e' = e := Option.some.inj (he'.symm.trans he)
    simp [Rewriting.text, hnot]
  · simp [hother]

theorem setText_rewritten (he : f.get? id = some e) (hnew : id ∉ done)
    (hpicks : r.picks (f.kindAbove id) e.head.kind = true) :
    (f.rewritten [r] done).setText id (r.change e.head.text) = f.rewritten [r] (done ++ [id]) := by
  refine ext_get? fun other => ?_
  by_cases hother : other = id
  · subst hother
    rw [get?_rewritten_of_mem _ he (by simp)]
    have hget := get?_rewritten_of_not_mem f [r] hnew
    rw [he] at hget
    simp [setText, modify, get?, Array.getElem?_modify, Rewriting.text, hpicks,
      show (f.rewritten [r] done).entries[other]? = some e from hget]
  · have hstill : ((f.rewritten [r] done).setText id (r.change e.head.text)).get? other
        = (f.rewritten [r] done).get? other := by
      simp [setText, modify, get?, Array.getElem?_modify, Ne.symm hother]
    rw [hstill, rewritten, rewritten, get?_retext, get?_retext]
    simp [hother]

end Source.Forest

namespace Revise

theorem bind_of_ok {α β : Type} {m : Revise α} {next : α → Revise β} {d d1 : Draft} {a : α}
    (h : m d = .ok a d1) : (m >>= next) d = next a d1 := by
  change EStateM.bind m next d = _
  rw [EStateM.bind, h]

theorem get_apply (d : Draft) : (get : Revise Draft) d = .ok d d := rfl

/-- What an edit does to the node that it is made at. -/
def Rewrites (act : NodeId → Revise Unit) (change : String → String) : Prop :=
  ∀ (id : NodeId) (d : Draft) (e : Entry), d.forest.get? id = some e →
    act id d = .ok () { d with forest := d.forest.setText id (change e.head.text) }

section Walk

variable {f : Forest} {s : Selector} {act : NodeId → Revise Unit} {r : Rewriting} (report : Report)

theorem visit_rewrites (hact : ∀ above kind, r.picks above kind → Rewrites act r.change) {id : NodeId} {e : Entry}
    {done : List NodeId} (he : f.get? id = some e) (hnew : id ∉ done) :
    ((Matches.repeated (if r.picks (f.kindAbove id) e.head.kind then 1 else 0) (some id)).found.forM
        fun node => do act (← demand node) : Revise Unit) ⟨f.rewritten [r] done, report⟩
      = .ok () ⟨f.rewritten [r] (done ++ [id]), report⟩ := by
  cases hpicks : r.picks (f.kindAbove id) e.head.kind with
  | false =>
    rw [Forest.rewritten_append_of_not_picks he hpicks]
    rfl
  | true =>
    have hget := (Forest.get?_rewritten_of_not_mem f [r] hnew).trans he
    have hrun := hact _ _ hpicks id ⟨f.rewritten [r] done, report⟩ e hget
    rw [Forest.setText_rewritten he hnew hpicks] at hrun
    exact bind_of_ok hrun

mutual

/-- A walk that rewrites goes on in a tree with the same links. -/
theorem walk_rewrites_from {shape : Shape} {top : Option NodeId} (fuel : Nat) (done : List NodeId)
    (hact : ∀ above kind, r.picks above kind → Rewrites act r.change) (hbears : f.Bears top shape)
    (hselect : ∀ done, ∀ id ∈ shape.nodes, ∀ e, f.get? id = some e → s.select (f.rewritten [r] done) (some id)
        = .repeated (if r.picks (f.kindAbove id) e.head.kind then 1 else 0) (some id))
    (hnodup : (done ++ shape.nodes).Nodup) (hfuel : 2 * shape.nodes.length ≤ fuel + 1) :
    walk s act fuel shape.id ⟨f.rewritten [r] done, report⟩
      = .ok () ⟨f.rewritten [r] (done ++ shape.nodes), report⟩ := by
  match shape, hbears with
  | .node id children, ⟨⟨head, hget⟩, hall⟩ =>
    rw [Shape.nodes] at hnodup hfuel ⊢
    rw [length_cons] at hfuel
    obtain ⟨fuel, rfl⟩ : ∃ n, fuel = n + 1 := ⟨fuel - 1, by omega⟩
    have hnew : id ∉ done := fun h => (nodup_append.1 hnodup).2.2 id h id (.head _) rfl
    have hvisit := visit_rewrites report hact hget hnew
    have hchildren := walkChildren_rewrites_from fuel (done ++ [id]) 0 hact hall
      (fun done c hc => hselect done c (.tail _ hc))
      (by simpa using hnodup) (by omega)
      (by rw [Forest.childrenOf_of_get? hget]; rfl)
    rw [append_assoc, singleton_append] at hchildren
    rw [walk, bind_of_ok (get_apply _)]
    dsimp only [Shape.id_node]
    rw [hselect done id (.head _) _ hget]
    rw [bind_of_ok hvisit]
    exact hchildren

theorem walkChildren_rewrites_from {shapes : List Shape} {parent : NodeId} (fuel : Nat)
    (done : List NodeId) (index : Nat)
    (hact : ∀ above kind, r.picks above kind → Rewrites act r.change)
    (hbears : f.BearsAll parent shapes)
    (hselect : ∀ done, ∀ id ∈ Shape.nodesAll shapes, ∀ e, f.get? id = some e →
      s.select (f.rewritten [r] done) (some id)
        = .repeated (if r.picks (f.kindAbove id) e.head.kind then 1 else 0) (some id))
    (hnodup : (done ++ Shape.nodesAll shapes).Nodup)
    (hfuel : 2 * (Shape.nodesAll shapes).length ≤ fuel)
    (hrest : (f.childrenOf parent).drop index = shapes.map Shape.id) :
    walkChildren s act fuel parent index ⟨f.rewritten [r] done, report⟩
      = .ok () ⟨f.rewritten [r] (done ++ Shape.nodesAll shapes), report⟩ := by
  match shapes, hbears with
  | [], _ =>
    have hnone : (f.childrenOf parent)[index]? = none := by
      rw [getElem?_eq_none_iff]
      exact drop_eq_nil_iff.1 hrest
    rw [Shape.nodesAll, append_nil]
    cases fuel with
    | zero => rfl
    | succ fuel =>
      rw [walkChildren, bind_of_ok (get_apply _)]
      simp only [Forest.rewritten, Forest.childrenOf_retext, hnone]
      rfl
  | shape :: rest, ⟨hs, hall⟩ =>
    have hpos := shape.length_nodes_pos
    rw [Shape.nodesAll, length_append] at hfuel
    rw [Shape.nodesAll, ← append_assoc] at hnodup ⊢
    obtain ⟨fuel, rfl⟩ : ∃ n, fuel = n + 1 := ⟨fuel - 1, by omega⟩
    rw [map_cons] at hrest
    have hchild : (f.childrenOf parent)[index]? = some shape.id := by
      rw [← List.head?_drop, hrest]
      rfl
    have hfirst := walk_rewrites_from fuel done hact hs
      (fun done c hc => hselect done c (mem_append_left _ hc))
      ((sublist_append_left ..).nodup hnodup) (by omega)
    have hothers := walkChildren_rewrites_from fuel (done ++ shape.nodes) (index + 1) hact hall
      (fun done c hc => hselect done c (mem_append_right _ hc)) hnodup (by omega)
      (by rw [← tail_drop, hrest]; rfl)
    rw [walkChildren, bind_of_ok (get_apply _)]
    simp only [Forest.rewritten, Forest.childrenOf_retext, hchild]
    exact (bind_of_ok hfirst).trans hothers

end

end Walk

end Revise

/-- Making one edit of the settings, where it is a change of texts. -/
theorem reviseWith_rewrites {f : Forest} {shape : Shape} {s : Selector} {edit : Edit}
    {r : Rewriting} {typeNames : List Value} (report : Report) (hbears : f.Bears none shape)
    (hnodup : shape.nodes.Nodup) (hroot : shape.id = 0)
    (hact : ∀ above kind, r.picks above kind → Revise.Rewrites (edit.apply typeNames) r.change)
    (hselect : ∀ done, ∀ id ∈ shape.nodes, ∀ e, f.get? id = some e → s.select (f.rewritten [r] done) (some id)
        = .repeated (if r.picks (f.kindAbove id) e.head.kind then 1 else 0) (some id)) :
    reviseWith typeNames (.list [.selector s, .handler (.edit edit)]) ⟨f, report⟩
      = .ok () ⟨f.rewritten [r] shape.nodes, report⟩ := by
  have hfuel := hbears.length_nodes_le hnodup
  have hwalk := Revise.walk_rewrites_from report (2 * f.size + 1) [] hact hbears hselect hnodup (by omega)
  rw [Forest.rewritten_nil, hroot, nil_append] at hwalk
  exact hwalk

end Transcriber
