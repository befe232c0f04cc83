import Mathlib
import Transcriber.Proofs.Source.Shape
import Transcriber.Source.Selector

/-!
# What selectors select

The relations between nodes that selectors speak of are those of style sheets: a child, a
descendant, a sibling right behind another one, a sibling somewhere behind another one.  A selector
finds a node once for every way in which it fits, so the numbers of ways multiply along a relation
and add up over the ancestors or siblings that it allows.

* `Selector.Meets` — a node stands in the relations of a selector.
* `Selector.Relational`, `Selector.Grounded` — the selectors that the count is right for: they are
  built from tests and relations, and no child is asked for the parent of the root.
* `Selector.walk_yields_in_preorder` — walking a tree.
-/

namespace Transcriber.Source

open List

namespace TokenTest

def attributes : List String := ["type", "text", "line", "index", "channel"]

/-- A value is compared with an attribute that tokens have. -/
def Known (name : String) : TokenTest → Prop
  | equals _ => name ∈ attributes
  | _ => True

/-- Whether the token of a node passes the test of a named attribute. -/
def holds (head : Head) (name : String) : TokenTest → Bool
  | anything => true
  | equals value => (attribute? head name).any (·.same value)
  | check _ property => property head

theorem attribute?_of_mem {name : String} (h : name ∈ attributes) (head : Head) :
    (attribute? head name).isSome := by
  simp only [attributes, mem_cons, not_mem_nil, or_false] at h
  rcases h with rfl | rfl | rfl | rfl | rfl <;> rfl

theorem passes_eq {test : TokenTest} {name : String} (h : test.Known name) (head : Head) :
    test.passes head name = .ok (test.holds head name) := by
  cases test with
  | anything => rfl
  | check name property => rfl
  | equals value =>
    obtain ⟨found, hfound⟩ := Option.isSome_iff_exists.1 (attribute?_of_mem h head)
    simp [passes, holds, hfound]

theorem passesAll_eq {tests : List (String × TokenTest)} (h : ∀ t ∈ tests, t.2.Known t.1)
    (head : Head) : passesAll head tests = .ok (tests.all fun t => t.2.holds head t.1) := by
  induction tests with
  | nil => rfl
  | cons t tests ih =>
    obtain ⟨name, test⟩ := t
    have ht : test.Known name := h (name, test) (.head _)
    have hrest := ih fun t ht => h t (.tail _ ht)
    cases hholds : test.holds head name <;>
      simp [passesAll, passes_eq ht, hholds, hrest, bind, Except.bind, pure, Except.pure]

end TokenTest

namespace Forest

def earlier (f : Forest) (id : NodeId) : List NodeId :=
  match f.parentOf id with
  | none => []
  | some p => (f.childrenOf p).takeWhile (· ≠ id)

/-- The sibling right before a node. -/
def previous? (f : Forest) (id : NodeId) : Option NodeId := (f.earlier id).getLast?

variable {f : Forest} {id p : NodeId} {before after : List NodeId}

theorem earlier_eq (hp : f.parentOf id = some p) (hchildren : f.childrenOf p = before ++ id :: after)
    (hfirst : id ∉ before) : f.earlier id = before := by
  have hbefore : ∀ s ∈ before, s ≠ id := fun s hs h => hfirst (h ▸ hs)
  simp only [earlier, hp, hchildren]
  rw [takeWhile_append_of_pos (by simpa using hbefore), takeWhile_cons_of_neg (by simp), append_nil]

end Forest

namespace Selector

/-- Whether the token of a node passes a test: any node does, or its kind and text count, or what
else its token has. -/
def fits (head : Head) : Selector → Bool
  | anything => true
  | kind k text => head.kind == k && text.all (· == head.text)
  | token tests => tests.all fun t => t.2.holds head t.1
  | _ => false

def Meets (f : Forest) : Selector → NodeId → Prop
  | child e g, id => g.Meets f id ∧ ∃ p, f.parentOf id = some p ∧ e.Meets f p
  | descendant e g, id => g.Meets f id ∧ ∃ a, f.Above a id ∧ e.Meets f a
  | adjacent e g, id =>
    g.Meets f id ∧ ∃ p before s after, f.parentOf id = some p ∧
      f.childrenOf p = before ++ s :: id :: after ∧ e.Meets f s
  | sibling e g, id =>
    g.Meets f id ∧ ∃ p before s between after, f.parentOf id = some p ∧
      f.childrenOf p = before ++ s :: between ++ id :: after ∧ e.Meets f s
  | s, id => ∃ entry, f.get? id = some entry ∧ s.fits entry.head

/-- In how many ways a node stands in the relations of a selector.  A relative that is not there
counts for nothing. -/
def times (f : Forest) : Selector → NodeId → Nat
  | child e g, id => g.times f id * ((f.parentOf id).map (e.times f)).getD 0
  | descendant e g, id => g.times f id * ((f.ancestors id).map (e.times f)).sum
  | adjacent e g, id => g.times f id * ((f.previous? id).map (e.times f)).getD 0
  | sibling e g, id => g.times f id * ((f.earlier id).map (e.times f)).sum
  | s, id => if (f.get? id).any fun entry => s.fits entry.head then 1 else 0

def Relational : Selector → Prop
  | anything | kind _ _ => True
  | token tests => ∀ t ∈ tests, t.2.Known t.1
  | child e g | descendant e g | adjacent e g | sibling e g => e.Relational ∧ g.Relational
  | bare | nth _ _ => False

/-- No part of a selector asks for the parent of the root. -/
def Grounded (f : Forest) (root : NodeId) : Selector → Prop
  | child e g => e.Grounded f root ∧ g.Grounded f root ∧ ¬g.Meets f root
  | descendant e g | adjacent e g | sibling e g => e.Grounded f root ∧ g.Grounded f root
  | _ => True

end Selector

namespace Matches

/-- The same node several times. -/
def repeated (count : Nat) (node : Option NodeId) : Matches := ⟨List.replicate count node, .none⟩

variable {node : Option NodeId} {next : Option NodeId → Option Matches} {count : Nat}

theorem one_or_none (b : Bool) : (if b then one node else none) = repeated (if b then 1 else 0) node := by
  cases b <;> rfl

theorem bind_repeated {k : Nat} (h : next node = some (repeated k node)) :
    (repeated count node).bind next = repeated (count * k) node := by
  have hgo : ∀ n, bind.go (repeated count node) next (List.replicate n node) = repeated (n * k) node := by
    intro n
    induction n with
    | zero => simp [bind.go, repeated]
    | succ n ih =>
      rw [replicate_succ, bind.go, h]
      simp only [repeated] at ih ⊢
      simp [ih, Nat.succ_mul, Nat.add_comm]
  exact hgo count

theorem bind_repeated_none (h : next node = .none) : (repeated count node).bind next = repeated 0 node := by
  cases count with
  | zero => rfl
  | succ n => simp [bind, repeated, replicate_succ, bind.go, h, none]

theorem countAs_repeated (other : Option NodeId) :
    (repeated count other).countAs node = repeated count node := by
  simp [countAs, repeated]

theorem concat_repeated {α : Type} (k : α → Nat) (xs : List α) :
    concat (xs.map fun a => repeated (k a) node) = repeated (xs.map k).sum node := by
  induction xs with
  | nil => rfl
  | cons a xs ih =>
    rw [map_cons, concat, ih]
    simp [repeated]

theorem concat_pair (a b : List (Option NodeId)) : concat [⟨a, .none⟩, ⟨b, .none⟩] = ⟨a ++ b, .none⟩ := by
  simp [concat, none]

end Matches

namespace Selector

section Tree

variable {id s : NodeId}

theorem idxOf?_split {before : List NodeId} (h : id ∉ before) (after : List NodeId) :
    (before ++ id :: after).idxOf? id = some before.length := by
  induction before with
  | nil => simp [idxOf?_cons]
  | cons s before ih =>
    obtain ⟨hne, hrest⟩ : id ≠ s ∧ id ∉ before := by simpa using h
    simp [idxOf?_cons, hne.symm, ih hrest]

variable {f : Forest} {shape : Shape}

theorem sum_times_ne_zero_iff (e : Selector) (ids : List NodeId) :
    (ids.map (e.times f)).sum ≠ 0 ↔ ∃ a ∈ ids, e.times f a ≠ 0 := by
  simp [← Nat.pos_iff_ne_zero, List.sum_pos_iff_exists_pos_nat]

variable (hbears : f.Bears none shape)
include hbears

/-- A node with a parent stands among its siblings in one place. -/
theorem exists_siblings {p : NodeId} (hid : id ∈ shape.nodes) (hp : f.parentOf id = some p) :
    ∃ before after, f.childrenOf p = before ++ id :: after ∧ id ∉ before ∧
      f.earlier id = before ∧ ∀ s ∈ before, s ∈ shape.nodes := by
  obtain ⟨hpmem, hchild⟩ := hbears.parent_mem hid hp
  obtain ⟨before, after, hchildren, hfirst⟩ := eq_append_cons_of_mem hchild
  refine ⟨before, after, hchildren, hfirst, Forest.earlier_eq hp hchildren hfirst, fun s hs => ?_⟩
  exact (hbears.member p hpmem).children.subset (hchildren ▸ mem_append_left _ hs)

theorem mem_nodes_of_earlier (hid : id ∈ shape.nodes) (hs : s ∈ f.earlier id) : s ∈ shape.nodes := by
  rcases hp : f.parentOf id with _ | p
  · simp [Forest.earlier, hp] at hs
  · obtain ⟨before, after, -, -, hearlier, hmem⟩ := exists_siblings hbears hid hp
    exact hmem s (hearlier ▸ hs)

theorem exists_entry (hid : id ∈ shape.nodes) : ∃ entry, f.get? id = some entry :=
  Option.isSome_iff_exists.1 (hbears.member id hid).present

variable (hnodup : shape.nodes.Nodup)
include hnodup

theorem earlier_eq_of_split {p : NodeId} {before after : List NodeId} (hid : id ∈ shape.nodes)
    (hp : f.parentOf id = some p) (hchildren : f.childrenOf p = before ++ id :: after) :
    f.earlier id = before := by
  have hp' := hbears.parent_mem hid hp
  have hsub := (hbears.member p hp'.1).children
  have hnodup' := hsub.nodup hnodup
  rw [hchildren] at hnodup'
  exact Forest.earlier_eq hp hchildren fun h => (nodup_append.1 hnodup').2.2 id h id (.head _) rfl

theorem mem_earlier_iff (hid : id ∈ shape.nodes) :
    s ∈ f.earlier id ↔ ∃ p before between after, f.parentOf id = some p ∧
      f.childrenOf p = before ++ s :: between ++ id :: after := by
  constructor
  · intro hs
    rcases hp : f.parentOf id with _ | p
    · simp [Forest.earlier, hp] at hs
    · obtain ⟨all, after, hchildren, -, hearlier, -⟩ := exists_siblings hbears hid hp
      obtain ⟨before, between, rfl⟩ := List.append_of_mem (hearlier ▸ hs)
      exact ⟨p, before, between, after, rfl, hchildren⟩
  · rintro ⟨p, before, between, after, hp, hchildren⟩
    rw [earlier_eq_of_split hbears hnodup hid hp hchildren]
    simp

theorem previous?_eq_some_iff (hid : id ∈ shape.nodes) :
    f.previous? id = some s ↔ ∃ p before after, f.parentOf id = some p ∧
      f.childrenOf p = before ++ s :: id :: after := by
  constructor
  · intro hs
    rcases hp : f.parentOf id with _ | p
    · simp [Forest.previous?, Forest.earlier, hp] at hs
    · obtain ⟨all, after, hchildren, -, hearlier, -⟩ := exists_siblings hbears hid hp
      rw [Forest.previous?, hearlier] at hs
      obtain ⟨before, rfl⟩ := List.getLast?_eq_some_iff.1 hs
      exact ⟨p, before, after, rfl, by simpa using hchildren⟩
  · rintro ⟨p, before, after, hp, hchildren⟩
    have hsplit : f.childrenOf p = (before ++ [s]) ++ id :: after := by simpa using hchildren
    rw [Forest.previous?, earlier_eq_of_split hbears hnodup hid hp hsplit]
    simp

/-- A node fits in some way iff it stands in the relations. -/
theorem times_ne_zero_iff (s : Selector) (hid : id ∈ shape.nodes) : s.times f id ≠ 0 ↔ s.Meets f id := by
  induction s generalizing id with
  | anything | bare | kind | token | nth =>
    rcases hentry : f.get? id with _ | entry <;> simp [times, Meets, hentry]
  | child e g ihe ihg =>
    rw [times, Meets, Nat.mul_ne_zero_iff, ihg hid]
    refine and_congr_right fun _ => ?_
    rcases hp : f.parentOf id with _ | p
    · simp
    · simpa using ihe (hbears.parent_mem hid hp).1
  | descendant e g ihe ihg =>
    rw [times, Meets, Nat.mul_ne_zero_iff, ihg hid, sum_times_ne_zero_iff]
    refine and_congr_right fun _ => exists_congr fun a => ?_
    rw [hbears.mem_ancestors hnodup hid]
    exact and_congr_right fun ha => ihe (hbears.mem_nodes_of_above hid ha)
  | adjacent e g ihe ihg =>
    rw [times, Meets, Nat.mul_ne_zero_iff, ihg hid]
    refine and_congr_right fun _ => ?_
    constructor
    · intro htimes
      rcases hs : f.previous? id with _ | s
      · simp [hs] at htimes
      · obtain ⟨p, before, after, hp, hchildren⟩ := (previous?_eq_some_iff hbears hnodup hid).1 hs
        have hmem := mem_nodes_of_earlier hbears hid (mem_of_getLast? hs)
        exact ⟨p, before, s, after, hp, hchildren, (ihe hmem).1 (by simpa [hs] using htimes)⟩
    · rintro ⟨p, before, s, after, hp, hchildren, hs⟩
      have hprevious := (previous?_eq_some_iff hbears hnodup hid).2 ⟨p, before, after, hp, hchildren⟩
      have hmem := mem_nodes_of_earlier hbears hid (mem_of_getLast? hprevious)
      simpa [hprevious] using (ihe hmem).2 hs
  | sibling e g ihe ihg =>
    rw [times, Meets, Nat.mul_ne_zero_iff, ihg hid, sum_times_ne_zero_iff]
    refine and_congr_right fun _ => ?_
    constructor
    · rintro ⟨s, hs, htimes⟩
      obtain ⟨p, before, between, after, hlink⟩ := (mem_earlier_iff hbears hnodup hid).1 hs
      exact ⟨p, before, s, between, after, hlink.1, hlink.2,
        (ihe (mem_nodes_of_earlier hbears hid hs)).1 htimes⟩
    · rintro ⟨p, before, s, between, after, hp, hchildren, hs⟩
      have hmem := (mem_earlier_iff hbears hnodup hid).2 ⟨p, before, between, after, hp, hchildren⟩
      exact ⟨s, hmem, (ihe (mem_nodes_of_earlier hbears hid hmem)).2 hs⟩

/-- Applied to one node, a selector finds it once for every way in which it fits. -/
theorem select_eq (s : Selector) (hs : s.Relational) (hroot : s.Grounded f shape.id)
    (hid : id ∈ shape.nodes) : s.select f (some id) = .repeated (s.times f id) (some id) := by
  induction s generalizing id with
  | bare => exact hs.elim
  | nth => exact hs.elim
  | anything =>
    obtain ⟨entry, hentry⟩ := exists_entry hbears hid
    simp [select, times, hentry, fits, Matches.one, Matches.repeated]
  | kind k text =>
    obtain ⟨entry, hentry⟩ := exists_entry hbears hid
    simp only [select, times, hentry, Option.bind_some, Option.any_some]
    exact Matches.one_or_none _
  | token tests =>
    obtain ⟨entry, hentry⟩ := exists_entry hbears hid
    simp only [select, times, hentry, Option.bind_some, Option.any_some,
      TokenTest.passesAll_eq hs entry.head, fits]
    cases tests.all fun t => t.2.holds entry.head t.1 <;> rfl
  | child e g ihe ihg =>
    obtain ⟨hse, hsg⟩ := hs
    obtain ⟨hre, hrg, hfree⟩ := hroot
    rw [select, times, ihg hsg hrg hid]
    rcases hp : f.parentOf id with _ | p
    · -- only the root has no parent, and it does not fit
      obtain rfl := hbears.eq_root hid hp
      have hzero : g.times f shape.id = 0 := by
        by_contra h
        exact hfree ((times_ne_zero_iff hbears hnodup g hid).1 h)
      rw [hzero, Nat.zero_mul]
      rfl
    · rw [Matches.bind_repeated]
      simp only [hp, ihe hse hre (hbears.parent_mem hid hp).1, Matches.countAs_repeated,
        Option.map_some, Option.getD_some]
  | descendant e g ihe ihg =>
    obtain ⟨hse, hsg⟩ := hs
    obtain ⟨hre, hrg⟩ := hroot
    rw [select, times, ihg hsg hrg hid, Matches.bind_repeated]
    have hmap : ((f.ancestors id).map fun a => (e.select f (some a)).countAs (some id))
        = (f.ancestors id).map fun a => .repeated (e.times f a) (some id) := by
      refine List.map_congr_left fun a ha => ?_
      have hmem := hbears.mem_nodes_of_above hid ((hbears.mem_ancestors hnodup hid).1 ha)
      rw [ihe hse hre hmem, Matches.countAs_repeated]
    simp only [hmap, Matches.concat_repeated]
  | adjacent e g ihe ihg =>
    obtain ⟨hse, hsg⟩ := hs
    obtain ⟨hre, hrg⟩ := hroot
    rw [select, times]
    rcases hp : f.parentOf id with _ | p
    · simp [hp, Forest.previous?, Forest.earlier, Matches.none, Matches.repeated]
    · obtain ⟨before, after, hchildren, hfirst, hearlier, hmem⟩ := exists_siblings hbears hid hp
      simp only [ihg hsg hrg hid, hchildren, Forest.previous?, hearlier]
      have hindex := idxOf?_split hfirst after
      rcases List.eq_nil_or_concat' before with rfl | ⟨front, s, rfl⟩
      · rw [Matches.bind_repeated_none (by rw [Option.bind_some, hindex]; rfl)]
        rfl
      · have hs := ihe hse hre (hmem s (by simp))
        rw [Matches.bind_repeated]
        rw [Option.bind_some, hindex]
        simp [hs, Matches.countAs_repeated]
  | sibling e g ihe ihg =>
    obtain ⟨hse, hsg⟩ := hs
    obtain ⟨hre, hrg⟩ := hroot
    rw [select, times]
    rcases hp : f.parentOf id with _ | p
    · simp [hp, Forest.earlier, Matches.none, Matches.repeated]
    · obtain ⟨before, after, hchildren, hfirst, hearlier, hmem⟩ := exists_siblings hbears hid hp
      simp only [ihg hsg hrg hid, hchildren, hearlier]
      have hindex := idxOf?_split hfirst after
      have hmap : (before.map fun s => (e.select f (some s)).countAs (some id))
          = before.map fun s => .repeated (e.times f s) (some id) :=
        List.map_congr_left fun s hs => by
          rw [ihe hse hre (hmem s hs), Matches.countAs_repeated]
      cases before with
      | nil =>
        rw [Matches.bind_repeated_none (by rw [Option.bind_some, hindex]; rfl)]
        rfl
      | cons first rest =>
        rw [Matches.bind_repeated]
        rw [Option.bind_some, hindex]
        simp only [List.length_cons, List.take_left', hmap, Matches.concat_repeated]

end Tree

mutual

/-- Walking a tree, with fuel for each node and for each list of children. -/
theorem walkUpTo_eq {f : Forest} {s : Selector} {found : NodeId → List (Option NodeId)} :
    ∀ {shape : Shape} {top : Option NodeId} (fuel : Nat), f.Bears top shape →
      (∀ id ∈ shape.nodes, s.select f (some id) = ⟨found id, none⟩) →
      2 * shape.nodes.length ≤ fuel + 1 →
      s.walkUpTo f fuel shape.id = ⟨shape.nodes.flatMap found, none⟩
  | .node id children, top, fuel, ⟨⟨head, hget⟩, hall⟩, hselect, hfuel => by
      rw [Shape.nodes, length_cons] at hfuel
      obtain ⟨fuel, rfl⟩ : ∃ n, fuel = n + 1 := ⟨fuel - 1, by omega⟩
      have hchildren := walkAll_eq fuel hall (fun c hc => hselect c (.tail _ hc)) (by omega)
      rw [walkUpTo, Shape.id_node, hselect id (.head _),
        Forest.childrenOf_of_get? hget, hchildren, Matches.concat_pair]
      rfl

theorem walkAll_eq {f : Forest} {s : Selector} {found : NodeId → List (Option NodeId)} :
    ∀ {shapes : List Shape} {parent : NodeId} (fuel : Nat), f.BearsAll parent shapes →
      (∀ id ∈ Shape.nodesAll shapes, s.select f (some id) = ⟨found id, none⟩) →
      2 * (Shape.nodesAll shapes).length ≤ fuel →
      s.walkAll f fuel (shapes.map Shape.id) = ⟨(Shape.nodesAll shapes).flatMap found, none⟩
  | [], _, fuel, _, _, _ => by cases fuel <;> rfl
  | shape :: rest, parent, fuel, ⟨hs, hrest⟩, hselect, hfuel => by
      have hpos := shape.length_nodes_pos
      rw [Shape.nodesAll, length_append] at hfuel
      obtain ⟨fuel, rfl⟩ : ∃ n, fuel = n + 1 := ⟨fuel - 1, by omega⟩
      have hfirst := walkUpTo_eq fuel hs (fun c hc => hselect c (mem_append_left _ hc)) (by omega)
      have hothers := walkAll_eq fuel hrest (fun c hc => hselect c (mem_append_right _ hc)) (by omega)
      rw [map_cons, walkAll, hfirst, hothers, Matches.concat_pair, Shape.nodesAll, flatMap_append]

end

section Walk

variable {f : Forest} {shape : Shape} (hbears : f.Bears none shape) (hnodup : shape.nodes.Nodup)
variable {s : Selector} (hs : s.Relational) (hroot : s.Grounded f shape.id)
include hbears hnodup hs hroot

theorem walk_eq : s.walk f shape.id
    = ⟨shape.nodes.flatMap fun id => List.replicate (s.times f id) (some id), none⟩ :=
  walkUpTo_eq _ hbears (fun _ hid => select_eq hbears hnodup s hs hroot hid)
    (by have := hbears.length_nodes_le hnodup; omega)

theorem mem_found_walk {id : NodeId} :
    some id ∈ (s.walk f shape.id).found ↔ id ∈ shape.nodes ∧ s.Meets f id := by
  rw [walk_eq hbears hnodup hs hroot]
  constructor
  · intro hmem
    obtain ⟨other, hother, hsame⟩ := mem_flatMap.1 hmem
    obtain ⟨htimes, hid⟩ := mem_replicate.1 hsame
    obtain rfl := Option.some.inj hid
    exact ⟨hother, (times_ne_zero_iff hbears hnodup s hother).1 htimes⟩
  · rintro ⟨hid, hmeets⟩
    have htimes := (times_ne_zero_iff hbears hnodup s hid).2 hmeets
    exact mem_flatMap.2 ⟨id, hid, mem_replicate.2 ⟨htimes, rfl⟩⟩

end Walk

/-- Walking a tree gives its nodes in preorder, each one in a row as many times as there are ways in
which it fits; so a node is selected iff it stands in the relations of the selector. -/
theorem walk_yields_in_preorder (f : Forest) (shape : Shape) (hbears : f.Bears none shape)
    (hnodup : shape.nodes.Nodup) (s : Selector) (hs : s.Relational)
    (hroot : s.Grounded f shape.id) :
    s.walk f shape.id
        = ⟨shape.nodes.flatMap fun id => List.replicate (s.times f id) (some id), none⟩ ∧
      ∀ id, some id ∈ (s.walk f shape.id).found ↔ id ∈ shape.nodes ∧ s.Meets f id :=
  ⟨walk_eq hbears hnodup hs hroot, fun _ => mem_found_walk hbears hnodup hs hroot⟩

/-- Below `q` stand `a`, `b` and `c` side by side.  A name that is behind another one and has a dot
as its parent: there is one way for `b`, there are two for `c`. -/
theorem walk_yields_names_behind_names :
    let name : String → Tree := fun text => .node { kind := .ident, text := text } []
    let t : Tree := .node { kind := .expr } [name "q", .node { kind := .dot } [name "a", name "b", name "c"]]
    let s : Selector := .child (.token [("type", .kindIs .dot), ("channel", .equals (.number 0))])
      (.sibling .anything (.kind .ident none))
    (Forest.ofTree t).Bears none (t.shapeFrom 0) ∧ (t.shapeFrom 0).nodes.Nodup ∧ s.Relational ∧
      s.Grounded (Forest.ofTree t) 0 ∧
      s.walk (Forest.ofTree t) 0 = ⟨[some 4, some 5, some 5], none⟩ ∧
      ¬s.Meets (Forest.ofTree t) 3 := by
  intro name t s
  have hbears := Forest.bears_ofTree t
  have hnodup := Tree.nodup_shapeFrom t 0
  have hs : s.Relational := by simp [s, Relational, TokenTest.kindIs, TokenTest.Known, TokenTest.attributes]
  have hroot : s.Grounded (Forest.ofTree t) (t.shapeFrom 0).id := by
    have hparent : (Forest.ofTree t).parentOf 0 = none := by decide
    simp [s, Grounded, Meets, hparent]
  obtain ⟨hwalk, hmeets⟩ := walk_yields_in_preorder (Forest.ofTree t) (t.shapeFrom 0) hbears hnodup s hs hroot
  have hfound : s.walk (Forest.ofTree t) 0 = ⟨[some 4, some 5, some 5], none⟩ := by
    exact hwalk.trans (by decide)
  refine ⟨hbears, hnodup, hs, hroot, hfound, fun h => ?_⟩
  have := (hmeets 3).2 ⟨by decide, h⟩
  rw [Tree.id_shapeFrom, hfound] at this
  simp at this

end Selector

end Transcriber.Source
