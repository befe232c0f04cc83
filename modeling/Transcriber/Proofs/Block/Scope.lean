import Transcriber.Proofs.Store

/-!
# What a block knows of the blocks around it

Names are written in a way that depends on the blocks that enclose an expression, and some things can
only be said inside a type or a module.  A scope gathers what the enclosing blocks are asked for.

* `InScope` — the scope of a block; `InScope.qualify`, `InScope.enclosing_class`,
  `InScope.enclosing_module` — the questions and their answers.
-/

namespace Transcriber

open List

/-- What a block knows of the blocks around it. -/
structure Scope where
  /-- A name as it is written there. -/
  rename : String → String
  /-- The name of the nearest enclosing type, if there is such a type. -/
  owner : Option (Option String)
  /-- Whether a module encloses the block. -/
  homed : Bool

namespace Scope

/-- The scope of a block that nothing encloses. -/
def loose : Scope := ⟨fun name => name, none, false⟩

/-- A name as it is written inside some blocks, the innermost first. -/
def renameIn (bs : List Block) (name : String) : String :=
  if bs.any fun b => b.isClass && b.declared.contains name then
    match bs.find? (·.isMethod) with
    | none => name
    | some m =>
      if (m.parameters.any fun p => p.name == name) || m.declared.contains name then name
      else (if m.isStatic then "cls" else "self") ++ "." ++ name
  else name

/-- The scope inside some blocks, the innermost first. -/
def of (bs : List Block) : Scope :=
  ⟨renameIn bs, (bs.find? (·.isClass)).map (·.name), bs.any (·.isModule)⟩

/-- An expression makes no difference to its own scope. -/
theorem of_cons_expression {b : Block} {bs : List Block} {e : Expr}
    (h : b.form = .expression e) : of (b :: bs) = of bs := by
  have hclass : b.isClass = false := by simp [Block.isClass, h]
  have hmethod : b.isMethod = false := by simp [Block.isMethod, h]
  have hmodule : b.isModule = false := by simp [Block.isModule, h]
  have hrename : renameIn (b :: bs) = renameIn bs := by
    funext name
    simp only [renameIn, any_cons, List.find?_cons, hclass, hmethod, Bool.false_and, Bool.false_or]
  simp only [of, hrename, List.find?_cons, any_cons, hclass, hmodule, Bool.false_or]

end Scope

/-! ## Chains of enclosing blocks -/

/-- A block and what encloses it, up to a block that nothing encloses.  Blocks are younger than what
encloses them. -/
inductive Chain (w : Workshop) : Nat → List (Nat × Block) → Prop
  | root {id : Nat} {b : Block} (hb : w.blocks[id]? = some b) (hp : b.parent = none) :
      Chain w id [(id, b)]
  | inside {id parent : Nat} {b : Block} {chain : List (Nat × Block)}
      (hb : w.blocks[id]? = some b) (hp : b.parent = some parent) (hlt : parent < id)
      (outer : Chain w parent chain) : Chain w id ((id, b) :: chain)

namespace Chain

variable {w : Workshop} {id : Nat} {chain : List (Nat × Block)}

section

variable (h : Chain w id chain)
include h

theorem length_le : chain.length ≤ id + 1 := by
  induction h with
  | root => simp
  | inside _ _ hlt _ ih =>
    simp only [length_cons]
    omega

theorem get_of_mem {p : Nat × Block} (hp : p ∈ chain) : w.blocks[p.1]? = some p.2 := by
  induction h with
  | root hb _ =>
    rw [mem_singleton] at hp
    rw [hp]
    exact hb
  | inside hb _ _ _ ih =>
    cases hp with
    | head => exact hb
    | tail _ hp => exact ih hp

theorem lineageUpTo_eq {fuel : Nat} (hfuel : chain.length ≤ fuel) :
    Workshop.lineageUpTo w.blocks fuel (some id) = chain.map Prod.fst := by
  induction h generalizing fuel with
  | root hb hp =>
    cases fuel with
    | zero => simp at hfuel
    | succ fuel =>
      rw [Workshop.lineageUpTo, hb, Option.bind_some, hp]
      cases fuel <;> rfl
  | inside hb hp _ _ ih =>
    cases fuel with
    | zero => simp at hfuel
    | succ fuel =>
      rw [Workshop.lineageUpTo, hb, Option.bind_some, hp, ih (by simpa using hfuel)]
      rfl

theorem lt_size : id < w.blocks.size := by
  cases h with
  | root hb _ => exact (Array.getElem?_eq_some_iff.1 hb).1
  | inside hb _ _ _ => exact (Array.getElem?_eq_some_iff.1 hb).1

theorem lineage_eq : w.lineage id = chain.map Prod.fst := by
  have hid := h.lt_size
  have hlength := h.length_le
  exact h.lineageUpTo_eq (by omega)

theorem any_lineage (test : Block → Bool) :
    ((w.lineage id).any fun j => w.blocks[j]?.any test) = (chain.map Prod.snd).any test := by
  rw [h.lineage_eq, any_map, any_map]
  refine Bool.eq_iff_iff.2 ?_
  simp only [any_eq_true, Function.comp_apply]
  constructor
  · rintro ⟨p, hp, htest⟩
    rw [h.get_of_mem hp] at htest
    exact ⟨p, hp, htest⟩
  · rintro ⟨p, hp, htest⟩
    refine ⟨p, hp, ?_⟩
    rw [h.get_of_mem hp]
    exact htest

theorem enclosing_eq (test : Block → Bool) :
    w.enclosing? id test = (chain.find? fun p => test p.2).map Prod.fst := by
  unfold Workshop.enclosing?
  rw [h.lineage_eq, List.find?_map]
  congr 1
  have hget : ∀ p ∈ chain, w.blocks[p.1]? = some p.2 := fun p hp => h.get_of_mem hp
  clear h
  induction chain with
  | nil => rfl
  | cons p chain ih =>
    rw [List.find?_cons, List.find?_cons, Function.comp_apply, hget p (.head _),
      Option.any_some, ih fun q hq => hget q (.tail _ hq)]

end

theorem find_snd (chain : List (Nat × Block)) (test : Block → Bool) :
    (chain.map Prod.snd).find? test = (chain.find? fun p => test p.2).map Prod.snd := by
  rw [List.find?_map]
  rfl

end Chain

/-! ## What scopes do not look at -/

/-- A form without what the work on expressions changes. -/
def Form.hollow : Form → Form
  | .expression _ => .expression {}
  | .program p => .program { p with needsShift := false }
  | form => form

/-- A block without what the work on expressions changes: the parts of an expression, the children,
and whether a module needs the unsigned shift. -/
def Block.hollow (b : Block) : Block := { b with form := b.form.hollow, children := [] }

namespace Block

variable (b : Block)

@[simp] theorem hollow_isClass : b.hollow.isClass = b.isClass := by
  unfold isClass hollow
  cases b.form <;> rfl

@[simp] theorem hollow_isMethod : b.hollow.isMethod = b.isMethod := by
  unfold isMethod hollow
  cases b.form <;> rfl

@[simp] theorem hollow_isModule : b.hollow.isModule = b.isModule := by
  unfold isModule hollow
  cases b.form <;> rfl

@[simp] theorem hollow_parent : b.hollow.parent = b.parent := rfl

end Block

theorem Scope.of_map_hollow (bs : List Block) : of (bs.map Block.hollow) = of bs := by
  have hfind : ∀ test : Block → Bool, (∀ b, test b.hollow = test b) →
      (bs.map Block.hollow).find? test = (bs.find? test).map Block.hollow := by
    intro test htest
    rw [List.find?_map]
    congr 1
    exact congrArg (bs.find? ·) (funext htest)
  have hany : ∀ test : Block → Bool, (∀ b, test b.hollow = test b) →
      (bs.map Block.hollow).any test = bs.any test := by
    intro test htest
    rw [any_map]
    exact congrArg (bs.any ·) (funext htest)
  have hrename : renameIn (bs.map Block.hollow) = renameIn bs := by
    funext name
    unfold renameIn
    rw [hfind _ Block.hollow_isMethod, hany _ fun b => by rw [Block.hollow_isClass]; rfl]
    cases bs.find? (·.isMethod) with
    | none => rfl
    | some m => rfl
  simp only [of, hrename, hfind _ Block.hollow_isClass, hany _ Block.hollow_isModule, Option.map_map]
  rfl

section

variable {α : Type} {view : Block → α} (hview : ∀ b b' : Block, view b' = view b → b'.parent = b.parent)
  {w w' : Workshop} {id : Nat} {chain : List (Nat × Block)} (h : Chain w id chain)
  (heq : ∀ j, j ≤ id → w'.blocks[j]?.map view = w.blocks[j]?.map view)
include hview h heq

/-- A chain stays, as far as a view of its blocks goes, if the blocks do.  The view has to show what
encloses a block. -/
theorem Chain.congr_numbered : ∃ chain', Chain w' id chain' ∧ chain'.map (fun p => (p.1, view p.2))
      = chain.map fun p => (p.1, view p.2) := by
  have hsame : ∀ {j : Nat} {b : Block}, j ≤ id → w.blocks[j]? = some b →
      ∃ b', w'.blocks[j]? = some b' ∧ view b' = view b := by
    intro j b hj hb
    have hj := heq j hj
    rw [hb] at hj
    exact Option.map_eq_some_iff.1 hj
  induction h with
  | @root id b hb hp =>
    obtain ⟨b', hb', hb''⟩ := hsame (Nat.le_refl id) hb
    exact ⟨[(id, b')], .root hb' ((hview _ _ hb'').trans hp), by simp [hb'']⟩
  | @inside id parent b chain hb hp hlt outer ih =>
    obtain ⟨b', hb', hb''⟩ := hsame (Nat.le_refl id) hb
    obtain ⟨chain', hchain', hmap⟩ := ih (fun j hj => heq j (by omega)) fun hj => hsame (by omega)
    exact ⟨(id, b') :: chain', .inside hb' ((hview _ _ hb'').trans hp) hlt hchain', by simp [hb'', hmap]⟩

theorem Chain.congr :
    ∃ chain', Chain w' id chain' ∧ chain'.map (view ∘ Prod.snd) = chain.map (view ∘ Prod.snd) := by
  obtain ⟨chain', hchain', hmap⟩ := h.congr_numbered hview heq
  refine ⟨chain', hchain', ?_⟩
  have hviews := congrArg (List.map Prod.snd) hmap
  rw [map_map, map_map] at hviews
  exact hviews

end

theorem Block.parent_of_hollow (b b' : Block) (h : b'.hollow = b.hollow) : b'.parent = b.parent := by
  rw [← Block.hollow_parent, h, Block.hollow_parent]

/-! ## The scope of a block -/

/-- The enclosing blocks of a block give it a scope. -/
def InScope (w : Workshop) (id : Nat) (s : Scope) : Prop :=
  ∃ chain, Chain w id chain ∧ Scope.of (chain.map Prod.snd) = s

namespace InScope

variable {w w' : Workshop} {id : Nat} {s : Scope}

theorem lt_size (h : InScope w id s) : id < w.blocks.size := by
  obtain ⟨chain, hchain, -⟩ := h
  exact hchain.lt_size

theorem congr (h : InScope w id s)
    (heq : ∀ j, j ≤ id → w'.blocks[j]?.map Block.hollow = w.blocks[j]?.map Block.hollow) :
    InScope w' id s := by
  obtain ⟨chain, hchain, rfl⟩ := h
  obtain ⟨chain', hchain', hmap⟩ := hchain.congr Block.parent_of_hollow heq
  refine ⟨chain', hchain', ?_⟩
  rw [← Scope.of_map_hollow, ← Scope.of_map_hollow (chain.map Prod.snd), map_map, map_map, hmap]

/-- An expression that nothing encloses has the empty scope. -/
theorem of_loose {b : Block} {e : Expr} (hb : w.blocks[id]? = some b)
    (hform : b.form = .expression e) (hp : b.parent = none) : InScope w id .loose := by
  refine ⟨[(id, b)], .root hb hp, ?_⟩
  rw [map_singleton, Scope.of_cons_expression hform]
  rfl

theorem of_inside {b : Block} {e : Expr} {parent : Nat} (hb : w.blocks[id]? = some b)
    (hform : b.form = .expression e) (hp : b.parent = some parent) (hlt : parent < id)
    (h : InScope w parent s) : InScope w id s := by
  obtain ⟨chain, hchain, rfl⟩ := h
  refine ⟨(id, b) :: chain, .inside hb hp hlt hchain, ?_⟩
  rw [map_cons, Scope.of_cons_expression hform]

theorem qualify (h : InScope w id s) (name : String) : Build.qualify id name w = .ok (s.rename name) w := by
  obtain ⟨chain, hchain, rfl⟩ := h
  have howner := hchain.any_lineage fun b => b.isClass && b.declared.contains name
  have hmethod := hchain.enclosing_eq (·.isMethod)
  unfold Build.qualify
  rw [Build.bind_of_ok (Build.get_apply w), howner, hmethod]
  change _ = EStateM.Result.ok (Scope.renameIn (chain.map Prod.snd) name) w
  rw [Scope.renameIn, Chain.find_snd]
  cases (chain.map Prod.snd).any fun b => b.isClass && b.declared.contains name with
  | false => rfl
  | true =>
    cases hfind : chain.find? fun p => p.2.isMethod with
    | none => rfl
    | some p =>
      have hget := hchain.get_of_mem (mem_of_find?_eq_some hfind)
      simp only [Option.map_some, Option.bind_some, hget]
      cases (p.2.parameters.any fun q => q.name == name) || p.2.declared.contains name with
      | false => rfl
      | true => rfl

theorem enclosing_class (h : InScope w id s) : match s.owner with
    | some name => ∃ owner b, Build.enclosing id (·.isClass) w = .ok owner w
        ∧ w.blocks[owner]? = some b ∧ b.name = name
    | none => Build.enclosing id (·.isClass) w = .error .notFound w := by
  obtain ⟨chain, hchain, rfl⟩ := h
  have henclosing := hchain.enclosing_eq (·.isClass)
  change match ((chain.map Prod.snd).find? (·.isClass)).map (·.name) with
    | some name => _
    | none => _
  rw [Chain.find_snd]
  unfold Build.enclosing
  rw [Build.bind_of_ok (Build.get_apply w), henclosing]
  cases hfind : chain.find? fun p => p.2.isClass with
  | none => rfl
  | some p => exact ⟨p.1, p.2, rfl, hchain.get_of_mem (mem_of_find?_eq_some hfind), rfl⟩

theorem enclosing_module (h : InScope w id s) :
    if s.homed then ∃ home b, Build.enclosing id (·.isModule) w = .ok home w
        ∧ w.blocks[home]? = some b ∧ b.isModule = true
    else Build.enclosing id (·.isModule) w = .error .notFound w := by
  obtain ⟨chain, hchain, rfl⟩ := h
  have henclosing := hchain.enclosing_eq (·.isModule)
  change if (chain.map Prod.snd).any (·.isModule) then _ else _
  rw [any_map]
  unfold Build.enclosing
  rw [Build.bind_of_ok (Build.get_apply w), henclosing]
  cases hfind : chain.find? fun p => p.2.isModule with
  | none =>
    rw [if_neg]
    · rfl
    · rw [any_eq_true]
      rintro ⟨p, hp, hmodule⟩
      exact List.find?_eq_none.1 hfind p hp hmodule
  | some p =>
    have hmem := mem_of_find?_eq_some hfind
    have hmodule := List.find?_some hfind
    rw [if_pos (any_eq_true.2 ⟨p, hmem, hmodule⟩)]
    exact ⟨p.1, p.2, rfl, hchain.get_of_mem hmem, hmodule⟩

end InScope

end Transcriber
