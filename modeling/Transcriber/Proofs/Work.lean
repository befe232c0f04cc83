import Mathlib.Logic.Relation
import Transcriber.Block.Workshop

/-!
# Running work

Work in a workshop either succeeds with a result and a new workshop, or fails.  The lemmas here take
successful work apart, step by step, and carry a relation between workshops along.

* `Build.bind_eq_ok` and its companions — when a composed piece of work succeeds.
-/

namespace Transcriber.Build

variable {α β : Type}

/-! ## When work succeeds -/

variable {m : Build α} {f : α → Build β} {w w' w1 : Workshop} {a : α} {g : Failure → Failure}
    {P : α → Prop}

theorem bind_eq_ok {b : β} : (m >>= f) w = .ok b w' ↔ ∃ a w1, m w = .ok a w1 ∧ f a w1 = .ok b w' := by
  change EStateM.bind m f w = .ok b w' ↔ _
  unfold EStateM.bind
  cases hm : m w with
  | ok a w1 =>
    constructor
    · intro h
      exact ⟨a, w1, rfl, h⟩
    · rintro ⟨a', w1', h, hf⟩
      cases h
      exact hf
  | error failure w1 =>
    constructor
    · intro h
      cases h
    · rintro ⟨a', w1', h, -⟩
      cases h

theorem pure_eq_ok {b : α} : (pure a : Build α) w = .ok b w' ↔ a = b ∧ w = w' := by
  change EStateM.Result.ok a w = .ok b w' ↔ _
  rw [EStateM.Result.ok.injEq]

theorem get_eq_ok : (get : Build Workshop) w = .ok w1 w' ↔ w = w1 ∧ w = w' := by
  change EStateM.Result.ok w w = .ok w1 w' ↔ _
  rw [EStateM.Result.ok.injEq]

theorem get_bind_eq_ok {f : Workshop → Build β} {b : β} : (get >>= f) w = .ok b w' ↔ f w w = .ok b w' := Iff.rfl

theorem modify_eq_ok {f : Workshop → Workshop} {u : Unit} :
    (modify f : Build Unit) w = .ok u w' ↔ w' = f w := by
  change EStateM.Result.ok () (f w) = .ok u w' ↔ _
  constructor
  · intro h
    cases h
    rfl
  · rintro rfl
    rfl

theorem throw_ne_ok {failure : Failure} : (throw failure : Build α) w ≠ .ok a w' := by
  intro h
  cases h

theorem block_eq_ok {id : BlockId} {b : Block} : block id w = .ok b w' ↔ w.blocks[id]? = some b ∧ w = w' := by
  change demand w.blocks[id]? w = .ok b w' ↔ _
  cases w.blocks[id]? with
  | none =>
    constructor
    · intro h
      cases h
    · rintro ⟨h, -⟩
      cases h
  | some b1 =>
    constructor
    · intro h
      cases h
      exact ⟨rfl, rfl⟩
    · rintro ⟨h, rfl⟩
      cases h
      rfl

theorem block_bind_eq_ok {id : BlockId} {f : Block → Build β} {a : β} :
    (block id >>= f) w = .ok a w' ↔ ∃ b, w.blocks[id]? = some b ∧ f b w = .ok a w' := by
  simp [bind_eq_ok, block_eq_ok, and_assoc]

theorem get_apply (w : Workshop) : (get : Build Workshop) w = .ok w w := rfl

/-- A sequence of work that was begun and went on succeeds as its second part does. -/
theorem bind_of_ok (h : m w = .ok a w1) : (m >>= f) w = f a w1 := by
  change EStateM.bind m f w = _
  unfold EStateM.bind
  rw [h]

/-- A sequence of work fails as its first part does. -/
theorem bind_of_error
    {failure : Failure} (h : m w = .error failure w1) : (m >>= f) w = .error failure w1 := by
  change EStateM.bind m f w = _
  unfold EStateM.bind
  rw [h]

theorem bind_apply_congr {m' : Build α} (h : m w = m' w) : (m >>= f) w = (m' >>= f) w := by
  change EStateM.bind m f w = EStateM.bind m' f w
  unfold EStateM.bind
  rw [h]

/-- A loop over work that changes nothing gives the results one by one. -/
theorem mapM_apply_of_ok {xs : List α} {g : α → β}
    (h : ∀ x ∈ xs, f x w = .ok (g x) w) : xs.mapM f w = .ok (xs.map g) w := by
  induction xs with
  | nil => rfl
  | cons x xs ih =>
    rw [List.mapM_cons, bind_of_ok (h x (.head _)), bind_of_ok (ih fun y hy => h y (.tail _ hy))]
    rfl

def succeeded : EStateM.Result Failure Workshop α → Bool
  | .ok _ _ => true
  | .error _ _ => false

theorem ok_of_succeeded {r : EStateM.Result Failure Workshop Unit} (h : succeeded r = true) :
    ∃ w', r = .ok () w' := by
  cases r with
  | ok u w' => exact ⟨w', rfl⟩
  | error failure w' => cases h

def given : EStateM.Result Failure Workshop α → Option α
  | .ok a _ => some a
  | .error _ _ => none

theorem ok_of_given {r : EStateM.Result Failure Workshop α} (h : given r = some a) : ∃ w', r = .ok a w' := by
  cases r with
  | ok a' w' =>
    obtain rfl : a' = a := Option.some.inj h
    exact ⟨w', rfl⟩
  | error failure w' => cases h

/-! ## What success keeps -/

/-- Work that leads, whenever it succeeds, to a workshop that is in relation to the one before. -/
def Keeps (R : Workshop → Workshop → Prop) (m : Build α) : Prop :=
  ∀ ⦃w : Workshop⦄ ⦃a : α⦄ ⦃w' : Workshop⦄, m w = .ok a w' → R w w'

theorem keeps_throw (R : Workshop → Workshop → Prop) (failure : Failure) :
    Keeps R (throw failure : Build α) :=
  fun _ _ _ h => absurd h throw_ne_ok

/-- Work whose failures are replaced by other ones succeeds as before. -/
theorem rethrow_eq_ok : tryCatch m (fun failure => throw (g failure)) w = .ok a w' ↔ m w = .ok a w' := by
  change EStateM.tryCatch m (fun failure => throw (g failure)) w = .ok a w' ↔ _
  unfold EStateM.tryCatch
  cases m w with
  | ok => rfl
  | error => exact ⟨nofun, nofun⟩

theorem keeps_rethrow {R : Workshop → Workshop → Prop}
    (h : Keeps R m) : Keeps R (tryCatch m fun failure => throw (g failure)) :=
  fun _ _ _ hok => h (rethrow_eq_ok.1 hok)

/-- Work whose result, whenever it succeeds, has a property. -/
def Gives (P : α → Prop) (m : Build α) : Prop :=
  ∀ ⦃w : Workshop⦄ ⦃a : α⦄ ⦃w' : Workshop⦄, m w = .ok a w' → P a

theorem gives_pure (h : P a) : Gives P (pure a) := by
  intro w b w' hb
  obtain ⟨rfl, -⟩ := pure_eq_ok.1 hb
  exact h

theorem gives_throw (P : α → Prop) (failure : Failure) : Gives P (throw failure) :=
  fun _ _ _ h => absurd h throw_ne_ok

theorem gives_bind {P : β → Prop} (h : ∀ a, Gives P (f a)) : Gives P (m >>= f) := by
  intro w b w' hb
  obtain ⟨a, w1, -, h2⟩ := bind_eq_ok.1 hb
  exact h a h2

theorem gives_bind_of_gives {Q : β → Prop}
    (hP : Gives P m) (h : ∀ a, P a → Gives Q (f a)) : Gives Q (m >>= f) := by
  intro w b w' hb
  obtain ⟨a, w1, h1, h2⟩ := bind_eq_ok.1 hb
  exact h a (hP h1) h2

theorem gives_rethrow (h : Gives P m) : Gives P (tryCatch m fun failure => throw (g failure)) :=
  fun _ _ _ hok => h (rethrow_eq_ok.1 hok)

theorem gives_mapM {P : β → Prop} {xs : List α}
    (h : ∀ a ∈ xs, Gives P (f a)) : Gives (fun bs => ∀ b ∈ bs, P b) (xs.mapM f) := by
  induction xs with
  | nil =>
    rw [List.mapM_nil]
    exact gives_pure nofun
  | cons a xs ih =>
    intro w bs w' hbs
    rw [List.mapM_cons] at hbs
    obtain ⟨b, w1, hb, hrest⟩ := bind_eq_ok.1 hbs
    obtain ⟨bs', w2, hbs', hpure⟩ := bind_eq_ok.1 hrest
    obtain ⟨rfl, -⟩ := pure_eq_ok.1 hpure
    intro x hx
    rcases List.mem_cons.1 hx with rfl | hx
    · exact h a (.head _) hb
    · exact ih (fun a' ha' => h a' (.tail _ ha')) hbs' x hx

/-! ## Manners of work -/

/-- A property of work that composed work has if its parts have it.  It may be about blocks, but
neither about the report nor about the way through the text. -/
structure Manner (P : ∀ {α : Type}, Build α → Prop) : Prop where
  pure : ∀ {α : Type} (a : α), P (pure a : Build α)
  throw : ∀ {α : Type} (failure : Failure), P (throw failure : Build α)
  rethrow : ∀ {α : Type} {m : Build α} {g : Failure → Failure}, P m →
    P (tryCatch m fun failure => MonadExcept.throw (g failure))
  bind_of_gives : ∀ {α β : Type} {Q : α → Prop} {m : Build α} {f : α → Build β}, P m → Gives Q m →
    (∀ a, Q a → P (f a)) → P (m >>= f)
  reads : ∀ {α : Type} {f : Workshop → Build α}, (∀ w, P (f w)) →
    (∀ w report trail, f { w with report, trail } = f w) → P (get >>= f)

namespace Manner

variable {P : ∀ {α : Type}, Build α → Prop} (hP : Manner P)
include hP

theorem bind {m : Build α} {f : α → Build β} (hm : P m) (hf : ∀ a, P (f a)) : P (m >>= f) :=
  hP.bind_of_gives hm (Q := fun _ => True) (fun _ _ _ _ => trivial) fun a _ => hf a

theorem result {m : Build α} {f : α → β} (hm : P m) : P (m >>= fun a => Pure.pure (f a)) :=
  hP.bind hm fun a => hP.pure (f a)

theorem map {m : Build α} {f : α → β} (hm : P m) : P (f <$> m) := by
  rw [← bind_pure_comp]
  exact hP.result hm

theorem demand (a : Option α) : P (demand a) := by
  cases a with
  | none => exact hP.throw _
  | some a => exact hP.pure a

theorem lift (a : Except Failure α) : P (lift a) := by
  cases a with
  | error failure => exact hP.throw _
  | ok a => exact hP.pure a

theorem block (id : BlockId) : P (block id) := hP.reads (fun _ => hP.demand _) fun _ _ _ => rfl

theorem enclosing (id : BlockId) (test : Block → Bool) : P (enclosing id test) := by
  refine hP.reads (fun w => ?_) fun _ _ _ => rfl
  split
  · exact hP.pure _
  · exact hP.throw _

variable {xs : List α}

theorem forM {f : α → Build PUnit} (h : ∀ a ∈ xs, P (f a)) : P (xs.forM f) := by
  induction xs with
  | nil => exact hP.pure _
  | cons a xs ih =>
    refine hP.bind (h a (.head _)) fun _ => ?_
    exact ih fun b hb => h b (.tail _ hb)

theorem mapM {f : α → Build β} (h : ∀ a ∈ xs, P (f a)) : P (xs.mapM f) := by
  induction xs with
  | nil =>
    rw [List.mapM_nil]
    exact hP.pure _
  | cons a xs ih =>
    rw [List.mapM_cons]
    refine hP.bind (h a (.head _)) fun _ => ?_
    refine hP.bind (ih fun b hb => h b (.tail _ hb)) fun _ => ?_
    exact hP.pure _

theorem foldlM {f : β → α → Build β} {b : β} (h : ∀ b, ∀ a ∈ xs, P (f b a)) : P (xs.foldlM f b) := by
  induction xs generalizing b with
  | nil => exact hP.pure _
  | cons a xs ih =>
    rw [List.foldlM_cons]
    refine hP.bind (h b a (.head _)) fun _ => ?_
    exact ih fun b' a' ha' => h b' a' (.tail _ ha')

theorem filterM {f : α → Build Bool} (h : ∀ a ∈ xs, P (f a)) : P (xs.filterM f) := by
  -- The accumulator of the filter plays no role, so the induction is over the rest of the list.
  have haux : ∀ acc, P (xs.filterAuxM f acc) := by
    induction xs with
    | nil => exact fun acc => hP.pure acc
    | cons a xs ih =>
      intro acc
      refine hP.bind (h a (.head _)) fun _ => ?_
      exact ih (fun b hb => h b (.tail _ hb)) _
  exact hP.result (haux [])

end Manner

section Reaching

open Relation

variable {r : Workshop → Workshop → Prop}

theorem keeps_pure (a : α) : Keeps (ReflTransGen r) (pure a : Build α) := by
  intro w b w' h
  obtain ⟨-, rfl⟩ := pure_eq_ok.1 h
  exact .refl

theorem keeps_get : Keeps (ReflTransGen r) (get : Build Workshop) := by
  intro w b w' h
  obtain ⟨-, rfl⟩ := get_eq_ok.1 h
  exact .refl

theorem keeps_modify {f : Workshop → Workshop} (h : ∀ w, r w (f w)) :
    Keeps (ReflTransGen r) (modify f : Build Unit) := by
  intro w u w' hm
  obtain rfl := modify_eq_ok.1 hm
  exact .single (h w)

theorem keeps_bind_of_gives {P : α → Prop} {m : Build α} (hm : Keeps (ReflTransGen r) m) (hP : Gives P m)
    (hf : ∀ a, P a → Keeps (ReflTransGen r) (f a)) : Keeps (ReflTransGen r) (m >>= f) := by
  intro w b w' h
  obtain ⟨a, w1, h1, h2⟩ := bind_eq_ok.1 h
  exact (hm h1).trans (hf a (hP h1) h2)

/-- To go from a workshop to one that can be reached is a manner of work. -/
theorem manner_keeps : Manner (Keeps (ReflTransGen r)) where
  pure := keeps_pure
  throw := keeps_throw _
  rethrow := keeps_rethrow
  bind_of_gives := keeps_bind_of_gives
  reads := fun h _ => keeps_bind_of_gives keeps_get (P := fun _ => True) (fun _ _ _ _ => trivial)
    fun w _ => h w

theorem keeps_bind {m : Build α} (hm : Keeps (ReflTransGen r) m)
    (hf : ∀ a, Keeps (ReflTransGen r) (f a)) : Keeps (ReflTransGen r) (m >>= f) :=
  manner_keeps.bind hm hf

theorem keeps_result {m : Build α} {f : α → β} (hm : Keeps (ReflTransGen r) m) :
    Keeps (ReflTransGen r) (m >>= fun a => pure (f a)) := manner_keeps.result hm

theorem keeps_demand (a : Option α) : Keeps (ReflTransGen r) (demand a) := manner_keeps.demand a

theorem keeps_block (id : BlockId) : Keeps (ReflTransGen r) (block id) := manner_keeps.block id

theorem keeps_forM {xs : List α} {f : α → Build PUnit}
    (h : ∀ a ∈ xs, Keeps (ReflTransGen r) (f a)) : Keeps (ReflTransGen r) (xs.forM f) :=
  manner_keeps.forM h

theorem keeps_mapM {xs : List α}
    (h : ∀ a ∈ xs, Keeps (ReflTransGen r) (f a)) : Keeps (ReflTransGen r) (xs.mapM f) :=
  manner_keeps.mapM h

end Reaching

end Transcriber.Build
