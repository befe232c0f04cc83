import Mathlib.Data.List.Forall2
import Mathlib.Logic.Relation
import Transcriber.Config.Standard
import Transcriber.Proofs.Store

/-!
# Two runs side by side

Two pieces of work are run in two workshops, with the same blocks at hand.  A bond says how the
workshops belong together while so many blocks are known, what the first run is made of, and what is
left when both runs fail.  The runs agree if they come to the same end: both succeed with results that
belong together, or both fail for the same reason.

What is proved here of two runs serves single runs as well: a bond may ask nothing of the second one.

* `Bond.Agree.bind`, `Bond.does_forM`, `Bond.does_mapM` — composed work agrees as its parts do.
-/

namespace Transcriber

open Build Relation

/-- How two workshops belong together, and what work in them comes to. -/
structure Bond where
  /-- The two workshops belong together, and all blocks below a number are known. -/
  rel : Nat → Workshop → Workshop → Prop
  /-- The single acts of the first run. -/
  act : Workshop → Workshop → Prop
  /-- Runs that began in the first of these workshops may fail in the others. -/
  lost : Workshop → Workshop → Workshop → Prop
  /-- Nothing is asked of the second run. -/
  solo : Prop := False
  rel_of_solo : solo → ∀ n w w', rel n w w' := by nofun
  rel_of_le : ∀ {m n w w'}, m ≤ n → rel n w w' → rel m w w'
  rel_after : ∀ {m n w w' v v'}, rel n w w' → ReflTransGen act w v → rel m v v' → rel n v v'
  lost_of_rel : ∀ {n w w'}, rel n w w' → lost w w w'
  lost_after : ∀ {w0 w1 w w'}, ReflTransGen act w0 w1 → lost w1 w w' → lost w0 w w'

namespace Bond

variable {α β α' β' : Type} {B : Bond} {n : Nat}

/-- The ends of two runs belong together. -/
inductive Outcome (B : Bond) (n : Nat) (Q : Nat → α → α' → Prop) (w0 : Workshop) :
    EStateM.Result Failure Workshop α → EStateM.Result Failure Workshop α' → Prop
  | ok {n' : Nat} {a : α} {a' : α'} {w w' : Workshop} (hn : n ≤ n') (hrel : B.rel n' w w')
      (hacts : ReflTransGen B.act w0 w) (h : Q n' a a') : Outcome B n Q w0 (.ok a w) (.ok a' w')
  | error {failure : Failure} {w w' : Workshop} (h : B.lost w0 w w') :
      Outcome B n Q w0 (.error failure w) (.error failure w')
  | solo {r : EStateM.Result Failure Workshop α} {r' : EStateM.Result Failure Workshop α'}
      (hsolo : B.solo) (h : ∀ a w, r = .ok a w → ReflTransGen B.act w0 w ∧ ∃ n' a', n ≤ n' ∧ Q n' a a') :
      Outcome B n Q w0 r r'

/-- Two runs agree from workshops that belong together on: they end in workshops that do, with
results in a relation to the number of blocks that are known then. -/
def Agree (B : Bond) (n : Nat) (Q : Nat → α → α' → Prop) (m : Build α) (m' : Build α') : Prop :=
  ∀ ⦃w w' : Workshop⦄, B.rel n w w' → B.Outcome n Q w (m w) (m' w')

/-- Agreement on equal results. -/
abbrev Does (B : Bond) (n : Nat) (m m' : Build α) : Prop := B.Agree n (fun _ => Eq) m m'

/-- Agreement on a known block. -/
abbrev Makes (B : Bond) (n : Nat) (m m' : Build BlockId) : Prop :=
  B.Agree n (fun n' i i' => i = i' ∧ i < n') m m'

/-- Agreement on who goes on, if anyone: a known block. -/
abbrev Hands (B : Bond) (n : Nat) (m m' : Build (Option BlockId)) : Prop :=
  B.Agree n (fun n' o o' => o = o' ∧ ∀ i : Nat, o = some i → i < n') m m'

section Rules

variable {Q : Nat → α → α' → Prop} {R : Nat → β → β' → Prop}

theorem agree_pure {a : α} {a' : α'} (h : Q n a a') : B.Agree n Q (pure a) (pure a') :=
  fun _ _ hrel => .ok (Nat.le_refl _) hrel .refl h

theorem agree_throw (failure : Failure) : B.Agree n Q (throw failure : Build α) (throw failure : Build α') :=
  fun _ _ hrel => .error (B.lost_of_rel hrel)

theorem hands_none : B.Hands n (pure none) (pure none) := agree_pure ⟨rfl, nofun⟩

theorem hands_some {i : Nat} (hi : i < n) : B.Hands n (pure (some i)) (pure (some i)) :=
  agree_pure ⟨rfl, fun _ h => Option.some.inj h ▸ hi⟩

/-- The end of the first run, if it succeeds. -/
theorem Outcome.first {w0 w : Workshop} {a : α} {r' : EStateM.Result Failure Workshop α'}
    (h : B.Outcome n Q w0 (.ok a w) r') :
    ReflTransGen B.act w0 w ∧ ∃ n' a', n ≤ n' ∧ Q n' a a' := by
  cases h with
  | ok hn _ hacts h => exact ⟨hacts, _, _, hn, h⟩
  | solo _ h => exact h a w rfl

/-- More has been done before. -/
theorem Outcome.after {w0 w1 : Workshop} {m : Nat} (hm : m ≤ n) (hacts : ReflTransGen B.act w0 w1)
    {r : EStateM.Result Failure Workshop α} {r' : EStateM.Result Failure Workshop α'}
    (h : B.Outcome n Q w1 r r') : B.Outcome m Q w0 r r' := by
  cases h with
  | ok hn hrel hrest h => exact .ok (Nat.le_trans hm hn) hrel (hacts.trans hrest) h
  | error h => exact .error (B.lost_after hacts h)
  | solo hsolo h =>
    refine .solo hsolo fun a w hr => ?_
    obtain ⟨hrest, n', a', hn, hQ⟩ := h a w hr
    exact ⟨hacts.trans hrest, n', a', Nat.le_trans hm hn, hQ⟩

variable {m m' : Build α} {f : α → Build β} {f' : α' → Build β'} {P : α → α' → Prop}

/-- Work that goes on with the result of other work, and forgets some of the blocks that are known
then. -/
theorem Agree.bind_of_le {m' : Build α'} (hm : B.Agree n Q m m') (hf : ∀ n', n ≤ n' → ∀ a a', Q n' a a' →
      ∃ k, n ≤ k ∧ k ≤ n' ∧ B.Agree k R (f a) (f' a')) :
    B.Agree n R (m >>= f) (m' >>= f') := by
  intro w w' hrel
  have hend := hm hrel
  generalize hrun : m w = r, hrun' : m' w' = r' at hend
  cases hend with
  | ok hn hrel hacts h =>
    rw [bind_of_ok hrun, bind_of_ok hrun']
    obtain ⟨k, hk, hkn, hagree⟩ := hf _ hn _ _ h
    exact (hagree (B.rel_of_le hkn hrel)).after hk hacts
  | error h =>
    rw [bind_of_error hrun, bind_of_error hrun']
    exact .error h
  | solo hsolo h =>
    refine .solo hsolo fun b w2 hb => ?_
    obtain ⟨a, w1, ha, hb⟩ := bind_eq_ok.1 hb
    obtain ⟨hacts, n', a', hn, hQ⟩ := h a w1 (hrun.symm.trans ha)
    obtain ⟨k, hk, -, hagree⟩ := hf n' hn a a' hQ
    have hrest := hagree (B.rel_of_solo hsolo k w1 w1)
    rw [hb] at hrest
    exact (hrest.after hk hacts).first

/-- Work that goes on with the result of other work. -/
theorem Agree.bind {m' : Build α'} (hm : B.Agree n Q m m')
    (hf : ∀ n', n ≤ n' → ∀ a a', Q n' a a' → B.Agree n' R (f a) (f' a')) :
    B.Agree n R (m >>= f) (m' >>= f') :=
  hm.bind_of_le fun n' hn a a' h => ⟨n', hn, Nat.le_refl _, hf n' hn a a' h⟩

/-- Work after which no more blocks are known. -/
theorem Does.bind {f' : α → Build β'} (hm : B.Does n m m')
    (hf : ∀ a, B.Agree n R (f a) (f' a)) : B.Agree n R (m >>= f) (m' >>= f') :=
  hm.bind_of_le fun _ hn a _ h => ⟨n, Nat.le_refl _, hn, h ▸ hf a⟩

/-- It does no harm to know more blocks. -/
theorem Does.mono (h : B.Does n m m') {k : Nat} (hk : n ≤ k) : B.Does k m m' := by
  intro w w' hrel
  have hend := h (B.rel_of_le hk hrel)
  generalize m w = r, m' w' = r' at hend
  cases hend with
  | ok _ hrel' hacts h => exact .ok (Nat.le_refl _) (B.rel_after hrel hacts hrel') hacts h
  | error h => exact .error h
  | solo hsolo h => exact .solo hsolo fun a w hr => ⟨(h a w hr).1, k, a, Nat.le_refl _, rfl⟩

/-- Work that goes on with a block. -/
theorem Makes.bind {m m' : Build BlockId} {f : BlockId → Build β} {f' : BlockId → Build β'}
    (hm : B.Makes n m m')
    (hf : ∀ n', n ≤ n' → ∀ i : Nat, i < n' → B.Agree n' R (f i) (f' i)) :
    B.Agree n R (m >>= f) (m' >>= f') :=
  Agree.bind hm fun n' hn i _ h => h.1 ▸ hf n' hn i h.2

/-- Work for which the block does not matter that other work has made. -/
theorem Makes.then {m m' : Build BlockId} {f : BlockId → Build β} {f' : BlockId → Build β'}
    (hm : B.Makes n m m') (hf : ∀ i, B.Agree n R (f i) (f' i)) :
    B.Agree n R (m >>= f) (m' >>= f') :=
  hm.bind_of_le fun _ hn i _ h => ⟨n, Nat.le_refl _, hn, h.1 ▸ hf i⟩

/-- The same, where the other work has two parts. -/
theorem Does.bind_assoc {γ : Type} {S : Nat → β → β' → Prop} {m' : Build α'}
    {f : α → Build γ} {f' : α' → Build γ} {g : γ → Build β} {g' : γ → Build β'}
    (hm : B.Does n (m >>= f) (m' >>= f')) (hg : ∀ c, B.Agree n S (g c) (g' c)) :
    B.Agree n S (m >>= fun a => f a >>= g) (m' >>= fun a => f' a >>= g') := by
  rw [← LawfulMonad.bind_assoc, ← LawfulMonad.bind_assoc]
  exact hm.bind hg

theorem Does.silent (h : B.Does n m m') : B.Hands n (m >>= fun _ => pure none) (m' >>= fun _ => pure none) :=
  h.bind fun _ => hands_none

/-- Work after which a known block goes on. -/
theorem Does.hand {i : Nat} (h : B.Does n m m') (hi : i < n) :
    B.Hands n (m >>= fun _ => pure (some i)) (m' >>= fun _ => pure (some i)) :=
  h.bind fun _ => hands_some hi

theorem Makes.some {m m' : Build BlockId} (h : B.Makes n m m') :
    B.Hands n (m >>= fun id => pure (Option.some id)) (m' >>= fun id => pure (Option.some id)) :=
  h.bind fun _ _ _ hid => hands_some hid

theorem Makes.does {m m' : Build BlockId} (h : B.Makes n m m') : B.Does n m m' := by
  intro w w' hrel
  have hend := h hrel
  generalize m w = r, m' w' = r' at hend
  cases hend with
  | ok hn hrel hacts h => exact .ok hn hrel hacts h.1
  | error h => exact .error h
  | solo hsolo h =>
    refine .solo hsolo fun i w hr => ?_
    obtain ⟨hacts, n', i', hn, heq, -⟩ := h i w hr
    exact ⟨hacts, n', i', hn, heq⟩

theorem Makes.done {m m' : Build BlockId} (h : B.Makes n m m') :
    B.Does n (m >>= fun _ => pure PUnit.unit) (m' >>= fun _ => pure PUnit.unit) :=
  h.then fun _ => agree_pure rfl

/-- Work that goes on after either of two pieces of work. -/
theorem does_ite_bind {p : Prop} [Decidable p] {k k' : Build α}
    {f' : α → Build β'} (hm : p → B.Does n m m') (hk : ¬p → B.Does n k k')
    (hf : ∀ a, B.Agree n R (f a) (f' a)) :
    B.Agree n R (if p then m >>= f else k >>= f) (if p then m' >>= f' else k' >>= f') := by
  split
  next h => exact (hm h).bind hf
  next h => exact (hk h).bind hf

theorem agree_get {m : Workshop → Build α} {m' : Workshop → Build α'}
    (h : ∀ w w', B.rel n w w' → B.Outcome n Q w (m w w) (m' w' w')) :
    B.Agree n Q (get >>= m) (get >>= m') :=
  fun w w' hrel => h w w' hrel

theorem agree_demand {x : Option α} {x' : Option α'} (h : Option.Rel P x x')
    (hf : ∀ a a', P a a' → B.Agree n R (f a) (f' a')) :
    B.Agree n R (demand x >>= f) (demand x' >>= f') := by
  cases h with
  | some h => exact hf _ _ h
  | none => exact agree_throw _

/-- A loop over things that belong together. -/
theorem does_forM {xs : List α} {xs' : List α'} {f : α → Build PUnit}
    {f' : α' → Build PUnit} (hxs : List.Forall₂ P xs xs')
    (hf : ∀ a a', P a a' → B.Does n (f a) (f' a')) : B.Does n (xs.forM f) (xs'.forM f') := by
  induction hxs with
  | nil => exact agree_pure rfl
  | cons h _ ih => exact (hf _ _ h).bind fun _ => ih

theorem does_mapM {xs : List α} {xs' : List α'} {f' : α' → Build β} (hxs : List.Forall₂ P xs xs')
    (hf : ∀ a a', P a a' → B.Does n (f a) (f' a')) : B.Does n (xs.mapM f) (xs'.mapM f') := by
  induction hxs with
  | nil =>
    rw [List.mapM_nil, List.mapM_nil]
    exact agree_pure rfl
  | cons h _ ih =>
    rw [List.mapM_cons, List.mapM_cons]
    exact (hf _ _ h).bind fun _ => ih.bind fun _ => agree_pure rfl

end Rules

end Bond

end Transcriber
