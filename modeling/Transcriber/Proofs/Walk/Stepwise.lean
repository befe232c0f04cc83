import Transcriber.Proofs.Change
import Transcriber.Proofs.Pair.Declaration

/-!
# Walks step by step

A walk over a tree, whatever blocks it meets and whatever the settings say, is made of a few sorts of
small work.  A relation between workshops to which all these keep holds between the workshops before
and after the whole walk: the walk is run beside nothing at all, under a bond that looks at the first
run only.
-/

namespace Transcriber

open Build Relation Source

/-- Work that keeps to a relation, step by step. -/
abbrev Stepwise {α : Type} (r : Workshop → Workshop → Prop) (m : Build α) : Prop :=
  Keeps (ReflTransGen r) m

namespace Build

variable {r : Workshop → Workshop → Prop}

theorem keeps_textOf (c : Option Cursor) : Stepwise r (textOf c) :=
  keeps_result (keeps_demand _)

theorem keeps_typeText (id : BlockId) (c : Cursor) : Stepwise r (typeText id c) := by
  unfold typeText
  refine keeps_bind (keeps_demand _) fun type => ?_
  split
  · exact keeps_throw _ _
  · split
    · refine keeps_bind (keeps_mapM fun n _ => keeps_qualify id _) fun names => ?_
      exact keeps_qualify id _
    · exact keeps_qualify id _

end Build

namespace Bond

/-- A run is made of steps, whatever is run beside it. -/
def steps (r : Workshop → Workshop → Prop) : Bond where
  rel _ _ _ := True
  act := r
  lost _ _ _ := True
  solo := True
  rel_of_solo _ _ _ _ := trivial
  rel_of_le _ _ := trivial
  rel_after _ _ _ := trivial
  lost_of_rel _ := trivial
  lost_after _ _ := trivial

variable {α α' : Type} {r : Workshop → Workshop → Prop} {n : Nat} {Q : Nat → α → α' → Prop}

variable {m : Build α}

theorem Agree.stepwise {m' : Build α'} (h : (steps r).Agree n Q m m') : Stepwise r m := by
  intro w a w' hrun
  have hend := @h w w trivial
  rw [hrun] at hend
  exact hend.first.1

theorem agree_steps {m' : Build α'} (h : Stepwise r m)
    (hQ : ∀ a, ∃ n' a', n ≤ n' ∧ Q n' a a') : (steps r).Agree n Q m m' :=
  fun _ _ _ => .solo trivial fun a _ hrun => ⟨h hrun, hQ a⟩

theorem does_steps {m' : Build α} (h : Stepwise r m) : (steps r).Does n m m' :=
  agree_steps h fun a => ⟨n, a, Nat.le_refl n, rfl⟩

theorem makes_steps {m m' : Build BlockId} (h : Stepwise r m) : (steps r).Makes n m m' :=
  agree_steps h fun i => ⟨n + i + 1, i, by omega, rfl, Nat.lt_succ_of_le (Nat.le_add_left _ _)⟩

theorem agree_steps_pair {m m' : Build (BlockId × String)} (h : Stepwise r m) :
    (steps r).Agree n (fun n' x x' => x = x' ∧ x.1 < n') m m' :=
  agree_steps h fun x => ⟨n + x.1 + 1, x, by omega, rfl, Nat.lt_succ_of_le (Nat.le_add_left _ _)⟩

theorem hands_steps {m m' : Build (Option BlockId)} (h : Stepwise r m) : (steps r).Hands n m m' := by
  refine agree_steps h fun o => ?_
  cases o with
  | none => exact ⟨n, none, Nat.le_refl n, rfl, nofun⟩
  | some i =>
    refine ⟨n + i + 1, some i, by omega, rfl, fun j hj => ?_⟩
    exact Option.some.inj hj ▸ Nat.lt_succ_of_le (Nat.le_add_left _ _)

theorem agree_steps_block (i : BlockId) : (steps r).Agree n
    (fun n' b b' => b = b' ∧ ∀ p : Nat, b.parent = some p → p < n') (block i) (block i) := by
  refine agree_steps (keeps_block i) fun b => ?_
  refine ⟨n + b.parent.getD 0 + 1, b, by omega, rfl, fun p hp => ?_⟩
  rw [hp]
  exact Nat.lt_succ_of_le (Nat.le_add_left _ _)

namespace Lawful

variable {G : Tree → Prop} [Tree.Hereditary G] (hB : (Bond.steps r).Lawful (Kin.same G))
include hB

theorem stepwise_walk (i : Nat) {c : Cursor} (hc : c.Within G) : Stepwise r (Declaration.walk i c) :=
  (hB.visits_declaration (Kin.same_lawful G) (Nat.lt_succ_self i) (.inl ⟨rfl, hc⟩)).stepwise

end Lawful

end Bond

end Transcriber
