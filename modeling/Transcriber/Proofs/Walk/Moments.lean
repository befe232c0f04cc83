import Transcriber.Proofs.Pair.Declaration
import Transcriber.Proofs.Pair.Tandem

/-!
# The blocks are a forest at every moment

A walk over a whole text, with a module that is still empty, is a sequence of acts on blocks, whether
it succeeds or fails in the end.  A chronicle of the walk has the blocks as they were after each act; all
of them are forests.

* `Build.walkTree_moments_forest` — the moments of a walk.
-/

namespace Transcriber

open Build Relation Source

/-- A workshop with the standard settings and an empty module, the only block there has ever been. -/
def Workshop.opened (w : Workshop) (name : Option String) (program : Program) : Workshop :=
  { w with
    config := .standard
    blocks := #[{ form := .program program, name }]
    moments := [#[{ form := .program program, name }]] }

section

variable (w : Workshop) (name : Option String) (program : Program)

theorem Workshop.opened_get {i : BlockId}
    {b : Block} (hb : (w.opened name program).blocks[i]? = some b) :
    i = 0 ∧ b = { form := .program program, name } := by
  obtain ⟨hlt, hget⟩ := Array.getElem?_eq_some_iff.1 hb
  obtain rfl : i = 0 := Nat.lt_one_iff.1 hlt
  exact ⟨rfl, hget.symm⟩

theorem Workshop.opened_grove : (w.opened name program).Grove := by
  have hparent : ∀ x, (w.opened name program).parentOf x = none := by
    intro x
    rw [Option.eq_none_iff_forall_ne_some]
    intro p hp
    obtain ⟨b, hb, hbp⟩ := Option.bind_eq_some_iff.1 hp
    rw [(opened_get w name program hb).2] at hbp
    cases hbp
  have hchildren : ∀ p, (w.opened name program).childrenOf p = [] := by
    intro p
    rw [childrenOf]
    cases hb : (w.opened name program).blocks[p]? with
    | none => rfl
    | some b =>
      rw [(opened_get w name program hb).2]
      rfl
  refine ⟨fun x p hx => ?_, fun p x hx => ?_, fun p => ?_⟩
  · rw [hparent] at hx
    cases hx
  · rw [hchildren] at hx
    cases hx
  · rw [hchildren]
    exact List.nodup_nil

theorem Workshop.opened_lined : (w.opened name program).Lined := by
  intro i b hb line hline
  obtain ⟨rfl, rfl⟩ := opened_get w name program hb
  cases hline

/-- Walks that begin with an empty module run in tandem. -/
theorem Workshop.opened_tandem {quiet : Bool}
    {trail trail' : Trail} (h : if quiet then trail.Silent ∧ trail'.Silent else trail' = trail) :
    Tandem quiet 1 { w.opened name program with trail } { w.opened name program with trail := trail' } :=
  ⟨Nat.le_refl 1, rfl, rfl, h, opened_grove { w with trail } name program,
    opened_lined { w with trail } name program⟩

end

namespace Build

def ending {α : Type} : EStateM.Result Failure Workshop α → Workshop
  | .ok _ w => w
  | .error _ w => w

theorem walkTree_acts [Chronicle] (w : Workshop) (name : Option String) (program : Program) (tree : Tree)
    (tokens : List Lexeme) :
    Acts (w.opened name program) (ending (walkTree 0 tree tokens (w.opened name program))) := by
  have hK := Kin.same_lawful fun _ => True
  have hB : (Bond.tandem false).Lawful _ := Bond.tandem_lawful hK nofun
  set start : Workshop := { w.opened name program with trail := { tokens } } with hstart
  have hrel : Tandem false 1 start start := w.opened_tandem name program rfl
  have hend := hB.visits_declaration hK Nat.one_pos
    (.inl ⟨rfl, Cursor.within_ofTree (t := tree) trivial⟩) hrel
  have hrun : walkTree 0 tree tokens (w.opened name program) = Declaration.walk 0 (.ofTree tree) start := rfl
  refine .head (.aside _ start rfl rfl) ?_
  rw [hrun]
  generalize Declaration.walk 0 (.ofTree tree) start = r at hend
  cases hend with
  | ok _ _ hacts _ => exact hacts
  | error hlost => exact hlost
  | solo h => exact h.elim

theorem opened_chronicled [Chronicle] (w : Workshop) (name : Option String) (program : Program) :
    (w.opened name program).Chronicled where
  groves _ hv := (w.opened_grove name program).of_blocks (List.mem_singleton.1 hv)
  chain := .singleton _
  last _ := rfl

/-- A walk of which a full chronicle is kept. -/
def chronicledWalk (tree : Tree) (tokens : List Lexeme) : Build Unit := @walkTree ⟨true⟩ 0 tree tokens

/-- The blocks are a forest at every moment of a walk that begins with an empty module, up to its end in
success or in failure.  The chronicle of the walk has the blocks after each act on them, the last moment
first; each moment comes from the one before by one act, and each is a forest.  Without a chronicle the
walk ends with a forest as well. -/
theorem walkTree_moments_forest (w : Workshop) (name : Option String) (program : Program)
    (tree : Tree) (tokens : List Lexeme) :
    (∀ v, v = ending (chronicledWalk tree tokens (w.opened name program)) →
        v.moments.head? = some v.blocks
          ∧ v.moments.IsChain (@Advances ⟨true⟩)
          ∧ ∀ u : Workshop, u.blocks ∈ v.moments → u.IsForest)
      ∧ (ending (walkTree 0 tree tokens (w.opened name program))).IsForest := by
  have hgrove := w.opened_grove name program
  refine ⟨?_, ((walkTree_acts w name program tree tokens).grove hgrove).isForest⟩
  rintro v rfl
  let _ : Chronicle := ⟨true⟩
  have hchronicle := (walkTree_acts w name program tree tokens).chronicled hgrove (opened_chronicled w name program)
  exact ⟨hchronicle.last rfl, hchronicle.chain, fun u hu => (hchronicle.groves u hu).isForest⟩

end Build

end Transcriber
