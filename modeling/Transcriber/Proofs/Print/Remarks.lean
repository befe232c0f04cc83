import Transcriber.Proofs.Print.Moved
import Transcriber.Walk.Declaration

/-!
# Comments that are moved out of types

Comments are expressions.  A comment that has the name of its type with a dot is moved to the end of the module
as code is, behind that name; the other comments of the type stay, in their order.

* `comments_stay_iff` — when all comments stay.
-/

namespace Transcriber

open Build List Workshop Handler Source

namespace Workshop

/-- Whether a block is an expression whose text has the name of a type with a dot. -/
def mentions (w : Workshop) (text : BlockId → String) (name : String) (c : BlockId) : Bool :=
  w.blocks[c]?.any (·.isExpression) && Value.occursIn (name ++ ".").toList (text c).toList

def isComment (w : Workshop) (c : BlockId) : Bool := w.blocks[c]?.any (·.isComment)

theorem isExpression_of_isComment {w : Workshop} {c : BlockId} (h : w.isComment c = true) :
    w.blocks[c]?.any (·.isExpression) = true := by
  obtain ⟨b, hb, hcomment⟩ := (Option.any_eq_true _ _).1 h
  rw [hb, Option.any_some]
  unfold Block.isComment at hcomment
  cases hform : b.form <;> simp_all [Block.isExpression, Form.expr?]

/-- The move of an expression that mentions a type. -/
def move? (w : Workshop) (text : BlockId → String) (id : BlockId) (name : String) (c : BlockId) : Option Move :=
  if w.mentions text name c then some ⟨id, name, c, text c⟩ else none

theorem map_child_move? (w : Workshop) (text : BlockId → String) (id : BlockId) (name : String)
    (children : List BlockId) :
    (children.filterMap (w.move? text id name)).map Move.child = children.filter (w.mentions text name) := by
  rw [map_filterMap, ← filterMap_eq_filter]
  refine filterMap_congr fun c _ => ?_
  unfold move?
  cases hc : w.mentions text name c <;> simp [Option.guard, hc]

end Workshop

theorem diff_filter (p : BlockId → Bool) (xs : List BlockId) : xs.diff (xs.filter p) = xs.filter fun x => !p x := by
  induction xs with
  | nil => rfl
  | cons x xs ih =>
    cases hx : p x with
    | true => simpa [hx] using ih
    | false =>
      have hout : x ∉ xs.filter p := fun h => Bool.false_ne_true (hx.symm.trans (mem_filter.1 h).2)
      simpa [hx, cons_diff_of_not_mem hout] using ih

/-- What is left of a type when its expressions have been moved. -/
theorem Handler.moveStaticsOf_filter {w : Workshop} {texts : Fill.Texts} {text : BlockId → String} {id home : BlockId}
    {b : Block} (hb : w.blocks[id]? = some b) (hclass : b.isClass = true)
    (hhome : w.enclosing? id (·.isModule) = some home)
    (hread : ∀ c ∈ b.children, ∃ k, w.blocks[c]? = some k
      ∧ (k.isExpression = true → texts.output c w = .ok (text c) w)) :
    ∃ w' b', moveStaticsOf texts id w = .ok () w' ∧ w'.blocks[id]? = some b'
      ∧ b'.children = b.children.filter (fun c => !w.mentions text (nameText b.name) c) := by
  have hmodule : w.HasModule home := (Option.any_eq_true _ _).1 (find?_some (p := fun i => w.blocks[i]?.any _) hhome)
  have hmoves : moveStaticsOf texts id w
      = .ok () (w.moveAll home (b.children.filterMap (w.move? text id (nameText b.name)))) := by
    refine moveStaticsOf_of_asked (k := fun c => c) hb (map_id' _).symm (fun c hc => ?_) (fun c v hv => ?_) hhome
      hmodule.lt_size
    · -- Only the text of an expression is asked for.
      obtain ⟨k, hk, htext⟩ := hread c hc
      rw [bind_of_ok (block_apply w c hk), move?, mentions, hk, Option.any_some]
      cases hexpr : k.isExpression with
      | false => rfl
      | true =>
        refine (bind_of_ok (htext hexpr)).trans (congrArg (EStateM.Result.ok · w) ?_)
        rw [Bool.true_and]
        split <;> simp_all
    · obtain ⟨-, ⟨⟩⟩ := Option.ite_none_right_eq_some.1 hv
      exact ⟨rfl, rfl, rfl⟩
  refine ⟨_, _, hmoves, moveAll_owner hb (hmodule.ne_class hb hclass) fun v hv => ?_, ?_⟩
  · obtain ⟨c, -, hc⟩ := mem_filterMap.1 hv
    obtain ⟨-, ⟨⟩⟩ := Option.ite_none_right_eq_some.1 hc
    rfl
  · exact (congrArg b.children.diff (map_child_move? ..)).trans (diff_filter _ _)

/-- All comments of a type are left in it, in their order, if and only if none of them has the name of the type with
a dot. -/
theorem comments_stay_iff {w : Workshop} {texts : Fill.Texts} {text : BlockId → String} {id home : BlockId} {b : Block}
    (hb : w.blocks[id]? = some b) (hclass : b.isClass = true) (hhome : w.enclosing? id (·.isModule) = some home)
    (hread : ∀ c ∈ b.children, ∃ k, w.blocks[c]? = some k
      ∧ (k.isExpression = true → texts.output c w = .ok (text c) w)) :
    ∃ w' b', moveStaticsOf texts id w = .ok () w' ∧ w'.blocks[id]? = some b'
      ∧ b'.children = b.children.filter (fun c => !w.mentions text (nameText b.name) c)
      ∧ (b'.children.filter w.isComment = b.children.filter w.isComment ↔ ∀ c ∈ b.children, w.isComment c = true →
        Value.occursIn (nameText b.name ++ ".").toList (text c).toList = false) := by
  obtain ⟨w', b', hmoves, hb', hleft⟩ := moveStaticsOf_filter hb hclass hhome hread
  refine ⟨w', b', hmoves, hb', hleft, ?_⟩
  rw [hleft]
  constructor
  · intro hsame c hc hcomment
    have hstays := (mem_filter.1 (mem_filter.1 (hsame.symm ▸ mem_filter.2 ⟨hc, hcomment⟩)).1).2
    simpa [mentions, isExpression_of_isComment hcomment] using hstays
  · intro hnone
    rw [filter_filter]
    refine filter_congr fun c hc => ?_
    cases hcomment : w.isComment c with
    | false => rfl
    | true => rw [mentions, hnone c hc hcomment, Bool.and_false]; rfl

/-- A type `A` with two comments. -/
def remarkedWorkshop : Workshop where
  config := .standard
  blocks := #[{ form := .program {}, name := some "M", children := [1] },
    { form := .plainClass, name := some "A", parent := some 0, children := [2, 3] },
    { form := .comment { left := .text "# ", right := .text "see A.x" }, parent := some 1 },
    { form := .comment { left := .text "# ", right := .text "see B.x" }, parent := some 1 }]

def remarks (c : BlockId) : String := if c = 2 then "# see A.x" else "# see B.x"

/-- The comment that has the name of the type with a dot is moved, the other one stays. -/
theorem comments_stay_iff_remarked :
    ∃ w' b', moveStaticsOf (Printer.forLevels 1).texts 1 remarkedWorkshop = .ok () w' ∧ w'.blocks[1]? = some b'
      ∧ b'.children = [3] := by
  have hread : ∀ c ∈ [2, 3], ∃ k, remarkedWorkshop.blocks[c]? = some k ∧ (k.isExpression = true →
      (Printer.forLevels 1).texts.output c remarkedWorkshop = .ok (remarks c) remarkedWorkshop) := by
    intro c hc
    rcases mem_pair.1 hc with rfl | rfl
    · exact ⟨_, rfl, fun _ => rfl⟩
    · exact ⟨_, rfl, fun _ => rfl⟩
  have hb : remarkedWorkshop.blocks[1]? = some _ := rfl
  obtain ⟨w', b', hmoves, hb', hleft, -⟩ := comments_stay_iff hb rfl rfl hread
  exact ⟨w', b', hmoves, hb', hleft.trans (by decide +kernel)⟩

/-- What is printed for a text: the lines of its module. -/
def printed (tree : Tree) (tokens : List Lexeme) : Option String :=
  given ((do walkTree 0 tree tokens; dump (-1) 0)
    { config := .standard, blocks := #[{ form := .program {}, name := some "A" }] })

/-- The first lines of a module with a type. -/
def printedTop : String :=
  "#!/usr/bin/env python\n\"\"\" generated source for module A \"\"\"\n"
    ++ "from __future__ import print_function\n"
    ++ "class A(object):\n    \"\"\" generated source for class A \"\"\"\n"

/-- The comment `// see A.x` is moved out of the type `A`, and stands behind its name. -/
theorem comment_moved_as_code :
    printed (.node { kind := .compilationUnit } [.node { kind := .classWord, text := "class" }
        [.node { kind := .ident, text := "A" } [], .node { kind := .classTopLevelScope, stop := 2 } []]])
      [⟨.classWord, "class", 1⟩, ⟨.lineComment, "// see A.x", 2⟩, ⟨.rcurly, "\x7d", 3⟩]
      = some (printedTop ++ "\nA.#  see A.x\n") := by
  decide +kernel

end Transcriber
