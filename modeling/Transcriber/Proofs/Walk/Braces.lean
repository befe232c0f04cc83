import Transcriber.Proofs.Pair.Braced
import Transcriber.Proofs.Print.Blind
import Transcriber.Proofs.Walk.Moments

/-!
# Braces around single statements

Whether the body of a control statement is a single statement or a block that holds it makes no
difference to the printed module, where `Kin.bears` says so: in branches of conditionals, in loops
and behind `else`, for statements that are no expressions and, where an empty body is filled up, have
parts; and for all statements in loops over elements.

Elsewhere it does: an expression that is the body of a loop is lost without its block.  An expression
behind `if` or `else` becomes other blocks without its block, which print the same unless it holds an
increment or decrement; `Kin.bears` leaves it out.

* `Build.walkTree_dump_braced` — the two trees give the same text, or fail alike.
* `Build.loop_loses_bare_expression` — a loop whose body is lost.
-/

namespace Transcriber

open Build Source

namespace Build

/-- How the walks over two trees end that differ in blocks around single statements: both fail for
the same reason, or both succeed with the same blocks. -/
theorem walkTree_braced (w : Workshop) (name : Option String) (program : Program) {t t' : Tree}
    (h : t.Braced t') {tokens tokens' : List Lexeme} (hsilent : Trail.Silent { tokens })
    (hsilent' : Trail.Silent { tokens := tokens' }) :
    (∃ failure v v', walkTree 0 t tokens (w.opened name program) = .error failure v
        ∧ walkTree 0 t' tokens' (w.opened name program) = .error failure v')
      ∨ ∃ v v', walkTree 0 t tokens (w.opened name program) = .ok () v
        ∧ walkTree 0 t' tokens' (w.opened name program) = .ok () v'
        ∧ v' = { v with report := v'.report, trail := v'.trail } := by
  have hB : (Bond.tandem true).Lawful _ := Bond.tandem_lawful Kin.braces_lawful fun _ _ _ => rfl
  have hrel : Tandem true _ _ _ := w.opened_tandem name program ⟨hsilent, hsilent'⟩
  have hend := hB.visits_declaration Kin.braces_lawful Nat.one_pos (.inl (.root h)) hrel
  have hrun (t : Tree) (tokens : List Lexeme) : walkTree 0 t tokens (w.opened name program)
      = Declaration.walk 0 (.ofTree t) { w.opened name program with trail := { tokens } } := rfl
  rw [hrun, hrun]
  change Bond.Outcome _ _ _ _ (Declaration.walk 0 (.ofTree t) _) (Declaration.walk 0 (.ofTree t') _) at hend
  generalize Declaration.walk 0 (.ofTree t) _ = r, Declaration.walk 0 (.ofTree t') _ = r' at hend
  cases hend with
  | ok _ hrel _ _ => exact .inr ⟨_, _, rfl, rfl, hrel.same⟩
  | error _ => exact .inl ⟨_, _, _, rfl, rfl⟩
  | solo h => exact h.elim

/-- **Braces around a single statement do not matter** where the statement stands as the body of a
control statement that bears a block around it: the walks over both trees end alike, and so does
printing the module after them.  There are no comments among the tokens. -/
theorem walkTree_dump_braced (w : Workshop) (name : Option String) (program : Program) (t t' : Tree)
    (h : t.Braced t') (tokens tokens' : List Lexeme) (hsilent : Trail.Silent { tokens })
    (hsilent' : Trail.Silent { tokens := tokens' }) :
    answer (walkTree 0 t tokens (w.opened name program))
        = answer (walkTree 0 t' tokens' (w.opened name program))
      ∧ ∀ level, answer ((do walkTree 0 t tokens; dump level 0) (w.opened name program))
        = answer ((do walkTree 0 t' tokens'; dump level 0) (w.opened name program)) := by
  rcases walkTree_braced w name program h hsilent hsilent' with
    ⟨failure, v, v', hwalk, hwalk'⟩ | ⟨v, v', hwalk, hwalk', hsame⟩
  · refine ⟨by rw [hwalk, hwalk']; rfl, fun level => ?_⟩
    rw [bind_of_error hwalk, bind_of_error hwalk']
    rfl
  · refine ⟨by rw [hwalk, hwalk']; rfl, fun level => ?_⟩
    rw [bind_of_ok hwalk, bind_of_ok hwalk']
    exact (blind_dump level 0).answer_eq hsame

end Build

/-! ## Two texts -/

namespace Source.Tree

/-- A block around a single statement. -/
def inBlock (t : Tree) : Tree := .node { kind := .blockScope } [t]

def nameExpr (name : String) : Tree := .node { kind := .expr } [.node { kind := .ident, text := name } []]

/-- The assignment of one name to another, as a statement. -/
def assignExpr (target value : String) : Tree :=
  .node { kind := .expr } [.node { kind := .assign, text := "=" }
    [.node { kind := .ident, text := target } [], .node { kind := .ident, text := value } []]]

def conditionExpr (name : String) : Tree := .node { kind := .parenthesizedExpr } [nameExpr name]

def methodText (statements : List Tree) : Tree :=
  .node { kind := .compilationUnit } [.node { kind := .classWord, text := "class" }
    [.node { kind := .ident, text := "A" } [], .node { kind := .classTopLevelScope }
      [.node { kind := .voidMethodDecl } [.node { kind := .ident, text := "m" } [],
        .node { kind := .formalParamList } [], .node { kind := .blockScope } statements]]]]

/-- A text with control statements whose bodies are single statements. -/
def bareBodies (around : Tree → Tree) : Tree :=
  methodText [.node { kind := .ifWord, text := "if" } [conditionExpr "c",
      around (.node { kind := .returnWord, text := "return" } []),
      around (.node { kind := .throwWord, text := "throw" } [nameExpr "e"])],
    .node { kind := .forEach, text := "for" } [.node { kind := .modifierList } [],
      .node { kind := .typeRef } [], .node { kind := .ident, text := "x" } [], nameExpr "xs",
      around (assignExpr "y" "x")],
    .node { kind := .whileWord, text := "while" } [conditionExpr "c",
      around (.node { kind := .returnWord, text := "return" } [nameExpr "y"])]]

/-- A text with a loop whose body is an expression. -/
def bareLoop (around : Tree → Tree) : Tree :=
  methodText [.node { kind := .whileWord, text := "while" } [conditionExpr "c", around (assignExpr "x" "y")]]

/-- A text with a conditional whose branches are expressions. -/
def bareBranches (around : Tree → Tree) : Tree :=
  methodText [.node { kind := .ifWord, text := "if" }
    [conditionExpr "c", around (assignExpr "x" "y"), around (assignExpr "y" "x")]]

/-- A node and its children are the same, but for blocks around single statements, if this holds of
the children. -/
theorem Braced.of_plain {head : Head} {children children' : List Tree}
    (hkind : head.kind ≠ .forEach) (hkind' : head.kind ≠ .annotationMethodDecl)
    (h : List.Forall₂ Braced children children') :
    Braced (.node head children) (.node head children') := by
  have hall : ∀ n, BracedAll head.kind n children children' := by
    induction h with
    | nil => exact fun _ => .nil
    | cons h _ ih => exact fun n => .cons (.plain h) (ih (n + 1))
  exact .node head ⟨fun h => absurd h hkind, fun h => absurd h hkind'⟩ (hall 0)

/-- A tree without loops over elements and without annotation types is the same as itself. -/
theorem braced_refl : ∀ t : Tree,
    t.Every (fun head => head.kind ≠ .forEach ∧ head.kind ≠ .annotationMethodDecl) → t.Braced t
  | .node _ children, h => by
      refine .of_plain h.head.1 h.head.2 (List.forall₂_same.2 fun t ht => ?_)
      exact braced_refl t (h.child ht)

theorem braced_bareBodies : (bareBodies id).Braced (bareBodies inBlock) := by
  have hname (name : String) : (nameExpr name).Braced (nameExpr name) := braced_refl _ (by simp [nameExpr])
  have hcondition (name : String) : (conditionExpr name).Braced (conditionExpr name) :=
    braced_refl _ (by simp [conditionExpr, nameExpr])
  have hassign (x y : String) : (assignExpr x y).Braced (assignExpr x y) :=
    braced_refl _ (by simp [assignExpr])
  have hleaf (head : Head) (h : head.kind ≠ .forEach ∧ head.kind ≠ .annotationMethodDecl) :
      (Tree.node head []).Braced (.node head []) :=
    braced_refl _ (by simpa using h)
  have hone (head : Head) (h : head.kind ≠ .forEach ∧ head.kind ≠ .annotationMethodDecl)
      (name : String) : (Tree.node head [nameExpr name]).Braced (.node head [nameExpr name]) :=
    .of_plain h.1 h.2 (.cons (hname name) .nil)
  refine .of_plain (by decide) (by decide) (.cons (.of_plain (by decide) (by decide) ?_) .nil)
  refine .cons (hleaf _ (by decide)) (.cons (.of_plain (by decide) (by decide) ?_) .nil)
  refine .cons (.of_plain (by decide) (by decide) ?_) .nil
  refine .cons (hleaf _ (by decide)) (.cons (hleaf _ (by decide)) (.cons ?_ .nil))
  refine .of_plain (by decide) (by decide) (.cons ?_ (.cons ?_ (.cons ?_ .nil)))
  · refine .node _ ⟨by nofun, by nofun⟩ ?_
    refine .cons (.plain (hcondition "c")) (.cons ?_ (.cons ?_ .nil))
    · exact .block _ rfl (by decide) rfl (hleaf _ (by decide))
    · exact .block _ rfl (by decide) rfl (hone _ (by decide) "e")
  · refine .node _ ⟨fun _ => ⟨nameExpr "xs", rfl, rfl⟩, by nofun⟩ ?_
    refine .cons (.plain (hleaf _ (by decide))) (.cons (.plain (hleaf _ (by decide))) ?_)
    refine .cons (.plain (hleaf _ (by decide))) (.cons (.plain (hname "xs")) (.cons ?_ .nil))
    exact .block _ rfl (by decide) rfl (hassign "y" "x")
  · refine .node _ ⟨by nofun, by nofun⟩ ?_
    refine .cons (.plain (hcondition "c")) (.cons ?_ .nil)
    exact .block _ rfl (by decide) rfl (hone _ (by decide) "y")

end Source.Tree

namespace Build

/-- The control statements of a text may have their bodies in blocks or not; the text is printed in
either case. -/
theorem bareBodies_dump_braced :
    (Tree.bareBodies id).Braced (Tree.bareBodies Tree.inBlock)
      ∧ ∃ text, answer ((do walkTree 0 (Tree.bareBodies id) []; dump (-1) 0)
          (({ config := .standard } : Workshop).opened (some "A") {})) = .ok text
        ∧ answer ((do walkTree 0 (Tree.bareBodies Tree.inBlock) []; dump (-1) 0)
          (({ config := .standard } : Workshop).opened (some "A") {})) = .ok text := by
  have hsame := (walkTree_dump_braced { config := .standard } (some "A") {} _ _
    Tree.braced_bareBodies [] [] (by nofun) (by nofun)).2 (-1)
  have hprinted : (answer ((do walkTree 0 (Tree.bareBodies id) []; dump (-1) 0)
      (({ config := .standard } : Workshop).opened (some "A") {}))).isOk = true := by
    decide +kernel
  refine ⟨Tree.braced_bareBodies, ?_⟩
  rw [← hsame]
  generalize answer ((do walkTree 0 (Tree.bareBodies id) []; dump (-1) 0)
    (({ config := .standard } : Workshop).opened (some "A") {})) = result at hprinted
  cases result with
  | error failure => cases hprinted
  | ok text => exact ⟨text, rfl, rfl⟩

/-- Without a block around it, the body of a loop is lost: the printed module ends with the first
line of the loop. -/
theorem loop_loses_bare_expression :
    (answer ((do walkTree 0 (Tree.bareLoop id) []; dump (-1) 0)
        (({ config := .standard } : Workshop).opened (some "A") {}))).toOption
      = some ("#!/usr/bin/env python\n\"\"\" generated source for module A \"\"\"\n"
        ++ "from __future__ import print_function\n"
        ++ "class A(object):\n    \"\"\" generated source for class A \"\"\"\n"
        ++ "    def m(self):\n        \"\"\" generated source for method m \"\"\"\n"
        ++ "        while c:\n")
    ∧ (answer ((do walkTree 0 (Tree.bareLoop Tree.inBlock) []; dump (-1) 0)
        (({ config := .standard } : Workshop).opened (some "A") {}))).toOption
      = some ("#!/usr/bin/env python\n\"\"\" generated source for module A \"\"\"\n"
        ++ "from __future__ import print_function\n"
        ++ "class A(object):\n    \"\"\" generated source for class A \"\"\"\n"
        ++ "    def m(self):\n        \"\"\" generated source for method m \"\"\"\n"
        ++ "        while c:\n            x = y\n") := by
  decide +kernel

example : answer ((do walkTree 0 (Tree.bareBranches id) []; dump (-1) 0)
      (({ config := .standard } : Workshop).opened (some "A") {}))
    = answer ((do walkTree 0 (Tree.bareBranches Tree.inBlock) []; dump (-1) 0)
      (({ config := .standard } : Workshop).opened (some "A") {})) := by
  decide +kernel

end Build

end Transcriber
