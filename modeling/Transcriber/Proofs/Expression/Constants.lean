import Mathlib.Algebra.Order.BigOperators.Group.List
import Mathlib.Algebra.Order.Group.Nat
import Transcriber.Proofs.Expression.Calls

/-!
# Constants of enumerations

A constant with arguments becomes a line behind its enumeration, which calls the enumeration.  The arguments are
looked for at any depth below the list, so an expression inside an argument is written as one more argument.

* `constant_line` — the main statement.
-/

namespace Transcriber

open Build Source Expression Declaration

namespace Source.Cursor

variable {c : Cursor}

theorem below_eq (c : Cursor) :
    below c.above c.tree = c.children.flatMap fun d => d :: below d.above d.tree := by
  obtain ⟨⟨head, children⟩, above⟩ := c
  have hall (ts : List Tree) (above : List Tree) :
      belowAll above ts = (ts.map (⟨·, above⟩)).flatMap fun d => d :: below d.above d.tree := by
    induction ts with
    | nil => rfl
    | cons t ts ih => rw [belowAll, ih]; rfl
  exact hall children _

theorem descendantsOf_eq {kind : Kind} (h : ∀ d ∈ c.children, d.kind = kind) :
    c.descendantsOf kind = c.children.flatMap fun d => d :: d.descendantsOf kind := by
  rw [descendantsOf, below_eq, List.filter_flatMap]
  refine List.flatMap_congr fun d hd => ?_
  rw [List.filter_cons_of_pos (by simpa using h d hd)]
  rfl

/-- The children are all there is below a node if and only if there is nothing below them. -/
theorem descendantsOf_eq_children_iff {kind : Kind} (h : ∀ d ∈ c.children, d.kind = kind) :
    c.descendantsOf kind = c.children ↔ ∀ d ∈ c.children, d.descendantsOf kind = [] := by
  rw [descendantsOf_eq h]
  refine ⟨fun heq => ?_, fun hnone => ?_⟩
  · have hlength := congrArg List.length heq
    simpa [List.length_flatMap, List.sum_map_add, List.sum_eq_zero_iff] using hlength
  · rw [List.flatMap_congr fun d hd => by rw [hnone d hd]]
    simp

theorem mem_descendantsOf_of_child? {kind : Kind} {d : Cursor} (h : c.child? kind = some d) :
    d ∈ c.descendantsOf kind := by
  rw [descendantsOf, below_eq]
  exact List.mem_filter.2
    ⟨List.mem_flatMap.2 ⟨d, List.mem_of_find?_eq_some h, .head _⟩, (List.find?_some h :)⟩

end Source.Cursor

variable {w : Workshop}

/-- An expression that nothing encloses leaves the others alone. -/
theorem Holds.madeLoose {id : Nat} {s : Scope} {e : Expr} (h : Holds w id s e) (e' : Expr) (ht : e'.tail = "") :
    ∃ w', looseExpr e' w = .ok w.blocks.size w' ∧ Within (· = id) w w' ∧ w'.blocks.size = w.blocks.size + 1
      ∧ Holds w' id s e ∧ Holds w' w.blocks.size .loose e' := by
  obtain ⟨w', hrun, hwithin, hsize, hnew⟩ := h.calm.made e' ht
  exact ⟨w', hrun, hwithin.mono fun _ hj => hj.elim, hsize, h.frame hwithin not_false, hnew⟩

variable {id p : Nat} {b : Block} {s : Scope} {c list : Cursor} {texts : List String}

/-- A constant with arguments becomes a line that calls its enumeration.  The arguments there are all
expressions below the list of arguments, and these are its own arguments if and only if none of them holds
another expression. -/
theorem constant_line (hcalm : Calm w) (hb : w.blocks[id]? = some b) (hp : b.parent = some p)
    (hscope : InScope w p s) (hlist : c.child? .argumentList = some list)
    (hwhole : ∀ d ∈ list.children, d.kind = .expr)
    (htexts : List.Forall₂ (fun d => SaidAs d.tree) (list.descendantsOf .expr) texts) (handler : Value)
    (index : Nat) :
    (∃ w', constant handler id index c w = .ok () w' ∧ source w.blocks.size w' = .ok
      (Handler.nameText b.name ++ "." ++ c.text ++ " = " ++ Handler.nameText b.name
        ++ "(" ++ ", ".intercalate texts ++ ")") w')
      ∧ (list.descendantsOf .expr = list.children ↔ ∀ d ∈ list.children, d.descendantsOf .expr = []) := by
  refine ⟨?_, Cursor.descendantsOf_eq_children_iff hwhole⟩
  have hplain : ∀ d ∈ list.descendantsOf .expr, d.EveryBelow Plain :=
    ((List.forall₂_and_left _ _).1 (htexts.imp fun _ _ h => ⟨h.plain, h⟩)).1
  have hkinds : ∀ d ∈ list.descendantsOf .expr, d.kind = .expr := fun d hd => by
    simpa using (List.mem_filter.1 hd).2
  obtain ⟨l, r, left, right, hrow, hl, hr, hjoined⟩ := writeRow_arguments
    (((List.forall₂_and_left _ _).2 ⟨hkinds, htexts⟩).imp fun d _ hd => hd.2.whole hd.1 d.above)
  obtain ⟨hwithin1, hline1⟩ := hcalm.inside hscope
    { left := .text (Handler.nameText b.name ++ "." ++ c.text ++ " = " ++ Handler.nameText b.name) } rfl
  have hsize1 := hline1.lt_size
  obtain ⟨w2, hrun2, hwithin2, hsize2, hline2, hlist2⟩ :=
    hline1.madeLoose { template := "(" ++ Slot.both ++ ")" } rfl
  obtain ⟨w3, hrun3, hwithin3, hsize3, hline3⟩ := hline2.changed (fun e => { e with right := .block _ }) rfl
  have hnil (n : Nat) : constantArguments n [] = pure () := rfl
  have hyields := yields_chain performs_walk Holds.madeLoose hnil (fun _ _ _ => rfl) hplain hline3
    (hlist2.frame hwithin3 (by omega)) (by omega)
  rw [hrow] at hyields
  obtain ⟨_, w4, hrun4, hwithin4, hline4, hspells4⟩ := hyields
  refine ⟨w4, ?_, ?_⟩
  · have hsome : (c.descendantsOf .argumentList).isEmpty = false :=
      List.isEmpty_eq_false_iff_exists_mem.2 ⟨list, Cursor.mem_descendantsOf_of_child? hlist⟩
    unfold constant
    rw [bind_of_ok (block_apply w id hb), hsome, hp, hlist]
    exact (bind_of_ok (expr_apply w _ _)).trans ((bind_of_ok hrun2).trans ((bind_of_ok hrun3).trans hrun4))
  · refine ((hline4.shows (P := fun j => j ≠ w.blocks.size) (by simp) (spells_text _) (hspells4.mono ?_)).spells
      (Q := fun _ => True) (fun _ _ => trivial) trivial).printed ?_
    · rintro j (rfl | ⟨hle, -⟩)
      · omega
      · omega
    · have hlistText := (Doc.text_node hl hr).trans (Slot.filled_parentheses left right)
      refine (Doc.text_node rfl hlistText).trans ?_
      rw [Slot.filled_both, hjoined]
      simp [String.append_assoc]

open Source.Tree

/-- A module with an enumeration. -/
def enumWorkshop : Workshop where
  config := .standard
  blocks := #[{ form := .program {}, name := some "M", children := [1] },
    { form := .enumeration, name := some "E", parent := some 0 }]

/-- The argument `1`. -/
def oneTree : Tree := exprTree (.node { kind := .decimalLiteral, text := "1" } [])

/-- The arguments of the constant `RED(f(1))`. -/
def nestedArguments : Tree :=
  argumentsTree [exprTree (.node { kind := .methodCall } [nameTree "f", argumentsTree [oneTree]])]

/-- The number inside the call is written once more. -/
theorem constant_line_nested :
    let c : Cursor := .ofTree (.node { kind := .ident, text := "RED" } [nestedArguments])
    let list : Cursor := ⟨nestedArguments, [c.tree]⟩
    (∃ w', constant .none 1 0 c enumWorkshop = .ok () w' ∧ source 2 w' = .ok "E.RED = E(f(1), 1)" w')
      ∧ list.descendantsOf .expr ≠ list.children := by
  intro c list
  have hone : SaidAs oneTree "1" := .expression rfl (.literal rfl)
  have hcall : IsCall (.node { kind := .methodCall } [nameTree "f", argumentsTree [oneTree]]) _ _ :=
    isCall_node nofun (by decide)
  have htexts : List.Forall₂ (fun d : Cursor => SaidAs d.tree) (list.descendantsOf .expr)
      ["f" ++ "(" ++ ", ".intercalate ["1"] ++ ")", "1"] :=
    .cons (.expression rfl (hcall.said (.name rfl) (.cons hone .nil))) (.cons hone .nil)
  have hscope : InScope enumWorkshop 0 (.of [{ form := .program {}, name := some "M", children := [1] }]) :=
    ⟨_, .root rfl rfl, rfl⟩
  have hb : enumWorkshop.blocks[1]? = some { form := .enumeration, name := some "E", parent := some 0 } := rfl
  have hlist : c.child? .argumentList = some list := rfl
  obtain ⟨⟨w', hrun, htext⟩, hown⟩ := constant_line ⟨rfl, rfl⟩ hb rfl hscope hlist (by decide) htexts .none 0
  refine ⟨⟨w', hrun, htext.trans ?_⟩, fun heq => ?_⟩
  · exact congrArg (EStateM.Result.ok · w') (by decide)
  · exact List.cons_ne_nil _ _ (hown.1 heq _ (.head _))

end Transcriber
