import Transcriber.Proofs.Expression.Written

/-!
# Clauses

Statements hold expressions: conditions, values, steps.  Each of them is visited by an expression that
has a place for it, its right operand.

* `Expression.Clause.outcome` — a clause is said, unless it is stuck.
-/

namespace Transcriber

open Source

namespace Expression

/-- A node that an expression visits gives it a right operand with a text, and changes nothing else
about it. -/
def SaysIn (s : Scope) (c : Cursor) (text : String) : Prop :=
  ∃ doc : Doc, (∀ sheet, write s c sheet = .ok { sheet with right := doc }) ∧ doc.text? = some text

/-- The expressions that statements hold: bare, in parentheses, or in a part of the head of a loop. -/
inductive Clause : Tree → Prop
  | bare {t u : Tree} (hkind : t.kind = .expr) (hchildren : t.children = [u])
      (hspeaking : u.kind ∈ speakingKinds) (h : Sound u) : Clause t
  | parenthesized {t u : Tree} (hkind : t.kind = .parenthesizedExpr) (hchildren : t.children = [u])
      (h : Clause u) : Clause t
  | framed {t u : Tree} (hkind : t.kind ∈ [Kind.forCondition, .forUpdate])
      (hchildren : t.children = [u]) (h : Clause u) : Clause t

theorem Clause.children_ne_nil {t : Tree} (h : Clause t) : t.children.isEmpty = false := by
  cases h with
  | bare _ hchildren _ _ => rw [hchildren]; rfl
  | parenthesized _ hchildren _ => rw [hchildren]; rfl
  | framed _ hchildren _ => rw [hchildren]; rfl

/-- A text that can stand on a line. -/
structure Worded (text : String) : Prop where
  neat : Neat text
  ne_empty : text ≠ ""

instance (text : String) : Decidable (Worded text) :=
  decidable_of_iff (Neat text ∧ text ≠ "") ⟨fun h => ⟨h.1, h.2⟩, fun h => ⟨h.1, h.2⟩⟩

section

variable {s : Scope} {loose : Bool} {t u : Tree} {above : List Tree}

theorem children_eq_singleton (h : t.children = [u]) : (Cursor.mk t above).children = [⟨u, t :: above⟩] :=
  children_eq_map above h

/-- A node that does nothing but visit an only child. -/
theorem write_of_here {sheet : Sheet} {d : Cursor} {c : Cursor}
    (h : writeAccept write s c sheet = .ok (.here sheet)) (hd : c.children = [d]) :
    write s c sheet = write s d sheet := by
  rw [write_eq, writeVisit_of_here h, hd, List.foldlM_cons]
  exact bind_pure _

theorem stuck_singleton (hasking : t.kind ∉ askingKinds) (hvisited : visited t = near t.children)
    (h : t.children = [u]) : Stuck loose t ↔ Stuck loose u := by
  rw [stuck_of_not_asking hasking, hvisited, anyStuck_near, h]
  simp

theorem Clause.outcome (h : Clause t) (hs : Fits s loose) (habove : above ≠ []) :
    (Stuck loose t → ∀ sheet, write s ⟨t, above⟩ sheet = .error .notFound)
      ∧ (¬ Stuck loose t → ∃ text, SaysIn s ⟨t, above⟩ text ∧ Worded text) := by
  induction h generalizing above with
  | @bare t u hkind hchildren hspeaking h =>
    have hvisited : visited t = near t.children := by
      unfold visited
      rw [hkind]
      rfl
    have hmeets := h.writes hs (fun _ => List.cons_ne_nil t above) tidy_empty
    have hwrite : ∀ sheet, write s ⟨t, above⟩ sheet = write s ⟨u, t :: above⟩ {} >>= fun inner =>
        .ok { sheet with right := inner.doc } :=
      write_expr (c := ⟨t, above⟩) hkind (children_eq_singleton hchildren)
    rw [stuck_singleton (by rw [hkind]; decide) hvisited hchildren]
    refine ⟨fun hstuck sheet => ?_, fun hfree => ?_⟩
    · rw [hwrite, hmeets.1 hstuck]
      rfl
    · obtain ⟨inner, hinner, hwritten⟩ := hmeets.2 hfree
      obtain ⟨text, htext, hneat, hne⟩ := hwritten.voiced rfl hspeaking fun v hv => by
        cases hv
        rw [hkind]
        rfl
      refine ⟨text, ⟨inner.doc, fun sheet => ?_, htext⟩, hneat, hne⟩
      rw [hwrite, hinner]
      rfl
  | @parenthesized t u hkind hchildren h ih =>
    have hvisited : visited t = near t.children := by
      unfold visited
      rw [hkind]
      rfl
    obtain ⟨parent, rest, rfl⟩ := List.exists_cons_of_ne_nil habove
    obtain ⟨hstuck, hsaid⟩ := ih (List.cons_ne_nil t (parent :: rest))
    rw [stuck_singleton (by rw [hkind]; decide) hvisited hchildren]
    cases hleftOut : parenthesesLeftOut.contains parent.kind with
    | true =>
      have hwrite : write s ⟨t, parent :: rest⟩ = write s ⟨u, t :: parent :: rest⟩ := by
        funext sheet
        refine write_of_here ?_ (children_eq_singleton hchildren)
        unfold writeAccept
        rw [show (Cursor.mk t (parent :: rest)).kind = .parenthesizedExpr from hkind]
        exact if_pos hleftOut
      simpa only [SaysIn, hwrite] using And.intro hstuck hsaid
    | false =>
      have hwrite : ∀ sheet, write s ⟨t, parent :: rest⟩ sheet
          = write s ⟨u, t :: parent :: rest⟩ { template := "(" ++ Slot.both ++ ")" } >>=
            fun inner => .ok { sheet with right := inner.doc } :=
        write_parentheses (c := ⟨t, parent :: rest⟩) hkind rfl hleftOut (children_eq_singleton hchildren)
      refine ⟨fun h sheet => by rw [hwrite, hstuck h]; rfl, fun hfree => ?_⟩
      obtain ⟨text, ⟨doc, hdoc, htext⟩, hneat, hne⟩ := hsaid hfree
      refine ⟨"(" ++ text ++ ")", ⟨Sheet.doc ⟨"(" ++ Slot.both ++ ")", .atom (.text ""), doc⟩,
        fun sheet => ?_, ?_⟩, ?_, by simp⟩
      · rw [hwrite, hdoc]
        rfl
      · refine (Doc.text_node rfl htext).trans ?_
        rw [Slot.filled_parentheses, String.empty_append]
      · rw [String.append_assoc]
        exact (by decide : Neat "(").append (hneat.oneLine.append (by decide)) fun h => absurd h (by decide)
  | @framed t u hkind hchildren h ih =>
    simp only [List.mem_cons, List.not_mem_nil, or_false] at hkind
    have hvisited : visited t = near t.children := by
      unfold visited
      rcases hkind with hkind | hkind <;> rw [hkind] <;> rfl
    have hasking : t.kind ∉ askingKinds := by
      rcases hkind with hkind | hkind <;> rw [hkind] <;> decide
    have hwrite : write s ⟨t, above⟩ = write s ⟨u, t :: above⟩ := by
      funext sheet
      refine write_of_here ?_ (children_eq_singleton hchildren)
      unfold writeAccept
      rcases hkind with hkind | hkind
      · rw [show (Cursor.mk t above).kind = .forCondition from hkind]
        rfl
      · rw [show (Cursor.mk t above).kind = .forUpdate from hkind]
        rfl
    rw [stuck_singleton hasking hvisited hchildren]
    simpa only [SaysIn, hwrite] using ih (List.cons_ne_nil t above)

end

/-- The only child of an expression node, visited by an expression that said nothing. -/
theorem Clause.meets_child {t u : Tree} (h : Clause t) (hkind : t.kind = .expr)
    (hchildren : t.children = [u]) {s : Scope} {loose : Bool} (hs : Fits s loose) {above : List Tree}
    (habove : above ≠ []) :
    Meets (Stuck loose t) (write s ⟨u, t :: above⟩ {}) fun inner =>
      ∃ text, SaysIn s ⟨t, above⟩ text ∧ Worded text ∧ inner.doc.text? = some text := by
  have hwrite := write_expr (s := s) (c := ⟨t, above⟩) hkind (children_eq_singleton hchildren) {}
  obtain ⟨hstuck, hfree⟩ := h.outcome hs habove
  refine ⟨fun hst => ?_, fun hn => ?_⟩
  · rw [hstuck hst] at hwrite
    cases hinner : write s ⟨u, t :: above⟩ {} with
    | error failure =>
      rw [hinner] at hwrite
      cases hwrite
      rfl
    | ok inner =>
      rw [hinner] at hwrite
      cases hwrite
  · obtain ⟨text, hsaid, hworded⟩ := hfree hn
    obtain ⟨doc, hdoc, htext⟩ := id hsaid
    rw [hdoc] at hwrite
    cases hinner : write s ⟨u, t :: above⟩ {} with
    | error failure =>
      rw [hinner] at hwrite
      cases hwrite
    | ok inner =>
      rw [hinner] at hwrite
      cases hwrite
      exact ⟨inner, rfl, text, hsaid, hworded, htext⟩

end Expression

end Transcriber
