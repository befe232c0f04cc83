import Transcriber.Proofs.Statement.Counter

/-!
# Trees of statements fill a block

The single sorts of statements were followed under the assumption that blocks inside them bring their
lines.  Here the assumption is discharged, by induction on how deep statements are nested.

* `fills_forLoop` — the sort of statement that needs the lines of a declaration.
-/

namespace Transcriber

open Build Source Expression Statement

variable {t : Tree}

theorem child?_head {init condition update body : Tree} (above : List Tree)
    (hchildren : t.children = [init, condition, update, body]) (hinit : init.kind = .forInit)
    (hcondition : condition.kind = .forCondition) (hupdate : update.kind = .forUpdate)
    (hbody : body.kind = .blockScope) :
    (Cursor.mk t above).child? .forInit = some ⟨init, t :: above⟩
      ∧ (Cursor.mk t above).child? .forCondition = some ⟨condition, t :: above⟩
      ∧ (Cursor.mk t above).child? .forUpdate = some ⟨update, t :: above⟩
      ∧ (Cursor.mk t above).child? .blockScope = some ⟨body, t :: above⟩ := by
  simp [child?_eq_map, hchildren, hinit, hcondition, hupdate, hbody]

section

variable {descend : Visit} {w : Workshop} {id : Nat} {t init condition update body : Tree}
  {above : List Tree} {ps : List (Bool × Tree)}

/-- A block beside a counting loop: the body, and the step behind it. -/
theorem fills_forBody (hd : FillsScopes descend t.height)
    (hchildUpdate : (Cursor.mk t above).child? .forUpdate = some ⟨update, t :: above⟩)
    (hchildBody : (Cursor.mk t above).child? .blockScope = some ⟨body, t :: above⟩)
    (hscope : body.kind = .blockScope) (hbody : Structured body ps) (hupdate : Clause update)
    (hplain : Cursor.Every Plain ⟨t, above⟩) (hsite : Site w id) :
    Unless (AnyStuck false (ps ++ [(false, update)])) (forBody descend id ⟨t, above⟩) w fun _ w' =>
      ∃ inner step, Nests ⟨body, t :: above⟩ inner ∧ Stated ⟨update, t :: above⟩ step
        ∧ Grew w id w' (deeper (Entry.linesAll (inner ++ [.leaf step]))) := by
  have hlt : body.height < t.height := Cursor.height_child? hchildBody
  have hplainBody := hplain.child? hchildBody
  have hplainUpdate := hplain.child? hchildUpdate
  have hnonempty := hbody.isEmpty_children hscope (t :: above)
  unfold forBody
  rw [hchildUpdate, hchildBody]
  simp only [demand, pure_bind, hnonempty, Bool.false_eq_true, if_false]
  obtain ⟨b, w1, hrun1, hbegun, hform, hsite1⟩ := hsite.content
  refine Unless.congr (Unless.after hrun1 (Unless.bind (hd hlt hscope hbody hplainBody hsite1) ?_))
    anyStuck_concat.symm
  rintro _ w2 ⟨inner, hinner, hgrew⟩
  have hsite2 := hsite1.frame hgrew.around
  obtain ⟨c, w3, s, hrun3, hbegun3, hsize3, hs, hholds⟩ := hsite2.expr {} rfl
  refine Unless.after hrun3 ((hupdate.walked (List.cons_ne_nil t above) hplainUpdate hs hholds).imp ?_)
  rintro _ w4 ⟨step, doc, hsaid, hworded, hdoc, hwent⟩
  refine ⟨inner, step, hinner, ⟨s, hs, hsaid⟩, hbegun.content hsite.lt_size hform ?_⟩
  rw [Entry.linesAll_append, Entry.linesAll_leaf]
  refine hgrew.trans (hbegun3.expression hwent.1.around hsite2.lt_size
    (hwent.2.spells (fun j hj => hj.elim False.elim (by omega)) (Nat.le_refl _)) ?_ hworded) hsite1.lt_size
  · rw [Sheet.doc, Doc.text_node rfl hdoc, Slot.filled_both, String.empty_append]

theorem fills_forLoop {declaration type first list declarator name : Tree} (hd : FillsScopes descend t.height)
    (hfirst : ∀ {w : Workshop}, Site w id →
      Fills (AnyStuck false (near (initialValues declarator))) (descend id ⟨init, t :: above⟩) w id
        fun entries => ∃ line, CounterLine ⟨init, t :: above⟩ line ∧ entries = [.leaf line])
    (hkind : t.kind = .forWord) (hchildren : t.children = [init, condition, update, body])
    (hinit : Counter init declaration type first list declarator name)
    (hforCondition : condition.kind = .forCondition) (hcondition : Clause condition)
    (hforUpdate : update.kind = .forUpdate) (hupdate : Clause update)
    (hscope : body.kind = .blockScope) (hbody : Structured body ps)
    (hplain : Cursor.Every Plain ⟨t, above⟩) (hsite : Site w id) :
    Fills (AnyStuck false (near (initialValues declarator) ++ (false, condition) :: ps ++ [(false, update)]))
      (forLoop descend id ⟨t, above⟩) w id (Nests ⟨t, above⟩) := by
  have hcursors : (Cursor.mk t above).children = [⟨init, t :: above⟩, ⟨condition, t :: above⟩,
      ⟨update, t :: above⟩, ⟨body, t :: above⟩] :=
    children_eq_map above hchildren
  obtain ⟨hchild1, hchild2, hchild3, hchild4⟩ :=
    child?_head above hchildren hinit.kind hforCondition hforUpdate hscope
  have hplainCondition := hplain.child? hchild2
  have htested : (Cursor.mk condition (t :: above)).children.isEmpty = false := by
    rw [Cursor.children, List.isEmpty_map]
    exact hcondition.children_ne_nil
  have hloop : forLoop descend id ⟨t, above⟩ = (do
      descend id ⟨init, t :: above⟩
      let loop ← Statement.begin id "while" Slot.spacedColon
      open_ loop (some ⟨condition, t :: above⟩)
      forBody descend id ⟨t, above⟩) := by
    unfold forLoop
    rw [hchild1, hchild2]
    simp only [demand, pure_bind, htested, Bool.false_eq_true, if_false]
    rfl
  rw [hloop]
  have hrest : ∀ {w' : Workshop}, Site w' id →
      Fills (AnyStuck false ((false, condition) :: (ps ++ [(false, update)]))) (do
        let loop ← Statement.begin id "while" Slot.spacedColon
        open_ loop (some ⟨condition, t :: above⟩)
        forBody descend id ⟨t, above⟩) w' id
        fun entries => ∃ text inner step, Stated ⟨condition, t :: above⟩ text
          ∧ Nests ⟨body, t :: above⟩ inner ∧ Stated ⟨update, t :: above⟩ step
          ∧ entries = [.mk ("while " ++ text ++ ":") (inner ++ [.leaf step])] := by
    intro w' hsite'
    obtain ⟨w1, hrun1, hunheaded⟩ := hsite'.begin "while" Slot.spacedColon
    rw [anyStuck_cons]
    refine Unless.after hrun1 ((hunheaded.visit hsite'.lt_size hcondition (List.cons_ne_nil _ _)
      hplainCondition (headed_spacedColon "while " (by decide) (by decide))).bind
      fun _ w2 hvisited => ?_)
    obtain ⟨text, htext, hheaded⟩ := hvisited
    have hgrew := hheaded.alone hsite'.lt_size
    refine Unless.imp (fills_forBody hd hchild3 hchild4 hscope hbody hupdate hplain
      (hsite'.frame hgrew.around)) ?_
    rintro _ w3 ⟨inner, step, hinner, hstep, hgrew'⟩
    refine ⟨_, ⟨text, inner, step, htext, hinner, hstep, rfl⟩, ?_⟩
    rw [Entry.linesAll_singleton]
    exact hgrew.trans hgrew' hsite'.lt_size
  refine (Fills.append hsite (hfirst hsite) hrest ?_).congr ?_
  · rintro _ _ ⟨line, hline, rfl⟩ ⟨text, inner, step, htext, hinner, hstep, rfl⟩
    exact .forLoop hkind hcursors hline htext hinner hstep
  · rw [List.append_assoc, anyStuck_append]
    rfl

end

def statementKinds : List Kind :=
  [.expr, .blockScope, .ifWord, .whileWord, .doWord, .forEach, .forWord]

theorem Structured.kind_mem {ps : List (Bool × Tree)} (h : Structured t ps) : t.kind ∈ statementKinds := by
  cases h <;> rename_i hkind _ <;> simp_all [statementKinds]

/-- Visiting a tree of statements puts its lines into a block, nested as the statements are. -/
theorem Structured.fills {fuel : Nat} {above : List Tree} {ps : List (Bool × Tree)}
    (h : Structured t ps) (hfuel : t.height ≤ fuel)
    (hparent : t.kind = .expr → (Cursor.mk t above).parentKind?.any expressionParents.contains = true)
    (hplain : Cursor.Every Plain ⟨t, above⟩) {w : Workshop} {id : Nat} (hsite : Site w id) :
    Fills (AnyStuck false ps) (Declaration.walkUpTo fuel id ⟨t, above⟩) w id (Nests ⟨t, above⟩) := by
  -- The induction is on how deep a visit may go; a statement visits the blocks inside it less deep.
  induction fuel generalizing t above ps w id with
  | zero =>
    obtain ⟨n, hn⟩ := Tree.exists_fuel hfuel
    exact absurd hn (Nat.succ_ne_zero n).symm
  | succ fuel ih =>
    have hscopes : FillsScopes (Declaration.walkUpTo fuel) t.height := by
      intro u above' qs hlt hscope hu hplainU w' id' hsite'
      exact ih hu (by omega) (fun hexpr => by rw [hscope] at hexpr; cases hexpr) hplainU hsite'
    have hsignature : (Cursor.mk t above).kind ∉ signatureKinds := by
      have hmem : (Cursor.mk t above).kind ∈ statementKinds := h.kind_mem
      simp only [statementKinds, List.mem_cons, List.not_mem_nil, or_false] at hmem
      rcases hmem with hk | hk | hk | hk | hk | hk | hk <;> rw [hk] <;> decide
    refine fills_walk hsite hsignature fun {w'} _ hsite' => ?_
    cases h with
    | expression hkind hc =>
      refine (fills_expression hkind hc (hparent hkind) hplain hfuel hsite').congr ?_
      rw [anyStuck_cons, anyStuck_nil, or_false]
      rfl
    | scope hkind hne hall =>
      have hcursor : (Cursor.mk t above).kind = .blockScope := hkind
      refine (fills_through hsite' ?_ (by rw [hcursor]; decide) fun _ hsite'' => fills_all hall ?_
        hsite'').imp fun entries hentries => .scope hkind hentries
      · unfold Statement.accept
        rw [hcursor]
      · intro u hu qs hstructured w'' hsite''
        have hlt : u.height < t.height := Tree.height_child hu
        refine ih hstructured (by omega) (fun _ => ?_) (hplain.inner hu) hsite''
        change expressionParents.contains t.kind = true
        rw [hkind]
        decide
    | conditional hkind hchildren hcondition hscope hbody hrest =>
      refine fills_silent ?_
        (fills_conditional hscopes hkind hchildren hcondition hscope hbody hrest hplain hsite')
      unfold Statement.accept
      rw [show (Cursor.mk t above).kind = .ifWord from hkind]
    | whileLoop hkind hchildren hcondition hscope hbody =>
      refine fills_silent ?_ (fills_whileLoop hscopes hkind hchildren hcondition hscope hbody hplain hsite')
      unfold Statement.accept
      rw [show (Cursor.mk t above).kind = .whileWord from hkind]
    | doLoop hkind hchildren hscope hbody hcondition =>
      refine fills_silent ?_ (fills_doLoop hscopes hkind hchildren hscope hbody hcondition hplain hsite')
      unfold Statement.accept
      rw [show (Cursor.mk t above).kind = .doWord from hkind]
    | forEachLoop hkind hchildren hmodifiers htype hident hname hexpr hsource hscope hbody =>
      refine fills_silent ?_ (fills_forEachLoop hscopes hkind hchildren hmodifiers htype hident hname
        hexpr hsource hscope hbody hplain hsite')
      unfold Statement.accept
      rw [show (Cursor.mk t above).kind = .forEach from hkind]
    | @forLoop _ init condition update body _ _ _ _ _ _ _ hkind hchildren hinit hforCondition hcondition
        hforUpdate hupdate hscope hbody =>
        have hmem : init ∈ t.children := by simp [hchildren]
        have hlt : init.height < t.height := Tree.height_child hmem
        refine fills_silent ?_ (fills_forLoop hscopes
          (fun hsite'' => hinit.fills (by omega) (hplain.inner hmem) hsite'') hkind hchildren hinit
          hforCondition hcondition hforUpdate hupdate hscope hbody hplain hsite')
        unfold Statement.accept
        rw [show (Cursor.mk t above).kind = .forWord from hkind]

end Transcriber
