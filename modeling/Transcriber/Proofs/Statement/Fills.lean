import Transcriber.Proofs.Statement.Headed
import Transcriber.Walk.Declaration

/-!
# Work that fills a block with lines

A block that takes statements visits a node; then its lines have been put behind those that were there
before.  This is said here for visits in general, and for the single sorts of statements under the
assumption that it is so for the blocks inside them.

* `fills_conditional`, `fills_whileLoop`, … — the sorts of statements.
-/

namespace Transcriber

open Build Source Expression Entry List Statement

/-- Work puts the lines of some entries into a block, unless there is an obstacle. -/
def Fills (obstacle : Prop) (m : Build Unit) (w : Workshop) (id : Nat) (R : List Entry → Prop) : Prop :=
  Unless obstacle m w fun _ w' => ∃ entries, R entries ∧ Grew w id w' (linesAll entries)

namespace Fills

variable {p q : Prop} {m : Build Unit} {w : Workshop} {id : Nat} {R S T : List Entry → Prop}

theorem congr (h : Fills p m w id R) (hpq : p ↔ q) : Fills q m w id R := Unless.congr h hpq

theorem imp (h : Fills p m w id R) (himp : ∀ entries, R entries → S entries) : Fills p m w id S :=
  Unless.imp h fun _ _ hfilled => hfilled.imp fun entries hentries => hentries.imp_left (himp entries)

/-- There may be nothing to do. -/
theorem nothing (hR : R []) : Fills False (pure ()) w id R := unless_of_ok rfl ⟨[], hR, by
    rw [linesAll_nil]
    exact .refl w id⟩

/-- What is put behind what was put there before. -/
theorem append {k : Unit → Build Unit} (hsite : Site w id) (h : Fills p m w id R)
    (hk : ∀ {w' : Workshop}, Site w' id → Fills q (k ()) w' id S)
    (hT : ∀ es fs, R es → S fs → T (es ++ fs)) : Fills (p ∨ q) (m >>= k) w id T := by
  refine Unless.bind h fun _ w' hfirst => ?_
  obtain ⟨es, hes, hgrew⟩ := hfirst
  refine Unless.imp (hk (hsite.frame hgrew.around)) fun _ w'' hsecond => ?_
  obtain ⟨fs, hfs, hgrew'⟩ := hsecond
  refine ⟨es ++ fs, hT es fs hes hfs, ?_⟩
  rw [linesAll_append]
  exact hgrew.trans hgrew' hsite.lt_size

end Fills

/-! ## Visits -/

/-- How a visit goes on after a node has been accepted. -/
def goOn (descend : Visit) (id : BlockId) (c : Cursor) : Option BlockId → Build Unit
  | some visitor => c.children.forM fun child => do
      descend visitor child
      takeComments id visitor child.head.stop
  | none => pure ()

theorem visit_eq (accept : Accept) (descend : Visit) (id : BlockId) (c : Cursor) :
    visit accept descend id c = (do
      takeComments id id c.head.start
      goOn descend id c (← accept id c)
      finish id c) := by
  unfold visit
  refine bind_congr fun _ => bind_congr fun visitor => ?_
  cases visitor with
  | none => rfl
  | some visitor => rfl

section

variable {p : Prop} {w : Workshop} {id : Nat} {c : Cursor} {R : List Entry → Prop} {fuel : Nat}

/-- The kinds of nodes that only methods accept. -/
def signatureKinds : List Kind := [.modifierList, .formalParamStdDecl, .formalParamVarargDecl]

theorem acceptInMethod_eq (hkind : c.kind ∉ signatureKinds) (descend : Visit) (id : BlockId) :
    Declaration.acceptInMethod descend id c = Statement.accept descend id c := by
  simp only [signatureKinds, mem_cons, not_mem_nil, or_false, not_or] at hkind
  unfold Declaration.acceptInMethod
  split <;> simp_all

theorem accept_apply (hsite : Site w id) (hkind : c.kind ∉ signatureKinds) (descend : Visit) :
    Declaration.accept descend id c w = Statement.accept descend id c w := by
  obtain ⟨b, hb, hsuite⟩ := hsite.form
  unfold Declaration.accept
  rw [bind_of_ok (block_apply w id hb)]
  cases hform : b.form with
  | method => exact congrFun (acceptInMethod_eq hkind descend id) w
  | content => rfl
  | statement keyword opening => rfl
  | _ =>
    rw [hform] at hsuite
    exact absurd hsuite Bool.false_ne_true

/-- The visit of a node: after a move among the tokens the node is accepted, what follows from that is
done, and the visit ends. -/
theorem walkUpTo_apply (fuel : Nat) (hsite : Site w id) (hkind : c.kind ∉ signatureKinds) :
    ∃ w', Moved w w' ∧ Declaration.walkUpTo (fuel + 1) id c w
      = (Statement.accept (Declaration.walkUpTo fuel) id c
          >>= goOn (Declaration.walkUpTo fuel) id c >>= fun _ => finish id c) w' := by
  obtain ⟨b, hb, hsuite⟩ := hsite.form
  have hexpression : b.isExpression = false := (Block.sort_of_isSuite hsuite).1
  obtain ⟨w', hrun, hmoved⟩ := hsite.calm.takeComments_moved id id c.head.start
  have hblock : Declaration.walkUpTo (fuel + 1) id c w
      = visit (Declaration.accept (Declaration.walkUpTo fuel)) (Declaration.walkUpTo fuel) id c w := by
    change (block id >>= fun b => _) w = _
    rw [bind_of_ok (block_apply w id hb), hexpression]
    rfl
  refine ⟨w', hmoved, ?_⟩
  rw [hblock, visit_eq, bind_of_ok hrun, bind_assoc]
  exact bind_apply_congr (accept_apply (hsite.frame hmoved.within.around) hkind _)

/-- The visit of a node does what accepting it and going on does. -/
theorem fills_walk (hsite : Site w id) (hkind : c.kind ∉ signatureKinds)
    (h : ∀ {w' : Workshop}, Around (fun _ => False) w w' → Site w' id →
      Fills p (Statement.accept (Declaration.walkUpTo fuel) id c
        >>= goOn (Declaration.walkUpTo fuel) id c) w' id R) :
    Fills p (Declaration.walkUpTo (fuel + 1) id c) w id R := by
  have hid := hsite.lt_size
  obtain ⟨w1, hmoved, hvisit⟩ := walkUpTo_apply fuel hsite hkind
  have hsite1 := hsite.frame hmoved.within.around
  have hfill := Unless.andThen (h hmoved.within.around hsite1) (k := fun _ => finish id c) (R := fun _ w' =>
    ∃ entries, R entries ∧ Grew w id w' (Entry.linesAll entries)) ?_
  · exact .of_apply_eq hvisit hfill
  · rintro _ w2 ⟨entries, hR, hgrew⟩
    obtain ⟨w3, hrun3, hwithin3⟩ := (hgrew.around.calm hsite1.calm).finish c
      (Nat.lt_of_lt_of_le hsite1.lt_size hgrew.around.size)
    exact ⟨(), w3, hrun3, entries, hR,
      .after hmoved.within.around (hgrew.idle hwithin3.around hsite1.lt_size) hid⟩

/-- Work that touches no block may come first. -/
theorem Fills.after {α : Type} {m : Build α} {k : α → Build Unit} {a : α} {w' : Workshop}
    (hrun : m w = .ok a w') (hw : Around (fun _ => False) w w') (hid : id < w.blocks.size)
    (h : Fills p (k a) w' id R) : Fills p (m >>= k) w id R :=
  (Unless.after hrun h).imp fun _ _ hfilled => hfilled.imp fun _ hentries =>
    hentries.imp_right fun hgrew => .after hw hgrew hid

theorem Fills.commented {m : Build Unit} (h : Fills p m w id R) (hsite : Site w id) (near : BlockId)
    (stop : Int) : Fills p (m >>= fun _ => takeComments id near stop) w id R := by
  refine Unless.andThen h fun _ w' hfilled => ?_
  obtain ⟨entries, hR, hgrew⟩ := hfilled
  obtain ⟨w'', hrun, hwithin, -⟩ := (hgrew.around.calm hsite.calm).takeComments id near stop
  exact ⟨(), w'', hrun, entries, hR, hgrew.idle hwithin.around hsite.lt_size⟩

/-- A node that takes the work on its children upon itself. -/
theorem fills_silent {descend : Visit} {work : Build Unit}
    (haccept : Statement.accept descend id c = Statement.accept.silent work)
    (h : Fills p work w id R) : Fills p (Statement.accept descend id c >>= goOn descend id c) w id R := by
  have hwork : Statement.accept descend id c >>= goOn descend id c = work := by
    rw [haccept]
    unfold Statement.accept.silent
    rw [bind_assoc]
    exact (bind_congr fun _ => pure_bind _ _).trans (bind_pure_unit)
  rw [hwork]
  exact h

/-- A node of a kind that is not known leaves the blocks alone. -/
theorem unhandled_apply (id : Nat) (hname : c.kind.name? ≠ none) (w : Workshop) :
    ∃ w', unhandled id c w = .ok (some id) w' ∧ Within (fun _ => False) w w' ∧ w'.madeUp = w.madeUp := by
  obtain ⟨name, hname⟩ := Option.ne_none_iff_exists'.1 hname
  obtain ⟨w', hrun, hwithin, -⟩ := within_report w .debug ("no visitor accept method for " ++ name)
  refine ⟨w', ?_, hwithin, ?_⟩
  · unfold unhandled
    rw [hname, bind_of_ok (show demand (some name) w = .ok name w from rfl), bind_of_ok hrun]
    rfl
  · cases hrun
    rfl

/-- A node that is passed over: its children are visited in its place. -/
theorem fills_through {descend : Visit} (hsite : Site w id)
    (haccept : Statement.accept descend id c = unhandled id c) (hname : c.kind.name? ≠ none)
    (h : ∀ {w' : Workshop}, Around (fun _ => False) w w' → Site w' id →
      Fills p (goOn descend id c (some id)) w' id R) :
    Fills p (Statement.accept descend id c >>= goOn descend id c) w id R := by
  obtain ⟨w', haccepted, hwithin, -⟩ := unhandled_apply id hname w
  rw [haccept]
  exact .after haccepted hwithin.around hsite.lt_size (h hwithin.around (hsite.frame hwithin.around))

end

/-! ## Statements one after the other -/

/-- The visits of trees of statements one after the other fill a block with their lines. -/
theorem fills_all {descend : Visit} {above : List Tree} {id : Nat} {ts : List Tree}
    {ps : List (Bool × Tree)} (h : StructuredAll ts ps)
    (hd : ∀ t ∈ ts, ∀ {ps : List (Bool × Tree)}, Structured t ps → ∀ {w : Workshop}, Site w id →
      Fills (AnyStuck false ps) (descend id ⟨t, above⟩) w id (Nests ⟨t, above⟩))
    {w : Workshop} (hsite : Site w id) :
    Fills (AnyStuck false ps) ((ts.map fun t => Cursor.mk t above).forM fun child => do
        descend id child
        takeComments id id child.head.stop) w id
      (NestsAll (ts.map fun t => ⟨t, above⟩)) := by
  induction ts generalizing ps w with
  | nil =>
    cases h
    exact (Fills.nothing .nil).congr anyStuck_nil.symm
  | cons t ts ih =>
    cases h with
    | @cons _ _ ps qs h hs =>
      rw [map_cons]
      have hfirst := (hd t (.head _) h hsite).commented hsite id t.head.stop
      refine (Fills.append hsite hfirst (fun hsite' => ?_) fun es fs hes hfs =>
        NestsAll.cons hes hfs).congr anyStuck_append.symm
      exact ih hs (fun u hu => hd u (.tail _ hu)) hsite'

/-! ## Expressions -/

section

variable {w : Workshop} {id fuel : Nat} {t : Tree} {above : List Tree}

/-- An expression visits a node in its own way. -/
theorem walkUpTo_expression {s : Scope} {e : Expr} {c : Cursor} (h : Holds w id s e) :
    Declaration.walkUpTo (fuel + 1) id c w = Expression.walk id c w := by
  obtain ⟨b, hb, hform⟩ := h.form
  have hexpression : b.isExpression = true := by simp [Block.isExpression, hform, Form.expr?]
  change (block id >>= fun b => _) w = _
  rw [bind_of_ok (block_apply w id hb), hexpression]
  rfl

theorem fills_expression (hkind : t.kind = .expr) (hc : Clause t)
    (hparent : (Cursor.mk t above).parentKind?.any expressionParents.contains = true)
    (hplain : Cursor.Every Plain ⟨t, above⟩) (hfuel : t.height ≤ fuel + 1) (hsite : Site w id) :
    Fills (Stuck false t) (Statement.accept (Declaration.walkUpTo fuel) id ⟨t, above⟩
      >>= goOn (Declaration.walkUpTo fuel) id ⟨t, above⟩) w id (Nests ⟨t, above⟩) := by
  obtain ⟨u, hchildren⟩ : ∃ u, t.children = [u] := by
    cases hc with
    | bare _ hchildren _ _ => exact ⟨_, hchildren⟩
    | parenthesized _ hchildren _ => exact ⟨_, hchildren⟩
    | framed _ hchildren _ => exact ⟨_, hchildren⟩
  have habove : above ≠ [] := by
    rintro rfl
    cases hparent
  obtain ⟨b, w1, s, hrun1, hbegun, hsize1, hs, hholds⟩ := hsite.expr {} rfl
  have haccept : Statement.accept (Declaration.walkUpTo fuel) id ⟨t, above⟩ w
      = .ok (some w.blocks.size) w1 := by
    unfold Statement.accept
    rw [show (Cursor.mk t above).kind = .expr from hkind]
    dsimp only
    rw [if_pos hparent]
    exact bind_of_ok hrun1
  have hchild : Cursor.Every Plain ⟨u, t :: above⟩ :=
    hplain.child (by rw [children_eq_singleton hchildren]; exact mem_singleton_self _)
  have hyields := performs_walk hchild.below (hholds.shows_texts (fun _ => False) not_false)
  have hwalked := hyields.unless (hc.meets_child hkind hchildren hs habove)
    (Q := fun _ w' => ∃ text doc, SaysIn s ⟨t, above⟩ text ∧ Worded text
      ∧ Within (· = w.blocks.size) w1 w' ∧ doc.text? = some text
      ∧ Spells w' (w.blocks.size ≤ ·) (.block w.blocks.size) doc) ?_
  · obtain ⟨n, hn⟩ : ∃ n, fuel = n + 1 := by
      have hlt : u.height < t.height := Tree.height_child (by rw [hchildren]; simp)
      exact Tree.exists_fuel (t := u) (by omega)
    have hdescend : Declaration.walkUpTo fuel w.blocks.size ⟨u, t :: above⟩ w1
        = Expression.walk w.blocks.size ⟨u, t :: above⟩ w1 := by
      rw [hn]
      exact walkUpTo_expression hholds
    have hgo : goOn (Declaration.walkUpTo fuel) id ⟨t, above⟩ (some w.blocks.size) w1
        = (Expression.walk w.blocks.size ⟨u, t :: above⟩ >>= fun _ =>
            takeComments id w.blocks.size u.head.stop) w1 := by
      unfold goOn
      rw [children_eq_singleton hchildren, ← bind_apply_congr hdescend]
      exact congrFun (bind_pure_unit (m := Build)) w1
    refine Unless.after haccept (Unless.of_apply_eq hgo (hwalked.andThen ?_))
    rintro _ w2 ⟨text, doc, hsaid, hworded, hwithin2, htext, hspells⟩
    obtain ⟨w3, hrun3, hwithin3, -⟩ := (hwithin2.calm hholds.calm).takeComments id w.blocks.size u.head.stop
    refine ⟨(), w3, hrun3, _, .expression hkind ⟨s, hs, hsaid⟩, ?_⟩
    rw [linesAll_leaf]
    exact hbegun.expression (hwithin2.idle hwithin3).around hsite.lt_size
      (hwithin3.spells hspells fun _ _ _ => not_false) htext hworded
  · rintro _ w' inner ⟨hwithin, hshows⟩ ⟨text, hsaid, hworded, htext⟩
    exact ⟨text, inner.doc, hsaid, hworded, hwithin, htext,
      hshows.spells (fun j hj => hj.elim False.elim (by omega)) (Nat.le_refl _)⟩

end

/-! ## Statements with blocks inside them -/

/-- The visits of blocks below a height fill a block with their lines. -/
def FillsScopes (descend : Visit) (height : Nat) : Prop :=
  ∀ {t : Tree} {above : List Tree} {ps : List (Bool × Tree)}, t.height < height →
    t.kind = .blockScope → Structured t ps → Cursor.Every Plain ⟨t, above⟩ →
    ∀ {w : Workshop} {id : Nat}, Site w id →
      Fills (AnyStuck false ps) (descend id ⟨t, above⟩) w id (Nests ⟨t, above⟩)

theorem Structured.isEmpty_children {t : Tree} {ps : List (Bool × Tree)} (h : Structured t ps)
    (hkind : t.kind = .blockScope) (above : List Tree) : (Cursor.mk t above).children.isEmpty = false := by
  rw [Cursor.children, isEmpty_map]
  cases h with
  | scope _ hne _ => simpa using hne
  | _ => simp_all

theorem childAt_apply {c d : Cursor} {i : Nat} (h : c.children[i]? = some d) (w : Workshop) :
    childAt c i w = .ok d w := by
  unfold childAt
  rw [h]
  rfl

/-- The opening line of a test or a loop. -/
theorem headed_spacedColon (start : String) {keyword : String} (hstart : keyword ++ " " = start)
    (hworded : Worded start) (text : String) (htext : Worded text) :
    Slot.filled? Slot.spacedColon keyword text = some (start ++ text ++ ":")
      ∧ Worded (start ++ text ++ ":") := by
  refine ⟨by rw [Slot.filled_spacedColon, hstart], ?_⟩
  rw [String.append_assoc]
  exact hworded.behind (htext.neat.oneLine.append (by decide))

section

variable {descend : Visit} {w : Workshop} {id : Nat} {t condition body : Tree} {above rest : List Tree}
  {ps qs : List (Bool × Tree)}

theorem fills_whileLoop (hd : FillsScopes descend t.height) (hkind : t.kind = .whileWord)
    (hchildren : t.children = [condition, body]) (hcondition : Clause condition)
    (hscope : body.kind = .blockScope) (hbody : Structured body ps)
    (hplain : Cursor.Every Plain ⟨t, above⟩) (hsite : Site w id) :
    Fills (AnyStuck false ((false, condition) :: ps)) (whileLoop descend id ⟨t, above⟩) w id
      (Nests ⟨t, above⟩) := by
  have hid := hsite.lt_size
  have hcursors : (Cursor.mk t above).children = [⟨condition, t :: above⟩, ⟨body, t :: above⟩] :=
    children_eq_map above hchildren
  have hmem : body ∈ t.children := by simp [hchildren]
  obtain ⟨w1, hrun1, hunheaded⟩ := hsite.begin "while" Slot.spacedColon
  unfold whileLoop
  rw [hcursors, anyStuck_cons]
  refine Unless.after hrun1 ((hunheaded.visit hid hcondition (cons_ne_nil _ _)
    (hplain.inner (by simp [hchildren])) (headed_spacedColon "while " (by decide) (by decide))).bind
    fun _ w2 hvisited => ?_)
  obtain ⟨text, htext, hheaded⟩ := hvisited
  rw [hbody.isEmpty_children hscope, if_neg Bool.false_ne_true]
  refine Unless.imp (hd (Tree.height_child hmem) hscope hbody (hplain.inner hmem) hheaded.site) ?_
  rintro _ w3 ⟨inner, hinner, hgrew⟩
  refine ⟨_, .whileLoop hkind hcursors htext hinner, ?_⟩
  rw [linesAll_singleton]
  exact hheaded.close hid hgrew

/-- A block beside the statement to which it belongs. -/
theorem fills_content {t : Tree} {height : Nat} (hd : FillsScopes descend height)
    (hlt : t.height < height) (hscope : t.kind = .blockScope) (h : Structured t ps)
    (hplain : Cursor.Every Plain ⟨t, above⟩) (hsite : Site w id) :
    Unless (AnyStuck false ps) (content id >>= fun inside => descend inside ⟨t, above⟩) w fun _ w' =>
      ∃ inner, Nests ⟨t, above⟩ inner ∧ Grew w id w' (deeper (linesAll inner)) := by
  obtain ⟨b, w1, hrun1, hbegun, hform, hsite1⟩ := hsite.content
  refine Unless.after hrun1 (Unless.imp (hd hlt hscope h hplain hsite1) ?_)
  rintro _ w2 ⟨inner, hinner, hgrew⟩
  exact ⟨inner, hinner, hbegun.content hsite.lt_size hform hgrew⟩

theorem fills_test (start : String) {keyword : String} (hstart : keyword ++ " " = start)
    (hworded : Worded start) (hd : FillsScopes descend t.height)
    (hchildren : t.children = condition :: body :: rest) (hcondition : Clause condition)
    (hscope : body.kind = .blockScope) (hbody : Structured body ps)
    (hplain : Cursor.Every Plain ⟨t, above⟩) (hsite : Site w id) :
    Fills (Stuck false condition ∨ AnyStuck false ps) (do
        let stat ← Statement.begin id keyword Slot.spacedColon
        open_ stat (← childAt ⟨t, above⟩ 0)
        Statement.branch descend id stat (← childAt ⟨t, above⟩ 1)) w id
      fun entries => ∃ text inner, Stated ⟨condition, t :: above⟩ text
        ∧ Nests ⟨body, t :: above⟩ inner ∧ entries = [.mk (start ++ text ++ ":") inner] := by
  have hid := hsite.lt_size
  have hcursors : (Cursor.mk t above).children
      = ⟨condition, t :: above⟩ :: ⟨body, t :: above⟩ :: rest.map fun u => ⟨u, t :: above⟩ :=
    children_eq_map above hchildren
  have hmem : body ∈ t.children := by simp [hchildren]
  have hbranch : ∀ stat, Statement.branch descend id stat ⟨body, t :: above⟩
      = (content id >>= fun inside => descend inside ⟨body, t :: above⟩) := by
    intro stat
    unfold Statement.branch
    rw [show (Cursor.mk body (t :: above)).kind = .blockScope from hscope]
    rfl
  obtain ⟨w1, hrun1, hunheaded⟩ := hsite.begin keyword Slot.spacedColon
  refine Unless.after hrun1 (Unless.after (childAt_apply (by rw [hcursors]; rfl) w1) ((hunheaded.visit hid
    hcondition (cons_ne_nil _ _) (hplain.inner (by simp [hchildren])) (headed_spacedColon start hstart hworded)).bind
    fun _ w2 hvisited => ?_))
  obtain ⟨text, htext, hheaded⟩ := hvisited
  have hgrew := hheaded.alone hid
  refine Unless.after (childAt_apply (by rw [hcursors]; rfl) w2) ?_
  rw [hbranch]
  refine Unless.imp (fills_content hd (Tree.height_child hmem) hscope hbody (hplain.inner hmem)
    (hsite.frame hgrew.around)) ?_
  rintro _ w3 ⟨inner, hinner, hgrew'⟩
  refine ⟨_, ⟨text, inner, htext, hinner, rfl⟩, ?_⟩
  rw [linesAll_singleton]
  exact hgrew.trans hgrew' hid

theorem fills_tests (start : String) {keyword : String} (hstart : keyword ++ " " = start)
    (hworded : Worded start) (hd : FillsScopes descend t.height)
    (hchildren : t.children = condition :: body :: rest) (hcondition : Clause condition)
    (hscope : body.kind = .blockScope) (hbody : Structured body ps)
    (hplain : Cursor.Every Plain ⟨t, above⟩) (hsite : Site w id) {next : Build Unit}
    (hnext : ∀ {w' : Workshop}, Site w' id →
      Fills (AnyStuck false qs) next w' id (NestsAfter (rest.map fun u => ⟨u, t :: above⟩))) :
    Fills (AnyStuck false ((false, condition) :: ps ++ qs)) (do
        let stat ← Statement.begin id keyword Slot.spacedColon
        open_ stat (← childAt ⟨t, above⟩ 0)
        Statement.branch descend id stat (← childAt ⟨t, above⟩ 1)
        next) w id
      fun entries => ∃ text inner others, Stated ⟨condition, t :: above⟩ text
        ∧ Nests ⟨body, t :: above⟩ inner ∧ NestsAfter (rest.map fun u => ⟨u, t :: above⟩) others
        ∧ entries = .mk (start ++ text ++ ":") inner :: others := by
  have htest := fills_test start hstart hworded hd hchildren hcondition hscope hbody hplain hsite
  have hboth := Fills.append hsite htest (k := fun _ => next) hnext
    (T := fun entries => ∃ text inner others, Stated ⟨condition, t :: above⟩ text
      ∧ Nests ⟨body, t :: above⟩ inner ∧ NestsAfter (rest.map fun u => ⟨u, t :: above⟩) others
      ∧ entries = .mk (start ++ text ++ ":") inner :: others) ?_
  · simp only [bind_assoc] at hboth
    refine hboth.congr ?_
    rw [cons_append, anyStuck_cons, anyStuck_append, or_assoc]
    exact Iff.rfl
  · rintro _ others ⟨text, inner, htext, hinner, rfl⟩ hothers
    exact ⟨text, inner, others, htext, hinner, hothers, rfl⟩

theorem FillsScopes.mono {m n : Nat} (h : FillsScopes descend n) (hle : m ≤ n) : FillsScopes descend m :=
  fun hlt => h (Nat.lt_of_lt_of_le hlt hle)

theorem Alternative.eq_nil_or_singleton (h : Alternative rest qs) :
    rest = [] ∧ qs = [] ∨ ∃ u, rest = [u] := by
  cases h with
  | nothing => exact .inl ⟨rfl, rfl⟩
  | further _ _ => exact .inr ⟨_, rfl⟩
  | last _ _ => exact .inr ⟨_, rfl⟩

theorem fills_otherwise {fuel height : Nat} (hd : FillsScopes descend height)
    (hle : t.height < height) (hfuel : t.height ≤ fuel) (h : Alternative [t] qs)
    (hplain : Cursor.Every Plain ⟨t, above⟩) (hsite : Site w id) :
    Fills (AnyStuck false qs) (Statement.otherwise descend id fuel ⟨t, above⟩) w id
      (NestsAfter [⟨t, above⟩]) := by
  induction fuel generalizing t above qs w with
  | zero =>
    obtain ⟨n, hn⟩ := Tree.exists_fuel hfuel
    exact absurd hn (Nat.succ_ne_zero n).symm
  | succ fuel ih =>
    unfold Statement.otherwise
    cases h with
    | further hkind h =>
      cases h with
      | @conditional _ condition body rest ps qs _ hchildren hcondition hscope hbody hrest =>
        rw [show (Cursor.mk t above).kind = .ifWord from hkind]
        refine (fills_tests "elif " (by decide) (by decide) (hd.mono (Nat.le_of_lt hle)) hchildren
          hcondition hscope hbody hplain hsite fun {w'} hsite' => ?_).imp ?_
        · obtain ⟨rfl, rfl⟩ | ⟨u, rfl⟩ := hrest.eq_nil_or_singleton
          · rw [Cursor.children, hchildren]
            exact (Fills.nothing .nothing).congr anyStuck_nil.symm
          · have hmem : u ∈ t.children := by simp [hchildren]
            have hlt : u.height < t.height := Tree.height_child hmem
            rw [Cursor.children, hchildren]
            exact ih (Nat.lt_trans hlt hle) (by omega) hrest (hplain.inner hmem) hsite'
        · rintro _ ⟨text, inner, others, htext, hinner, hothers, rfl⟩
          exact .further hkind (by rw [Cursor.children, hchildren]; rfl) htext hinner hothers
      | _ => simp_all
    | last hkind h =>
      unfold elseBranch
      rw [show (Cursor.mk t above).kind = .blockScope from hkind, h.isEmpty_children hkind]
      obtain ⟨w1, hrun1, hunheaded⟩ := hsite.begin "else" Slot.leftColon
      have hgrew := (hunheaded.bare hsite.lt_size (Slot.filled_leftColon "else" "")
        (by decide)).alone hsite.lt_size
      refine Unless.after hrun1 (Unless.imp
        (fills_content hd hle hkind h hplain (hsite.frame hgrew.around)) ?_)
      rintro _ w2 ⟨inner, hinner, hgrew'⟩
      refine ⟨_, .last hkind hinner, ?_⟩
      rw [linesAll_singleton]
      exact hgrew.trans hgrew' hsite.lt_size

variable (hd : FillsScopes descend t.height)
include hd

theorem fills_conditional (hkind : t.kind = .ifWord)
    (hchildren : t.children = condition :: body :: rest) (hcondition : Clause condition)
    (hscope : body.kind = .blockScope) (hbody : Structured body ps) (hrest : Alternative rest qs)
    (hplain : Cursor.Every Plain ⟨t, above⟩) (hsite : Site w id) :
    Fills (AnyStuck false ((false, condition) :: ps ++ qs))
      (Statement.conditional descend id ⟨t, above⟩) w id (Nests ⟨t, above⟩) := by
  have hcursors : (Cursor.mk t above).children
      = ⟨condition, t :: above⟩ :: ⟨body, t :: above⟩ :: rest.map fun u => ⟨u, t :: above⟩ :=
    children_eq_map above hchildren
  refine (fills_tests "if " (by decide) (by decide) hd hchildren hcondition hscope hbody hplain hsite
    fun {w'} hsite' => ?_).imp ?_
  · obtain ⟨rfl, rfl⟩ | ⟨u, rfl⟩ := hrest.eq_nil_or_singleton
    · rw [hcursors]
      exact (Fills.nothing .nothing).congr anyStuck_nil.symm
    · have hmem : u ∈ t.children := by simp [hchildren]
      rw [hcursors]
      exact fills_otherwise hd (Tree.height_child hmem) (Nat.le_refl _) hrest (hplain.inner hmem) hsite'
  · rintro _ ⟨text, inner, others, htext, hinner, hothers, rfl⟩
    exact .conditional hkind hcursors htext hinner hothers

theorem fills_doLoop (hkind : t.kind = .doWord)
    (hchildren : t.children = [body, condition]) (hscope : body.kind = .blockScope)
    (hbody : Structured body ps) (hcondition : Clause condition)
    (hplain : Cursor.Every Plain ⟨t, above⟩) (hsite : Site w id) :
    Fills (AnyStuck false (ps ++ [(false, condition)])) (doLoop descend id ⟨t, above⟩) w id
      (Nests ⟨t, above⟩) := by
  have hid := hsite.lt_size
  have hcursors : (Cursor.mk t above).children = [⟨body, t :: above⟩, ⟨condition, t :: above⟩] :=
    children_eq_map above hchildren
  have hmem : body ∈ t.children := by simp [hchildren]
  have hheader : ∀ text, Worded text → Slot.filled? (Slot.left ++ " not (" ++ Slot.right ++ "):") "if" text
          = some ("if not (" ++ text ++ "):")
        ∧ Worded ("if not (" ++ text ++ "):") := by
    intro text htext
    refine ⟨by simpa using Slot.filled_framed "" " not (" "):" (by decide) "if" text, ?_⟩
    rw [String.append_assoc]
    exact (by decide : Worded "if not (").behind (htext.neat.oneLine.append (by decide))
  obtain ⟨w1, hrun1, hunheaded⟩ := hsite.begin "while" Slot.spacedColon
  obtain ⟨w2, hrun2, hheaded⟩ := hunheaded.tell hid "True"
    (Slot.filled_spacedColon "while" "True") (by decide)
  unfold doLoop
  rw [hcursors]
  refine Fills.congr ?_ anyStuck_concat.symm
  refine Unless.after hrun1 (Unless.after (hunheaded.opening (.refl (fun _ => False) w1) not_false)
    (Unless.after hrun2 (Unless.bind (hd (Tree.height_child hmem) hscope hbody (hplain.inner hmem) hheaded.site) ?_)))
  rintro _ w3 ⟨inner, hinner, hgrew⟩
  have hloop := hheaded.site.frame hgrew.around
  obtain ⟨w4, hrun4, htest⟩ := hloop.begin "if" (Slot.left ++ " not (" ++ Slot.right ++ "):")
  refine Unless.after hrun4 ((htest.visit hloop.lt_size hcondition (cons_ne_nil _ _)
    (hplain.inner (by simp [hchildren])) hheader).andThen ?_)
  rintro _ w5 ⟨text, htext, htested⟩
  obtain ⟨w6, hrun6, hbreak⟩ := htested.site.begin "break" Slot.both
  have hbroken := (hbreak.bare htested.site.lt_size (Slot.filled_both "break" "") (by decide)).alone
    htested.site.lt_size
  refine ⟨(), w6, bind_of_ok hrun6, _, .doLoop hkind hcursors hinner htext, ?_⟩
  have hinside := hgrew.trans (htested.close hloop.lt_size hbroken) hheaded.site.lt_size
  rw [linesAll_singleton, linesAll_append, linesAll_singleton, linesAll_leaf]
  exact hheaded.close hid hinside

theorem fills_forEachLoop {modifiers type name source : Tree}
    (hkind : t.kind = .forEach) (hchildren : t.children = [modifiers, type, name, source, body])
    (hmodifiers : modifiers.kind = .localModifierList) (htype : type.kind = .typeRef)
    (hident : name.kind = .ident) (hname : Worded name.text) (hexpr : source.kind = .expr)
    (hsource : Clause source) (hscope : body.kind = .blockScope) (hbody : Structured body ps)
    (hplain : Cursor.Every Plain ⟨t, above⟩) (hsite : Site w id) :
    Fills (AnyStuck false ((true, source) :: ps)) (forEachLoop descend id ⟨t, above⟩) w id
      (Nests ⟨t, above⟩) := by
  have hid := hsite.lt_size
  have hcursors : (Cursor.mk t above).children = [⟨modifiers, t :: above⟩, ⟨type, t :: above⟩,
      ⟨name, t :: above⟩, ⟨source, t :: above⟩, ⟨body, t :: above⟩] :=
    children_eq_map above hchildren
  have hnamed : (Cursor.mk t above).child? .ident = some ⟨name, t :: above⟩ := by
    unfold Cursor.child?
    rw [hcursors]
    simp [Cursor.kind, hmodifiers, htype, hident]
  have hvalued : (Cursor.mk t above).child? .expr = some ⟨source, t :: above⟩ := by
    unfold Cursor.child?
    rw [hcursors]
    simp [Cursor.kind, hmodifiers, htype, hident, hexpr]
  have hmem : body ∈ t.children := by simp [hchildren]
  obtain ⟨w1, hrun1, hunheaded⟩ := hsite.begin "for" Slot.spacedColon
  have heach := hunheaded.each hid hident hname hsource (cons_ne_nil t above)
    (hplain.inner (by simp [hchildren])) (hplain.inner (by simp [hchildren]))
  have hloop : forEachLoop descend id ⟨t, above⟩ w = ((do
      let element ← looseExpr { template := Slot.left ++ " in " ++ Slot.right }
      setRight (← opening w.blocks.size) (.block element)
      Expression.walk element ⟨name, t :: above⟩
      let things ← looseExpr {}
      setRight element (.block things)
      Expression.walk things ⟨source, t :: above⟩) >>= fun _ =>
        content id >>= fun inside => descend inside ⟨body, t :: above⟩) w1 := by
    unfold forEachLoop
    rw [bind_of_ok hrun1, hnamed, hvalued, hcursors]
    simp only [bind_assoc]
    rfl
  rw [anyStuck_cons]
  refine Unless.of_apply_eq hloop (heach.bind ?_)
  rintro _ w2 ⟨text, htext, hheaded⟩
  have hgrew := hheaded.alone hid
  refine Unless.imp (fills_content hd (Tree.height_child hmem) hscope hbody (hplain.inner hmem)
    (hsite.frame hgrew.around)) ?_
  rintro _ w3 ⟨inner, hinner, hgrew'⟩
  refine ⟨_, .forEachLoop hkind hcursors htext hinner, ?_⟩
  rw [linesAll_singleton]
  exact hgrew.trans hgrew' hid

end

end Transcriber
