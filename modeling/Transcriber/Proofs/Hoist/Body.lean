import Transcriber.Proofs.Hoist.Walk
import Transcriber.Proofs.Statement.Body

/-!
# Assignments in the body of a method

The body of a method is a list of assignments to variables.  The lines of the method, read as commands
of the output language and done one after the other, leave the variables as the assignments do.

* `run_lines_eq_exec` — the lines do what the assignments do.
-/

namespace Transcriber

open Build Source Expression List

/-! ## Trees of assignments -/

/-- A tree stands for an assignment. -/
inductive Assigns : Tree → Assignment → Prop
  | mk {head op name : Head} {t : Tree} {f : Formula} (hkind : head.kind = .expr)
      (hop : op.kind = .assign) (htext : op.text = "=") (hname : name.kind = .ident)
      (h : StandsFor t f) : Assigns (.node head [.node op [.node name [], t]]) ⟨name.text, f⟩

/-! ## Suites that take assignments -/

variable {w : Workshop} {b : Block} {id : Nat}

theorem InMethod.self {home : Nat} {chain : List (Nat × Block)}
    (hb : w.blocks[home]? = some b) (hform : b.form = .method) (hchain : Chain w home chain) :
    InMethod w home home := by
  have hmethod : b.isMethod = true := by simp [Block.isMethod, hform]
  refine ⟨chain, hchain, ?_⟩
  cases hchain with
  | root hb' _ =>
    cases hb.symm.trans hb'
    rw [List.find?_cons, hmethod]
    rfl
  | inside hb' _ _ _ =>
    cases hb.symm.trans hb'
    rw [List.find?_cons, hmethod]
    rfl

/-- A suite that takes assignments, with the method and the scope around it. -/
structure Ready (w : Workshop) (id home : Nat) (s : Scope) : Prop where
  site : Site w id
  inMethod : InMethod w id home
  scope : InScope w id s

namespace Ready

variable {w' : Workshop} {home : Nat} {s : Scope}

theorem frame (h : Ready w id home s) {J : Nat → Prop} (hw : Within J w w') : Ready w' id home s :=
  ⟨h.site.frame hw.around, h.inMethod.frame hw, hw.inScope h.scope⟩

/-- A new expression in a suite. -/
theorem expr (h : Ready w id home s) (e : Expr) (ht : e.tail = "") :
    ∃ w', expr (some id) e w = .ok w.blocks.size w' ∧ Within (· = id) w w' ∧ w'.madeUp = w.madeUp
      ∧ w'.childrenOf id = w.childrenOf id ++ [w.blocks.size] ∧ Inside w' w.blocks.size home s e := by
  have hlt := h.site.lt_size
  have hbegun := h.site.begun (b := { form := .expression e, parent := some id }) rfl rfl rfl
  have hwithin : Within (· = id) w (w.adjoin { form := .expression e, parent := some id }) :=
    (within_adjoin w _).mono fun j hj => by cases hj; rfl
  have hready := h.frame hwithin
  refine ⟨_, expr_apply w (some id) e, hwithin, rfl, hbegun.children, ?_, ?_⟩
  · exact ⟨hready.site.calm, InScope.of_inside hbegun.get rfl rfl hlt hready.scope, ⟨_, hbegun.get, rfl⟩, ht⟩
  · exact hready.inMethod.inside hbegun.get rfl rfl hlt

end Ready

/-! ## The lines of assignments -/

/-- What an expression says of an assignment, and the lines before it. -/
theorem Assigns.raises {t u : Tree} {a : Assignment} (h : Assigns t a) (above : List Tree)
    (hu : t.children = [u]) (ha : a.Proper) {home : Nat} {s : Scope}
    (hs : ∀ x ∈ a.names, s.rename x = x) :
    Raises {} (fun id => walk id ⟨u, above⟩) home s (fun n => (a.value.hoist n).deeds)
      (fun n => (Deed.assign a.target (a.value.hoist n).term).text)
      fun n => (a.value.hoist n).count := by
  cases h with
  | @mk head op name t f hkind hop htext hname h =>
    cases hu
    have hheight := Tree.height_child (t := .node op [.node name [], t]) (u := t) (by
      exact .tail _ (List.mem_singleton_self t))
    have hheight' := Tree.height_child (t := .node op [.node name [], t]) (u := .node name []) (.head _)
    obtain ⟨n, hn⟩ := Tree.exists_fuel (Nat.le_refl (Source.Tree.node op [.node name [], t]).height)
    have hkept : parenthesesLeftOut.contains op.kind = false := by
      rw [hop]
      rfl
    have htarget : StandsFor (.node name []) (.name name.text) := .name hname
    have hraises := raises_operands (walkUpTo n)
      (c := ⟨.node op [.node name [], t], above⟩) rfl (Slot.filled_between " = " (by decide))
      (htarget.raises ha.target home (fun x hx => hs x (by
          rw [List.mem_singleton.1 hx]
          exact .head _)) (show (Source.Tree.node name []).height ≤ n by omega)
        (.node op [.node name [], t] :: above)
        (enclosed_child (c := ⟨.node op [.node name [], t], above⟩) hkept))
      (h.raises ha.value home (fun x hx => hs x (.tail _ hx)) (show t.height ≤ n by omega)
        (.node op [.node name [], t] :: above)
        (enclosed_child (c := ⟨.node op [.node name [], t], above⟩) hkept))
    have htemplate : template? op.kind op.text = some (Slot.left ++ " = " ++ Slot.right) := by
      rw [hop, htext]
      rfl
    have hwalk : ∀ id, walk id ⟨.node op [.node name [], t], above⟩
        = visit (accept (walkUpTo n)) (walkUpTo n) id ⟨.node op [.node name [], t], above⟩ := by
      intro id
      unfold walk
      rw [hn]
      rfl
    simp only [hwalk]
    exact raises_visit (raises_silent (fun id =>
      accept_template (c := ⟨.node op [.node name [], t], above⟩) htemplate) hraises)

/-- What a method has after it has taken an assignment. -/
structure Taken (w : Workshop) (home : Nat) (w' : Workshop) (deeds : List Deed) : Prop where
  within : Within (· = home) w w'
  grew : Grew w home w' (flush (deeds.map Deed.text))

namespace Taken

variable {w1 w' : Workshop} {home : Nat} {deeds deeds' : List Deed}

theorem trans (h : Taken w home w1 deeds) (h' : Taken w1 home w' deeds') (hhome : home < w.blocks.size) :
    Taken w home w' (deeds ++ deeds') := by
  refine ⟨h.within.again h'.within, ?_⟩
  rw [map_append, flush, map_append]
  exact h.grew.trans h'.grew hhome

theorem idle (h : Taken w home w1 deeds) (hw : Within (fun _ => False) w1 w')
    (hhome : home < w.blocks.size) : Taken w home w' deeds :=
  ⟨h.within.idle hw, h.grew.idle hw.around hhome⟩

theorem after (hw : Within (fun _ => False) w w1) (h : Taken w1 home w' deeds)
    (hhome : home < w.blocks.size) : Taken w home w' deeds :=
  ⟨(hw.mono fun _ hj => hj.elim).again h.within, .after hw.around h.grew hhome⟩

end Taken

/-- Where a statement is put: its own line goes into its suite, and the lines of its steps before the last
line of the method. -/
structure Lodged (w : Workshop) (id home : Nat) (w' : Workshop) (deeds : List Deed) (text : String) :
    Prop where
  within : Within (fun j => j = id ∨ j = home) w w'
  laid : ∃ n ids, Laid w' w.blocks.size ids (flush (deeds.map Deed.text))
    ∧ Laid w' w.blocks.size [n] (flush [text])
    ∧ (id = home → w'.childrenOf id = w.childrenOf id ++ ids ++ [n])
    ∧ (id ≠ home → w'.childrenOf id = w.childrenOf id ++ [n] ∧ ∀ front last,
      w.childrenOf home = front ++ [last] → w'.childrenOf home = front ++ ids ++ [last])

section

variable {w1 w' : Workshop} {home n count : Nat} {s : Scope} {deeds : List Deed} {text : String}

/-- The expression of a statement is its own line. -/
theorem Raised.lodged (h : Raised w1 n home s w' deeds text count) (hwithin : Within (· = id) w w1)
    (hn : w.blocks.size ≤ n) (hchildren : w1.childrenOf id = w.childrenOf id ++ [n])
    (hid : id < w.blocks.size) (hhome : home < w.blocks.size) (hne : w1.childrenOf home ≠ [])
    (htext : Worded text) : Lodged w id home w' deeds text := by
  have hsize := hwithin.size
  obtain ⟨sheet, hshows, hsheet⟩ := h.shows
  obtain ⟨ids, hids, hlaid⟩ := h.laid _ _ (dropLast_append_getLast hne).symm
  refine ⟨?_, n, ids, hlaid.mono hsize, .expression hn (hshows.spells (fun j hj => ?_) hn) hsheet htext .nil,
    ?_, fun hother => ⟨?_, fun front last hfront => ?_⟩⟩
  · refine (hwithin.mono fun _ hj => .inl hj).trans h.within ?_
    rintro j (rfl | rfl)
    · exact .inr hn
    · exact .inl (.inr rfl)
  · exact Nat.le_trans hsize hj
  · rintro rfl
    simp only [hchildren, dropLast_concat, getLast_append_singleton] at hids
    exact hids
  · rw [h.within.childrenOf (Nat.lt_of_lt_of_le hid hsize) fun hj => hj.elim (by omega) hother, hchildren]
  · rw [← hwithin.childrenOf hhome (Ne.symm hother)] at hfront
    simp only [hfront, dropLast_concat, getLast_append_singleton] at hids
    exact hids

/-- In the method itself all lines come one after the other. -/
theorem Lodged.taken {d : Deed} (h : Lodged w home home w' deeds d.text) :
    Taken w home w' (deeds ++ [d]) := by
  obtain ⟨n, ids, hlaid, hline, hids, -⟩ := h.laid
  have hwithin := h.within.mono fun j hj => hj.elim id id
  refine ⟨hwithin, hwithin.around, ids ++ [n], ?_, ?_⟩
  · rw [hids rfl, append_assoc]
  · rw [map_append, flush, map_append]
    exact hlaid.append hline

end

section

variable {home fuel : Nat} {s : Scope} {c d : Cursor} {e : Expr} {deeds : Nat → List Deed}
    {text : Nat → String} {count : Nat → Nat}

/-- The line of a statement goes on with the only child of its node. -/
theorem Raises.descend (h : Raises e (fun n => walk n d) home s deeds text count) (id : Nat)
    (hchildren : c.children = [d]) (hfuel : d.tree.height ≤ fuel) :
    Raises e (fun n => goOn (Declaration.walkUpTo fuel) id c (some n)) home s deeds text count := by
  intro w n hn hne
  obtain ⟨w1, hrun1, hraised⟩ := h hn hne
  have hdescend : Declaration.walkUpTo fuel n d w = .ok () w1 := by
    obtain ⟨m, rfl⟩ := Tree.exists_fuel hfuel
    rw [walkUpTo_expression hn.holds]
    exact hrun1
  obtain ⟨w2, hrun2, hmoved⟩ := goOn_singleton id hchildren hdescend (hraised.within.calm hn.holds.calm)
  exact ⟨w2, hrun2, hraised.moved hmoved hn.inMethod.lt_size⟩

/-- A suite takes a statement that has a line of its own. -/
theorem Raises.lodged {work : BlockId → Build Unit} (h : Raises e work home s deeds text count)
    (ht : e.tail = "") (hready : Ready w id home s) (hne : id = home ∨ w.childrenOf home ≠ [])
    (hkind : c.kind ∉ signatureKinds) (hworded : Worded (text w.madeUp))
    (hwork : Statement.accept (Declaration.walkUpTo fuel) id c >>= goOn (Declaration.walkUpTo fuel) id c
      = expr (some id) e >>= work) :
    ∃ w', Declaration.walkUpTo (fuel + 1) id c w = .ok () w'
      ∧ Lodged w id home w' (deeds w.madeUp) (text w.madeUp) ∧ w'.madeUp = count w.madeUp := by
  have hid := hready.site.lt_size
  have hhome := hready.inMethod.lt_size
  obtain ⟨w1, hmoved1, hvisit⟩ := walkUpTo_apply fuel hready.site hkind
  have hsize1 := hmoved1.size_eq
  obtain ⟨w2, hrun2, hwithin2, hcount2, hchildren2, hn2⟩ := (hready.frame hmoved1.within).expr e ht
  rw [hmoved1.within.childrenOf hid not_false] at hchildren2
  have hne2 : w2.childrenOf home ≠ [] := by
    by_cases heq : id = home
    · rw [← heq, hchildren2]
      exact append_ne_nil_of_right_ne_nil _ (cons_ne_nil _ _)
    · rw [hwithin2.childrenOf (hsize1 ▸ hhome) (Ne.symm heq), hmoved1.within.childrenOf hhome not_false]
      exact hne.resolve_left heq
  obtain ⟨w3, hrun3, hraised⟩ := h hn2 hne2
  rw [hcount2, hmoved1.madeUp_eq] at hraised
  have hsize2 := hwithin2.size
  have hsize3 := hraised.within.size
  obtain ⟨w4, hrun4, hmoved4⟩ := (hraised.within.calm hn2.holds.calm).finish_moved c
    (show id < w3.blocks.size by omega)
  have hlast := hraised.moved hmoved4 (by omega)
  refine ⟨w4, ?_, hlast.lodged ((hmoved1.within.mono fun _ hj => hj.elim).again hwithin2) (by omega)
    hchildren2 hid hhome hne2 hworded, hlast.count⟩
  rw [hvisit, hwork, bind_of_ok ((bind_of_ok hrun2).trans hrun3), hrun4]

end

section

variable {home fuel : Nat} {s : Scope} (above : List Tree)

theorem Assigns.lodged {t : Tree} {a : Assignment} (h : Assigns t a) (ha : a.Proper)
    (hs : ∀ x ∈ a.names, s.rename x = x) (hready : Ready w id home s)
    (hne : id = home ∨ w.childrenOf home ≠ [])
    (hparent : (Cursor.mk t above).parentKind?.any Statement.expressionParents.contains = true)
    (hfuel : t.height ≤ fuel + 1) :
    ∃ w', Declaration.walkUpTo (fuel + 1) id ⟨t, above⟩ w = .ok () w'
      ∧ Lodged w id home w' (a.value.hoist w.madeUp).deeds
        (Deed.assign a.target (a.value.hoist w.madeUp).term).text
      ∧ w'.madeUp = (a.value.hoist w.madeUp).count := by
  obtain ⟨u, hkind, hchildren⟩ : ∃ u, t.kind = .expr ∧ t.children = [u] := by
    cases h with
    | mk hkind _ _ _ _ => exact ⟨_, hkind, rfl⟩
  have hlt : u.height < t.height := Tree.height_child (by rw [hchildren]; simp)
  have hcursor : (Cursor.mk t above).kind = .expr := hkind
  refine ((h.raises (t :: above) hchildren ha hs).descend id (children_eq_singleton hchildren)
    (show u.height ≤ fuel by omega)).lodged rfl hready hne (by rw [hcursor]; decide)
    (Deed.worded_text ⟨ha.target, (a.value.wellFormed_term ha.value w.madeUp).1⟩) ?_
  unfold Statement.accept
  rw [hcursor]
  dsimp only
  rw [if_pos hparent, bind_assoc]
  rfl

/-- A method takes assignments one after the other. -/
theorem taken_all {ts : List Tree} {as : List Assignment} (h : List.Forall₂ Assigns ts as)
    (has : ∀ a ∈ as, a.Proper) (hs : ∀ a ∈ as, ∀ x ∈ a.names, s.rename x = x) (hready : Ready w home home s)
    (hparent : above.head?.any (fun t => Statement.expressionParents.contains t.kind) = true)
    (hfuel : ∀ t ∈ ts, t.height ≤ fuel) :
    ∃ w', ((ts.map fun t => Cursor.mk t above).forM fun child => do
        Declaration.walkUpTo fuel home child
        takeComments home home child.head.stop) w = .ok () w'
      ∧ Taken w home w' (deedsOf as w.madeUp) := by
  induction h generalizing w with
  | nil => exact ⟨w, rfl, .refl _ w, .refl w home⟩
  | @cons t a ts as h _ ih =>
    obtain ⟨ha, has⟩ := List.forall_mem_cons.1 has
    obtain ⟨hnames, hs⟩ := List.forall_mem_cons.1 hs
    obtain ⟨ht, hfuel⟩ := List.forall_mem_cons.1 hfuel
    have hhome := hready.site.lt_size
    obtain ⟨n, rfl⟩ := Tree.exists_fuel ht
    obtain ⟨w1, hrun1, hlodged1, hcount1⟩ := h.lodged above ha hnames hready (.inl rfl) (by
      cases above with
      | nil => cases hparent
      | cons parent above => exact hparent) ht
    have htaken1 := hlodged1.taken
    have hready1 := hready.frame htaken1.within
    obtain ⟨w2, hrun2, hmoved2⟩ := hready1.site.calm.takeComments_moved home home t.head.stop
    obtain ⟨w3, hrun3, htaken3⟩ := ih has hs (hready1.frame hmoved2.within) hfuel
    rw [hmoved2.madeUp_eq, hcount1] at htaken3
    refine ⟨w3, ?_, (htaken1.idle hmoved2.within hhome).trans htaken3 hhome⟩
    exact (bind_of_ok ((bind_of_ok hrun1).trans hrun2)).trans hrun3

theorem taken_body {body : Tree} {as : List Assignment} (hscope : body.kind = .blockScope)
    (h : List.Forall₂ Assigns body.children as) (has : ∀ a ∈ as, a.Proper)
    (hs : ∀ a ∈ as, ∀ x ∈ a.names, s.rename x = x) (hready : Ready w home home s) :
    ∃ w', Declaration.walkUpTo body.height home ⟨body, above⟩ w = .ok () w'
      ∧ Taken w home w' (deedsOf as w.madeUp) := by
  have hhome := hready.site.lt_size
  have hcursor : (Cursor.mk body above).kind = .blockScope := hscope
  obtain ⟨n, hn⟩ := Tree.exists_fuel (Nat.le_refl body.height)
  obtain ⟨w1, hmoved1, hvisit⟩ := walkUpTo_apply n hready.site (c := ⟨body, above⟩) (by rw [hcursor]; decide)
  have hready1 := hready.frame hmoved1.within
  obtain ⟨w2, hrun2, hwithin2, hcount2⟩ := unhandled_apply home (c := ⟨body, above⟩)
    (by rw [hcursor]; decide) w1
  have haccept : Statement.accept (Declaration.walkUpTo n) home ⟨body, above⟩ w1 = .ok (some home) w2 := by
    unfold Statement.accept
    rw [hcursor]
    exact hrun2
  have hready2 := hready1.frame hwithin2
  obtain ⟨w3, hrun3, htaken⟩ := taken_all (body :: above) h has hs hready2 (by
    rw [List.head?_cons, Option.any_some, hscope]
    decide) fun t ht => Nat.le_of_lt_succ (hn ▸ Tree.height_child ht)
  rw [hcount2, hmoved1.madeUp_eq] at htaken
  obtain ⟨w4, hrun4, hmoved4⟩ := (hready2.frame htaken.within).site.calm.finish_moved
    ⟨body, above⟩ (hready2.frame htaken.within).site.lt_size
  have hhome2 := hready2.site.lt_size
  refine ⟨w4, ?_, .after (hmoved1.within.idle hwithin2) (htaken.idle hmoved4.within hhome2) hhome⟩
  rw [hn, hvisit, bind_of_ok ((bind_of_ok haccept).trans hrun3), hrun4]

end

/-! ## What the lines do -/

/-- No type around a block has a member of a name. -/
def Workshop.Undeclared (w : Workshop) (id : Nat) (name : String) : Prop :=
  ∀ (j : Nat) (b : Block), j ∈ w.lineage id → w.blocks[j]? = some b → b.isClass = true → name ∉ b.declared

theorem Chain.rename_eq {chain : List (Nat × Block)} (h : Chain w id chain)
    {name : String} (hname : w.Undeclared id name) :
    (Scope.of (chain.map Prod.snd)).rename name = name := by
  have hnone : ((chain.map Prod.snd).any fun b => b.isClass && b.declared.contains name) = false := by
    rw [any_eq_false]
    intro b hb
    obtain ⟨p, hp, rfl⟩ := mem_map.1 hb
    rw [Bool.and_eq_true, contains_iff_mem]
    rintro ⟨hclass, hmem⟩
    refine hname p.1 p.2 ?_ (h.get_of_mem hp) hclass hmem
    rw [h.lineage_eq]
    exact mem_map_of_mem hp
  change Scope.renameIn (chain.map Prod.snd) name = name
  unfold Scope.renameIn
  rw [hnone]
  rfl

/-- A method before its body is visited, and how it writes names that no type around it has. -/
theorem Unwritten.ready (h : Unwritten w id b) :
    ∃ s, Ready { w with trail := {} } id id s ∧ ∀ x, w.Undeclared id x → s.rename x = x := by
  obtain ⟨chain, hchain, -⟩ := h.start.housed
  exact ⟨_, ⟨h.start.site rfl, .self h.get h.titled.form hchain, chain, hchain, rfl⟩,
    fun x hx => hchain.rename_eq hx⟩

/-- The lines of a method whose body is a list of assignments, read as commands and done one after the
other, leave all variables of the body as the assignments do. -/
theorem run_lines_eq_exec {w : Workshop} {id : Nat} {b : Block} (h : Unwritten w id b) {body : Tree}
    {as : List Assignment} (hscope : body.kind = .blockScope)
    (hbody : List.Forall₂ Assigns body.children as) (hproper : ∀ a ∈ as, a.Proper)
    (hfree : ∀ a ∈ as, ∀ x ∈ a.names, w.Undeclared id x) (level : Nat) {σ : Store} {m : Memory}
    (hm : ∀ a ∈ as, ∀ x ∈ a.names, m x = some (σ x)) :
    ∃ (text : String) (w' : Workshop) (marks : List String) (title : Block) (lines : List String)
      (commands : List Command) (m' : Memory),
      (walkTree id body [] >>= fun _ => dump level id) w = .ok text w' ∧ Titled title
        ∧ Entry.read text = marks.map .leaf
          ++ [.mk title.openingLine (.leaf title.describingLine :: lines.map .leaf)]
        ∧ lines.mapM Command.read? = some commands ∧ runAll commands m = some m'
        ∧ ∀ a ∈ as, ∀ x ∈ a.names, m' x = some (execAll as σ x) := by
  obtain ⟨s, hready, hs⟩ := h.ready
  obtain ⟨w1, hrun1, htaken⟩ := taken_body [] hscope hbody hproper
    (fun a ha x hx => hs x (hfree a ha x hx)) hready
  have hgrew := htaken.grew
  rw [← linesAll_map_leaf] at hgrew
  obtain ⟨text, w', hdump, marks, title, _, htitled, rfl, hread⟩ :=
    (h.read_body (p := False) (unless_of_ok hrun1 ⟨_, rfl, hgrew⟩) level).2 not_false
  obtain ⟨m', hrun, hagree⟩ := runAll_deedsOf hproper (P := fun x => ∃ a ∈ as, x ∈ a.names)
    (fun x ⟨a, ha, hx⟩ => (hproper a ha).source x hx) (fun a ha x hx => ⟨a, ha, hx⟩)
    (fun x ⟨a, ha, hx⟩ => hm a ha x hx) w.madeUp
  exact ⟨text, w', marks, title, (deedsOf as w.madeUp).map Deed.text, _, m', hdump, htitled, hread,
    mapM_read_text (wellFormed_deedsOf hproper _), hrun, fun a ha x hx => hagree x ⟨a, ha, hx⟩⟩

/-! ## Two assignments with steps -/

/-- A step inside a larger expression. -/
def stepTree (kind : Kind) (name : String) : Tree := .node { kind, nested := true } [nameTree name]

/-- The tree of `y = x++ * (2 + --z); x = y-- - x;`. -/
def stepsBody : Tree :=
  .node { kind := .blockScope } [exprTree (operationTree .assign "=" (nameTree "y")
      (operationTree .star "*" (stepTree .postInc "x") (.node { kind := .parenthesizedExpr } [
          exprTree (operationTree .plus "+" (.node { kind := .decimalLiteral, text := "2" } [])
            (stepTree .preDec "z"))]))),
    exprTree (operationTree .assign "=" (nameTree "x")
      (operationTree .minus "-" (stepTree .postDec "y") (nameTree "x")))]

def stepsAssignments : List Assignment := [
  ⟨"y", .binary .times (.step "x" false true)
    (.parenthesized (.binary .plus (.number "2") (.step "z" true false)))⟩,
  ⟨"x", .binary .minus (.step "y" false false) (.name "x")⟩]

theorem assigns_stepsBody : List.Forall₂ Assigns stepsBody.children stepsAssignments := by
  refine .cons (.mk rfl rfl rfl rfl ?_) (.cons (.mk rfl rfl rfl rfl ?_) .nil)
  · exact .binary .times rfl (.step false true rfl rfl rfl)
      (.parenthesized rfl rfl (.binary .plus rfl (.number rfl) (.step true false rfl rfl rfl)))
  · exact .binary .minus rfl (.step false false rfl rfl rfl) (.name rfl)

theorem not_isMadeUp {text : String} (h : text.toList.head? ≠ some '_') : ¬ IsMadeUp text := by
  rintro ⟨base, count, rfl⟩
  exact h (by rw [toList_madeUpName]; rfl)

theorem proper_stepsAssignments : ∀ a ∈ stepsAssignments, a.Proper := by
  refine forall_mem_cons.2 ⟨⟨by decide, by decide, fun x hx => ?_, by decide⟩,
    forall_mem_singleton.2 ⟨by decide, by decide, fun x hx => ?_, by decide⟩⟩
  all_goals exact not_isMadeUp (by revert x; decide)

theorem undeclared_sample (name : String) : sampleWorkshop.Undeclared 2 name := by
  intro j b _ hb _ hmem
  have hlt : j < 3 := (Array.getElem?_eq_some_iff.1 hb).1
  obtain rfl | rfl | rfl : j = 0 ∨ j = 1 ∨ j = 2 := by omega
  all_goals
    cases hb
    cases hmem

/-- From 5 for `x`, 0 for `y` and 7 for `z`, both languages come to 34, 39 and 6. -/
theorem run_lines_stepsBody :
    (Unwritten sampleWorkshop 2 sampleMethod ∧ stepsBody.kind = .blockScope
      ∧ List.Forall₂ Assigns stepsBody.children stepsAssignments
      ∧ (∀ a ∈ stepsAssignments, a.Proper)
      ∧ ∀ a ∈ stepsAssignments, ∀ x ∈ a.names, sampleWorkshop.Undeclared 2 x)
    ∧ ∃ (text : String) (w' : Workshop) (marks : List String) (title : Block) (lines : List String)
      (commands : List Command) (m' : Memory),
      (walkTree 2 stepsBody [] >>= fun _ => dump (0 : Nat) 2) sampleWorkshop = .ok text w'
        ∧ Entry.read text = marks.map .leaf
          ++ [.mk title.openingLine (.leaf title.describingLine :: lines.map .leaf)]
        ∧ lines.mapM Command.read? = some commands
        ∧ runAll commands (fun x => some (if x = "x" then 5 else if x = "z" then 7 else 0)) = some m'
        ∧ m' "x" = some 34 ∧ m' "y" = some 39 ∧ m' "z" = some 6 := by
  have hfree : ∀ a ∈ stepsAssignments, ∀ x ∈ a.names, sampleWorkshop.Undeclared 2 x :=
    fun _ _ x _ => undeclared_sample x
  obtain ⟨text, w', marks, title, lines, commands, m', hrun, -, hread, hcommands, hdone, hvalues⟩ :=
    run_lines_eq_exec unwritten_sample (show stepsBody.kind = .blockScope from rfl) assigns_stepsBody
      proper_stepsAssignments hfree 0
      (m := fun x => some (if x = "x" then 5 else if x = "z" then 7 else 0)) fun _ _ _ _ => rfl
  refine ⟨⟨unwritten_sample, rfl, assigns_stepsBody, proper_stepsAssignments, hfree⟩,
    text, w', marks, title, lines, commands, m', hrun, hread, hcommands, hdone, ?_, ?_, ?_⟩
  · exact hvalues _ (.head _) "x" (by decide)
  · exact hvalues _ (.head _) "y" (by decide)
  · exact hvalues _ (.head _) "z" (by decide)

/-- The tree of `y = not - b;`, where `not` is a name. -/
def reservedBody : Tree :=
  scopeTree (exprTree (operationTree .assign "=" (nameTree "y")
    (operationTree .minus "-" (nameTree "not") (nameTree "b"))))

/-- A variable whose name is a reserved word is read as that word: the line is not about the difference
of two variables, and has no number as its value. -/
theorem misread_reserved_variable :
    List.Forall₂ Assigns reservedBody.children [⟨"y", .binary .minus (.name "not") (.name "b")⟩]
      ∧ (∀ x ∈ ["y", "not", "b"], ¬ IsMadeUp x ∧ sampleWorkshop.Undeclared 2 x)
      ∧ (∃ w', (walkTree 2 reservedBody [] >>= fun _ => dump (0 : Nat) 2) sampleWorkshop
        = .ok "def run(self):\n    \"\"\" generated source for method run \"\"\"\n    y = not - b\n" w')
      ∧ Command.read? "y = not - b" = some ⟨"y", .unary .not (.unary .minus (.operand "b"))⟩
      ∧ ∀ m, (Command.mk "y" (.unary .not (.unary .minus (.operand "b")))).run m = none := by
  refine ⟨.cons (.mk rfl rfl rfl rfl (.binary .minus rfl (.name rfl) (.name rfl))) .nil,
    fun x hx => ⟨not_isMadeUp (by revert x; decide), undeclared_sample x⟩, ok_of_given (by decide +kernel), by decide,
    fun m => rfl⟩

end Transcriber
