import Transcriber.Proofs.Statement.Body

/-!
# A switch becomes a chain of tests

A `switch` whose groups end with a `break` becomes a chain of tests of one expression, its subject.  The
subject is put among the children of the block, takes an expression for the value of each group into
itself, and is taken out again at the end.

* `Linked` — the chain so far, with the subject in front of it.
* `fills_switch` — the lines of a switch.
* `chain_run_eq_switch` — what they do is what the switch does.
-/

namespace Transcriber

open Build Source Expression Entry List Statement

/-! ## The chain so far -/

/-- An expression takes a new block into itself. -/
theorem Formed.adjoin {P : Nat → Prop} {w w' : Workshop} (h : Formed P w w') {b p : Block} {n : Nat}
    {e : Expr} (hparent : b.parent = some n) (hp : w'.blocks[n]? = some p) (hform : p.form = .expression e) :
    Formed P w (w'.adjoin b) := by
  intro j c hP hc hmodule
  obtain ⟨c', hc', hform', hsame⟩ := h j c hP hc hmodule
  have hlt : j < w'.blocks.size := (Array.getElem?_eq_some_iff.1 hc').1
  by_cases hj : n = j
  · subst hj
    cases hp.symm.trans hc'
    refine ⟨{ p with children := p.children ++ [w'.blocks.size] }, ?_, hform', fun _ hexpression => ?_⟩
    · rw [Workshop.adjoin_get_parent w' b hparent hlt, hp]
      rfl
    · simp [Block.isExpression, ← hform', hform, Form.expr?] at hexpression
  · have hne : b.parent ≠ some j := by
      rw [hparent]
      exact fun heq => hj (Option.some.inj heq)
    exact ⟨c', (Workshop.adjoin_get_of_ne w' b hne hlt).trans hc', hform', hsame⟩

theorem Holds.spells {w : Workshop} {id : Nat} {s : Scope} {e : Expr} (h : Holds w id s e)
    {P : Nat → Prop} (hP : P id) {left right : Doc} (hleft : Spells w P e.left left)
    (hright : Spells w P e.right right) : Spells w P (.block id) (.node e.template left right) := by
  obtain ⟨b, hb, hform⟩ := h.form
  exact .block hP hb hform h.tail hleft hright

/-- The subject of a switch is the first of the new children of a block, and says a text; behind it are
blocks for some lines. -/
structure Linked (w₀ : Workshop) (id : Nat) (subject : String) (w : Workshop) (lines : List Line) : Prop where
  around : Around (· = id) w₀ w
  housed : Housed w w₀.blocks.size
  told : ∃ doc, Spells w (w₀.blocks.size ≤ ·) (.block w₀.blocks.size) doc ∧ doc.text? = some subject
  laid : ∃ ids, w.childrenOf id = w₀.childrenOf id ++ w₀.blocks.size :: ids
    ∧ Laid w w₀.blocks.size ids lines

namespace Linked

variable {w₀ w w' : Workshop} {id : Nat} {subject : String} {lines lines' : List Line}

section

variable (h : Linked w₀ id subject w lines)
include h

theorem extend {J : Nat → Prop} (hw : Around J w w') (hJ : ∀ j, J j → j = id ∨ w₀.blocks.size ≤ j)
    (hformed : Formed (w₀.blocks.size ≤ ·) w w') {ids : List Nat}
    (hids : w'.childrenOf id = w.childrenOf id ++ ids) (hlaid : Laid w' w₀.blocks.size ids lines') :
    Linked w₀ id subject w' (lines ++ lines') := by
  obtain ⟨doc, hdoc, htext⟩ := h.told
  obtain ⟨olds, holds, hlaidOld⟩ := h.laid
  refine ⟨h.around.trans hw hJ, h.housed.frame hw, ⟨doc, hformed.spells hdoc, htext⟩,
    olds ++ ids, ?_, (hlaidOld.move (Nat.le_refl _) hformed).append hlaid⟩
  rw [hids, holds, append_assoc, cons_append]

/-- Lines that are put behind the chain. -/
theorem grow (hid : id < w₀.blocks.size) (hgrew : Grew w id w' lines') :
    Linked w₀ id subject w' (lines ++ lines') := by
  obtain ⟨ids, hids, hlaid⟩ := hgrew.laid
  exact h.extend hgrew.around (fun _ hj => .inl hj)
    (hgrew.around.formed (.refl _ w) (fun j hj _ => by omega) (Nat.le_refl _)) hids (hlaid.mono h.around.size)

/-- In the end the subject is taken out. -/
theorem finish (hid : id < w₀.blocks.size) (htidy : w₀.blocks.size ∉ w₀.childrenOf id) {b : Block}
    (hb : w.blocks[id]? = some b) : b.children.contains w₀.blocks.size = true
      ∧ Grew w₀ id (w.edit id fun b => { b with children := b.children.erase w₀.blocks.size }) lines := by
  obtain ⟨ids, hids, hlaid⟩ := h.laid
  have hchildren : b.children = w₀.childrenOf id ++ w₀.blocks.size :: ids := by
    rw [Workshop.childrenOf, hb] at hids
    exact hids
  have haround : Around (· = id) w
      (w.edit id fun b => { b with children := b.children.erase w₀.blocks.size }) := by
    refine ⟨rfl, rfl, Nat.le_of_eq (Workshop.edit_size ..).symm, fun j _ => ?_, fun j _ hj => ?_⟩
    · by_cases hj : j = id
      · subst hj
        rw [Workshop.edit_get_self, Option.map_map]
        rfl
      · rw [Workshop.edit_get_of_ne _ _ _ hj]
    · rw [Workshop.edit_get_of_ne _ _ _ hj]
  refine ⟨?_, h.around.again haround, ids, ?_, hlaid.frame haround fun j hj _ => by omega⟩
  · rw [hchildren]
    simp
  · rw [Workshop.childrenOf, Workshop.edit_get_self, hb]
    change b.children.erase _ = _
    rw [hchildren, erase_append_right _ htidy, erase_cons_head]

end

/-- A group begins with a test whether the subject has a value. -/
theorem test (h : Linked w₀ id subject w lines) (hsite : Site w₀ id) (hsubject : Worded subject)
    {start keyword : String} (hstart : keyword ++ " " = start) (hworded : Worded start) {t value : Tree}
    {body above : List Tree} (hchildren : t.children = value :: body) (hexpr : value.kind = .expr)
    (hvalue : Clause value) (ht : Cursor.Every Plain ⟨t, above⟩) (first : Bool) {descend : Visit} {p : Prop}
    {Q : String → Workshop → Prop} (hcontent : ∀ {text : String} {w' : Workshop},
      Linked w₀ id subject w' (lines ++ [(0, start ++ (subject ++ " == " ++ text) ++ ":")]) →
      Unless p (groupContent descend id (body.map fun u => ⟨u, t :: above⟩)) w' fun _ => Q text) :
    Unless (Stuck false value ∨ p) (Statement.begin id keyword Slot.spacedColon >>= fun stat =>
      group descend id w₀.blocks.size stat first false ⟨t, above⟩) w fun _ w' =>
      ∃ text, Stated ⟨value, t :: above⟩ text ∧ Q text w' := by
  have hchild : (Cursor.mk t above).child? .expr = some ⟨value, t :: above⟩ := by
    simp [child?_eq_map, hchildren, hexpr]
  have hrest : (Cursor.mk t above).children.drop 1 = body.map fun u => ⟨u, t :: above⟩ := by
    rw [children_eq_map above hchildren]
    rfl
  have hid := hsite.lt_size
  have hsiteW := hsite.frame h.around
  have hn := h.housed.lt_size
  obtain ⟨docSubject, hdocSubject, htextSubject⟩ := h.told
  -- The statement, then the expression for the value inside the subject.
  obtain ⟨w1, hrun1, hunheaded⟩ := hsiteW.begin keyword Slot.spacedColon
  obtain ⟨b, hbegun, hform⟩ := hunheaded.begun
  have hsize1 := hunheaded.size
  obtain ⟨s1, -, hline⟩ := hunheaded.line
  obtain ⟨s, hs, hfits⟩ := (h.housed.frame hbegun.around).inScope
  obtain ⟨hwithin2, hholds2⟩ := (hbegun.around.calm hsiteW.calm).inside hs {} rfl
  have hformed1 : Formed (w₀.blocks.size ≤ ·) w w1 :=
    hbegun.around.formed (.refl _ w) (fun j hj _ => by omega) (Nat.le_refl _)
  have hformed2 : Formed (w₀.blocks.size ≤ ·) w
      (w1.adjoin { form := .expression {}, parent := some w₀.blocks.size }) := by
    cases hformed1.spells hdocSubject with
    | atom hatom => exact absurd rfl (hatom _)
    | block _ hb hform _ _ _ => exact hformed1.adjoin rfl hb hform
  have hsize2 := Workshop.adjoin_size w1 { form := .expression {}, parent := some w₀.blocks.size }
  unfold group
  rw [hchild, hrest]
  refine Unless.after hrun1 (Unless.after (expr_apply w1 _ {}) ((hvalue.walked (cons_ne_nil t above)
    (ht.inner (by simp [hchildren])) hfits hholds2).bind ?_))
  rintro _ w3 ⟨text, doc, hsaid, hwordedText, htext, hwent⟩
  have hsize3 := hwent.1.size
  -- The test, which becomes the right operand of the opening line.
  obtain ⟨w4, hrun4, hwithin4, hsize4, hholds4⟩ := (hwent.1.calm hholds2.calm).made {
    template := Slot.left ++ " == " ++ Slot.right, left := .block w₀.blocks.size,
    right := .block w1.blocks.size } rfl
  have hwithin14 : Within (· = w₀.blocks.size) w1 w4 :=
    (hwithin2.trans hwent.1 fun j hj => .inr (Nat.le_of_eq hj.symm)).idle hwithin4
  obtain ⟨w5, hrun5, hwithin5, -, hholds5⟩ := (hline.frame hwithin14 (by omega)).changed
    (fun e => { e with right := .block w3.blocks.size }) rfl
  have haround15 : Around (fun j => j = w₀.blocks.size ∨ w.blocks.size < j) w1 w5 :=
    (hwithin14.around.mono fun _ => .inl).trans hwithin5.around fun j hj => .inl (.inr (by omega))
  have haround25 : Around (w.blocks.size < ·)
      (w1.adjoin { form := .expression {}, parent := some w₀.blocks.size }) w5 :=
    ((hwent.1.idle hwithin4).around.mono fun j hj => by omega).trans hwithin5.around
      fun j hj => .inl (by omega)
  have hformed := haround25.formed hformed2 (fun j _ hj => by omega) (by omega)
  refine .after hrun4 (.after (hunheaded.opening hwithin14.around (by omega)) (.after hrun5
    (.imp (hcontent (h.extend
      ((hbegun.around.mono fun _ => .inl).trans haround15 fun j hj => .inl (.inr (by omega)))
    (fun _ hj => hj) hformed ((haround15.childrenOf (by omega) (by omega)).trans hbegun.children) ?_))
      fun _ _ hQ => ⟨text, ⟨s, hfits, hsaid⟩, hQ⟩)))
  have hspoken : Spells w5 (w₀.blocks.size ≤ ·) (.block w1.blocks.size)
      (Sheet.doc ⟨Slot.both, .atom (.text ""), doc⟩) := by
    have hspells := hwithin4.spells (hwent.2.spells (Q := (w1.blocks.size ≤ ·))
      (fun j hj => hj.elim False.elim (by omega)) (Nat.le_refl _)) fun _ _ _ => not_false
    exact (hwithin5.spells hspells fun j hj _ => by omega).mono fun j hj => by omega
  have htested := (hholds4.frame hwithin5 (by omega)).spells (P := (w₀.blocks.size ≤ ·)) (by omega)
    (hformed.spells hdocSubject) hspoken
  have hopened := hholds5.spells (P := (w₀.blocks.size ≤ ·)) (by omega) (spells_text keyword) htested
  have hvalueText : (Sheet.doc ⟨Slot.both, .atom (.text ""), doc⟩).text? = some text := by
    rw [Sheet.doc, Doc.text_node rfl htext, Slot.filled_both, String.empty_append]
  have hinner : Laid w5 (w.blocks.size + 1) b.children [] := by
    rw [hbegun.childless]
    exact .nil
  have hclause : Worded (subject ++ " == " ++ text) := by
    rw [String.append_assoc]
    exact hsubject.behind (.append (by decide) hwordedText.neat.oneLine)
  obtain ⟨hfilled, hwordedLine⟩ := headed_spacedColon start hstart hworded _ hclause
  exact .statement h.around.size (haround15.get hbegun.get (by simp [Block.isModule, hform]) (by omega)) hform
    hopened ((Doc.text_node rfl ((Doc.text_node htextSubject hvalueText).trans
      (Slot.filled_between " == " (by decide) _ _))).trans
      hfilled) hwordedLine hinner .nil

end Linked

/-! ## Groups -/

/-- Expressions, with a `break` behind them. -/
inductive Ended : List Tree → List Tree → Prop
  | leave {t : Tree} (hkind : t.kind = .breakWord) : Ended [t] []
  | step {t : Tree} {body steps : List Tree} (hkind : t.kind = .expr) (hclause : Clause t)
      (rest : Ended body steps) : Ended (t :: body) (t :: steps)

/-- The groups of a switch, with the clauses in them: each is for a value, only the last may be for the
others. -/
inductive Grouped : List Tree → List (Bool × Tree) → Prop
  | nil : Grouped [] []
  | value {t value : Tree} {body steps ts : List Tree} {ps : List (Bool × Tree)} (hkind : t.kind = .caseWord)
      (hchildren : t.children = value :: body) (hexpr : value.kind = .expr) (hvalue : Clause value)
      (hbody : Ended body steps) (rest : Grouped ts ps) :
      Grouped (t :: ts) ((false, value) :: near steps ++ ps)
  | others {t : Tree} {steps : List Tree} (hkind : t.kind = .defaultWord) (hbody : Ended t.children steps) :
      Grouped [t] (near steps)

/-- Entries are the lines of the expressions before a `break`. -/
inductive Suite : List Cursor → List Entry → Prop
  | leave {c : Cursor} (hkind : c.kind = .breakWord) : Suite [c] []
  | step {c : Cursor} {cs : List Cursor} {text : String} {suite : List Entry} (hkind : c.kind = .expr)
      (htext : Stated c text) (rest : Suite cs suite) : Suite (c :: cs) (.leaf text :: suite)

/-- Entries are a chain of tests, one for each group. -/
inductive Chained (subject : String) : Bool → List Cursor → List Entry → Prop
  | nil {first : Bool} : Chained subject first [] []
  | value {first : Bool} {c value : Cursor} {body cs : List Cursor} {text : String}
      {suite entries : List Entry} (hkind : c.kind = .caseWord) (hchildren : c.children = value :: body)
      (htext : Stated value text) (hsuite : Suite body suite) (rest : Chained subject false cs entries) :
      Chained subject first (c :: cs)
        (.mk ((if first then "if " else "elif ") ++ (subject ++ " == " ++ text) ++ ":") suite :: entries)
  | others {first : Bool} {c : Cursor} {suite : List Entry} (hkind : c.kind = .defaultWord)
      (hsuite : Suite c.children suite) :
      Chained subject first [c] [.mk (if first then "if True:" else "else:") suite]

section

variable {w₀ w : Workshop} {id fuel : Nat} {subject : String} {lines : List Line} {t : Tree}
  {above body steps : List Tree} (hbreaks : breaksLoop (Cursor.ancestors.go above) = false)
  (hkind : t.kind = .caseWord ∨ t.kind = .defaultWord) (h : Ended body steps)
include hbreaks hkind h

/-- What a group holds lies inside the switch, so a `break` brings no line; its expressions are statements. -/
theorem Ended.fills (hfuel : ∀ u ∈ body, u.height ≤ fuel)
    (hplain : ∀ u ∈ body, Cursor.Every Plain ⟨u, t :: above⟩) (hsite : Site w id) :
    Fills (AnyStuck false (near steps))
      ((body.map fun u => Cursor.mk u (t :: above)).forM (Declaration.walkUpTo fuel id)) w id
      (Suite (body.map fun u => ⟨u, t :: above⟩)) := by
  induction h generalizing w with
  | @leave leave hleave =>
    obtain ⟨n, rfl⟩ := Tree.exists_fuel (hfuel leave (.head _))
    have hcursor : (Cursor.mk leave (t :: above)).kind = .breakWord := hleave
    have hgroup : (Cursor.mk t above).kind = t.kind := rfl
    have hinside : breaksLoop (Cursor.mk leave (t :: above)).ancestors = false := by
      rw [Cursor.ancestors, Cursor.ancestors.go, breaksLoop, hgroup]
      rcases hkind with hkind | hkind <;> rw [hkind] <;> exact hbreaks
    change Fills _ (_ >>= fun _ => pure ()) _ _ _
    rw [bind_pure_unit]
    have haccept : Statement.accept (Declaration.walkUpTo n) id ⟨leave, t :: above⟩
        = Statement.accept.silent (Statement.leave id ⟨leave, t :: above⟩) := by
      unfold Statement.accept
      rw [hcursor]
    refine (fills_walk (p := False) hsite (by rw [hcursor]; decide) fun _ _ =>
      fills_silent haccept ?_).congr anyStuck_nil.symm
    unfold Statement.leave
    rw [hinside]
    exact .nothing (.leave hleave)
  | @step u body steps hexpr hclause _ ih =>
    have hfirst := (Structured.expression hexpr hclause).fills (hfuel u (.head _)) (fun _ => by
        change expressionParents.contains t.kind = true
        rcases hkind with hkind | hkind <;> rw [hkind] <;> decide) (hplain u (.head _)) hsite
    refine (Fills.append hsite hfirst (fun hsite' => ih (fun v hv => hfuel v (.tail _ hv))
      (fun v hv => hplain v (.tail _ hv)) hsite') ?_).congr anyStuck_append.symm
    intro _ _ hnests hsuite
    have hcursor : (Cursor.mk u (t :: above)).kind = .expr := hexpr
    cases hnests with
    | expression _ htext => exact .step hexpr htext hsuite
    | _ => simp_all

/-- The suite of a group is put behind the chain. -/
theorem Linked.content (hlinked : Linked w₀ id subject w lines) (hsite : Site w₀ id)
    (hmem : ∀ u ∈ body, u ∈ t.children) (hheight : t.height ≤ fuel + 1) (ht : Cursor.Every Plain ⟨t, above⟩) :
    Unless (AnyStuck false (near steps))
      (groupContent (Declaration.walkUpTo fuel) id (body.map fun u => ⟨u, t :: above⟩)) w fun _ w' =>
      ∃ suite, Suite (body.map fun u => ⟨u, t :: above⟩) suite
        ∧ Linked w₀ id subject w' (lines ++ deeper (linesAll suite)) := by
  have hsiteW := hsite.frame hlinked.around
  obtain ⟨b, w1, hrun1, hbegun, hform, hsite1⟩ := hsiteW.content
  have hne : (body.map fun u => Cursor.mk u (t :: above)).isEmpty = false := by
    cases h <;> rfl
  unfold groupContent
  refine Unless.after hrun1 (Unless.andThen (h.fills hbreaks hkind (fun u hu => ?_)
    (fun u hu => ht.inner (hmem u hu)) hsite1) ?_)
  · have hlt : u.height < t.height := Tree.height_child (hmem u hu)
    omega
  · rintro _ w2 ⟨suite, hsuite, hgrew⟩
    rw [hne]
    exact ⟨(), w2, rfl, suite, hsuite,
      hlinked.grow hsite.lt_size (hbegun.content hsiteW.lt_size hform hgrew)⟩

end

/-- The groups are put behind the chain one after the other. -/
theorem linked_groups {w₀ w : Workshop} {id fuel : Nat} {subject : String} {lines : List Line}
    {above ts : List Tree} {ps : List (Bool × Tree)} (hsite : Site w₀ id) (hsubject : Worded subject)
    (hbreaks : breaksLoop (Cursor.ancestors.go above) = false) (h : Grouped ts ps)
    (hfuel : ∀ t ∈ ts, t.height ≤ fuel + 1) (hplain : ∀ t ∈ ts, Cursor.Every Plain ⟨t, above⟩)
    (hlinked : Linked w₀ id subject w lines) (first : Bool) :
    Unless (AnyStuck false ps) (groups (Declaration.walkUpTo fuel) id w₀.blocks.size first
        (ts.map fun t => ⟨t, above⟩)) w fun _ w' =>
      ∃ entries, Chained subject first (ts.map fun t => ⟨t, above⟩) entries
        ∧ Linked w₀ id subject w' (lines ++ linesAll entries) := by
  have hid := hsite.lt_size
  induction h generalizing w lines first with
  | nil =>
    refine Unless.congr (unless_of_ok rfl ⟨[], .nil, ?_⟩) anyStuck_nil.symm
    rw [linesAll_nil, append_nil]
    exact hlinked
  | @value t value body steps ts ps hkind hchildren hexpr hvalue hbody _ ih =>
    have ht := hplain t (.head _)
    have hstart : (if first then "if" else "elif") ++ " " = if first then "if " else "elif " := by
      cases first <;> rfl
    have hworded : Worded (if first then "if " else "elif ") := by cases first <;> decide
    have hwork : groups (Declaration.walkUpTo fuel) id w₀.blocks.size first ((t :: ts).map fun t => ⟨t, above⟩)
        = (Statement.begin id (if first then "if" else "elif") Slot.spacedColon >>= fun stat =>
            group (Declaration.walkUpTo fuel) id w₀.blocks.size stat first false ⟨t, above⟩) >>= fun _ =>
          groups (Declaration.walkUpTo fuel) id w₀.blocks.size false (ts.map fun t => ⟨t, above⟩) := by
      have hgroup : ((Cursor.mk t above).kind == .defaultWord) = false := by
        rw [show (Cursor.mk t above).kind = .caseWord from hkind]
        rfl
      rw [map_cons, groups, hgroup, bind_assoc]
      cases first <;> rfl
    rw [hwork, cons_append, anyStuck_cons, anyStuck_append, ← or_assoc]
    refine (hlinked.test hsite hsubject hstart hworded hchildren hexpr hvalue ht first
      fun hlinked => hlinked.content hbreaks (.inl hkind) hbody hsite (by simp_all) (hfuel t (.head _))
        ht).bind fun _ w2 hgroup => ?_
    obtain ⟨text, htext, suite, hsuite, hlinked2⟩ := hgroup
    refine Unless.imp (ih (fun u hu => hfuel u (.tail _ hu)) (fun u hu => hplain u (.tail _ hu))
      hlinked2 false) ?_
    rintro _ w3 ⟨entries, hentries, hlinked3⟩
    refine ⟨_, .value hkind (children_eq_map above hchildren) htext hsuite hentries, ?_⟩
    rw [linesAll_cons]
    simpa using hlinked3
  | @others t steps hkind hbody =>
    have ht := hplain t (.head _)
    have hsiteW := hsite.frame hlinked.around
    have hidW := hsiteW.lt_size
    have hgroup : ((Cursor.mk t above).kind == .defaultWord) = true := by
      rw [show (Cursor.mk t above).kind = .defaultWord from hkind]
      rfl
    -- The opening line of the group for the other values depends on whether it is the only one.
    have hopened : ∃ w1, Grew w id w1 [(0, if first then "if True:" else "else:")]
        ∧ groups (Declaration.walkUpTo fuel) id w₀.blocks.size first [⟨t, above⟩] w
          = groupContent (Declaration.walkUpTo fuel) id (t.children.map fun u => ⟨u, t :: above⟩) w1 := by
      rw [groups, hgroup]
      cases first with
      | true =>
        obtain ⟨w1, hrun1, hunheaded⟩ := hsiteW.begin "if" Slot.spacedColon
        obtain ⟨w2, hrun2, hheaded⟩ := hunheaded.tell hidW "True"
          (Slot.filled_spacedColon "if" "True") (by decide)
        refine ⟨w2, hheaded.alone hidW, ?_⟩
        unfold group
        simp only [if_true, bind_assoc, groups, bind_pure_unit]
        exact (bind_of_ok hrun1).trans ((bind_of_ok (hunheaded.opening (.refl (fun _ => False) w1)
          not_false)).trans (bind_of_ok hrun2))
      | false =>
        obtain ⟨w1, hrun1, hunheaded⟩ := hsiteW.begin "else" Slot.leftColon
        refine ⟨w1, (hunheaded.bare hidW (Slot.filled_leftColon "else" "") (by decide)).alone hidW, ?_⟩
        unfold group
        simp only [Bool.false_eq_true, if_false, if_true, groups, bind_pure_unit]
        exact bind_of_ok hrun1
    obtain ⟨w1, hgrew, hrun⟩ := hopened
    refine Unless.of_apply_eq hrun (((hlinked.grow hid hgrew).content hbreaks (.inr hkind) hbody hsite
      (fun _ hu => hu) (hfuel t (.head _)) ht).imp ?_)
    rintro _ w2 ⟨suite, hsuite, hlinked2⟩
    refine ⟨_, .others hkind hsuite, ?_⟩
    rw [linesAll_singleton]
    simpa using hlinked2

/-- A switch: what it is about, and its groups. -/
structure SwitchOn (t subject labels : Tree) (ps : List (Bool × Tree)) : Prop where
  kind : t.kind = .switchWord
  children : t.children = [subject, labels]
  bracketed : subject.kind = .parenthesizedExpr
  clause : Clause subject
  listed : labels.kind = .switchBlockLabelList
  groups : Grouped labels.children ps

/-- Entries are the lines of a switch. -/
def SwitchLines (subject labels : Cursor) (entries : List Entry) : Prop :=
  ∃ text, (labels.children ≠ [] → Stated subject text) ∧ Chained text true labels.children entries

section

variable {t subject labels : Tree} {above : List Tree} {ps : List (Bool × Tree)}

theorem fills_switch {w : Workshop} {id fuel : Nat} (h : SwitchOn t subject labels ps)
    (hfuel : t.height ≤ fuel + 1) (hplain : Cursor.Every Plain ⟨t, above⟩) (hsite : Site w id)
    (htidy : w.blocks.size ∉ w.childrenOf id) :
    Fills (labels.children ≠ [] ∧ AnyStuck false ((false, subject) :: ps))
      (Statement.switch (Declaration.walkUpTo fuel) id ⟨t, above⟩) w id
      (SwitchLines ⟨subject, t :: above⟩ ⟨labels, t :: above⟩) := by
  have hid := hsite.lt_size
  have hchild1 : (Cursor.mk t above).child? .parenthesizedExpr = some ⟨subject, t :: above⟩ := by
    simp [child?_eq_map, h.children, h.bracketed]
  have hchild2 : (Cursor.mk t above).child? .switchBlockLabelList = some ⟨labels, t :: above⟩ := by
    simp [child?_eq_map, h.children, h.bracketed, h.listed]
  have hcursors : (Cursor.mk labels (t :: above)).children
      = labels.children.map fun u => ⟨u, labels :: t :: above⟩ := rfl
  unfold Statement.switch
  rw [hchild1, hchild2]
  simp only [demand, pure_bind]
  by_cases hempty : labels.children = []
  · have hnone : (Cursor.mk labels (t :: above)).children = [] := by rw [hcursors, hempty]; rfl
    rw [hnone]
    refine (Fills.nothing ⟨"", fun hne => absurd hnone hne, ?_⟩).congr (by simp [hempty])
    rw [hnone]
    exact .nil
  · have hsome : (!(Cursor.mk labels (t :: above)).children.isEmpty) = true := by
      rw [hcursors, isEmpty_map]
      simpa using hempty
    rw [hsome, if_pos rfl]
    obtain ⟨b, w1, s, hrun1, hbegun, hsize1, hs, hholds⟩ := hsite.expr {} rfl
    refine Unless.congr (Unless.after hrun1 ((h.clause.walked (cons_ne_nil t above)
      (hplain.inner (by simp [h.children])) hs hholds).bind ?_))
      (by rw [anyStuck_cons]; exact (and_iff_right hempty).symm)
    rintro _ w2 ⟨text, doc, hsaid, hworded, htext, hwent⟩
    have hsize2 := hwent.1.size
    have hlinked : Linked w id text w2 [] := by
      refine ⟨hbegun.around.trans hwent.1.around fun j hj => .inr (Nat.le_of_eq hj.symm),
        hbegun.housed.frame hwent.1.around, ⟨_, hwent.2.spells (fun j hj => hj.elim False.elim (by omega))
          (Nat.le_refl _), ?_⟩, [], ?_, .nil⟩
      · rw [Sheet.doc, Doc.text_node rfl htext, Slot.filled_both, String.empty_append]
      · exact (hwent.1.around.childrenOf (by omega) (by omega)).trans hbegun.children
    have hbreaks : breaksLoop (Cursor.ancestors.go (labels :: t :: above)) = false := by
      have hlist : (Cursor.mk labels (t :: above)).kind = .switchBlockLabelList := h.listed
      have hswitch : (Cursor.mk t above).kind = .switchWord := h.kind
      rw [Cursor.ancestors.go, breaksLoop, hlist, Cursor.ancestors.go, breaksLoop, hswitch]
      rfl
    have hlower (u : Tree) (hu : u ∈ labels.children) : u.height ≤ fuel := by
      have hlt : u.height < labels.height := Tree.height_child hu
      have hlt' : labels.height < t.height := Tree.height_child (by simp [h.children])
      omega
    refine (linked_groups hsite hworded hbreaks h.groups (fun u hu => Nat.le_succ_of_le (hlower u hu))
      (fun u hu => (hplain.inner (by simp [h.children])).inner hu) hlinked true).andThen ?_
    rintro _ w3 ⟨entries, hentries, hlinked3⟩
    obtain ⟨c, hc, -⟩ := (hsite.frame hlinked3.around).form
    obtain ⟨hcontains, hgrew⟩ := hlinked3.finish hid htidy hc
    refine ⟨(), _, ?_, entries, ⟨text, fun _ => ⟨s, hs, hsaid⟩, hentries⟩, hgrew⟩
    rw [bind_of_ok (block_apply w3 id hc), if_pos hcontains]
    exact change_apply w3 id _

end

/-! ## What a chain does -/

/-- What the expressions of the input language mean in a state: their values, and their effects. -/
structure Meaning (σ : Type) where
  value : Cursor → σ → Int
  effect : Cursor → σ → σ

/-- What the output language means in a state: the tests that hold, and the effects of entries. -/
structure Machine (σ : Type) where
  holds : String → σ → Bool
  effect : Entry → σ → σ

/-- The test of an entry of a chain; the first one begins in another way, and `else` has none. -/
def testOf? (first : Bool) (line : String) : Option String :=
  let start := if first then "if " else "elif "
  if !first && line == "else:" then some "True"
  else if start.toList <+: line.toList ∧ line.toList.getLast? = some ':' then
    some (String.ofList (line.toList.drop start.length).dropLast)
  else none

section

variable {σ : Type} {m : Meaning σ} {k : Machine σ}

/-- A chain of tests: the suite behind the first test that holds is done. -/
def Machine.chain (k : Machine σ) : Bool → List Entry → σ → Option σ
  | _, [], s => some s
  | first, .mk line suite :: rest, s => do
    if k.holds (← testOf? first line) s then return suite.foldl (fun s e => k.effect e s) s
    else k.chain false rest s

/-- Whether a group is for the value of the subject. -/
def Meaning.isFor (m : Meaning σ) (subject : Cursor) (s : σ) (group : Cursor) : Bool :=
  group.kind == .caseWord && group.children.head?.any fun value => m.value value s == m.value subject s

/-- A switch goes on with the group for the value of its subject, or else with the one for the others, and
through all groups behind it, up to a `break`. -/
def Meaning.switch (m : Meaning σ) (subject : Cursor) (groups : List Cursor) (s : σ) : σ :=
  let entered := if groups.any (m.isFor subject s) then groups.dropWhile (!m.isFor subject s ·)
    else groups.dropWhile (·.kind != .defaultWord)
  let steps := entered.flatMap fun group => group.children.drop (if group.kind == .caseWord then 1 else 0)
  (steps.takeWhile (·.kind != .breakWord)).foldl (fun s c => m.effect c s) s

/-- The tests and the lines of a chain mean what the labels and the expressions of the groups mean. -/
structure Faithful (m : Meaning σ) (k : Machine σ) (subject : Cursor) (groups : List Cursor) : Prop where
  truth : ∀ s, k.holds "True" s = true
  test : ∀ c ∈ groups, ∀ value ∈ c.children.head?, ∀ {text other : String}, Stated subject text →
    Stated value other → ∀ s, k.holds (text ++ " == " ++ other) s = (m.value value s == m.value subject s)
  step : ∀ c ∈ groups, ∀ step ∈ c.children, ∀ {text : String}, Stated step text →
    ∀ s, k.effect (.leaf text) s = m.effect step s

theorem testOf_start (first : Bool) (test : String) :
    testOf? first ((if first then "if " else "elif ") ++ test ++ ":") = some test := by
  have hlist (start : String) : (start ++ test ++ ":").toList = start.toList ++ (test.toList ++ [':']) := by
    simp
  have helse : ("elif " ++ test ++ ":" == "else:") = false := by
    rw [beq_eq_false_iff_ne]
    intro heq
    simpa using congrArg String.toList heq
  have hrest : (!first && (if first then "if " else "elif ") ++ test ++ ":" == "else:") = false := by
    cases first
    · exact helse
    · rfl
  unfold testOf?
  rw [hrest, hlist, if_neg Bool.false_ne_true, if_pos ⟨prefix_append _ _, by simp⟩]
  simp [← String.length_toList]

theorem Suite.run {body : List Cursor} {suite : List Entry} (h : Suite body suite)
    (hk : ∀ c ∈ body, ∀ {text : String}, Stated c text → ∀ s, k.effect (.leaf text) s = m.effect c s)
    (rest : List Cursor) (s : σ) : suite.foldl (fun s e => k.effect e s) s
      = ((body ++ rest).takeWhile (·.kind != .breakWord)).foldl (fun s c => m.effect c s) s := by
  induction h generalizing s with
  | leave hleave => simp [hleave]
  | @step c cs text suite hkind htext _ ih =>
    rw [foldl_cons, hk c (.head _) htext, ih fun d hd => hk d (.tail _ hd)]
    simp [hkind]

theorem Chained.run {subject : Cursor} {text : String} {first : Bool}
    {cs : List Cursor} {entries : List Entry} (h : Chained text first cs entries)
    (hsubject : cs ≠ [] → Stated subject text) (hk : Faithful m k subject cs) (s : σ) :
    k.chain first entries s = some (m.switch subject cs s) := by
  induction h with
  | nil => rfl
  | @value first c value body cs text' suite entries hkind hchildren htext hsuite _ ih =>
    have hstated := hsubject (cons_ne_nil c cs)
    have htest := hk.test c (.head _) value (by simp [hchildren]) hstated htext s
    have hsteps := hsuite.run (fun d hd => hk.step c (.head _) d (by simp [hchildren, hd]))
    have hfor : m.isFor subject s c = (m.value value s == m.value subject s) := by
      simp [Meaning.isFor, hkind, hchildren]
    rw [Machine.chain, testOf_start, Option.bind_eq_bind, Option.bind_some, htest]
    unfold Meaning.switch
    rw [any_cons, dropWhile_cons, dropWhile_cons, hfor]
    cases m.value value s == m.value subject s with
    | true => simpa [hkind, hchildren] using hsteps _ s
    | false =>
      have hrest := ih (fun _ => hstated) ⟨hk.truth, fun d hd => hk.test d (.tail _ hd), fun d hd =>
        hk.step d (.tail _ hd)⟩
      simpa [hkind, Meaning.switch] using hrest
  | @others first c suite hkind hsuite =>
    have htest : testOf? first (if first then "if True:" else "else:") = some "True" := by
      cases first
      · rfl
      · exact testOf_start true "True"
    have hsteps := hsuite.run (hk.step c (.head _)) [] s
    rw [Machine.chain, htest, Option.bind_eq_bind, Option.bind_some, hk.truth]
    simpa [Meaning.switch, Meaning.isFor, hkind] using hsteps

/-- A method whose body is a switch: the chain of tests that it is printed with does what the switch does. -/
theorem chain_run_eq_switch {w : Workshop} {id : Nat} {b : Block} (h : Unwritten w id b)
    {body t subject labels : Tree} {ps : List (Bool × Tree)} (hscope : body.kind = .blockScope)
    (hbody : body.children = [t]) (ht : SwitchOn t subject labels ps) (hplain : body.Every Plain) (level : Nat)
    (hk : Faithful m k ⟨subject, [t, body]⟩ (Cursor.mk labels [t, body]).children) :
    Unless (labels.children ≠ [] ∧ AnyStuck false ((false, subject) :: ps))
      (walkTree id body [] >>= fun _ => dump level id) w fun text _ =>
      ∃ (marks : List String) (title : Block) (entries : List Entry), Titled title
        ∧ (∀ s, k.chain true entries s
          = some (m.switch ⟨subject, [t, body]⟩ (Cursor.mk labels [t, body]).children s))
        ∧ Entry.read text = marks.map .leaf
          ++ [.mk title.openingLine (.leaf title.describingLine :: entries)] := by
  have hheight := Tree.height_child (t := body) (u := t) (by simp [hbody])
  have hcursor : (Cursor.ofTree body).kind = .blockScope := hscope
  have hswitch : (Cursor.mk t [body]).kind = .switchWord := ht.kind
  refine h.read_body (Fills.imp (R := SwitchLines ⟨subject, [t, body]⟩ ⟨labels, [t, body]⟩) ?_ ?_) level
  · obtain ⟨n, hn⟩ := Tree.exists_fuel (Nat.le_refl body.height)
    obtain ⟨n', rfl⟩ := Tree.exists_fuel (show t.height ≤ n by omega)
    rw [hn]
    refine fills_walk (h.start.site rfl) (by rw [hcursor]; decide) fun haround hsite => fills_through hsite
      ?_ (by rw [hcursor]; decide) fun haround' hsite' => ?_
    · unfold Statement.accept
      rw [hcursor]
    · have hchildren : (Cursor.ofTree body).children = [⟨t, [body]⟩] := children_eq_singleton hbody
      have htidy {w' : Workshop} (hw : Around (fun _ => False) { w with trail := {} } w') :
          w'.blocks.size ∉ w'.childrenOf id := by
        rw [hw.childrenOf h.start.housed.lt_size not_false, Workshop.childrenOf, h.start.get]
        simp [h.childless]
      have haccept : Statement.accept (Declaration.walkUpTo n') id ⟨t, [body]⟩
          = Statement.accept.silent (Statement.switch (Declaration.walkUpTo n') id ⟨t, [body]⟩) := by
        unfold Statement.accept
        rw [hswitch]
      have hfirst := Fills.commented (fills_walk hsite' (by rw [hswitch]; decide) fun haround'' hsite'' =>
        fills_silent haccept (fills_switch ht (by omega) ((Cursor.every_ofTree hplain).inner (by simp [hbody]))
          hsite'' (htidy ((haround.idle haround').idle haround'')))) hsite' id t.head.stop
      unfold goOn
      rw [hchildren]
      change Fills _ (_ >>= fun _ => pure ()) _ _ _
      rw [bind_pure_unit]
      exact hfirst
  · rintro entries ⟨text, hstated, hchained⟩ s
    exact hchained.run hstated hk s

end

/-! ## A switch that changes a flag -/

/-- The groups of `switch (k) { case n: x = y; break; default: break; }`. -/
def labelsTree : Tree :=
  .node { kind := .switchBlockLabelList } [
    .node { kind := .caseWord } [exprTree (nameTree "n"), assignTree "x" "y", .node { kind := .breakWord } []],
    .node { kind := .defaultWord } [.node { kind := .breakWord } []]]

/-- Where all tests hold and every line changes a flag, the chain changes it once. -/
theorem chain_run_labelsTree : ∃ text w',
    (walkTree 2 (scopeTree (.node { kind := .switchWord } [conditionTree "k", labelsTree])) [] >>= fun _ =>
      dump (0 : Nat) 2) sampleWorkshop = .ok text w'
    ∧ ∃ (marks : List String) (title : Block) (entries : List Entry), Titled title
      ∧ (∀ flag, Machine.chain ⟨fun _ _ => true, fun _ flag => !flag⟩ true entries flag = some (!flag))
      ∧ Entry.read text = marks.map .leaf
        ++ [.mk title.openingLine (.leaf title.describingLine :: entries)] := by
  have hsubject := easy_conditionTree (by decide : Worded "k")
  have hvalue := easy_nameTree (by decide : Worded "n")
  have hstep := easy_assignTree (by decide : Worded "x") (by decide : Worded "y")
  have hothers : Grouped [.node { kind := .defaultWord } [.node { kind := .breakWord } []]] (near []) :=
    .others rfl (.leave rfl)
  have hgroups : Grouped labelsTree.children (_ :: near [assignTree "x" "y"] ++ near []) :=
    .value rfl rfl rfl hvalue.1 (.step rfl hstep.1 (.leave rfl)) hothers
  have hfaithful (c : Cursor) (cs : List Cursor) : Faithful ⟨fun _ _ => 0, fun _ flag => !flag⟩
      ⟨fun _ _ => true, fun _ flag => !flag⟩ c cs :=
    ⟨fun _ => rfl, fun _ _ _ _ _ _ _ _ _ => rfl, fun _ _ _ _ _ _ _ => rfl⟩
  have hswitch : SwitchOn (.node { kind := .switchWord } [conditionTree "k", labelsTree]) (conditionTree "k")
      labelsTree _ := ⟨rfl, rfl, rfl, hsubject.1, rfl, hgroups⟩
  refine (chain_run_eq_switch unwritten_sample rfl rfl hswitch ?_ 0 (hfaithful _ _)).2 ?_
  · simp [labelsTree, scopeTree, conditionTree, assignTree, exprTree, operationTree, nameTree, Plain]
  · simp [near, anyStuck_cons, anyStuck_nil, hsubject.2, hvalue.2, hstep.2]

end Transcriber
