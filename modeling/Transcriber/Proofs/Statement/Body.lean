import Transcriber.Proofs.Statement.Method
import Transcriber.Proofs.Statement.Nested

/-!
# The body of a method

A method visits its body, a tree of statements, and is printed.  Then its lines are nested by their
indentation as the statements are nested in the tree.  Only where an operand asks for what encloses an
expression that nothing encloses, the visit comes to no end.

* `dump_nests_as_body` — the lines of the method are nested as its body.
-/

namespace Transcriber

open Build Source Expression Entry List

variable {b : Block} {text : String} {kind : Kind}

/-- What the work on statements leaves alone about a method. -/
theorem Block.title_of_bare {b' : Block} (h : b'.bare = b.bare) : b'.name = b.name
    ∧ b'.decorators = b.decorators ∧ b'.parameters = b.parameters ∧ b'.overloaded = b.overloaded := by
  simp only [Block.bare, Block.hollow, Block.mk.injEq] at h
  grind

/-- A method of a type in a module that has not visited its body. -/
structure Unwritten (w : Workshop) (id : Nat) (b : Block) : Prop where
  config : w.config = .standard
  get : w.blocks[id]? = some b
  titled : Titled b
  childless : b.children = []
  housed : Housed w id
  present : ∀ (j : Nat) (c : Block), w.blocks[j]? = some c → ∀ k ∈ c.children,
    ∃ d, w.blocks[k]? = some d ∧ ∀ mark ∈ d.overloaded, Neat mark

namespace Unwritten

variable {w w' : Workshop} {id : Nat}

variable (h : Unwritten w id b)
include h

/-- The same method at the start of a visit without tokens. -/
theorem start : Unwritten { w with trail := {} } id b := by
  obtain ⟨chain, hchain, hsheltered⟩ := h.housed
  have hsame : ∀ j, j ≤ id → ({ w with trail := {} } : Workshop).blocks[j]?.map Block.bare
      = w.blocks[j]?.map Block.bare := fun _ _ => rfl
  obtain ⟨chain', hchain', hmap⟩ := hchain.congr Block.parent_of_bare hsame
  refine ⟨h.config, h.get, h.titled, h.childless, ⟨chain', hchain', hsheltered.congr ?_⟩, h.present⟩
  rw [map_map, map_map, hmap]

theorem site (htokens : w.trail.tokens = []) : Site w id :=
  ⟨⟨h.config, htokens⟩, h.housed, b, h.get, by rw [h.titled.form]; rfl⟩

/-- A method is declared inside another block. -/
theorem owner : ∃ owner o, b.parent = some owner ∧ owner < id ∧ w.blocks[owner]? = some o := by
  obtain ⟨chain, hchain, hsheltered⟩ := h.housed
  cases hchain with
  | root hb hp =>
    cases h.get.symm.trans hb
    have hhomed := hsheltered.homed
    simp [Block.isModule, h.titled.form] at hhomed
  | inside hb hp hlt outer =>
    cases h.get.symm.trans hb
    cases outer with
    | root ho _ => exact ⟨_, _, hp, hlt, ho⟩
    | inside ho _ _ _ => exact ⟨_, _, hp, hlt, ho⟩

theorem drafted (htokens : w.trail.tokens = []) {lines : List Line} (hgrew : Grew w id w' lines) :
    ∃ b', Drafted w' id b' ∧ Laid w' w.blocks.size b'.children lines := by
  have hid := h.housed.lt_size
  obtain ⟨owner, o, hparent, hlt, ho⟩ := h.owner
  obtain ⟨b', hb', hform⟩ := hgrew.around.get_suite h.get (by rw [h.titled.form]; rfl)
  have hbare : b'.bare = b.bare := by
    have hmap := hgrew.around.viewed id hid
    rw [hb', h.get] at hmap
    exact Option.some.inj hmap
  obtain ⟨hname, hdecorators, hparameters, -⟩ := Block.title_of_bare hbare
  have htitled : Titled b' :=
    ⟨hform.trans h.titled.form, hname ▸ h.titled.name, hdecorators ▸ h.titled.decorators,
      hparameters ▸ h.titled.parameters⟩
  -- What encloses the method was not touched, and the methods beside it have kept their marks.
  have hkept := hgrew.around.kept owner (Nat.lt_trans hlt hid) (Nat.ne_of_lt hlt)
  rw [ho] at hkept
  obtain ⟨o', ho', hsettled⟩ := Option.map_eq_some_iff.1 hkept
  have hchildren : o'.settled.children = o.settled.children := congrArg Block.children hsettled
  refine ⟨b', ⟨hgrew.around.calm ⟨h.config, htokens⟩, hb', htitled, owner, o',
    (Block.parent_of_bare b b' hbare).trans hparent, ho', ?_⟩, ?_⟩
  · intro c hc d hd
    obtain ⟨e, he, hmarks⟩ := h.present owner o ho c (hchildren ▸ hc)
    have hmap := hgrew.around.viewed c (Array.getElem?_eq_some_iff.1 he).1
    rw [hd, he] at hmap
    rw [(Block.title_of_bare (Option.some.inj hmap)).2.2.2]
    exact hmarks
  · obtain ⟨ids, hids, hlaid⟩ := hgrew.laid
    unfold Workshop.childrenOf at hids
    rw [hb', h.get] at hids
    have hall : b'.children = ids := by
      simpa [h.childless] using hids
    rw [hall]
    exact hlaid

end Unwritten

theorem linesAll_map_leaf (texts : List String) : linesAll (texts.map .leaf) = flush texts := by
  induction texts with
  | nil => exact linesAll_nil
  | cons text texts ih =>
    rw [map_cons, ← singleton_append, linesAll_append, linesAll_leaf, ih]
    rfl

/-- The lines of a method that is printed are nested as its entries. -/
theorem Drafted.read_dump {w : Workshop} {id low : Nat} (h : Drafted w id b)
    {entries : List Entry} (hl : Laid w low b.children (linesAll entries)) (level : Nat) :
    ∃ (text : String) (w' : Workshop) (marks : List String) (title : Block),
      dump level id w = .ok text w' ∧ Titled title ∧ Entry.read text = marks.map .leaf
        ++ [.mk title.openingLine (.leaf title.describingLine :: entries)] := by
  obtain ⟨w', title, marks, hdump, hmarks, htitled⟩ := h.dumped hl level
  refine ⟨_, w', marks, title, hdump, htitled, ?_⟩
  have hlines : flush (marks ++ [title.openingLine]) ++ deeper ((0, title.describingLine) :: linesAll entries)
      = linesAll (marks.map .leaf ++ [.mk title.openingLine (.leaf title.describingLine :: entries)]) := by
    rw [linesAll_append, linesAll_map_leaf, linesAll_cons, linesAll_nil,
      append_nil, Entry.leaf, linesAll_cons, linesAll_nil]
    simp [flush, deeper]
  rw [hlines]
  refine read_written (fun line hline => ?_) level
  rw [← hlines] at hline
  simp only [flush, deeper, map_append, map_cons, map_nil, append_assoc,
    mem_append, mem_map, mem_cons, not_mem_nil, or_false] at hline
  rcases hline with ⟨mark, hmark, rfl⟩ | rfl | rfl | ⟨other, hother, rfl⟩
  · exact hmarks mark hmark
  · exact htitled.worded_openingLine
  · exact htitled.worded_describingLine
  · exact hl.worded other hother

/-- A method that visits its body and is printed has the entries that the visit puts into it. -/
theorem Unwritten.read_body {w : Workshop} {id : Nat} (h : Unwritten w id b) {body : Tree}
    {p : Prop} {R : List Entry → Prop} (hfills : Fills p
      (Declaration.walkUpTo body.height id (.ofTree body)) { w with trail := {} } id R) (level : Nat) :
    Unless p (walkTree id body [] >>= fun _ => dump level id) w fun text _ =>
      ∃ (marks : List String) (title : Block) (entries : List Entry), Titled title ∧ R entries
        ∧ Entry.read text = marks.map .leaf
          ++ [.mk title.openingLine (.leaf title.describingLine :: entries)] := by
  refine .of_apply_eq (m := Declaration.walkUpTo body.height id (.ofTree body) >>= fun _ => dump level id)
    (w := { w with trail := {} }) rfl (Unless.andThen hfills ?_)
  rintro _ w1 ⟨entries, hentries, hgrew⟩
  obtain ⟨b1, hdrafted, hlaid⟩ := h.start.drafted rfl hgrew
  obtain ⟨text, w2, marks, title, hdump, htitled, hread⟩ := hdrafted.read_dump hlaid level
  exact ⟨text, w2, hdump, marks, title, entries, htitled, hentries, hread⟩

/-- The lines of a method are nested as its body: each line of a statement that holds others is followed
by theirs, one level deeper, in the order of the tree. -/
theorem dump_nests_as_body {w : Workshop} {id : Nat} {b : Block} (h : Unwritten w id b) {body : Tree}
    {ps : List (Bool × Tree)} (hscope : body.kind = .blockScope) (hbody : Structured body ps)
    (hplain : body.Every Plain) (level : Nat) :
    Unless (AnyStuck false ps) (walkTree id body [] >>= fun _ => dump level id) w fun text _ =>
      ∃ (marks : List String) (title : Block) (entries : List Entry), Titled title ∧ Nests (.ofTree body) entries
        ∧ Entry.read text = marks.map .leaf
          ++ [.mk title.openingLine (.leaf title.describingLine :: entries)] := by
  have hfills := hbody.fills (Nat.le_refl _) (fun hexpr => by rw [hscope] at hexpr; cases hexpr)
    (Cursor.every_ofTree hplain) (h.start.site rfl)
  exact h.read_body hfills level

/-! ## A loop with statements of every sort -/

def nameTree (text : String) : Tree := .node { kind := .ident, text } []

def operationTree (kind : Kind) (text : String) (left right : Tree) : Tree :=
  .node { kind, text } [left, right]

def exprTree (t : Tree) : Tree := .node { kind := .expr } [t]

def conditionTree (name : String) : Tree :=
  .node { kind := .parenthesizedExpr } [exprTree (nameTree name)]

/-- A statement that gives a variable the value of another one. -/
def assignTree (target value : String) : Tree :=
  exprTree (operationTree .assign "=" (nameTree target) (nameTree value))

def scopeTree (t : Tree) : Tree := .node { kind := .blockScope } [t]

/-- The kinds of nodes that need more than operands and arguments. -/
def demandingKinds : List Kind := [.castExpr, .classConstructorCall, .thisConstructorCall,
  .parenthesizedExpr, .question, .bitShiftRightAssign]

theorem sound_of_plain {t : Tree} (hkind : t.kind ∉ demandingKinds) (hknown : t.kind.name? ≠ none)
    (hstep : stepKind? t.kind = none) (htext : Neat t.text)
    (hword : t.kind = .ident ∨ t.kind ∈ literals → t.text ≠ "")
    (hoperator : t.kind ∈ betweenOperators → Braceless t.text ∧ Speaks t 0)
    (harguments : t.kind = .methodCall → (t.children.find? fun child => child.kind == .argumentList) ≠ none)
    (hs : ∀ p ∈ visited t, Sound p.2) : Sound t := by
  simp only [demandingKinds, mem_cons, not_mem_nil, or_false, not_or] at hkind
  obtain ⟨hcast, hmade, hthis, hparentheses, hchoice, hshift⟩ := hkind
  refine .node ⟨hknown, hstep, htext, hword, fun h => ?_, fun h => (hoperator h).2,
    fun h => absurd h hshift, fun h => absurd h hcast, fun h => harguments ?_, fun h => absurd h hmade,
    fun h => absurd h hparentheses, fun h => absurd h hchoice⟩ hs
  · exact (hoperator (mem_append_left _ h)).1
  · simp_all

theorem sound_nameTree (h : Worded text) : Sound (nameTree text) := by
  have hkind : (nameTree text).kind = .ident := rfl
  refine sound_of_plain ?_ ?_ ?_ h.neat (fun _ => h.ne_empty) (fun hmem => ?_) (fun heq => ?_)
    (forall_mem_nil _)
  all_goals simp only [hkind] at *
  · decide
  · decide
  · decide
  · exact absurd hmem (by decide)
  · cases heq

def Easy (t : Tree) : Prop := Clause t ∧ ∀ loose, ¬ Stuck loose t

theorem not_stuck_nameTree (text : String) (loose : Bool) : ¬ Stuck loose (nameTree text) := by
  rw [stuck_of_not_asking (by change Kind.ident ∉ askingKinds; decide)]
  exact anyStuck_nil.1

/-- A node around an only child is stuck where the child is. -/
theorem not_stuck_around (hkind : kind ∈ [Kind.expr, .parenthesizedExpr, .forCondition, .forUpdate])
    {u : Tree} (h : ∀ loose, ¬ Stuck loose u) (loose : Bool) : ¬ Stuck loose (.node { kind } [u]) := by
  have hnode : kind ∉ askingKinds ∧ visited (.node { kind } [u]) = near [u] := by
    simp only [mem_cons, not_mem_nil, or_false] at hkind
    rcases hkind with rfl | rfl | rfl | rfl <;> exact ⟨by decide, rfl⟩
  rw [stuck_singleton (t := .node { kind } [u]) hnode.1 hnode.2 rfl]
  exact h loose

theorem easy_nameTree (h : Worded text) : Easy (exprTree (nameTree text)) :=
  ⟨.bare rfl rfl (by change Kind.ident ∈ speakingKinds; decide) (sound_nameTree h),
    not_stuck_around (by decide) (not_stuck_nameTree text)⟩

theorem easy_conditionTree {name : String} (h : Worded name) : Easy (conditionTree name) :=
  ⟨.parenthesized rfl rfl (easy_nameTree h).1, not_stuck_around (by decide) (easy_nameTree h).2⟩

theorem easy_framed (hkind : kind ∈ [Kind.forCondition, .forUpdate]) {u : Tree}
    (h : Easy u) : Easy (.node { kind } [u]) :=
  ⟨.framed hkind rfl h.1, not_stuck_around (by simp_all) h.2⟩

theorem easy_operationTree (hkind : kind ∈ [Kind.assign, .lessThan])
    {left right : String} (htext : Worded text ∧ Braceless text) (hleft : Worded left)
    (hright : Worded right) :
    Easy (exprTree (operationTree kind text (nameTree left) (nameTree right))) := by
  have hspeaks : Speaks (operationTree kind text (nameTree left) (nameTree right)) 0 :=
    ⟨nameTree left, rfl, by change Kind.ident ∈ speakingKinds; decide⟩
  obtain ⟨hknown, hspeaking, hdemanding, hasking, hcall, hstep, hvisited⟩ : kind.name? ≠ none
      ∧ kind ∈ speakingKinds ∧ kind ∉ demandingKinds ∧ kind ∉ askingKinds ∧ kind ≠ .methodCall
      ∧ stepKind? kind = none ∧ visited (operationTree kind text (nameTree left) (nameTree right))
        = near [nameTree left, nameTree right] := by
    simp only [mem_cons, not_mem_nil, or_false] at hkind
    rcases hkind with rfl | rfl <;> exact ⟨by decide, by decide, by decide, by decide, by decide, rfl, rfl⟩
  refine ⟨.bare rfl rfl hspeaking (sound_of_plain hdemanding hknown hstep htext.1.neat
    (fun _ => htext.1.ne_empty) (fun _ => ⟨htext.2, hspeaks⟩) (fun h => absurd h hcall) ?_),
    not_stuck_around (by decide) fun loose => ?_⟩
  · rw [hvisited]
    simp only [near, map_cons, map_nil, forall_mem_cons]
    exact ⟨sound_nameTree hleft, sound_nameTree hright, forall_mem_nil _⟩
  · rw [stuck_of_not_asking (t := operationTree kind text (nameTree left) (nameTree right)) hasking,
      hvisited, anyStuck_near]
    simp only [mem_cons, not_mem_nil, or_false, not_exists, not_and]
    rintro t (rfl | rfl)
    · exact not_stuck_nameTree left loose
    · exact not_stuck_nameTree right loose

theorem easy_assignTree {target value : String} (htarget : Worded target) (hvalue : Worded value) :
    Easy (assignTree target value) :=
  easy_operationTree (by decide) ⟨by decide, by decide⟩ htarget hvalue

def typeTree : Tree := .node { kind := .typeRef } [.node { kind := .intType, text := "int" } []]

/-- A loop over a list, around a loop that tests at its start. -/
def listLoopTree : Tree :=
  .node { kind := .forEach } [
    .node { kind := .localModifierList } [], typeTree, nameTree "v", exprTree (nameTree "vs"),
    scopeTree (.node { kind := .whileWord } [conditionTree "d", scopeTree (assignTree "z" "v")])]

/-- A conditional with three branches; the second one holds a loop that tests at its end. -/
def branchesTree : Tree :=
  .node { kind := .ifWord } [conditionTree "a", scopeTree (assignTree "x" "y"), .node { kind := .ifWord } [
      conditionTree "b",
      scopeTree (.node { kind := .doWord } [scopeTree (assignTree "y" "z"), conditionTree "c"]),
      scopeTree listLoopTree]]

/-- The body of a method: a counting loop around that conditional. -/
def sampleBody : Tree :=
  scopeTree (.node { kind := .forWord } [.node { kind := .forInit } [.node { kind := .varDeclaration } [
        typeTree,
        .node { kind := .varDeclaratorList } [
          .node { kind := .varDeclarator } [nameTree "i", exprTree (nameTree "k")]]]],
    .node { kind := .forCondition } [exprTree (operationTree .lessThan "<" (nameTree "i") (nameTree "n"))],
    .node { kind := .forUpdate } [assignTree "i" "m"],
    scopeTree branchesTree])

theorem structured_scopeTree {t : Tree} {ps : List (Bool × Tree)} (h : Structured t ps) :
    Structured (scopeTree t) ps := by
  have hall := StructuredAll.cons h .nil
  rw [append_nil] at hall
  exact .scope rfl (cons_ne_nil _ _) hall

theorem structured_assignTree {target value : String} (htarget : Worded target) (hvalue : Worded value) :
    Structured (scopeTree (assignTree target value)) [(false, assignTree target value)] :=
  structured_scopeTree (.expression rfl (easy_assignTree htarget hvalue).1)

theorem idle_typeTree : Idle typeTree := .node (by decide) (by decide) fun u hu => by
    cases mem_singleton.1 hu
    exact .node (by decide) (by decide) (forall_mem_nil _)

theorem structured_listLoopTree : ∃ ps, Structured listLoopTree ps ∧ ¬ AnyStuck false ps := by
  refine ⟨_, .forEachLoop rfl rfl rfl rfl rfl (by decide) rfl (easy_nameTree (by decide)).1 rfl
    (structured_scopeTree (.whileLoop rfl rfl (easy_conditionTree (by decide)).1 rfl
      (structured_assignTree (by decide) (by decide)))), ?_⟩
  simp only [anyStuck_cons, anyStuck_nil, or_false, not_or]
  exact ⟨(easy_nameTree (by decide)).2 _, (easy_conditionTree (by decide)).2 _,
    (easy_assignTree (by decide) (by decide)).2 _⟩

theorem structured_branchesTree : ∃ ps, Structured branchesTree ps ∧ ¬ AnyStuck false ps := by
  obtain ⟨ps, hlist, hfree⟩ := structured_listLoopTree
  refine ⟨_, .conditional rfl rfl (easy_conditionTree (by decide)).1 rfl
    (structured_assignTree (by decide) (by decide)) (.further rfl (.conditional rfl rfl
      (easy_conditionTree (by decide)).1 rfl (structured_scopeTree (.doLoop rfl rfl rfl
        (structured_assignTree (by decide) (by decide)) (easy_conditionTree (by decide)).1))
      (.last rfl (structured_scopeTree hlist)))), ?_⟩
  simp only [anyStuck_cons, anyStuck_append, anyStuck_nil, or_false, not_or]
  exact ⟨⟨(easy_conditionTree (by decide)).2 _, (easy_assignTree (by decide) (by decide)).2 _⟩,
    ⟨(easy_conditionTree (by decide)).2 _, (easy_assignTree (by decide) (by decide)).2 _,
      (easy_conditionTree (by decide)).2 _⟩, hfree⟩

theorem counter_sampleBody : Counter (.node { kind := .forInit } [.node { kind := .varDeclaration } [
        typeTree,
        .node { kind := .varDeclaratorList } [
          .node { kind := .varDeclarator } [nameTree "i", exprTree (nameTree "k")]]]])
    (.node { kind := .varDeclaration } [typeTree, .node { kind := .varDeclaratorList } [
          .node { kind := .varDeclarator } [nameTree "i", exprTree (nameTree "k")]]])
    typeTree (.node { kind := .intType, text := "int" } [])
    (.node { kind := .varDeclaratorList } [
          .node { kind := .varDeclarator } [nameTree "i", exprTree (nameTree "k")]])
    (.node { kind := .varDeclarator } [nameTree "i", exprTree (nameTree "k")]) (nameTree "i") := by
  have hname : ∀ text, Idle (nameTree text) := fun text =>
    .node (by change Kind.ident ∉ busyKinds; decide) (by change Kind.ident.name? ≠ none; decide)
      (forall_mem_nil _)
  refine ⟨rfl, rfl, rfl, ?_, rfl, rfl, by decide, rfl, rfl, rfl, by decide, ?_⟩
  · simp only [Tree.children, forall_mem_cons]
    refine ⟨idle_typeTree, .node (by decide) (by decide) ?_, forall_mem_nil _⟩
    simp only [Tree.children, forall_mem_cons]
    refine ⟨.node (by decide) (by decide) ?_, forall_mem_nil _⟩
    simp only [Tree.children, forall_mem_cons]
    exact ⟨hname "i", .expr rfl, forall_mem_nil _⟩
  · intro value hvalue
    cases mem_singleton.1 hvalue
    exact (easy_nameTree (by decide)).1

theorem structured_sampleBody : ∃ ps, Structured sampleBody ps ∧ ¬ AnyStuck false ps := by
  obtain ⟨ps, hbranches, hfree⟩ := structured_branchesTree
  have hcompare : Easy (exprTree (operationTree .lessThan "<" (nameTree "i") (nameTree "n"))) :=
    easy_operationTree (by decide) ⟨by decide, by decide⟩ (by decide) (by decide)
  have hcondition := easy_framed (by decide : Kind.forCondition ∈ _) hcompare
  have hupdate := easy_framed (by decide : Kind.forUpdate ∈ _)
    (easy_assignTree (by decide : Worded "i") (by decide : Worded "m"))
  refine ⟨_, structured_scopeTree (.forLoop rfl rfl counter_sampleBody rfl hcondition.1 rfl hupdate.1 rfl
    (structured_scopeTree hbranches)), ?_⟩
  simp only [anyStuck_cons, anyStuck_append, anyStuck_nil, or_false, not_or]
  refine ⟨⟨?_, hcondition.2 _, hfree⟩, hupdate.2 _⟩
  rintro ⟨p, hp, hstuck⟩
  cases mem_singleton.1 hp
  exact (easy_nameTree (by decide)).2 _ hstuck

def sampleMethod : Block where
  form := .method
  name := some "run"
  parent := some 1
  parameters := [⟨"self", "object", none⟩]

/-- A module with a type that has this method. -/
def sampleWorkshop : Workshop where
  config := .standard
  blocks := #[{ form := .program {}, name := some "M", children := [1] },
    { form := .plainClass, name := some "A", parent := some 0, children := [2] },
    sampleMethod]

theorem unwritten_sample : Unwritten sampleWorkshop 2 sampleMethod := by
  refine ⟨rfl, rfl, ⟨rfl, by decide, forall_mem_nil _, ?_⟩, rfl, ?_, ?_⟩
  · intro p hp
    cases mem_singleton.1 hp
    exact ⟨rfl, by decide⟩
  · exact ⟨_, .inside rfl rfl (by decide) (.inside rfl rfl (by decide) (.root rfl rfl)), rfl, _, rfl,
      by decide, by decide⟩
  · intro j c hc k hk
    have hj : j < 3 := (Array.getElem?_eq_some_iff.1 hc).1
    obtain rfl | rfl | rfl : j = 0 ∨ j = 1 ∨ j = 2 := by omega
    · cases hc
      cases mem_singleton.1 hk
      exact ⟨_, rfl, by decide⟩
    · cases hc
      cases mem_singleton.1 hk
      exact ⟨_, rfl, by decide⟩
    · cases hc
      cases hk

/-- The lines of a method with statements of every sort are nested as its body. -/
theorem dump_nests_as_sampleBody :
    (Unwritten sampleWorkshop 2 sampleMethod
      ∧ sampleBody.kind = .blockScope ∧ (∃ ps, Structured sampleBody ps ∧ ¬ AnyStuck false ps)
      ∧ sampleBody.Every Plain)
    ∧ ∃ text w', (walkTree 2 sampleBody [] >>= fun _ => dump (0 : Nat) 2) sampleWorkshop = .ok text w'
      ∧ ∃ (marks : List String) (title : Block) (entries : List Entry), Titled title
        ∧ Nests (.ofTree sampleBody) entries
        ∧ Entry.read text = marks.map .leaf
          ++ [.mk title.openingLine (.leaf title.describingLine :: entries)] := by
  have hplain : sampleBody.Every Plain := by
    simp [sampleBody, branchesTree, listLoopTree, scopeTree, conditionTree, assignTree, exprTree, typeTree,
      operationTree, nameTree, Plain]
  obtain ⟨ps, hbody, hfree⟩ := structured_sampleBody
  exact ⟨⟨unwritten_sample, rfl, ⟨ps, hbody, hfree⟩, hplain⟩,
    (dump_nests_as_body unwritten_sample rfl hbody hplain 0).2 hfree⟩

def inheritedCallTree : Tree :=
  .node { kind := .methodCall } [
    .node { kind := .dot, text := "." } [.node { kind := .superWord, text := "super" } [], nameTree "items"],
    .node { kind := .argumentList } []]

/-- A loop over what an inherited method gives. -/
def inheritedLoopTree : Tree :=
  scopeTree (.node { kind := .forEach } [
    .node { kind := .localModifierList } [], typeTree, nameTree "v", exprTree inheritedCallTree,
    scopeTree (assignTree "x" "v")])

theorem sound_inheritedCallTree : Sound inheritedCallTree := by
  have hnone : ∀ p ∈ ([] : List (Bool × Tree)), Sound p.2 := forall_mem_nil _
  have hsuper : Sound (.node { kind := .superWord, text := "super" } []) :=
    sound_of_plain (by decide) (by decide) rfl (by decide) (by decide)
      (fun h => absurd h (by decide)) (fun h => absurd h (by decide)) hnone
  have hdot : Sound (.node { kind := .dot, text := "." }
      [.node { kind := .superWord, text := "super" } [], nameTree "items"]) :=
    sound_of_plain (by decide) (by decide) rfl (by decide) (by decide)
      (fun h => absurd h (by decide)) (fun h => absurd h (by decide))
      (forall_mem_cons.2 ⟨hsuper, forall_mem_cons.2 ⟨sound_nameTree (by decide), hnone⟩⟩)
  exact sound_of_plain (by decide) (by decide) rfl (by decide) (by decide)
    (fun h => absurd h (by decide)) (by decide) (forall_mem_cons.2 ⟨hdot, hnone⟩)

/-- A loop over what an inherited method gives is not visited to the end: the call asks for the type
around an expression that nothing encloses. -/
theorem inherited_loop_unfinished :
    (∃ ps, Structured inheritedLoopTree ps) ∧ inheritedLoopTree.Every Plain
      ∧ ∃ w', walkTree 2 inheritedLoopTree [] sampleWorkshop = .error .notFound w' := by
  refine ⟨⟨_, structured_scopeTree (.forEachLoop rfl rfl rfl rfl rfl (by decide) rfl
    (.bare rfl rfl (by decide) sound_inheritedCallTree) rfl
    (structured_assignTree (by decide) (by decide)))⟩, ?_, _, rfl⟩
  simp [inheritedLoopTree, inheritedCallTree, scopeTree, assignTree, exprTree, typeTree, operationTree,
    nameTree, Plain, stepKind?]

end Transcriber
