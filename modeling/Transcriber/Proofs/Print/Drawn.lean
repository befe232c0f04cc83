import Transcriber.Proofs.Print.Moved

/-!
# Pieces are printed in their places

A type is printed without the expressions that are moved out of it; these are left for later.

* `Piece.Drawn.prints` — a piece is printed in its place.
-/

namespace Transcriber

open Build List Printer String Workshop

/-- Pieces that show what is in a workshop.  Texts and opening lines can be printed; types belong to
the module. -/
inductive Piece.Drawn (w : Workshop) (home : BlockId) : Piece → Prop
  | line {id : BlockId} {b : Block} {text : String} (hb : w.blocks[id]? = some b)
      (hexpr : b.isExpression = true) (htext : ∃ n, (forLevels n).text id w = .ok text w) :
      Drawn w home (.line id b text)
  | suite {id : BlockId} {b : Block} {opening : Int → String} {members : List Piece}
      (hb : w.blocks[id]? = some b) (hsuite : b.form.isSuite = true) (hshape : b.Shaped w id)
      (hopens : w.Opens id opening) (hchildren : b.children = members.map Piece.id)
      (hmembers : ∀ p ∈ members, Drawn w home p) : Drawn w home (.suite id b opening members)
  | type {id : BlockId} {b : Block} {opening : Int → String} {members : List Piece}
      (hb : w.blocks[id]? = some b) (hform : b.form = .plainClass) (hopens : w.Opens id opening)
      (hhome : w.enclosing? id (·.isModule) = some home)
      (hchildren : b.children = members.map Piece.id) (hmembers : ∀ p ∈ members, Drawn w home p) :
      Drawn w home (.type id b opening members)

namespace Piece

variable {w0 w : Workshop} {home : BlockId}

variable {p : Piece}

theorem Drawn.get (h : p.Drawn w0 home) : w0.blocks[p.id]? = some p.block := by
  cases h with
  | line hb => exact hb
  | suite hb => exact hb
  | type hb => exact hb

theorem mem_idsEach {i : BlockId} {ps : List Piece} : i ∈ idsEach ps ↔ ∃ p ∈ ps, i ∈ p.ids := by
  rw [idsEach_eq, mem_flatMap]

/-- An expression with a text that can be printed. -/
def Readable (w : Workshop) (id : BlockId) (text : String) : Prop :=
  w.HoldsExpr id ∧ ∃ n, (forLevels n).text id w = .ok text w

theorem Drawn.readable {id : BlockId} {b : Block} {text : String} (h : (Piece.line id b text).Drawn w0 home) :
    Readable w0 id text := by
  cases h with
  | line hb hexpr htext =>
    obtain ⟨e, he⟩ := Option.isSome_iff_exists.1 hexpr
    exact ⟨⟨b, e, hb, he⟩, htext⟩

/-- What holds of what is moved out of each of some pieces. -/
theorem movesEach_of {P : Move → Prop} {members : List Piece}
    (h : ∀ p ∈ members, ∀ v ∈ p.moves, v.owner ∈ p.ids ∧ P v) :
    ∀ v ∈ movesEach members, v.owner ∈ idsEach members ∧ P v := by
  induction members with
  | nil => exact nofun
  | cons p members ih =>
    intro v hv
    rw [movesEach, mem_append] at hv
    rcases hv with hp | hrest
    · obtain ⟨howner, hP⟩ := h p (.head _) v hp
      exact ⟨mem_append_left _ howner, hP⟩
    · obtain ⟨howner, hP⟩ := ih (fun q hq => h q (.tail _ hq)) v hrest
      exact ⟨mem_append_right _ howner, hP⟩

/-- What is moved belongs to a type of the piece, and can be printed. -/
theorem Drawn.moves (h : p.Drawn w0 home) :
    ∀ v ∈ p.moves, v.owner ∈ p.ids ∧ w0.MovesFrom v ∧ Readable w0 v.child v.text := by
  induction h with
  | line => exact nofun
  | suite _ _ _ _ _ _ ih =>
    intro v hv
    obtain ⟨howner, hv⟩ := movesEach_of ih v hv
    exact ⟨.tail _ howner, hv⟩
  | type hb hform _ _ _ hmembers ih =>
    intro v hv
    rw [Piece.moves, mem_append] at hv
    rcases hv with hown | hinner
    · obtain ⟨p, hp, hmove⟩ := mem_filterMap.1 hown
      obtain ⟨c, rfl, rfl, -⟩ := move?_eq_some hmove
      have hread := (hmembers _ hp).readable
      obtain ⟨c', e, hc, he⟩ := hread.1
      refine ⟨.head _, ⟨⟨_, hb, by simp [Block.isClass, hform]⟩, c', hc, ?_⟩, hread⟩
      cases hsort : c'.form <;> simp_all [Block.isMethod, Form.expr?]
    · obtain ⟨howner, hv⟩ := movesEach_of ih v hinner
      exact ⟨.tail _ howner, hv⟩

theorem Drawn.ids_lt (h : p.Drawn w0 home) : ∀ i ∈ p.ids, i < w0.blocks.size := by
  have hlt : ∀ {id : BlockId} {b : Block}, w0.blocks[id]? = some b → id < w0.blocks.size :=
    fun hb => (Array.getElem?_eq_some_iff.1 hb).1
  have heach : ∀ {id : BlockId} {members : List Piece}, id < w0.blocks.size →
      (∀ q ∈ members, ∀ i ∈ q.ids, i < w0.blocks.size) → ∀ i ∈ id :: idsEach members, i < w0.blocks.size := by
    intro id members hid hall i hi
    rcases mem_cons.1 hi with rfl | hi
    · exact hid
    · obtain ⟨q, hq, hi⟩ := mem_idsEach.1 hi
      exact hall q hq i hi
  induction h with
  | line hb =>
    intro i hi
    obtain rfl := mem_singleton.1 hi
    exact hlt hb
  | suite hb _ _ _ _ _ ih => exact heach (hlt hb) ih
  | type hb _ _ _ _ _ ih => exact heach (hlt hb) ih

/-- Expressions that are moved are printed nowhere else. -/
theorem movesEach_kept (owner : BlockId) (name : String) (ps : List Piece) :
    movesEach (ps.filter fun p => (p.move? owner name).isNone) = movesEach ps := by
  induction ps with
  | nil => rfl
  | cons p ps ih =>
    cases hp : p.move? owner name with
    | none => rw [filter_cons_of_pos (by simp [hp]), movesEach, movesEach, ih]
    | some v =>
      obtain ⟨b, rfl, -, -⟩ := move?_eq_some hp
      rw [filter_cons_of_neg (by simp [hp]), ih]
      rfl

/-- The texts that are printed. -/
def text (shown : List Shown) : String := String.join (shown.map Prod.snd)

theorem text_append (a b : List Shown) : text (a ++ b) = text a ++ text b := by
  rw [text, map_append, join_append]
  rfl

theorem text_cons (a : Shown) (b : List Shown) : text (a :: b) = a.2 ++ text b := by
  rw [text, map_cons, join_cons]
  rfl

/-! ## Pieces that are not touched yet -/

/-- Expressions may have been moved, but not out of some blocks. -/
structure Untouched (w0 w : Workshop) (home : BlockId) (ids : List BlockId) : Prop where
  re : Rearranged w0 w
  known : ∀ i ∈ ids, i < w0.blocks.size
  same : ∀ i ∈ ids, w.blocks[i]? = w0.blocks[i]?
  apart : home ∉ ids
  nodup : ids.Nodup

namespace Untouched

variable {as bs : List BlockId} {vs : List Move}

theorem mono (h : Untouched w0 w home as) (hsub : bs.Sublist as) : Untouched w0 w home bs :=
  ⟨h.re, fun i hi => h.known i (hsub.subset hi), fun i hi => h.same i (hsub.subset hi),
    fun hi => h.apart (hsub.subset hi), hsub.nodup h.nodup⟩

/-- Expressions are moved out of some blocks; the others are not touched. -/
theorem moveAll (h : Untouched w0 w home (as ++ bs)) (hhome : w0.HasModule home)
    (hvs : ∀ v ∈ vs, v.owner ∈ as ∧ w0.MovesFrom v) : Untouched w0 (w.moveAll home vs) home bs := by
  have hbs := h.mono (sublist_append_right as bs)
  refine { hbs with re := ?_, same := fun i hi => ?_ }
  · exact h.re.trans (rearranged_moveAll (h.re.hasModule hhome) fun v hv => h.re.movesFrom (hvs v hv).2)
  · rw [← hbs.same i hi]
    refine moveAll_get (Nat.lt_of_lt_of_le (hbs.known i hi) h.re.size_le) ?_ fun v hv => ?_
    · rintro rfl
      exact hbs.apart hi
    · rintro rfl
      exact (nodup_append.1 h.nodup).2.2 _ (hvs v hv).1 _ hi rfl

end Untouched

end Piece

/-- The block that encloses another one is still the same. -/
theorem Rearranged.enclosing {w0 w : Workshop} (h : Rearranged w0 w) {id home : BlockId}
    (hhome : w0.enclosing? id (·.isModule) = some home) : w.enclosing? id (·.isModule) = some home := by
  have hfind : ∀ (n m : Nat) (o : Option BlockId), n ≤ m →
      (lineageUpTo w0.blocks n o).find? (fun j => w0.blocks[j]?.any (·.isModule)) = some home →
      (lineageUpTo w.blocks m o).find? (fun j => w.blocks[j]?.any (·.isModule)) = some home := by
    intro n
    induction n with
    | zero =>
      intro m o _ hn
      cases hn
    | succ n ih =>
      intro m o hm hn
      obtain ⟨m, rfl⟩ : ∃ k, m = k + 1 := ⟨m - 1, by omega⟩
      cases o with
      | none => cases hn
      | some i =>
        rw [lineageUpTo, List.find?_cons] at hn ⊢
        cases hb : w0.blocks[i]? with
        | none =>
          rw [hb] at hn
          cases n <;> cases hn
        | some b =>
          obtain ⟨children, hb', -⟩ := h.old hb
          rw [hb] at hn
          rw [hb']
          simp only [Option.any_some, Option.bind_some] at hn ⊢
          change (match b.isModule with | true => _ | false => _) = _
          cases hmodule : b.isModule with
          | true =>
            rw [hmodule] at hn
            exact hn
          | false =>
            rw [hmodule] at hn
            exact ih m b.parent (Nat.le_of_succ_le_succ hm) hn
  exact hfind _ _ (some id) (Nat.succ_le_succ h.size_le) hhome

namespace Piece

variable {w0 w : Workshop} {home : BlockId}

/-! ## Printing pieces -/

/-- A piece that is not touched yet is printed in its place, and what is to be moved out of it is
moved. -/
def Prints (w0 : Workshop) (home : BlockId) (p : Piece) : Prop :=
  ∀ ⦃k : Nat⦄ ⦃w : Workshop⦄ (level : Int), w0.blocks.size + p.ids.length ≤ k → Untouched w0 w home p.ids →
      (forLevels k).dump level p.id w = .ok (text (p.lines level)) (w.moveAll home p.moves)

variable (hhome : w0.HasModule home)

include hhome in
/-- What is moved out of some pieces leaves the rest as it was. -/
theorem rearranged_members {ps : List Piece} (hdrawn : ∀ p ∈ ps, p.Drawn w0 home)
    (hre : Rearranged w0 w) : Rearranged w0 (w.moveAll home (movesEach ps)) := by
  have hvs : ∀ v ∈ movesEach ps, w.MovesFrom v := fun v hv =>
    hre.movesFrom (movesEach_of (fun p hp => (hdrawn p hp).moves) v hv).2.1
  exact hre.trans (rearranged_moveAll (hre.hasModule hhome) hvs)

section Members

variable {ps : List Piece} (hdrawn : ∀ p ∈ ps, p.Drawn w0 home) (hprints : ∀ p ∈ ps, Prints w0 home p)
  {k : Nat} (hk : w0.blocks.size + (idsEach ps).length ≤ k) (level : Int)

include hhome hdrawn hprints hk

theorem dump_each (h : Untouched w0 w home (idsEach ps)) : (ps.map Piece.id).mapM ((forLevels k).dump level) w
      = .ok (ps.map fun p => text (p.lines level)) (w.moveAll home (movesEach ps)) := by
  induction ps generalizing w with
  | nil => rfl
  | cons p ps ih =>
    rw [idsEach, List.length_append] at hk
    have hp : p ∈ p :: ps := .head _
    have hfirst := hprints p hp (k := k) level (by omega) (h.mono (sublist_append_left ..))
    have hrest := ih (fun q hq => hdrawn q (.tail _ hq)) (fun q hq => hprints q (.tail _ hq)) (by omega)
      (h.moveAll hhome fun v hv => ⟨((hdrawn p hp).moves v hv).1, ((hdrawn p hp).moves v hv).2.1⟩)
    rw [map_cons, mapM_cons, bind_of_ok hfirst, bind_of_ok hrest, movesEach, moveAll_append]
    rfl

/-- The same with empty lines between them. -/
theorem dump_spaced (hconfig : w0.config = .standard) {w1 : Workshop} (hw1 : Rearranged w0 w1)
    (before : Option Piece) (hbefore : ∀ q, before = some q → q.Drawn w0 home)
    (h : Untouched w0 w home (idsEach ps)) :
    ∃ texts, (Printer.spaced w1 (before.map Piece.id) (ps.map Piece.id)).mapM
        (writeItem (.forLevels k) level) w = .ok texts (w.moveAll home (movesEach ps))
      ∧ String.join texts = text (arrange (fun before after => if blankBetween before after then 1 else 0)
        (lineText (indentOf level) "") (before.map Piece.block)
        (ps.map fun p => (p.block, p.lines level))) := by
  induction ps generalizing w before with
  | nil => exact ⟨[], rfl, rfl⟩
  | cons p ps ih =>
    rw [idsEach, List.length_append] at hk
    have hp : p ∈ p :: ps := .head _
    have hfirst := hprints p hp (k := k) level (by omega) (h.mono (sublist_append_left ..))
    obtain ⟨texts, hrest, hjoin⟩ := ih (fun q hq => hdrawn q (.tail _ hq))
      (fun q hq => hprints q (.tail _ hq)) (by omega) (some p)
      (fun q hq => Option.some.inj hq ▸ hdrawn p hp)
      (h.moveAll hhome fun v hv => ⟨((hdrawn p hp).moves v hv).1, ((hdrawn p hp).moves v hv).2.1⟩)
    have hw : w.config = .standard := h.re.config.trans hconfig
    obtain ⟨children, hget, -⟩ := hw1.old (hdrawn p hp).get
    -- Whether there is an empty line depends on the two blocks but not on their children.
    have hspaced : Printer.spaced w1 (before.map Piece.id) (p.id :: ps.map Piece.id)
        = (if ((before.map Piece.block).map (blankBetween · p.block)).getD false then
            [.line ""] else []) ++ .block p.id :: Printer.spaced w1 (some p.id) (ps.map Piece.id) := by
      cases before with
      | none => rfl
      | some q =>
        obtain ⟨children', hget', -⟩ := hw1.old (hbefore q rfl).get
        rw [Printer.spaced]
        simp only [Option.map_some, Option.bind_some, hget', hget]
        rfl
    have hitem : (writeItem (.forLevels k) level (.block p.id)) w
        = .ok (text (p.lines level)) (w.moveAll home p.moves) := hfirst
    have hmembers : (Printer.BodyItem.block p.id :: Printer.spaced w1 (some p.id) (ps.map Piece.id)).mapM
        (writeItem (.forLevels k) level) w
          = .ok (text (p.lines level) :: texts) (w.moveAll home (movesEach (p :: ps))) := by
      rw [Option.map_some] at hrest
      rw [mapM_cons, bind_of_ok hitem, bind_of_ok hrest, movesEach, moveAll_append]
      rfl
    have hblanks : ((before.map Piece.block).map fun b => if blankBetween b p.block then 1 else 0).getD 0
        = if ((before.map Piece.block).map (blankBetween · p.block)).getD false then 1 else 0 := by
      cases before <;> rfl
    rw [map_cons, hspaced, map_cons, arrange, text_append, text_append, hblanks]
    simp only [Option.map_some] at hjoin
    cases ((before.map Piece.block).map (blankBetween · p.block)).getD false with
    | false =>
      refine ⟨_, hmembers, ?_⟩
      rw [join_cons, hjoin]
      exact congrArg (· ++ _) (empty_append ..).symm
    | true =>
      have hline : writeItem (.forLevels k) level (.line "") w = .ok (lineText (indentOf level) "") w :=
        bind_of_ok (Handler.indentAt_standard hw level)
      refine ⟨lineText (indentOf level) "" :: text (p.lines level) :: texts, ?_, ?_⟩
      · rw [if_pos rfl, singleton_append, mapM_cons, bind_of_ok hline, bind_of_ok hmembers]
        rfl
      · rw [String.join_cons, String.join_cons, hjoin, String.append_assoc]
        exact congrArg (· ++ _) (by simp [text, String.join])

end Members

section

variable (hconfig : w0.config = .standard) (hcomposed : w0.Composed)

variable {id : BlockId} {b : Block} {members : List Piece}

include hcomposed in
theorem Readable.again {text : String} (h : Readable w0 id text) (hre : Rearranged w0 w)
    {k : Nat} (hk : w0.blocks.size ≤ k) : (forLevels k).text id w = .ok text w := by
  obtain ⟨hexpr, n, hn⟩ := h
  exact (serves_deep hcomposed hre.retained hk n id hexpr hn).2

include hhome hconfig hcomposed

omit hhome in
theorem prints_line {text : String} (h : (line id b text).Drawn w0 home) :
    Prints w0 home (line id b text) := by
  intro k w level hk hun
  obtain ⟨k, rfl⟩ : ∃ n, k = n + 1 := ⟨k - 1, by simp [ids] at hk; omega⟩
  have hget : w.blocks[id]? = some b := (hun.same id (mem_singleton.2 rfl)).trans h.get
  have htext := h.readable.again hcomposed hun.re (k := k) (by simp [ids] at hk; omega)
  have hexpr : b.isExpression = true := by cases h; assumption
  refine (dumpBlock_line (hun.re.config.trans hconfig) hget hexpr htext level).trans ?_
  rw [lines, text_cons]
  exact congrArg (EStateM.Result.ok · w) (append_empty ..).symm

theorem prints_suite {opening : Int → String}
    (h : (suite id b opening members).Drawn w0 home) (hprints : ∀ p ∈ members, Prints w0 home p) :
    Prints w0 home (suite id b opening members) := by
  intro k w level hk hun
  cases h with
  | suite hb hsuite hshape hopens hchildren hmembers =>
  rw [ids, length_cons] at hk
  obtain ⟨k, rfl⟩ : ∃ n, k = n + 1 := ⟨k - 1, by omega⟩
  have hw : w.config = .standard := hun.re.config.trans hconfig
  have hget : w.blocks[id]? = some b := (hun.same id (.head _)).trans hb
  have hopening := hopens.again hconfig hcomposed hun.re
    (fun n => serves_deep hcomposed hun.re.retained (k := k) (by omega) n) hb hshape level
  have hbody := dump_each hhome hmembers hprints (k := k) (by omega) (level + 1)
    (hun.mono (sublist_cons_self ..))
  have hafter := rearranged_members hhome hmembers hun.re
  obtain ⟨children, hb', -⟩ := hafter.old hb
  have hdump := dumpBlock_of_body hw hget (.inr hsuite) hopening (body_suite hw hget hsuite) (by
      rw [hchildren, mapM_map]
      exact hbody) (hafter.config.trans hconfig) hb' rfl
  refine hdump.trans ?_
  rw [lines, text_cons, text_cons, linesEach_eq, List.flatMap_map, ← String.append_assoc]
  congr 2
  clear hbody hdump hafter hb' hun hprints hmembers hchildren hk
  induction members with
  | nil => rfl
  | cons p members ih =>
    rw [map_cons, join_cons, flatMap_cons, text_append, ih]

omit hhome hconfig hcomposed in
/-- What is left of the children of a type when its static expressions are gone. -/
theorem diff_moved (hnodup : (members.map Piece.id).Nodup) (owner : BlockId) (name : String) :
    (members.map Piece.id).diff ((members.filterMap (move? owner name)).map Move.child)
      = (members.filter fun p => (p.move? owner name).isNone).map Piece.id := by
  rw [hnodup.sdiff_eq_filter, filter_map]
  refine congrArg (List.map Piece.id) (filter_congr fun p hp => ?_)
  rw [Bool.eq_iff_iff, Function.comp_apply, decide_eq_true_eq, Option.isNone_iff_eq_none]
  constructor
  · intro hout
    cases hmove : p.move? owner name with
    | none => rfl
    | some v =>
      obtain ⟨b, rfl, -, -⟩ := move?_eq_some hmove
      exact absurd (mem_map.2 ⟨v, mem_filterMap.2 ⟨_, hp, hmove⟩, rfl⟩) hout
  · intro hnone hin
    obtain ⟨v, hv, hchild⟩ := mem_map.1 hin
    obtain ⟨q, hq, hmove⟩ := mem_filterMap.1 hv
    obtain ⟨b, rfl, -, -⟩ := move?_eq_some hmove
    obtain rfl := inj_on_of_nodup_map hnodup hq hp hchild
    rw [hnone] at hmove
    cases hmove

omit hhome hconfig hcomposed in
theorem sublist_map_id (ps : List Piece) : (ps.map Piece.id).Sublist (idsEach ps) := by
  induction ps with
  | nil => exact .refl _
  | cons p ps ih =>
    have hp : [p.id].Sublist p.ids := singleton_sublist.2 p.id_mem_ids
    exact hp.append ih

omit hhome hconfig hcomposed in
theorem sublist_idsEach_filter (keep : Piece → Bool) (ps : List Piece) :
    (idsEach (ps.filter keep)).Sublist (idsEach ps) := by
  induction ps with
  | nil => exact .refl _
  | cons p ps ih =>
    cases hp : keep p with
    | true =>
      rw [filter_cons_of_pos hp]
      exact (List.Sublist.refl _).append ih
    | false =>
      rw [filter_cons_of_neg (by simp [hp])]
      exact ih.trans (sublist_append_right ..)

theorem prints_type {opening : Int → String}
    (h : (type id b opening members).Drawn w0 home) (hprints : ∀ p ∈ members, Prints w0 home p) :
    Prints w0 home (type id b opening members) := by
  intro k w level hk hun
  cases h with
  | type hb hform hopens henclosing hchildren hmembers =>
  rw [ids, length_cons] at hk
  obtain ⟨k, rfl⟩ : ∃ n, k = n + 1 := ⟨k - 1, by omega⟩
  have hw : w.config = .standard := hun.re.config.trans hconfig
  have hget : w.blocks[id]? = some b := (hun.same id (.head _)).trans hb
  have hinner := hun.mono (sublist_cons_self ..)
  have hopening := hopens.again hconfig hcomposed hun.re
    (fun n => serves_deep hcomposed hun.re.retained (k := k) (by omega) n) hb (.type hform) level
  -- First the static expressions are moved.
  have hreads : ∀ p ∈ members, Handler.Reads w (forLevels k).texts p := by
    intro p hp
    have hp' : w.blocks[p.id]? = some p.block :=
      (hinner.same p.id (mem_idsEach.2 ⟨p, hp, p.id_mem_ids⟩)).trans (hmembers p hp).get
    refine ⟨p.block, hp', ?_⟩
    cases p with
    | line i c text =>
      have hdrawn := hmembers _ hp
      exact ⟨by cases hdrawn; assumption, hdrawn.readable.again hcomposed hun.re (by omega)⟩
    | suite i c _ _ =>
      cases hmembers _ hp with
      | suite _ hsuite => cases hsort : c.form <;> simp_all [block, Block.isExpression, Form.expr?, Form.isSuite]
    | type i c _ _ =>
      cases hmembers _ hp with
      | type _ hsort => simp [block, Block.isExpression, hsort, Form.expr?]
  have hmove := Handler.moveStaticsOf_apply hget hchildren hreads (hun.re.enclosing henclosing)
    (hun.re.hasModule hhome).lt_size
  -- Then what is left is printed.
  generalize hkept : members.filter (fun p => (p.move? id (Handler.nameText b.name)).isNone) = kept
  have hsub : (idsEach kept).Sublist (idsEach members) := hkept ▸ sublist_idsEach_filter _ members
  have hmem : ∀ p ∈ kept, p ∈ members := fun p hp => (mem_filter.1 (hkept ▸ hp)).1
  have hown : ∀ v ∈ members.filterMap (move? id (Handler.nameText b.name)),
      v.owner ∈ [id] ∧ w0.MovesFrom v := by
    intro v hv
    have hdrawn : (type id b opening members).Drawn w0 home :=
      .type hb hform hopens henclosing hchildren hmembers
    obtain ⟨p, -, hp⟩ := mem_filterMap.1 hv
    obtain ⟨c, -, howner, -⟩ := move?_eq_some hp
    exact ⟨mem_singleton.2 howner, (hdrawn.moves v (mem_append_left _ hv)).2.1⟩
  have hmoved : Untouched w0 _ home (idsEach members) := Untouched.moveAll hun hhome hown
  have hlt := hsub.length_le
  obtain ⟨texts, hbody, hjoin⟩ := dump_spaced hhome (fun p hp => hmembers p (hmem p hp))
    (fun p hp => hprints p (hmem p hp)) (k := k) (by omega) (level + 1) hconfig hmoved.re none
    (by simp) (hmoved.mono hsub)
  rw [← hkept, movesEach_kept, hkept] at hbody
  have hleft : (w.moveAll home (members.filterMap (move? id (Handler.nameText b.name)))).blocks[id]?
      = some { b with children := kept.map Piece.id } := by
    rw [moveAll_owner hget (fun heq => hun.apart (heq ▸ .head _))
      (fun v hv => mem_singleton.1 (hown v hv).1), hchildren,
      diff_moved ((sublist_map_id members).nodup hinner.nodup), hkept]
  have hafter := rearranged_members hhome hmembers hmoved.re
  obtain ⟨children, hb', -⟩ := hafter.old hb
  have hdump := dumpBlock_of_body hw hget (.inl hform) hopening
    (body_type hw hget hform hmove (hmoved.re.config.trans hconfig) hleft hform) hbody
    (hafter.config.trans hconfig) hb' rfl
  rw [← moveAll_append] at hdump
  refine hdump.trans ?_
  rw [lines, text_cons, text_cons, linesEach_eq, ← String.append_assoc, hjoin, List.filter_map,
    List.map_map, moves, ← hkept]
  rfl

/-- Pieces are printed in their places. -/
theorem Drawn.prints {p : Piece} (h : p.Drawn w0 home) : Prints w0 home p := by
  induction h with
  | line hb hexpr htext => exact prints_line hconfig hcomposed (.line hb hexpr htext)
  | suite hb hsuite hshape hopens hchildren hmembers ih =>
    exact prints_suite hhome hconfig hcomposed (.suite hb hsuite hshape hopens hchildren hmembers) ih
  | type hb hform hopens henclosing hchildren hmembers ih =>
    exact prints_type hhome hconfig hcomposed (.type hb hform hopens henclosing hchildren hmembers) ih

end

end Piece

end Transcriber
