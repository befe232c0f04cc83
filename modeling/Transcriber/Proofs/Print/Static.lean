import Transcriber.Proofs.Expression.Wording
import Transcriber.Proofs.Helper.Prologue
import Transcriber.Proofs.Print.Drawn

/-!
# Static expressions are moved without loss

A module is printed while expressions are moved out of its types.  All expressions are printed: those
that mention the name of their type with a dot behind all that was in the module before, the others
in their places.

* `Build.dump_moves_statics` — the main statement.
-/

namespace Transcriber

open Build List Piece Workshop

/-! ## Printing a module -/

namespace Printer

variable {w w' w'' : Workshop} {q : Printer} {level : Int} {home : BlockId} {b : Block}

/-- The block before a position among the children of a module, as far as its form goes. -/
def Behind (w : Workshop) (children : List BlockId) : Nat → Option Block → Prop
  | 0, before => before = none
  | n + 1, before => ∃ j c b, children[n]? = some j ∧ w.blocks[j]? = some c ∧ before = some b
      ∧ c.form = b.form

theorem blanksBetween_congr {c c' : Block} (h : c.form = c'.form) (after : Block) :
    blanksBetween c after = blanksBetween c' after := by
  unfold blanksBetween Block.isComment Block.isClass
  rw [h]

theorem writeModule_step {fuel index : Nat} {j : BlockId} {c : Block} {before : Option Block}
    {own rest : String} (hconfig : w.config = .standard) (hb : w.blocks[home]? = some b)
    (hchild : b.children[index]? = some j) (hj : w.blocks[j]? = some c)
    (hbehind : Behind w b.children index before) (hdump : q.dump level j w = .ok own w')
    (hrest : writeModule q level home fuel (index + 1) w' = .ok rest w'') :
    writeModule q level home (fuel + 1) index w = .ok (String.join (List.replicate
      ((before.map (blanksBetween · c)).getD 0) (lineText (indentOf level) "")) ++ own ++ rest) w'' := by
  have hindent := Handler.indentAt_standard hconfig level
  unfold writeModule
  rw [bind_of_ok (block_apply w home hb), hchild]
  dsimp only
  rw [bind_of_ok (block_apply w j hj)]
  cases index with
  | zero =>
    cases hbehind
    dsimp only
    rw [pure_bind, bind_of_ok hindent, bind_of_ok hdump, bind_of_ok hrest]
    rfl
  | succ n =>
    obtain ⟨i, d, d', hi, hd, rfl, hform⟩ := hbehind
    dsimp only
    rw [hi]
    dsimp only
    rw [bind_of_ok (block_apply w i hd)]
    rw [pure_bind, bind_of_ok hindent, bind_of_ok hdump, bind_of_ok hrest, blanksBetween_congr hform]
    rfl

/-- The children that a module has got for expressions that were moved. -/
theorem writeModule_wrappers {fuel index : Nat} {before : Option Block} {js : List BlockId}
    {vs : List Move} (hconfig : w.config = .standard) (hb : w.blocks[home]? = some b)
    (hdrop : b.children.drop index = js) (hbehind : Behind w b.children index before)
    (hjs : List.Forall₂ (fun j (v : Move) => w.blocks[j]? = some (v.wrapper home)
      ∧ q.dump level j w = .ok (lineText (indentOf level) (v.name ++ "." ++ v.text)) w) js vs)
    (hfuel : vs.length ≤ fuel) : writeModule q level home fuel index w
      = .ok (Piece.text (arrange blanksBetween (lineText (indentOf level) "") before
        (vs.map (Move.shown home level)))) w := by
  induction hjs generalizing fuel index before with
  | nil =>
    cases fuel with
    | zero => rfl
    | succ fuel =>
      unfold writeModule
      rw [bind_of_ok (block_apply w home hb), getElem?_eq_none (drop_eq_nil_iff.1 hdrop)]
      rfl
  | @cons j v js vs hj _ ih =>
    obtain ⟨fuel, rfl⟩ : ∃ n, fuel = n + 1 := ⟨fuel - 1, by simp at hfuel; omega⟩
    have hchild : b.children[index]? = some j := by
      rw [← List.head?_drop, hdrop]
      rfl
    have hrest : b.children.drop (index + 1) = js := by
      rw [← tail_drop, hdrop]
      rfl
    rw [writeModule_step hconfig hb hchild hj.1 hbehind hj.2
      (ih hrest ⟨j, _, _, hchild, hj.1, rfl, rfl⟩ (by simpa using hfuel)), map_cons, Move.shown,
      arrange, text_append, text_append]
    refine congrArg (EStateM.Result.ok · w) (congrArg (· ++ _) (congrArg₂ (· ++ ·) ?_ ?_))
    · rw [Piece.text, map_replicate]
    · simp [Piece.text, String.join]

end Printer

namespace Piece

variable {w0 w : Workshop} {home : BlockId}

/-- A block of the module stands for an expression that was moved there. -/
structure Wraps (w0 w : Workshop) (home j : BlockId) (v : Move) : Prop where
  get : w.blocks[j]? = some (v.wrapper home)
  new : w0.blocks.size ≤ j
  read : Readable w0 v.child v.text
  name : Braceless v.name

/-- An expression that was moved is printed behind the name of its type. -/
theorem Wraps.dump {j : BlockId} {v : Move} (h : Wraps w0 w home j v) (hconfig : w0.config = .standard)
    (hcomposed : w0.Composed) (hre : Rearranged w0 w) {k : Nat} (hk : w0.blocks.size + 2 ≤ k)
    (level : Int) : (Printer.forLevels k).dump level j w
      = .ok (Printer.lineText (indentOf level) (v.name ++ "." ++ v.text)) w := by
  obtain ⟨k, rfl⟩ : ∃ n, k = n + 2 := ⟨k - 2, by omega⟩
  have hfilled : Slot.filled? (v.name ++ "." ++ Slot.right) "" v.text = some (v.name ++ "." ++ v.text) := by
    simpa using Slot.filled_single (v.name ++ ".") "" false ⟨h.name.append (by decide), by decide⟩ "" v.text
  refine Printer.dumpBlock_line (hre.config.trans hconfig) h.get rfl ?_ level
  change Printer.textOf (.forLevels k) j w = _
  unfold Printer.textOf
  rw [bind_of_ok (block_apply w j h.get)]
  exact Fill.fill_eq rfl rfl (h.read.again hcomposed hre (by omega)) hfilled

/-- What a child has moved to the module before stays there while the next child is printed. -/
theorem Wraps.moveAll {j : BlockId} {v : Move} (h : Wraps w0 w home j v) (hhome : w0.HasModule home)
    {p : Piece} (hp : p.Drawn w0 home) : Wraps w0 (w.moveAll home p.moves) home j v where
  get := by
    have hj : j < w.blocks.size := (Array.getElem?_eq_some_iff.1 h.get).1
    rw [moveAll_get hj ?_ fun u hu => ?_]
    · exact h.get
    · exact Nat.ne_of_gt (Nat.lt_of_lt_of_le hhome.lt_size h.new)
    · exact Nat.ne_of_gt (Nat.lt_of_lt_of_le (hp.ids_lt _ (hp.moves u hu).1) h.new)
  new := h.new
  read := h.read
  name := h.name

theorem Drawn.wraps {p : Piece} (hp : p.Drawn w0 home) (hhome : w0.HasModule home) (hre : Rearranged w0 w)
    (hplain : ∀ v ∈ p.moves, Braceless v.name) :
    List.Forall₂ (Wraps w0 (w.moveAll home p.moves) home) (List.range' w.blocks.size p.moves.length) p.moves := by
  have hge := hre.size_le
  have hwrappers := moveAll_wrappers (hre.hasModule hhome).lt_size fun v hv =>
    Nat.lt_of_lt_of_le (hp.ids_lt v.owner (hp.moves v hv).1) hge
  refine forall₂_iff_get.2 ⟨hwrappers.length_eq, fun n hn hn' => ?_⟩
  have hmem : p.moves.get ⟨n, hn'⟩ ∈ p.moves := get_mem ..
  refine ⟨(forall₂_iff_get.1 hwrappers).2 n hn hn', ?_, (hp.moves _ hmem).2.2, hplain _ hmem⟩
  simp
  omega

/-- The children of a module are written, and then what was moved to its end meanwhile. -/
theorem writeModule_pieces (hconfig : w0.config = .standard) (hcomposed : w0.Composed)
    (hhome : w0.HasModule home) {ps : List Piece} (hdrawn : ∀ p ∈ ps, p.Drawn w0 home) {k : Nat}
    (hk : w0.blocks.size + (idsEach ps).length + 2 ≤ k) (level : Int)
    (h : Untouched w0 w home (idsEach ps)) {b : Block} (hb : w.blocks[home]? = some b)
    {fuel index : Nat} {before : Option Block} {js : List BlockId} {vs : List Move}
    (hdrop : b.children.drop index = ps.map Piece.id ++ js)
    (hbehind : Printer.Behind w b.children index before)
    (hjs : List.Forall₂ (Wraps w0 w home) js vs) (hplain : ∀ v ∈ movesEach ps, Braceless v.name)
    (hfuel : ps.length + (vs ++ movesEach ps).length ≤ fuel) :
    Printer.writeModule (.forLevels k) level home fuel index w
      = .ok (text (arrange Printer.blanksBetween (Printer.lineText (indentOf level) "") before
        ((ps.map fun p => (p.block, p.lines level)) ++ (vs ++ movesEach ps).map (Move.shown home level))))
        (w.moveAll home (movesEach ps)) := by
  induction ps generalizing w b fuel index before js vs with
  | nil =>
    rw [movesEach, append_nil] at hfuel ⊢
    refine Printer.writeModule_wrappers (h.re.config.trans hconfig) hb hdrop hbehind
      (hjs.imp fun j v hj => ⟨hj.get, ?_⟩) (by simpa using hfuel)
    exact hj.dump hconfig hcomposed h.re (by omega) level
  | cons p ps ih =>
    rw [idsEach, length_append] at hk
    obtain ⟨fuel, rfl⟩ : ∃ n, fuel = n + 1 := ⟨fuel - 1, by simp at hfuel; omega⟩
    have hp := hdrawn p (.head _)
    have hget : w.blocks[p.id]? = some p.block := (h.same p.id (mem_append_left _ p.id_mem_ids)).trans hp.get
    have hdump := hp.prints hhome hconfig hcomposed (k := k) level (by omega)
      (h.mono (sublist_append_left ..))
    have hchild : b.children[index]? = some p.id := by
      rw [← List.head?_drop, hdrop]
      rfl
    -- While the child was printed, the module may have got children at its end.
    have hafter : Untouched w0 (w.moveAll home p.moves) home (idsEach ps) :=
      h.moveAll hhome fun v hv => ⟨(hp.moves v hv).1, (hp.moves v hv).2.1⟩
    have hb' := moveAll_home hb fun v hv =>
      (h.re.movesFrom (hp.moves v hv).2.1).ne_home (h.re.hasModule hhome)
    have hlt : index < b.children.length := (List.getElem?_eq_some_iff.1 hchild).1
    have hdrop' : (b.children ++ List.range' w.blocks.size p.moves.length).drop (index + 1)
        = ps.map Piece.id ++ (js ++ List.range' w.blocks.size p.moves.length) := by
      rw [drop_append_of_le_length hlt, ← tail_drop, hdrop, ← append_assoc]
      rfl
    have hbehind' : Printer.Behind (w.moveAll home p.moves)
        (b.children ++ List.range' w.blocks.size p.moves.length) (index + 1) (some p.block) := by
      obtain ⟨children, hp', -⟩ := hafter.re.old hp.get
      exact ⟨p.id, _, p.block, by rw [getElem?_append_left hlt, hchild], hp', rfl, rfl⟩
    have hwraps := rel_append (hjs.imp fun j v hj => hj.moveAll hhome hp)
      (hp.wraps hhome h.re fun v hv => hplain v (mem_append_left _ hv))
    have hfuel' : ps.length + (vs ++ p.moves ++ movesEach ps).length ≤ fuel := by
      simp [movesEach] at hfuel ⊢
      omega
    have hrest := ih (fun q hq => hdrawn q (.tail _ hq)) (by omega) hafter hb' hdrop'
      hbehind' hwraps (fun v hv => hplain v (mem_append_right _ hv)) hfuel'
    rw [Printer.writeModule_step (h.re.config.trans hconfig) hb hchild hget hbehind hdump hrest,
      movesEach, moveAll_append, map_cons, cons_append, arrange, text_append,
      text_append, append_assoc]
    refine congrArg (EStateM.Result.ok · _) (congrArg (· ++ _) (congrArg (· ++ _) ?_))
    rw [text, map_replicate]

end Piece

/-! ## The whole module -/

def Workshop.runsMain (w : Workshop) (name : Option String) (child : BlockId) : Bool :=
  w.blocks[child]?.any fun c =>
    c.isClass && c.name == name && c.children.any fun m => w.blocks[m]?.any Handler.isMain

/-- The lines that run the main method of the type that has the name of a module. -/
def Workshop.mainLines (w : Workshop) (b : Block) : List String :=
  if b.children.any (w.runsMain b.name) then
    ["\n\nif __name__ == '__main__':\n" ++ "    " ++ "import sys\n" ++ "    "
      ++ Handler.nameText b.name ++ ".main(sys.argv)"]
  else []

theorem Rearranged.isMain_eq {w w' : Workshop} (h : Rearranged w w') :
    (fun m : BlockId => w'.blocks[m]?.any Handler.isMain) = fun m => w.blocks[m]?.any Handler.isMain := by
  funext m
  cases hm : w.blocks[m]? with
  | some c =>
    obtain ⟨children, hm', -⟩ := h.old hm
    rw [hm']
    rfl
  | none =>
    cases hm' : w'.blocks[m]? with
    | none => rfl
    | some c => simp [Handler.isMain, h.new hm hm']

theorem Workshop.any_isMain (w : Workshop) (ids : List BlockId) :
    (ids.any fun m => w.blocks[m]?.any Handler.isMain)
      = (ids.filter (w.isMethodNamed (some "main"))).any fun m => w.blocks[m]?.any Handler.isMain := by
  rw [any_filter]
  refine congrArg ids.any (funext fun m => ?_)
  cases hm : w.blocks[m]? with
  | none => simp
  | some c => cases hc : Handler.isMain c <;> simp_all [isMethodNamed, Handler.isMain]

theorem Rearranged.runsMain_eq {w w' : Workshop} (h : Rearranged w w') (name : Option String)
    {child : BlockId} {c : Block} (hc : w.blocks[child]? = some c) :
    w'.runsMain name child = w.runsMain name child := by
  obtain ⟨children, hc', -, hfilter⟩ := h.old hc
  unfold runsMain
  rw [hc', hc, h.isMain_eq, Option.any_some, Option.any_some, w.any_isMain children,
    w.any_isMain c.children, hfilter]
  rfl

/-- The lines that run the main method are those of a module. -/
theorem Handler.mainStanzaOf_apply {w : Workshop} (hconfig : w.config = .standard) {home : BlockId}
    {b : Block} (hb : w.blocks[home]? = some b) :
    mainStanzaOf home w = .ok (lines (w.mainLines b)) w := by
  unfold mainStanzaOf
  rw [bind_of_ok (block_apply w home hb), bind_of_ok (get_apply w)]
  change (if !b.children.any (w.runsMain b.name) then _ else _ : Build (List Value)) w = _
  unfold mainLines
  cases b.children.any (w.runsMain b.name) with
  | false => rfl
  | true =>
    have hindent : indent w = .ok (.text "    ") w := by
      change EStateM.Result.ok (w.config.last "indentPrefix" (.text "    ")) w = _
      rw [hconfig]
      rfl
    change (indent >>= _) w = _
    rw [bind_of_ok hindent]
    rfl

/-- A module in pieces.  The blocks below it are distinct, and what they mention are expressions. -/
structure Workshop.Sketched (w : Workshop) (home : BlockId) (b : Block) (program : Program)
    (ps : List Piece) : Prop where
  config : w.config = .standard
  composed : w.Composed
  block : w.blocks[home]? = some b
  form : b.form = .program program
  children : b.children = ps.map Piece.id
  drawn : ∀ p ∈ ps, p.Drawn w home
  nodup : (home :: idsEach ps).Nodup

section

variable {w : Workshop} {home : BlockId} {b : Block} {program : Program} {ps : List Piece}
  (h : w.Sketched home b program ps)

include h

theorem Workshop.Sketched.hasModule : w.HasModule home := ⟨b, h.block, by simp [Block.isModule, h.form]⟩

theorem Workshop.Sketched.untouched : Piece.Untouched w w home (idsEach ps) where
  re := .refl w
  known := fun i hi => by
    obtain ⟨p, hp, hi⟩ := mem_idsEach.1 hi
    exact (h.drawn p hp).ids_lt i hi
  same := fun _ _ => rfl
  apart := (nodup_cons.1 h.nodup).1
  nodup := (nodup_cons.1 h.nodup).2

theorem Workshop.Sketched.length_le : (idsEach ps).length ≤ w.blocks.size := by
  have hsub : idsEach ps ⊆ List.range w.blocks.size := fun i hi => mem_range.2 (h.untouched.known i hi)
  simpa using (h.untouched.nodup.subperm hsub).length_le

/-- No expression is a main method, so the epilogue is as it would have been. -/
theorem Workshop.Sketched.mainLines_moved : Handler.mainStanzaOf home (w.moveAll home (movesEach ps))
      = .ok (Handler.lines (w.mainLines b)) (w.moveAll home (movesEach ps)) := by
  generalize hw' : w.moveAll home (movesEach ps) = w'
  have hre : Rearranged w w' := hw' ▸ rearranged_members h.hasModule h.drawn (.refl w)
  have hvs : ∀ v ∈ movesEach ps, v.owner ∈ idsEach ps ∧ w.MovesFrom v := fun v hv =>
    (movesEach_of (fun p hp => (h.drawn p hp).moves) v hv).imp_right And.left
  have hhome := moveAll_home h.block fun v hv => (hvs v hv).2.ne_home h.hasModule
  have hnew := moveAll_wrappers h.hasModule.lt_size fun v hv => h.untouched.known v.owner (hvs v hv).1
  rw [hw'] at hhome hnew
  have hold : ∀ child ∈ b.children, w'.runsMain b.name child = w.runsMain b.name child := by
    intro child hmem
    rw [h.children] at hmem
    obtain ⟨p, hp, rfl⟩ := mem_map.1 hmem
    exact hre.runsMain_eq b.name (h.drawn p hp).get
  have hwrapper : ∀ j ∈ List.range' w.blocks.size (movesEach ps).length, w'.runsMain b.name j = false := by
    intro j hj
    generalize List.range' w.blocks.size (movesEach ps).length = js at hnew hj
    generalize movesEach ps = vs at hnew
    induction hnew with
    | nil => cases hj
    | cons hv _ ih =>
      rcases mem_cons.1 hj with rfl | hj
      · simp [runsMain, hv, Move.wrapper, Block.isClass]
      · exact ih hj
  have hany : (b.children ++ List.range' w.blocks.size (movesEach ps).length).any
      (w'.runsMain b.name) = b.children.any (w.runsMain b.name) := by
    have hnone : (List.range' w.blocks.size (movesEach ps).length).any (w'.runsMain b.name)
        = false := any_eq_false.2 fun j hj => by simp [hwrapper j hj]
    rw [any_append, hnone, Bool.or_false, Bool.eq_iff_iff, any_eq_true, any_eq_true]
    constructor
    · rintro ⟨j, hj, hrun⟩
      exact ⟨j, hj, hold j hj ▸ hrun⟩
    · rintro ⟨j, hj, hrun⟩
      exact ⟨j, hj, (hold j hj).symm ▸ hrun⟩
  rw [Handler.mainStanzaOf_apply (hre.config.trans h.config) hhome]
  unfold mainLines
  rw [hany]

end

/-- A module is printed with all the expressions below it, each of them once: first what was in the
module, where types are without the expressions that mention their name with a dot; then these, each
behind the name of its type, type by type in the order in which types are printed.  The names of the
types out of which expressions are moved have no braces. -/
theorem Build.dump_moves_statics {w : Workshop} {home : BlockId} {b : Block} {program : Program}
    {ps : List Piece} (h : w.Sketched home b program ps)
    (hplain : ∀ v ∈ Piece.movesEach ps, Braceless v.name) (level : Int) :
    dump level home w = .ok (String.join ((program.prologue b.name).map
        (Printer.lineText (indentOf level)))
      ++ Piece.text (Piece.printed home (level + 1) ps)
      ++ String.join ((w.mainLines b).map (Printer.lineText (indentOf level))))
        (w.moveAll home (Piece.movesEach ps))
    ∧ ∀ i ∈ Piece.expressionsEach ps,
      ((Piece.printed home (level + 1) ps).filterMap Prod.fst).count i = 1 := by
  refine ⟨?_, fun i hi => Piece.count_printed home (level + 1) h.untouched.nodup hi⟩
  have hmoves : (Piece.movesEach ps).length ≤ (Piece.idsEach ps).length := by
    have hperm := (Piece.perm_expressionsEach level ps).length_eq
    have hsub := (Piece.sublist_idsEach ps).length_le
    simp at hperm
    omega
  have hps : ps.length ≤ (Piece.idsEach ps).length := by
    simpa using (Piece.sublist_map_id ps).length_le
  have hsize := h.length_le
  have hbody := Piece.writeModule_pieces h.config h.composed h.hasModule h.drawn
    (k := 2 * w.blocks.size + 7) (by omega) (level + 1) h.untouched h.block
    (show b.children.drop 0 = ps.map Piece.id ++ [] by rw [List.drop_zero, h.children, List.append_nil])
    (show Printer.Behind w b.children 0 none from rfl) .nil hplain
    (show ps.length + ([] ++ Piece.movesEach ps).length ≤ 2 * w.blocks.size + 1 by
      rw [List.nil_append]
      omega)
  obtain ⟨cs, w₁, hcs, hwrite⟩ := bind_eq_ok.1 (Printer.prologue_module h.config h.block h.form
    (.forLevels (2 * w.blocks.size + 7)) (indentOf level))
  have hhead : Printer.callAll (.forLevels (2 * w.blocks.size + 7)) home "Head" w = .ok [] w :=
    Printer.callAll_standard h.config _ h.block [] (by rw [h.form]; rfl) .nil
  -- The epilogue is written when everything has been moved.
  have hre := Piece.rearranged_members h.hasModule h.drawn (.refl w)
  obtain ⟨children, hb', -⟩ := hre.old h.block
  have hepilogue : Printer.callAll (.forLevels (2 * w.blocks.size + 7)) home "Epilogue" _
      = .ok [Handler.about Handler.mainStanzaOf (.block home)] _ :=
    Printer.callAll_standard (hre.config.trans h.config) _ hb' [.mainStanza]
      (by rw [show ({ b with children } : Block).form = _ from h.form]; rfl) (.cons rfl .nil)
  have hclosing := Printer.writeAll_lines (.forLevels (2 * w.blocks.size + 7)) (indentOf level)
    (.cons (about_items h.mainLines_moved) .nil)
  change Printer.dumpBlock (.forLevels (2 * w.blocks.size + 7)) level home w = _
  unfold Printer.dumpBlock
  rw [bind_of_ok (block_apply w home h.block),
    bind_of_ok (Handler.indentAt_standard h.config level),
    if_neg (by simp [Block.isExpression, h.form, Form.expr?]), bind_of_ok hcs,
    bind_of_ok hwrite, bind_of_ok hhead, Printer.writeHead, pure_bind,
    if_pos (by simp [Block.isModule, h.form]), bind_of_ok (get_apply w), bind_of_ok hbody]
  dsimp only
  rw [bind_of_ok hepilogue, bind_of_ok hclosing]
  simp only [List.flatten_cons, List.flatten_nil, List.append_nil, String.append_empty]
  rfl

/-- A type with expressions, a type inside it, and a block for each of them. -/
def nestedTypes : List Block := [
  { form := .program {}, name := some "M", children := [1] },
  { form := .plainClass, name := some "A", parent := some 0, children := [2, 3, 4] },
  { form := .expression { left := .text "A.x = 1" }, parent := some 1 },
  { form := .plainClass, name := some "B", parent := some 1, children := [5] },
  { form := .expression { left := .text "y = A" }, parent := some 1 },
  { form := .expression { left := .text "B.z = A.x" }, parent := some 3 }]

/-- The blocks of these types in pieces. -/
def nestedPieces : List Piece :=
  let typed := fun (b : Block) (level : Int) => Printer.lineText (indentOf level) b.typeLine
  [.type 1 nestedTypes[1] (typed nestedTypes[1]) [.line 2 nestedTypes[2] "A.x = 1",
    .type 3 nestedTypes[3] (typed nestedTypes[3]) [.line 5 nestedTypes[5] "B.z = A.x"],
    .line 4 nestedTypes[4] "y = A"]]

theorem sketched_nestedPieces : ({ config := .standard, blocks := nestedTypes.toArray } : Workshop).Sketched
    0 nestedTypes[0] {} nestedPieces := by
  have htext : ∀ {w : Workshop} {i : BlockId} {b : Block} {text : String}, w.blocks[i]? = some b →
      b.form = .expression { left := .text text } → ∃ n, (Printer.forLevels n).text i w = .ok text w := by
    intro w i b text hb hform
    refine ⟨1, ?_⟩
    change Printer.textOf (.forLevels 0) i w = _
    unfold Printer.textOf
    rw [bind_of_ok (block_apply w i hb), hform]
    exact Fill.fill_eq rfl rfl rfl ((Slot.filled_both text "").trans (by rw [String.append_empty]))
  refine ⟨rfl, ?_, rfl, rfl, rfl, ?_, by decide⟩
  · have hnone : ∀ b ∈ nestedTypes, b.mentioned = [] := by decide
    intro i b hb j hj
    rw [hnone b (by simpa using Array.mem_of_getElem? hb)] at hj
    cases hj
  · intro p hp
    obtain rfl := mem_singleton.1 hp
    refine .type rfl rfl (opens_type rfl rfl rfl rfl) (by decide) rfl fun p hp => ?_
    simp only [mem_cons, not_mem_nil, or_false] at hp
    obtain rfl | rfl | rfl := hp
    · exact .line rfl rfl (htext rfl rfl)
    · refine .type rfl rfl (opens_type rfl rfl rfl rfl) (by decide) rfl fun p hp => ?_
      obtain rfl := mem_singleton.1 hp
      exact .line rfl rfl (htext rfl rfl)
    · exact .line rfl rfl (htext rfl rfl)

/-- What is moved out of the outer type comes before what is moved out of the inner one. -/
theorem Build.dump_moves_nested :
    ({ config := .standard, blocks := nestedTypes.toArray } : Workshop).Sketched 0 nestedTypes[0] {}
      nestedPieces
    ∧ (∀ v ∈ Piece.movesEach nestedPieces, Braceless v.name)
    ∧ (Piece.printed 0 0 nestedPieces).filterMap Prod.fst = [4, 2, 5]
    ∧ ∃ front back w', dump (-1) 0 { config := .standard, blocks := nestedTypes.toArray }
      = .ok (front ++ Piece.text (Piece.printed 0 0 nestedPieces) ++ back) w' := by
  have hplain : ∀ v ∈ Piece.movesEach nestedPieces, Braceless v.name := by decide +kernel
  exact ⟨sketched_nestedPieces, hplain, by decide +kernel, _, _, _,
    (dump_moves_statics sketched_nestedPieces hplain (-1)).1⟩

def slottedType : Workshop where
  config := .standard
  blocks := #[{ form := .program {}, name := some "M", children := [1] },
    { form := .plainClass, name := some "A\x7bleft\x7d", parent := some 0, children := [2] },
    { form := .expression { left := .text "A\x7bleft\x7d.x = 1" }, parent := some 1 }]

/-- The name of a type stands in a template, so a slot in the name is filled: the expression does not
get the whole name. -/
theorem Build.dump_fills_slot_in_name : ∃ text w', dump (-1) 0 slottedType = .ok text w'
    ∧ Value.occursIn "\nA.A\x7bleft\x7d.x = 1\n".toList text.toList = true
    ∧ Value.occursIn "A\x7bleft\x7d.A\x7bleft\x7d.x = 1".toList text.toList = false := by
  have hrun : (match dump (-1) 0 slottedType with
      | .ok text _ => Value.occursIn "\nA.A\x7bleft\x7d.x = 1\n".toList text.toList
          && !Value.occursIn "A\x7bleft\x7d.A\x7bleft\x7d.x = 1".toList text.toList
      | .error _ _ => false) = true := by decide +kernel
  cases hdump : dump (-1) 0 slottedType with
  | ok text w' =>
    rw [hdump, Bool.and_eq_true, Bool.not_eq_true'] at hrun
    exact ⟨text, w', rfl, hrun⟩
  | error failure w' =>
    rw [hdump] at hrun
    cases hrun

end Transcriber
