import Transcriber.Proofs.Statement.Grammar

/-!
# Statements with their opening lines

A statement is made with a keyword and a template; then the opening line gets its clause, if it has
one; then the statement can take what belongs to it.

* `Site.begin`, `Unheaded.visit`, `Headed.close` — the way of a statement.
-/

namespace Transcriber

open Build Source Expression

/-! ## The texts of opening lines -/

namespace Slot

theorem filled_spacedColon (l r : String) : filled? spacedColon l r = some (l ++ " " ++ r ++ ":") := by
  simpa [spacedColon, spaced] using filled_framed "" " " ":" (by decide) l r

theorem filled_leftColon (l r : String) : filled? leftColon l r = some (l ++ ":") :=
  filled_ending ":" (by decide) l r

end Slot

/-- A line that begins with a word. -/
theorem Expression.Worded.behind {word text : String} (hword : Worded word) (htext : OneLine text) :
    Worded (word ++ text) := by
  refine ⟨hword.neat.append htext fun hempty => absurd hempty hword.ne_empty, fun hempty => ?_⟩
  exact hword.ne_empty (String.append_eq_empty_iff.1 hempty).1

/-! ## Clauses on their way -/

/-- An expression that has only texts for operands visits a clause. -/
theorem Expression.Clause.walked {t : Tree} (h : Clause t) {above : List Tree} (habove : above ≠ [])
    (hplain : Cursor.Every Plain ⟨t, above⟩) {w : Workshop} {n : Nat} {s : Scope} {loose : Bool}
    (hs : Fits s loose) {template left right : String}
    (hn : Holds w n s { template, left := .text left, right := .text right }) :
    Unless (Stuck loose t) (Expression.walk n ⟨t, above⟩) w fun _ w' =>
      ∃ text doc, SaysIn s ⟨t, above⟩ text ∧ Worded text ∧ doc.text? = some text
        ∧ Went w (fun _ => False) n s () w' ⟨template, .atom (.text left), doc⟩ := by
  obtain ⟨hstuck, hfree⟩ := h.outcome hs habove
  have hmeets : Meets (Stuck loose t)
      (write s ⟨t, above⟩ ⟨template, .atom (.text left), .atom (.text right)⟩) fun sheet' =>
        ∃ text doc, SaysIn s ⟨t, above⟩ text ∧ Worded text ∧ doc.text? = some text
          ∧ sheet' = ⟨template, .atom (.text left), doc⟩ := by
    refine ⟨fun h => hstuck h _, fun h => ?_⟩
    obtain ⟨text, hsaid, hworded⟩ := hfree h
    obtain ⟨doc, hdoc, htext⟩ := id hsaid
    exact ⟨_, hdoc _, text, doc, hsaid, hworded, htext, rfl⟩
  refine (performs_walk hplain.below (hn.shows_texts (fun _ => False) not_false)).unless hmeets ?_
  rintro _ w' _ hwent ⟨text, doc, hsaid, hworded, htext, rfl⟩
  exact ⟨text, doc, hsaid, hworded, htext, hwent⟩

/-! ## The way of a statement -/

/-- A new statement at a site.  Its opening line stands right behind it. -/
structure Unheaded (w : Workshop) (id : Nat) (keyword template : String) (w' : Workshop) : Prop where
  begun : ∃ b, Begun w id b w.blocks.size w' ∧ b.form = .statement keyword (w.blocks.size + 1)
  site : Site w' w.blocks.size
  size : w'.blocks.size = w.blocks.size + 2
  line : ∃ s, Fits s false ∧ Holds w' (w.blocks.size + 1) s { left := .text keyword, template }

/-- A new statement at a site, with its opening line. -/
structure Headed (w : Workshop) (id n : Nat) (w' : Workshop) (text : String) : Prop where
  begun : ∃ b keyword opening doc, Begun w id b n w' ∧ b.form = .statement keyword opening
    ∧ Spells w' (fun j => w.blocks.size ≤ j ∧ j ≠ n) (.block opening) doc ∧ doc.text? = some text
  worded : Worded text
  site : Site w' n

theorem Site.begin {w : Workshop} {id : Nat} (h : Site w id) (keyword template : String) :
    ∃ w', Statement.begin id keyword template w = .ok w.blocks.size w'
      ∧ Unheaded w id keyword template w' := by
  have hbegun := h.begun
    (b := { form := .statement keyword (w.blocks.size + 1), parent := some id }) rfl rfl rfl
  have hwithin := within_place
    (w.adjoin { form := .statement keyword (w.blocks.size + 1), parent := some id })
    { form := .expression { left := .text keyword, template }, parent := some w.blocks.size }
  have hbegun' := hbegun.frame hwithin.around h.lt_size rfl (fun j hj => hj.elim) not_false
  have hcalm := hbegun'.around.calm h.calm
  have hnew := Workshop.place_get_new
    (w.adjoin { form := .statement keyword (w.blocks.size + 1), parent := some id })
    { form := .expression { left := .text keyword, template }, parent := some w.blocks.size }
  rw [Workshop.adjoin_size] at hnew
  obtain ⟨s, hs, hfits⟩ := hbegun'.housed.inScope
  refine ⟨_, statement_apply w _ keyword template, ⟨_, hbegun', rfl⟩,
    ⟨hcalm, hbegun'.housed, _, hbegun'.get, rfl⟩, ?_, s, hfits, hcalm, ?_, ⟨_, hnew, rfl⟩, rfl⟩
  · rw [Workshop.place_size, Workshop.adjoin_size]
  · exact InScope.of_inside hnew rfl rfl (Nat.lt_succ_self _) hs

namespace Unheaded

variable {w w' w'' : Workshop} {id : Nat} {keyword template : String}

theorem opening (h : Unheaded w id keyword template w') {J : Nat → Prop} (hw : Around J w' w'')
    (hJ : ¬ J w.blocks.size) : opening w.blocks.size w'' = .ok (w.blocks.size + 1) w'' := by
  obtain ⟨b, hbegun, hform⟩ := h.begun
  have hmodule : b.isModule = false := by simp [Block.isModule, hform]
  unfold Build.opening
  rw [bind_of_ok (block_apply w'' _ (hw.get hbegun.get hmodule hJ)), hform]
  rfl

variable {text : String}

section

variable (h : Unheaded w id keyword template w') (hid : id < w.blocks.size)
include h hid

/-- Work on the opening line, after which it says something. -/
theorem headed {J : Nat → Prop} (hw : Around J w' w'') (hJ : ∀ j, J j → w.blocks.size < j)
    {doc : Doc}
    (hspells : Spells w'' (fun j => w.blocks.size < j) (.block (w.blocks.size + 1)) doc)
    (htext : doc.text? = some text) (hworded : Worded text) :
    Headed w id w.blocks.size w'' text := by
  obtain ⟨b, hbegun, hform⟩ := h.begun
  have hmodule : b.isModule = false := by simp [Block.isModule, hform]
  refine ⟨⟨b, keyword, _, doc, ?_, hform, hspells.mono fun j hj => ⟨Nat.le_of_lt hj, by omega⟩, htext⟩,
    hworded, h.site.frame hw⟩
  exact hbegun.frame hw hid hmodule (fun j hj => Nat.le_of_lt (hJ j hj)) fun hj =>
    absurd (hJ _ hj) (Nat.lt_irrefl _)

/-- The opening line says something in the end. -/
theorem shown {s : Scope}
    {sheet : Sheet} {u : Unit} (hwent : Went w' (fun _ => False) (w.blocks.size + 1) s u w'' sheet)
    (htext : sheet.doc.text? = some text) (hworded : Worded text) :
    Headed w id w.blocks.size w'' text := by
  have hsize := h.size
  refine h.headed hid hwent.1.around (fun j hj => hj ▸ Nat.lt_succ_self _)
    (hwent.2.spells ?_ (Nat.lt_succ_self _)) htext hworded
  rintro j (hfalse | hle)
  · exact hfalse.elim
  · omega

/-- The opening line may stay as it was made. -/
theorem bare (htext : Slot.filled? template keyword "" = some text) (hworded : Worded text) :
    Headed w id w.blocks.size w' text := by
  obtain ⟨s, -, hholds⟩ := h.line
  have hshows := hholds.shows_texts (fun _ => False) not_false
  exact h.shown hid (hshows.went (.refl _ w') hshows ()) ((Doc.text_node rfl rfl).trans htext) hworded

/-- The opening line gets a text. -/
theorem tell (clause : String)
    (htext : Slot.filled? template keyword clause = some text) (hworded : Worded text) :
    ∃ w'', setRight (w.blocks.size + 1) (.text clause) w' = .ok () w''
      ∧ Headed w id w.blocks.size w'' text := by
  obtain ⟨s, -, hholds⟩ := h.line
  obtain ⟨w'', hrun, hwithin, -, hholds'⟩ := hholds.changed (fun e => { e with right := .text clause }) rfl
  have hshows := hholds.shows_texts (fun _ => False) not_false
  exact ⟨w'', hrun, h.shown hid (hshows.went hwithin (hholds'.shows_texts (fun _ => False) not_false) ())
    ((Doc.text_node rfl rfl).trans htext) hworded⟩

theorem visit {t : Tree}
    (hc : Clause t) {above : List Tree} (habove : above ≠ []) (hplain : Cursor.Every Plain ⟨t, above⟩)
    {header : String → String} (hheader : ∀ text, Worded text →
      Slot.filled? template keyword text = some (header text) ∧ Worded (header text)) :
    Unless (Stuck false t) (Statement.open_ w.blocks.size (some ⟨t, above⟩)) w' fun _ w'' =>
      ∃ text, Stated ⟨t, above⟩ text ∧ Headed w id w.blocks.size w'' (header text) := by
  obtain ⟨s, hs, hholds⟩ := h.line
  refine .after (h.opening (.refl (fun _ => False) w') not_false) ((hc.walked habove hplain hs hholds).imp ?_)
  rintro _ w'' ⟨text, doc, hsaid, hworded, htext, hwent⟩
  obtain ⟨hfilled, hheaded⟩ := hheader text hworded
  exact ⟨text, ⟨s, hs, hsaid⟩, h.shown hid hwent ((Doc.text_node rfl htext).trans hfilled) hheaded⟩

end

/-- The opening line of a loop over the elements of something.  What it is made of lies inside nothing.
-/
theorem each (h : Unheaded w id "for" Slot.spacedColon w') (hid : id < w.blocks.size)
    {name source : Tree} (hident : name.kind = .ident) (hname : Worded name.text)
    (hsource : Clause source) {above : List Tree} (habove : above ≠ [])
    (hplainName : Cursor.Every Plain ⟨name, above⟩)
    (hplainSource : Cursor.Every Plain ⟨source, above⟩) :
    Unless (Stuck true source) (do
        let element ← looseExpr { template := Slot.left ++ " in " ++ Slot.right }
        setRight (← Build.opening w.blocks.size) (.block element)
        Expression.walk element ⟨name, above⟩
        let things ← looseExpr {}
        setRight element (.block things)
        Expression.walk things ⟨source, above⟩) w' fun _ w'' =>
      ∃ text, SaysIn .loose ⟨source, above⟩ text
        ∧ Headed w id w.blocks.size w'' ("for " ++ (name.text ++ " in " ++ text) ++ ":") := by
  obtain ⟨s, -, hholds⟩ := h.line
  have hshows := hholds.shows_texts (fun _ => False) not_false
  obtain ⟨element, w1, w2, hrun1, hrun2, hopened, helement⟩ :=
    hshows.looseRight { template := Slot.left ++ " in " ++ Slot.right } rfl
  -- The opening line is looked up after the new expression was made.
  have hopening : Build.opening w.blocks.size w1 = .ok (w.blocks.size + 1) w1 := by
    obtain ⟨w1', hrun1', hwithin, -, -⟩ := hholds.calm.made
      { template := Slot.left ++ " in " ++ Slot.right } rfl
    cases hrun1.symm.trans hrun1'
    exact h.opening hwithin.around not_false
  have hwritten : write .loose ⟨name, above⟩
      ⟨Slot.left ++ " in " ++ Slot.right, .atom (.text ""), .atom (.text "")⟩
      = .ok ⟨Slot.left ++ " in " ++ Slot.right, .atom (.text name.text), .atom (.text "")⟩ := by
    rw [write_eq]
    refine writeVisit_of_done ?_
    unfold writeAccept
    rw [show (Cursor.mk name above).kind = .ident from hident]
    rfl
  have hnamed := performs_walk hplainName.below (helement.shows_texts (fun _ => False) not_false)
  rw [hwritten] at hnamed
  obtain ⟨_, w3, hrun3, hwent3⟩ := hnamed
  obtain ⟨things, w4, w5, hrun4, hrun5, hopened', hthings⟩ := hwent3.2.looseRight {} rfl
  refine .after hrun1 (.after hopening (.after hrun2 (.after hrun3 (.after hrun4 (.after hrun5
    ((hsource.walked habove hplainSource fits_loose hthings).imp ?_))))))
  rintro _ w6 ⟨text, doc, hsaid, hworded, htext, hwent6⟩
  have hwent := hopened.fill (hwent3.trans (hopened'.fill hwent6))
  refine ⟨text, hsaid, h.shown hid hwent ?_ ?_⟩
  · have hthings : (Sheet.doc ⟨Slot.both, .atom (.text ""), doc⟩).text? = some text := by
      refine (Doc.text_node rfl htext).trans ?_
      rw [Slot.filled_both, String.empty_append]
    exact (Doc.text_node rfl ((Doc.text_node rfl hthings).trans (Slot.filled_between _ (by decide) _ _))).trans
      (Slot.filled_spacedColon "for" _)
  · rw [String.append_assoc]
    refine (by decide : Worded "for ").behind (.append (.append ?_ hworded.neat.oneLine) (by decide))
    exact hname.neat.oneLine.append (by decide)

end Unheaded

namespace Headed

variable {w w' w'' : Workshop} {id n : Nat} {text : String}

/-- A statement is complete with what belongs to it. -/
theorem close (h : Headed w id n w' text) (hid : id < w.blocks.size) {inner : List Line}
    (hinner : Grew w' n w'' inner) : Grew w id w'' ((0, text) :: deeper inner) := by
  obtain ⟨b, keyword, opening, doc, hbegun, hform, hspells, htext⟩ := h.begun
  exact hbegun.statement hid hform hspells htext h.worded hinner

/-- Nothing need belong to a statement. -/
theorem alone (h : Headed w id n w' text) (hid : id < w.blocks.size) : Grew w id w' [(0, text)] :=
  h.close hid (.refl w' n)

end Headed

end Transcriber
