import Transcriber.Proofs.Statement.Site

/-!
# Statements in the store

The lines of a statement are spread over blocks: a statement brings an opening line, and what belongs
to it stands in its children, or in the children of a block that comes after it.

* `Begun.statement`, `Begun.content`, `Begun.expression` — the ways to put them there.
-/

namespace Transcriber

open Build Source Expression

/-- A line: how deep it is indented, and its text. -/
abbrev Line := Nat × String

/-- Lines that are indented one level deeper. -/
def deeper (lines : List Line) : List Line := lines.map fun line => (line.1 + 1, line.2)

/-- Blocks stand for lines.  All blocks are at least as new as a given number, and what a block holds
is newer than the block. -/
inductive Laid (w : Workshop) : Nat → List Nat → List Line → Prop
  | nil {low : Nat} : Laid w low [] []
  | expression {low id : Nat} {ids : List Nat} {lines : List Line} {doc : Doc} {text : String}
      (hle : low ≤ id) (h : Spells w (low ≤ ·) (.block id) doc) (htext : doc.text? = some text)
      (hworded : Worded text) (rest : Laid w low ids lines) :
      Laid w low (id :: ids) ((0, text) :: lines)
  | statement {low id : Nat} {ids : List Nat} {inner lines : List Line} {b : Block}
      {keyword text : String} {opening : Nat} {doc : Doc} (hle : low ≤ id)
      (hb : w.blocks[id]? = some b) (hform : b.form = .statement keyword opening)
      (hopening : Spells w (low ≤ ·) (.block opening) doc) (htext : doc.text? = some text)
      (hworded : Worded text) (hinner : Laid w (id + 1) b.children inner)
      (rest : Laid w low ids lines) :
      Laid w low (id :: ids) ((0, text) :: deeper inner ++ lines)
  | content {low id : Nat} {ids : List Nat} {inner lines : List Line} {b : Block} (hle : low ≤ id)
      (hb : w.blocks[id]? = some b) (hform : b.form = .content)
      (hinner : Laid w (id + 1) b.children inner) (rest : Laid w low ids lines) :
      Laid w low (id :: ids) (deeper inner ++ lines)

namespace Laid

variable {J : Nat → Prop} {w w' : Workshop} {low low' : Nat} {ids ids' : List Nat}
  {lines lines' : List Line}

/-- Lines stay where they are while their blocks keep their forms. -/
theorem move (h : Laid w low ids lines) (hle : low' ≤ low) (hw : Formed (low ≤ ·) w w') :
    Laid w' low' ids lines := by
  have hget {low id : Nat} {b : Block} (hw : Formed (low ≤ ·) w w') (hid : low ≤ id)
      (hb : w.blocks[id]? = some b) (hsuite : b.form.isSuite = true) (hmethod : b.isMethod = false) :
      w'.blocks[id]? = some b := by
    obtain ⟨hexpression, hmodule, -⟩ := Block.sort_of_isSuite hsuite
    obtain ⟨b', hb', -, hsame⟩ := hw _ _ hid hb hmodule
    rw [hb', hsame hmethod hexpression]
  induction h generalizing low' with
  | nil => exact .nil
  | expression hid h htext hworded _ ih =>
    exact .expression (Nat.le_trans hle hid) ((hw.spells h).mono fun _ => Nat.le_trans hle) htext hworded
      (ih hle hw)
  | statement hid hb hform hopening htext hworded _ _ ihinner ih =>
    exact .statement (Nat.le_trans hle hid) (hget hw hid hb (by rw [hform]; rfl) (by simp [Block.isMethod, hform]))
      hform ((hw.spells hopening).mono fun _ => Nat.le_trans hle) htext hworded
      (ihinner (Nat.le_refl _) fun j b hj => hw j b (by omega)) (ih hle hw)
  | content hid hb hform _ _ ihinner ih =>
    exact .content (Nat.le_trans hle hid) (hget hw hid hb (by rw [hform]; rfl) (by simp [Block.isMethod, hform]))
      hform (ihinner (Nat.le_refl _) fun j b hj => hw j b (by omega)) (ih hle hw)

theorem mono (h : Laid w low ids lines) (hle : low' ≤ low) : Laid w low' ids lines := h.move hle (.refl _ w)

theorem append (h : Laid w low ids lines) (h' : Laid w low ids' lines') :
    Laid w low (ids ++ ids') (lines ++ lines') := by
  induction h with
  | nil => exact h'
  | expression hid h htext hworded _ ih => exact .expression hid h htext hworded (ih h')
  | statement hid hb hform hopening htext hworded hinner _ _ ih =>
    rw [List.cons_append, List.append_assoc, List.cons_append]
    exact .statement hid hb hform hopening htext hworded hinner (ih h')
  | content hid hb hform hinner _ _ ih =>
    rw [List.append_assoc]
    exact .content hid hb hform hinner (ih h')

/-- Lines stay where they are while other blocks are touched. -/
theorem frame (h : Laid w low ids lines) (hw : Around J w w')
    (hJ : ∀ j, low ≤ j → j < w.blocks.size → ¬ J j) : Laid w' low ids lines :=
  h.move (Nat.le_refl low) (hw.formed (.refl _ w) hJ (Nat.le_refl _))

end Laid

/-! ## Work that puts lines into a block -/

/-- Work has put blocks for some lines behind the children of a block, and touched no other old block.
-/
structure Grew (w : Workshop) (id : Nat) (w' : Workshop) (lines : List Line) : Prop where
  around : Around (· = id) w w'
  laid : ∃ ids, w'.childrenOf id = w.childrenOf id ++ ids ∧ Laid w' w.blocks.size ids lines

namespace Grew

variable {w w' w'' : Workshop} {id : Nat} {lines lines' : List Line}

theorem refl (w : Workshop) (id : Nat) : Grew w id w [] := ⟨.refl _ w, [], (List.append_nil _).symm, .nil⟩

theorem trans (h : Grew w id w' lines) (h' : Grew w' id w'' lines') (hid : id < w.blocks.size) :
    Grew w id w'' (lines ++ lines') := by
  obtain ⟨ids, hids, hlaid⟩ := h.laid
  obtain ⟨ids', hids', hlaid'⟩ := h'.laid
  refine ⟨h.around.again h'.around, ids ++ ids', ?_, ?_⟩
  · rw [hids', hids, List.append_assoc]
  · exact (hlaid.frame h'.around fun j hj _ => by omega).append (hlaid'.mono h.around.size)

/-- Work that touches no block takes no line away. -/
theorem idle (h : Grew w id w' lines) (hw : Around (fun _ => False) w' w'')
    (hid : id < w.blocks.size) : Grew w id w'' lines := by
  obtain ⟨ids, hids, hlaid⟩ := h.laid
  refine ⟨h.around.idle hw, ids, ?_, hlaid.frame hw fun _ _ _ => not_false⟩
  rw [hw.childrenOf (Nat.lt_of_lt_of_le hid h.around.size) not_false]
  exact hids

/-- Work that touches no block may come first. -/
theorem after (hw : Around (fun _ => False) w w') (h : Grew w' id w'' lines)
    (hid : id < w.blocks.size) : Grew w id w'' lines := by
  obtain ⟨ids, hids, hlaid⟩ := h.laid
  refine ⟨?_, ids, ?_, hlaid.mono hw.size⟩
  · exact (hw.mono fun _ hj => hj.elim).again h.around
  · rw [← hw.childrenOf hid not_false]
    exact hids

end Grew

/-! ## The ways to put lines into a block -/

namespace Begun

variable {w w' w'' : Workshop} {id n : Nat} {b : Block}

variable {inner : List Line}

variable (h : Begun w id b n w')
include h

/-- The children of a new block, after work has put some there. -/
theorem grown (hinner : Grew w' n w'' inner)
    (hsuite : b.form.isSuite = true) : ∃ b', w''.blocks[n]? = some b' ∧ b'.form = b.form
      ∧ Laid w'' (n + 1) b'.children inner := by
  obtain ⟨b', hb', hform⟩ := hinner.around.get_suite h.get hsuite
  obtain ⟨ids, hids, hlaid⟩ := hinner.laid
  have hn : n < w'.blocks.size := (Array.getElem?_eq_some_iff.1 h.get).1
  refine ⟨b', hb', hform, ?_⟩
  unfold Workshop.childrenOf at hids
  rw [hb', h.get] at hids
  have hchildren : b'.children = ids := by
    simpa [h.childless] using hids
  rw [hchildren]
  exact hlaid.mono hn

/-- The site after something was put into a new block there. -/
theorem put {J : Nat → Prop} (hw : Around J w' w'') (hid : id < w.blocks.size)
    (hJ : ∀ j, J j → w.blocks.size ≤ j) :
    Around (· = id) w w'' ∧ w''.childrenOf id = w.childrenOf id ++ [n] := by
  refine ⟨h.around.trans hw fun j hj => .inr (hJ j hj), ?_⟩
  rw [hw.childrenOf (Nat.lt_of_lt_of_le hid h.around.size) fun hj => absurd (hJ id hj) (by omega)]
  exact h.children

/-- A statement with its opening line and what it holds. -/
theorem statement (hid : id < w.blocks.size) {keyword text : String}
    {opening : Nat} {doc : Doc} (hform : b.form = .statement keyword opening)
    (hopening : Spells w' (fun j => w.blocks.size ≤ j ∧ j ≠ n) (.block opening) doc)
    (htext : doc.text? = some text) (hworded : Worded text) (hinner : Grew w' n w'' inner) :
    Grew w id w'' ((0, text) :: deeper inner) := by
  obtain ⟨b', hb', hform', hlaid⟩ := h.grown hinner (by rw [hform]; rfl)
  obtain ⟨haround, hchildren⟩ := h.put hinner.around hid fun j hj => hj ▸ h.new
  refine ⟨haround, [n], hchildren, ?_⟩
  rw [← List.append_nil ((0, text) :: deeper inner)]
  exact .statement h.new hb' (hform'.trans hform)
    ((hinner.around.spells hopening fun j hj _ => hj.2).mono fun j hj => hj.1) htext hworded hlaid .nil

/-- A block that does nothing but hold lines. -/
theorem content (hid : id < w.blocks.size)
    (hform : b.form = .content) (hinner : Grew w' n w'' inner) : Grew w id w'' (deeper inner) := by
  obtain ⟨b', hb', hform', hlaid⟩ := h.grown hinner (by rw [hform]; rfl)
  obtain ⟨haround, hchildren⟩ := h.put hinner.around hid fun j hj => hj ▸ h.new
  refine ⟨haround, [n], hchildren, ?_⟩
  rw [← List.append_nil (deeper inner)]
  exact .content h.new hb' (hform'.trans hform) hlaid .nil

/-- An expression, which is one line. -/
theorem expression (hw : Around (· = n) w' w'') (hid : id < w.blocks.size)
    {doc : Doc} {text : String} (hspells : Spells w'' (w.blocks.size ≤ ·) (.block n) doc)
    (htext : doc.text? = some text) (hworded : Worded text) : Grew w id w'' [(0, text)] := by
  obtain ⟨haround, hchildren⟩ := h.put hw hid fun j hj => hj ▸ h.new
  exact ⟨haround, [n], hchildren, .expression h.new hspells htext hworded .nil⟩

end Begun

end Transcriber
