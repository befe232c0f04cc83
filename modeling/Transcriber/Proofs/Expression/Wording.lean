import Mathlib.Data.List.Perm.Subperm
import Mathlib.Data.List.TakeWhile
import Transcriber.Proofs.Expression.Sheet
import Transcriber.Proofs.Store
import Transcriber.Print.Printer

/-!
# The texts of expressions

What an expression says can be put into words when each template has no other fields than its two
slots.  Printing gives these words and changes nothing.

* `Slot.filled?` — a template with its slots filled; `Slot.filled_render` — as it was put together.
-/

namespace Transcriber

open Build List String

/-! ## Templates with two slots -/

/-- Whether a piece of a template is text or one of the two slots. -/
def Text.Piece.isPlain : Text.Piece → Bool
  | .literal _ => true
  | .field slot => slot.conversion.isNone && slot.spec.isEmpty
      && (slot.name == "left".toList || slot.name == "right".toList)

/-- The text of a piece. -/
def Text.Piece.text (left right : String) : Text.Piece → String
  | .literal text => ofList text
  | .field slot => if slot.name == "left".toList then left else right

def Slot.pieces? (template : String) : Option (List Text.Piece) :=
  match Text.Template.pieces template with
  | (pieces, true) => if pieces.all (·.isPlain) then some pieces else none
  | (_, false) => none

def Slot.filled? (template left right : String) : Option String :=
  (pieces? template).map fun pieces => String.join (pieces.map (·.text left right))

/-! ## Templates put together -/

def Braceless (text : String) : Prop := ∀ c ∈ text.toList, Text.Template.isBrace c = false

instance (text : String) : Decidable (Braceless text) :=
  inferInstanceAs (Decidable (∀ c ∈ text.toList, Text.Template.isBrace c = false))

theorem Braceless.append {a b : String} (ha : Braceless a) (hb : Braceless b) : Braceless (a ++ b) := by
  intro c hc
  rw [toList_append] at hc
  exact (mem_append.1 hc).elim (ha c) (hb c)

namespace Slot

/-- A template put together from texts, each before one of the two slots, and a text at its end. -/
def render : List (String × Bool) → String → String
  | [], last => last
  | (text, isLeft) :: parts, last => text ++ (if isLeft then left else right) ++ render parts last

def fillIn (l r : String) : List (String × Bool) → String → String
  | [], last => last
  | (text, isLeft) :: parts, last => text ++ (if isLeft then l else r) ++ fillIn l r parts last

def piece (isLeft : Bool) : Text.Piece :=
  .field ⟨(if isLeft then "left" else "right").toList, none, []⟩

/-- A text as pieces of a template. -/
def literal (text : String) : List Text.Piece :=
  if text.toList.isEmpty then [] else [.literal text.toList]

/-- The pieces of a template that was put together. -/
def piecesOf : List (String × Bool) → String → List Text.Piece
  | [], last => literal last
  | (text, isLeft) :: parts, last => literal text ++ piece isLeft :: piecesOf parts last

theorem piecesUpTo_slot {text : String} (h : Braceless text) (isLeft : Bool) (rest : List Char)
    (fuel : Nat) : Text.Template.piecesUpTo (fuel + 1)
        (text.toList ++ ((if isLeft then left else right).toList ++ rest))
      = (literal text ++ piece isLeft :: (Text.Template.piecesUpTo fuel rest).1,
        (Text.Template.piecesUpTo fuel rest).2) := by
  have hplain : ∀ c ∈ text.toList, (!Text.Template.isBrace c) = true := by
    intro c hc
    rw [h c hc]
    rfl
  obtain ⟨next, tail, hslot, hne, hfield⟩ : ∃ next tail,
      (if isLeft then left else right).toList ++ rest = '\x7b' :: next :: tail
        ∧ (next == '\x7b') = false ∧ Text.Template.readField (next :: tail)
          = some (⟨(if isLeft then "left" else "right").toList, none, []⟩, rest) := by
    cases isLeft
    · exact ⟨'r', "ight\x7d".toList ++ rest, rfl, rfl, rfl⟩
    · exact ⟨'l', "eft\x7d".toList ++ rest, rfl, rfl, rfl⟩
  have htake : takeWhile (fun c => !Text.Template.isBrace c) ('\x7b' :: next :: tail) = [] := rfl
  have hdrop : dropWhile (fun c => !Text.Template.isBrace c) ('\x7b' :: next :: tail)
      = '\x7b' :: next :: tail := rfl
  rw [hslot, Text.Template.piecesUpTo, takeWhile_append_of_pos hplain,
    dropWhile_append_of_pos hplain, htake, hdrop, append_nil]
  dsimp only
  rw [hne, if_neg Bool.false_ne_true, if_neg (by decide), hfield]
  rfl

theorem piecesUpTo_last {text : String} (h : Braceless text) (fuel : Nat) :
    Text.Template.piecesUpTo (fuel + 1) text.toList = (literal text, true) := by
  have hplain : ∀ c ∈ text.toList, (!Text.Template.isBrace c) = true := by
    intro c hc
    rw [h c hc]
    rfl
  rw [Text.Template.piecesUpTo, takeWhile_eq_self_iff.2 hplain, dropWhile_eq_nil_iff.2 hplain]
  rfl

theorem piecesUpTo_render {parts : List (String × Bool)} {last : String}
    (h : ∀ part ∈ parts, Braceless part.1) (hlast : Braceless last) {fuel : Nat}
    (hfuel : parts.length < fuel) :
    Text.Template.piecesUpTo fuel (render parts last).toList = (piecesOf parts last, true) := by
  induction parts generalizing fuel with
  | nil =>
    obtain ⟨fuel, rfl⟩ : ∃ n, fuel = n + 1 := ⟨fuel - 1, by omega⟩
    exact piecesUpTo_last hlast fuel
  | cons part parts ih =>
    obtain ⟨text, isLeft⟩ := part
    obtain ⟨fuel, rfl⟩ : ∃ n, fuel = n + 1 := ⟨fuel - 1, by omega⟩
    have hlength : parts.length < fuel := Nat.lt_of_succ_lt_succ hfuel
    have hrest := ih (fun p hp => h p (.tail _ hp)) hlength
    rw [render, toList_append, toList_append, List.append_assoc, piecesUpTo_slot (h _ (.head _)), hrest]
    rfl

/-- Each slot of a template takes some room. -/
theorem length_le_render (parts : List (String × Bool)) (last : String) :
    parts.length ≤ (render parts last).toList.length := by
  induction parts with
  | nil => exact Nat.zero_le _
  | cons part parts ih =>
    obtain ⟨text, isLeft⟩ := part
    have hslot : 1 ≤ (if isLeft then left else right).toList.length := by
      cases isLeft <;> decide
    rw [render, toList_append, toList_append, List.length_append, List.length_append, length_cons]
    omega

theorem text_literal (l r text : String) : String.join ((literal text).map (·.text l r)) = text := by
  unfold literal
  split
  case isTrue h =>
    have htext : text.toList = [] := isEmpty_iff.1 h
    rw [← ofList_toList (s := text), htext]
    rfl
  case isFalse => simp [Text.Piece.text, String.join]

theorem text_piecesOf (l r : String) (parts : List (String × Bool)) (last : String) :
    String.join ((piecesOf parts last).map (·.text l r)) = fillIn l r parts last := by
  induction parts with
  | nil => exact text_literal l r last
  | cons part parts ih =>
    obtain ⟨text, isLeft⟩ := part
    have hpiece : (piece isLeft).text l r = if isLeft then l else r := by cases isLeft <;> rfl
    rw [piecesOf, map_append, map_cons, hpiece, join_append, text_literal,
      String.join_cons, ih, fillIn, String.append_assoc]

theorem isPlain_piecesOf (parts : List (String × Bool)) (last : String) :
    (piecesOf parts last).all (·.isPlain) = true := by
  have hliteral : ∀ text, (literal text).all (·.isPlain) = true := by
    intro text
    unfold literal
    split <;> rfl
  induction parts with
  | nil => exact hliteral last
  | cons part parts ih =>
    obtain ⟨text, isLeft⟩ := part
    rw [piecesOf, all_append, all_cons, hliteral, ih]
    cases isLeft <;> rfl

/-- A template that was put together is filled slot by slot. -/
theorem filled_render {parts : List (String × Bool)} {last : String}
    (h : ∀ part ∈ parts, Braceless part.1) (hlast : Braceless last) (l r : String) :
    filled? (render parts last) l r = some (fillIn l r parts last) := by
  have hpieces : Text.Template.pieces (render parts last) = (piecesOf parts last, true) :=
    piecesUpTo_render h hlast (Nat.lt_succ_of_le (length_le_render parts last))
  unfold filled? pieces?
  rw [hpieces]
  dsimp only
  rw [if_pos (isPlain_piecesOf parts last), Option.map_some, text_piecesOf]

/-- A template for both operands, with texts around them. -/
theorem filled_framed (first mark last : String) (h : Braceless first ∧ Braceless mark ∧ Braceless last)
    (l r : String) : filled? (first ++ left ++ mark ++ right ++ last) l r
      = some (first ++ l ++ mark ++ r ++ last) := by
  have htemplate : first ++ left ++ mark ++ right ++ last = render [(first, true), (mark, false)] last := by
    simp [render, String.append_assoc]
  rw [htemplate, filled_render (by simpa using ⟨h.1, h.2.1⟩) h.2.2]
  simp [fillIn, String.append_assoc]

theorem filled_between (mark : String) (h : Braceless mark) (l r : String) :
    filled? (left ++ mark ++ right) l r = some (l ++ mark ++ r) := by
  simpa using filled_framed "" mark "" ⟨by decide, h, by decide⟩ l r

theorem filled_both (l r : String) : filled? both l r = some (l ++ r) := by
  simpa [both] using filled_between "" (by decide) l r

theorem filled_parentheses (l r : String) :
    filled? ("(" ++ both ++ ")") l r = some ("(" ++ (l ++ r) ++ ")") := by
  simpa [both, String.append_assoc] using filled_framed "(" "" ")" (by decide) l r

/-- A template for one operand. -/
theorem filled_single (first last : String) (isLeft : Bool) (h : Braceless first ∧ Braceless last)
    (l r : String) : filled? (first ++ (if isLeft then left else right) ++ last) l r
      = some (first ++ (if isLeft then l else r) ++ last) := by
  have htemplate : first ++ (if isLeft then left else right) ++ last = render [(first, isLeft)] last := by
    cases isLeft <;> simp [render, String.append_assoc]
  rw [htemplate, filled_render (by simpa using h.1) h.2]
  simp [fillIn, String.append_assoc]

theorem filled_ending (last : String) (h : Braceless last) (l r : String) :
    filled? (left ++ last) l r = some (l ++ last) := by
  simpa using filled_single "" last true ⟨by decide, h⟩ l r

end Slot

/-! ## Words -/

def Doc.text? : Doc → Option String
  | .atom .nothing => some "None"
  | .atom (.number n) => some (toString n)
  | .atom (.text s) => some s
  | .atom (.node s) => some s
  | .atom (.block _) => none
  | .node template left right => do
      let left ← left.text?
      let right ← right.text?
      Slot.filled? template left right

theorem Doc.text_node {template left right : String} {l r : Doc} (hl : l.text? = some left)
    (hr : r.text? = some right) : (Doc.node template l r).text? = Slot.filled? template left right := by
  rw [Doc.text?, hl, hr]
  rfl

/-- How deep expressions are nested. -/
def Doc.depth : Doc → Nat
  | .atom _ => 0
  | .node _ left right => max left.depth right.depth + 1

namespace Fill

variable {texts : Texts} {e : Expr} {w : Workshop} {left right : String}

/-- Filling a template with two slots puts the operands in their places, and the tail behind them. -/
theorem fill_eq_append {text : String} (hleft : operandText texts e.left w = .ok left w)
    (hright : operandText texts e.right w = .ok right w)
    (htext : Slot.filled? e.template left right = some text) :
    fill texts e w = .ok (text ++ e.tail) w := by
  obtain ⟨pieces, hpieces, rfl⟩ := Option.map_eq_some_iff.1 htext
  unfold Slot.pieces? at hpieces
  unfold fill fillTo
  generalize Text.Template.pieces e.template = read at hpieces ⊢
  obtain ⟨read, complete⟩ := read
  cases complete with
  | false => cases hpieces
  | true =>
    dsimp only at hpieces ⊢
    split at hpieces
    case isFalse => cases hpieces
    case isTrue hplain =>
      cases hpieces
      rw [List.all_eq_true] at hplain
      refine bind_of_ok (bind_of_ok (mapM_apply_of_ok fun piece hpiece => ?_))
      have hp := hplain piece hpiece
      cases piece with
      | literal text => rfl
      | field slot =>
        obtain ⟨name, conversion, spec⟩ := slot
        simp only [Text.Piece.isPlain, Bool.and_eq_true, Option.isNone_iff_eq_none,
          List.isEmpty_iff, Bool.or_eq_true, beq_iff_eq] at hp
        obtain ⟨⟨rfl, rfl⟩, rfl | rfl⟩ := hp
        · exact hleft
        · exact hright

theorem fill_eq {text : String} (htail : e.tail = "") (hleft : operandText texts e.left w = .ok left w)
    (hright : operandText texts e.right w = .ok right w)
    (htext : Slot.filled? e.template left right = some text) : fill texts e w = .ok text w := by
  have h := fill_eq_append hleft hright htext
  rwa [htail, append_empty] at h

end Fill

namespace Spells

variable {w : Workshop} {P : Nat → Prop}

variable {operand : Operand} {doc : Doc}

section

variable (h : Spells w P operand doc)
include h

theorem unique {doc' : Doc} {Q : Nat → Prop} (h' : Spells w Q operand doc') : doc = doc' := by
  induction h generalizing doc' with
  | @atom operand hatom =>
    cases h' with
    | atom => rfl
    | block => exact absurd rfl (hatom _)
  | @block id b e left right _ hb hform _ _ _ ihl ihr =>
    cases h' with
    | atom hatom => exact absurd rfl (hatom _)
    | @block _ b' e' _ _ _ hb' hform' _ hl' hr' =>
      cases hb.symm.trans hb'
      cases hform.symm.trans hform'
      rw [ihl hl', ihr hr']

/-- The blocks on the way down to the deepest operand: no block stands inside itself. -/
theorem exists_path : ∃ path : List Nat, path.length = doc.depth ∧ path.Nodup ∧
      ∀ j ∈ path, j < w.blocks.size ∧ ∃ inner, Spells w P (.block j) inner ∧ inner.depth ≤ doc.depth := by
  induction h with
  | atom hatom => exact ⟨[], rfl, nodup_nil, nofun⟩
  | @block id b e left right hP hb hform htail hl hr ihl ihr =>
    have hself : Spells w P (.block id) (.node e.template left right) := .block hP hb hform htail hl hr
    -- The way goes on into the operand that is the deeper one.
    obtain ⟨path, hlength, hnodup, hpath⟩ : ∃ path : List Nat,
        path.length = max left.depth right.depth ∧ path.Nodup ∧
        ∀ j ∈ path, j < w.blocks.size ∧ ∃ inner, Spells w P (.block j) inner ∧
          inner.depth ≤ max left.depth right.depth := by
      rcases Nat.le_total left.depth right.depth with hle | hle
      · rw [Nat.max_eq_right hle]
        exact ihr
      · rw [Nat.max_eq_left hle]
        exact ihl
    refine ⟨id :: path, by rw [length_cons, hlength, Doc.depth], ?_, ?_⟩
    · refine nodup_cons.2 ⟨fun hmem => ?_, hnodup⟩
      obtain ⟨-, inner, hinner, hdepth⟩ := hpath id hmem
      rw [hinner.unique hself, Doc.depth] at hdepth
      omega
    · intro j hj
      rcases mem_cons.1 hj with rfl | hj
      · exact ⟨(Array.getElem?_eq_some_iff.1 hb).1, _, hself, Nat.le_refl _⟩
      · obtain ⟨hlt, inner, hinner, hdepth⟩ := hpath j hj
        exact ⟨hlt, inner, hinner, Nat.le_succ_of_le hdepth⟩

theorem depth_le : doc.depth ≤ w.blocks.size := by
  obtain ⟨path, hlength, hnodup, hpath⟩ := h.exists_path
  have hsub : path ⊆ List.range w.blocks.size := fun j hj => mem_range.2 (hpath j hj).1
  have hle := (hnodup.subperm hsub).length_le
  rwa [hlength, length_range] at hle

/-- A printer with levels enough writes an operand in its words, and changes nothing. -/
theorem operandText {n : Nat} (hn : doc.depth ≤ n) {text : String} (htext : doc.text? = some text) :
    Fill.operandText (Printer.forLevels n).texts operand w = .ok text w := by
  induction h generalizing n text with
  | @atom operand hatom =>
    cases operand with
    | block id => exact absurd rfl (hatom id)
    | _ => cases htext; rfl
  | @block id b e left right hP hb hform htail hl hr ihl ihr =>
    obtain ⟨n, rfl⟩ : ∃ m, n = m + 1 := ⟨n - 1, by rw [Doc.depth] at hn; omega⟩
    rw [Doc.depth] at hn
    simp only [Doc.text?, Option.bind_eq_bind, Option.bind_eq_some_iff] at htext
    obtain ⟨leftText, hleft, rightText, hright, hfilled⟩ := htext
    change Printer.textOf (Printer.forLevels n) id w = _
    unfold Printer.textOf
    rw [bind_of_ok (block_apply w id hb), hform]
    exact Fill.fill_eq htail (ihl (by omega) hleft) (ihr (by omega) hright) hfilled

end

/-- The text of a block. -/
theorem printed {id : Nat} (h : Spells w P (.block id) doc) {text : String}
    (htext : doc.text? = some text) : source id w = .ok text w := by
  have hdepth := h.depth_le
  change (Printer.forLevels (2 * w.blocks.size + 8)).text id w = _
  exact h.operandText (n := 2 * w.blocks.size + 8) (by omega) htext

end Spells

end Transcriber
