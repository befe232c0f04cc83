import Transcriber.Proofs.Expression.Wording

/-!
# Texts on one line

Expressions are written on one line each, and what stands at the start of a line has a meaning.  A
text is neat if it has no line end and no blank at its start.
-/

namespace Transcriber

open String

/-- A text without line ends. -/
def OneLine (text : String) : Prop := '\n' ∉ text.toList

instance (text : String) : Decidable (OneLine text) := inferInstanceAs (Decidable ('\n' ∉ text.toList))

/-- A text that does not begin with a blank. -/
def Unblank (text : String) : Prop := (text.toList.head?.all fun c => !Text.isBlank c) = true

instance (text : String) : Decidable (Unblank text) := inferInstanceAs (Decidable (_ = true))

/-- A text without line ends and without a blank at its start. -/
structure Neat (text : String) : Prop where
  oneLine : OneLine text
  unblank : Unblank text

instance (text : String) : Decidable (Neat text) :=
  decidable_of_iff (OneLine text ∧ Unblank text) ⟨fun h => ⟨h.1, h.2⟩, fun h => ⟨h.1, h.2⟩⟩

variable {a b : String}

theorem OneLine.append (ha : OneLine a) (hb : OneLine b) : OneLine (a ++ b) := by
  unfold OneLine at *
  rw [toList_append, List.mem_append]
  exact not_or.2 ⟨ha, hb⟩

theorem toList_ne_nil {text : String} (h : text ≠ "") : text.toList ≠ [] := by
  intro hnil
  apply h
  rw [← ofList_toList (s := text), hnil]

/-- What stands at the start of a text that begins with another one. -/
theorem Unblank.append (ha : Unblank a) (hb : a = "" → Unblank b) : Unblank (a ++ b) := by
  by_cases hempty : a = ""
  · rw [hempty, empty_append]
    exact hb hempty
  · unfold Unblank at *
    obtain ⟨c, cs, hcs⟩ := List.exists_cons_of_ne_nil (toList_ne_nil hempty)
    rw [toList_append, hcs]
    rw [hcs] at ha
    exact ha

theorem Neat.append (ha : Neat a) (hone : OneLine b) (hb : a = "" → Unblank b) : Neat (a ++ b) :=
  ⟨ha.oneLine.append hone, ha.unblank.append hb⟩

theorem neat_intercalate {mark : String} (hmark : Neat mark) (hne : mark ≠ "") {texts : List String}
    (h : ∀ text ∈ texts, Neat text) : Neat (mark.intercalate texts) := by
  induction texts with
  | nil =>
    rw [intercalate_nil]
    exact ⟨by decide, by decide⟩
  | cons text texts ih =>
    cases texts with
    | nil => simpa using h text (List.mem_singleton_self text)
    | cons next texts =>
      have hrest := ih fun other hother => h other (.tail _ hother)
      rw [intercalate_cons_cons, append_assoc]
      refine (h text (.head _)).append (hmark.oneLine.append hrest.oneLine) fun _ => ?_
      exact hmark.unblank.append fun hempty => absurd hempty hne

/-! ## Templates -/

namespace Slot

/-- Whether a template that was put together makes no blank at the start, if its operands make none.
It may need a left operand that is not empty. -/
def opens (needsLeft : Bool) : List (String × Bool) → String → Bool
  | [], last => decide (Unblank last)
  | (text, isLeft) :: parts, last =>
    if text = "" then isLeft && needsLeft || opens needsLeft parts last else decide (Unblank text)

/-- A template that makes neat texts from neat operands.  It may need a left operand that is not
empty. -/
def Tidy (needsLeft : Bool) (template : String) : Prop :=
  ∃ parts last, template = render parts last
    ∧ (∀ part ∈ parts, Braceless part.1 ∧ OneLine part.1) ∧ (Braceless last ∧ OneLine last)
    ∧ opens needsLeft parts last = true

/-- A template that makes words even from empty operands. -/
def Loud (template : String) : Prop := ∀ l r, filled? template l r ≠ some ""

variable {needsLeft : Bool} {l r : String}

variable {parts : List (String × Bool)} {last : String}

theorem oneLine_fillIn (hparts : ∀ part ∈ parts, OneLine part.1) (hlast : OneLine last) (hl : OneLine l)
    (hr : OneLine r) : OneLine (fillIn l r parts last) := by
  induction parts with
  | nil => exact hlast
  | cons part parts ih =>
    obtain ⟨text, isLeft⟩ := part
    refine ((hparts _ (.head _)).append ?_).append (ih fun p hp => hparts p (.tail _ hp))
    cases isLeft
    · exact hr
    · exact hl

theorem unblank_fillIn (hopens : opens needsLeft parts last = true) (hl : Unblank l) (hr : Unblank r)
    (hneeds : needsLeft = true → l ≠ "") : Unblank (fillIn l r parts last) := by
  induction parts with
  | nil => exact of_decide_eq_true hopens
  | cons part parts ih =>
    obtain ⟨text, isLeft⟩ := part
    rw [opens] at hopens
    rw [fillIn, append_assoc]
    split at hopens
    case isTrue hempty =>
      rw [hempty, empty_append]
      cases isLeft with
      | false => exact hr.append fun _ => ih (by simpa using hopens)
      | true =>
        refine hl.append fun hl => ?_
        rcases Bool.or_eq_true_iff.1 hopens with hneed | hopens
        · exact absurd hl (hneeds (by simpa using hneed))
        · exact ih hopens
    case isFalse hne => exact (of_decide_eq_true hopens).append fun hempty => absurd hempty hne

theorem Tidy.filled {template : String} (h : Tidy needsLeft template) (hl : Neat l) (hr : Neat r)
    (hneeds : needsLeft = true → l ≠ "") :
    ∃ text, filled? template l r = some text ∧ Neat text := by
  obtain ⟨parts, last, rfl, hparts, hlast, hopens⟩ := h
  exact ⟨_, filled_render (fun p hp => (hparts p hp).1) hlast.1 l r,
    oneLine_fillIn (fun p hp => (hparts p hp).2) hlast.2 hl.oneLine hr.oneLine,
    unblank_fillIn hopens hl.unblank hr.unblank hneeds⟩

/-- A text between two operands makes words. -/
theorem loud_render (hparts : ∀ part ∈ parts, Braceless part.1) (hlast : Braceless last)
    (h : parts.any (fun part => part.1 != "") || last != "") : Loud (render parts last) := by
  intro l r hfilled
  rw [filled_render hparts hlast] at hfilled
  have hempty : fillIn l r parts last = "" := Option.some.inj hfilled
  clear hparts hlast hfilled
  induction parts with
  | nil => simp_all [fillIn]
  | cons part parts ih =>
    obtain ⟨text, isLeft⟩ := part
    rw [fillIn, append_eq_empty_iff, append_eq_empty_iff] at hempty
    refine ih ?_ hempty.2
    simpa [hempty.1.1] using h

/-- A template that was put together from neat texts, not all of them empty. -/
theorem tidy_loud (parts : List (String × Bool)) (last : String)
    (h : (∀ part ∈ parts, Braceless part.1 ∧ OneLine part.1) ∧ (Braceless last ∧ OneLine last)
      ∧ opens needsLeft parts last = true
      ∧ (parts.any (fun part => part.1 != "") || last != "") = true) :
    Tidy needsLeft (render parts last) ∧ Loud (render parts last) := by
  obtain ⟨hparts, hlast, hopens, hloud⟩ := h
  exact ⟨⟨parts, last, rfl, hparts, hlast, hopens⟩,
    loud_render (fun part hpart => (hparts part hpart).1) hlast.1 hloud⟩

theorem tidy_between {sign : String} (hbraceless : Braceless sign) (hone : OneLine sign) (hne : sign ≠ "") :
    Tidy true (left ++ sign ++ right) ∧ Loud (left ++ sign ++ right) := by
  have hrender : left ++ sign ++ right = render [("", true), (sign, false)] "" := by
    simp [render, append_assoc]
  rw [hrender]
  refine tidy_loud _ _ ⟨?_, by decide, rfl, by simpa using hne⟩
  simpa using ⟨⟨by decide, by decide⟩, hbraceless, hone⟩

end Slot

/-! ## Words -/

/-- The words of an operand are neat. -/
def Doc.Neat (doc : Doc) : Prop := ∃ text, doc.text? = some text ∧ Transcriber.Neat text

/-- The words of an operand are neat, and there are some. -/
def Doc.Voiced (doc : Doc) : Prop := ∃ text, doc.text? = some text ∧ Transcriber.Neat text ∧ text ≠ ""

theorem Doc.Voiced.neat {doc : Doc} (h : doc.Voiced) : doc.Neat := by
  obtain ⟨text, htext, hneat, -⟩ := h
  exact ⟨text, htext, hneat⟩

theorem Doc.neat_text {text : String} (h : Transcriber.Neat text) : (Doc.atom (.text text)).Neat :=
  ⟨text, rfl, h⟩

theorem Doc.neat_empty : (Doc.atom (.text "")).Neat := Doc.neat_text (by decide)

/-- The operands of an expression are neat, and its template makes neat texts from them. -/
structure Sheet.Tidy (sheet : Sheet) : Prop where
  left : sheet.left.Neat
  right : sheet.right.Neat
  template : Slot.Tidy false sheet.template ∨ Slot.Tidy true sheet.template ∧ sheet.left.Voiced

namespace Sheet.Tidy

variable {sheet : Sheet}

variable (h : sheet.Tidy)
include h

theorem neat : sheet.doc.Neat := by
  obtain ⟨r, hr, hneatr⟩ := h.right
  rcases h.template with htemplate | ⟨htemplate, l, hl, hneatl, hne⟩
  · obtain ⟨l, hl, hneatl⟩ := h.left
    obtain ⟨text, hfilled, hneat⟩ := htemplate.filled hneatl hneatr Bool.false_ne_true.elim
    exact ⟨text, (Doc.text_node hl hr).trans hfilled, hneat⟩
  · obtain ⟨text, hfilled, hneat⟩ := htemplate.filled hneatl hneatr fun _ => hne
    exact ⟨text, (Doc.text_node hl hr).trans hfilled, hneat⟩

theorem voiced (hloud : Slot.Loud sheet.template) : sheet.doc.Voiced := by
  obtain ⟨text, htext, hneat⟩ := h.neat
  refine ⟨text, htext, hneat, ?_⟩
  rintro rfl
  obtain ⟨l, hl, -⟩ := h.left
  obtain ⟨r, hr, -⟩ := h.right
  exact hloud l r ((Doc.text_node hl hr).symm.trans htext)

/-- An operand with words gives words to an expression that is nothing but its operands. -/
theorem voiced_of_operand (htemplate : sheet.template = Slot.both)
    (hvoiced : sheet.left.Voiced ∨ sheet.right.Voiced) : sheet.doc.Voiced := by
  obtain ⟨text, htext, hneat⟩ := h.neat
  refine ⟨text, htext, hneat, ?_⟩
  obtain ⟨l, hl, -⟩ := h.left
  obtain ⟨r, hr, -⟩ := h.right
  have hfilled := (Doc.text_node hl hr).symm.trans htext
  rw [htemplate, Slot.filled_both] at hfilled
  rintro rfl
  obtain ⟨rfl, rfl⟩ := append_eq_empty_iff.1 (Option.some.inj hfilled)
  rcases hvoiced with ⟨l, hl', -, hne⟩ | ⟨r, hr', -, hne⟩
  · exact hne (Option.some.inj (hl'.symm.trans hl))
  · exact hne (Option.some.inj (hr'.symm.trans hr))

/-- A right operand with words gives words to an expression that is nothing but its right operand. -/
theorem voiced_of_right (htemplate : sheet.template = Slot.right)
    (hvoiced : sheet.right.Voiced) : sheet.doc.Voiced := by
  obtain ⟨text, htext, hneat⟩ := h.neat
  refine ⟨text, htext, hneat, ?_⟩
  obtain ⟨l, hl, -⟩ := h.left
  obtain ⟨r, hr, -, hne⟩ := hvoiced
  have hfilled := (Doc.text_node hl hr).symm.trans htext
  have hsingle := Slot.filled_single "" "" false (by decide) l r
  rintro rfl
  refine hne ?_
  rw [htemplate] at hfilled
  simpa [hfilled] using hsingle.symm

theorem setRight {right : Doc} (hright : right.Neat) : Sheet.Tidy { sheet with right } :=
  ⟨h.left, hright, h.template⟩

theorem setLeft {left : Doc} (hleft : left.Voiced) : Sheet.Tidy { sheet with left } :=
  ⟨hleft.neat, h.right, h.template.imp_right fun htemplate => ⟨htemplate.1, hleft⟩⟩

end Sheet.Tidy

end Transcriber
