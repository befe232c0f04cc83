import Transcriber.Config.Standard
import Transcriber.Proofs.Revision.Rewriting

/-!
# The standard edits settle at once

The standard settings have seventeen edits.  Two of them move nodes: a call of `length` and a call of
`String.format`.  In a tree without such calls the other fifteen change texts only, and what they
write is never taken up by an edit again, neither by a later one nor by an earlier one of a second
revision: a renamed word is no reserved word, the counterpart of a type is its own counterpart, and
a number without its mark has no mark.

* `revise_standard_settles` — the revised tree has the same nodes, no reserved names, and a second
  revision changes nothing.
-/

namespace Transcriber

open Transcriber.Source Standard Edit List String

/-! ## Numbers -/

def IsDigit (c : Char) : Prop := '0' ≤ c ∧ c ≤ '9'

def Digits (cs : List Char) : Prop := cs ≠ [] ∧ ∀ c ∈ cs, IsDigit c

/-- The text of a whole number: no zero in front of other digits, and perhaps the mark of its
size. -/
def WholeLiteral (cs : List Char) : Prop :=
  ∃ digits mark, cs = digits ++ mark ∧ Digits digits ∧ (digits.head? = some '0' → digits = ['0']) ∧
    (mark = [] ∨ mark = ['l'] ∨ mark = ['L'])

/-- The power of ten of a number. -/
def Exponent (cs : List Char) : Prop :=
  ∃ e sign digits, cs = e :: (sign ++ digits) ∧ (e = 'e' ∨ e = 'E') ∧
    (sign = [] ∨ sign = ['+'] ∨ sign = ['-']) ∧ Digits digits

/-- The mark of the size of a number with a point. -/
def SizeMark (cs : List Char) : Prop := ∃ c, cs = [c] ∧ c ∈ "fdFD".toList

/-- The text of a number with a point, a power of ten or the mark of its size. -/
inductive FloatLiteral : List Char → Prop
  | point {whole part power mark : List Char} (hwhole : Digits whole)
      (hpart : ∀ c ∈ part, IsDigit c) (hpower : power = [] ∨ Exponent power)
      (hmark : mark = [] ∨ SizeMark mark) : FloatLiteral (whole ++ '.' :: (part ++ (power ++ mark)))
  | power {whole power mark : List Char} (hwhole : Digits whole) (hpower : Exponent power)
      (hmark : mark = [] ∨ SizeMark mark) : FloatLiteral (whole ++ (power ++ mark))
  | marked {whole mark : List Char} (hwhole : Digits whole) (hmark : SizeMark mark) :
      FloatLiteral (whole ++ mark)
  | pointFirst {part power mark : List Char} (hpart : Digits part)
      (hpower : power = [] ∨ Exponent power) (hmark : mark = [] ∨ SizeMark mark) :
      FloatLiteral ('.' :: (part ++ (power ++ mark)))

/-- No mark ends a text. -/
def Unmarked (marks : String) (cs : List Char) : Prop := ∀ c, cs.getLast? = some c → c ∉ marks.toList

theorem IsDigit.not_mem_marks {c : Char} (h : IsDigit c) : c ∉ "lLfdFD.".toList := by
  intro hmem
  obtain ⟨h0, h9⟩ := h
  simp only [reduceToList, mem_cons, not_mem_nil, or_false] at hmem
  rcases hmem with rfl | rfl | rfl | rfl | rfl | rfl | rfl <;> revert h0 h9 <;> decide

theorem Unmarked.append {marks : String} {ys : List Char} (h : Unmarked marks ys) (hys : ys ≠ [])
    (xs : List Char) : Unmarked marks (xs ++ ys) := by
  intro c hc
  rw [getLast?_append_of_ne_nil _ hys] at hc
  exact h c hc

variable {cs : List Char}

theorem Digits.unmarked (h : Digits cs) (marks : String)
    (hmarks : marks.toList ⊆ "lLfdFD.".toList) : Unmarked marks cs :=
  fun c hc hmem => (h.2 c (mem_of_getLast? hc)).not_mem_marks (hmarks hmem)

theorem Digits.head?_ne_point (h : Digits cs) (rest : List Char) : (cs ++ rest).head? ≠ some '.' := by
  obtain ⟨c, cs, rfl⟩ := exists_cons_of_ne_nil h.1
  rintro ⟨rfl⟩
  exact (h.2 '.' (.head _)).not_mem_marks (by decide)

theorem Exponent.unmarked (h : Exponent cs) : Unmarked "fdFD" cs := by
  obtain ⟨e, sign, digits, rfl, -, -, hdigits⟩ := h
  have hlast := (hdigits.unmarked "fdFD" (by decide)).append hdigits.1 (e :: sign)
  exact hlast

theorem Exponent.ne_nil (h : Exponent cs) : cs ≠ [] := by
  obtain ⟨e, sign, digits, rfl, -⟩ := h
  exact cons_ne_nil _ _

theorem unmarked_point {part power : List Char} (hpart : ∀ c ∈ part, IsDigit c)
    (hpower : power = [] ∨ Exponent power) : Unmarked "fdFD" ('.' :: (part ++ power)) := by
  rcases hpower with rfl | hpower
  · rw [append_nil]
    by_cases hnil : part = []
    · subst hnil
      rintro c ⟨rfl⟩
      decide
    · exact Unmarked.append (Digits.unmarked ⟨hnil, hpart⟩ "fdFD" (by decide)) hnil ['.']
  · exact hpower.unmarked.append hpower.ne_nil ('.' :: part)

/-- A digit in front of a point that begins a text. -/
def zeroFirst (cs : List Char) : List Char := if cs.head? == some '.' then '0' :: cs else cs

theorem zeroFirst_of_ne (h : cs.head? ≠ some '.') : zeroFirst cs = cs := if_neg (by simpa using h)

/-- The text of a number with a point is what is left of it and a mark. -/
theorem FloatLiteral.zeroFirst_eq (h : FloatLiteral cs) :
    ∃ core mark, zeroFirst cs = core ++ mark ∧ core ≠ [] ∧ core.head? ≠ some '.' ∧
      Unmarked "fdFD" core ∧ (mark = [] ∨ SizeMark mark) := by
  cases h with
  | @point whole part power mark hwhole hpart hpower hmark =>
    refine ⟨whole ++ '.' :: (part ++ power), mark, ?_, by simp, hwhole.head?_ne_point _,
      (unmarked_point hpart hpower).append (by simp) _, hmark⟩
    rw [zeroFirst_of_ne (hwhole.head?_ne_point _)]
    simp
  | @power whole power mark hwhole hpower hmark =>
    refine ⟨whole ++ power, mark, ?_, by simp [hpower.ne_nil], hwhole.head?_ne_point _,
      hpower.unmarked.append hpower.ne_nil _, hmark⟩
    rw [zeroFirst_of_ne (hwhole.head?_ne_point _)]
    simp
  | @marked whole mark hwhole hmark =>
    refine ⟨whole, mark, zeroFirst_of_ne (hwhole.head?_ne_point _), hwhole.1, ?_,
      hwhole.unmarked "fdFD" (by decide), .inr hmark⟩
    simpa using hwhole.head?_ne_point []
  | @pointFirst part power mark hpart hpower hmark =>
    refine ⟨'0' :: '.' :: (part ++ power), mark, by simp [zeroFirst], by simp, by simp,
      (unmarked_point hpart.2 hpower).append (by simp) ['0'], hmark⟩

namespace Edit

theorem plainWhole_of_unmarked {cs : List Char} (h : Unmarked "lL" cs) :
    plainWhole (ofList cs) = ofList cs := by
  unfold plainWhole
  rw [toList_ofList]
  split
  next c hc =>
    have hmark := h c hc
    rw [if_neg (by simpa using hmark)]
  next => rfl

/-- Taking the mark off a whole number a second time changes nothing. -/
theorem plainWhole_plainWhole {text : String} (h : WholeLiteral text.toList) :
    plainWhole (plainWhole text) = plainWhole text := by
  obtain ⟨digits, mark, htext, hdigits, -, hmark⟩ := h
  have hplain : plainWhole (ofList digits) = ofList digits :=
    plainWhole_of_unmarked (hdigits.unmarked "lL" (by decide))
  suffices hwhole : plainWhole text = ofList digits by rw [hwhole, hplain]
  rcases hmark with rfl | hmark
  · rw [append_nil] at htext
    rw [← htext, ofList_toList] at hplain ⊢
    exact hplain
  · unfold plainWhole
    rcases hmark with rfl | rfl <;> simp [htext]

theorem plainFloat_unfold (text : String) : plainFloat text = match (zeroFirst text.toList).getLast? with
    | some c => ofList (if "fdFD".toList.contains c then (zeroFirst text.toList).dropLast
        else zeroFirst text.toList)
    | none => text := rfl

theorem plainFloat_eq (text : String) (core mark : List Char)
    (htext : zeroFirst text.toList = core ++ mark) (hcore : core ≠ [])
    (hunmarked : Unmarked "fdFD" core) (hmark : mark = [] ∨ SizeMark mark) :
    plainFloat text = ofList core := by
  rw [plainFloat_unfold, htext]
  rcases hmark with rfl | ⟨c, rfl, hc⟩
  · obtain ⟨c, hc⟩ := Option.isSome_iff_exists.1 (getLast?_isSome.2 hcore)
    have hplain : "fdFD".toList.contains c = false := by simpa using hunmarked c hc
    simp only [append_nil, hc, hplain]
    rfl
  · have hmarked : "fdFD".toList.contains c = true := by simpa using hc
    simp only [getLast?_append, getLast?_singleton, Option.some_or, hmarked, if_true, dropLast_concat]

/-- A number that begins with a digit and has no mark stays as it is. -/
theorem plainFloat_plainFloat {text : String} (h : FloatLiteral text.toList) :
    plainFloat (plainFloat text) = plainFloat text := by
  obtain ⟨core, mark, htext, hcore, hhead, hunmarked, hmark⟩ := h.zeroFirst_eq
  rw [plainFloat_eq text core mark htext hcore hunmarked hmark]
  refine plainFloat_eq _ core [] ?_ hcore hunmarked (.inl rfl)
  rw [toList_ofList, zeroFirst_of_ne hhead, append_nil]

/-! ## Names -/

def safe (name : String) : String := if reservedNames.contains name then name ++ "_" else name

/-- The counterpart of a type name, which is the name itself if there is no other. -/
def counterpart (name : String) : String := (typeNames.lookup name).getD name

variable {name : String}

theorem append_underscore_ne {word : String} (h : word.toList.getLast? ≠ some '_') : name ++ "_" ≠ word := by
  rintro rfl
  simp at h

theorem getLast?_reservedNames : ∀ word ∈ reservedNames, word.toList.getLast? ≠ some '_' := by
  decide +kernel

theorem safe_not_mem (name : String) : safe name ∉ reservedNames := by
  unfold safe
  split
  · exact fun h => append_underscore_ne (getLast?_reservedNames _ h) rfl
  next h => simpa using h

theorem safe_of_not_mem (h : name ∉ reservedNames) : safe name = name := if_neg (by simpa using h)

/-- A counterpart is no reserved name and its own counterpart, unless the name stays as it is. -/
theorem counterpart_cases (name : String) : counterpart name = name ∨
      counterpart name ∈ typeNames.map Prod.snd := by
  unfold counterpart
  rcases h : typeNames.lookup name with _ | other
  · exact .inl rfl
  · obtain ⟨before, after, htable, -⟩ := lookup_eq_some_iff.1 h
    exact .inr (by simp [htable])

theorem counterparts_settled : ∀ name ∈ typeNames.map Prod.snd,
    name ∉ reservedNames ∧ counterpart name = name ∧ name ∉ ["length", "String", "format"] := by
  decide +kernel

theorem counterpart_counterpart (name : String) : counterpart (counterpart name) = counterpart name := by
  rcases counterpart_cases name with h | h
  · rw [h, h]
  · exact (counterparts_settled _ h).2.1

theorem counterpart_not_mem (h : name ∉ reservedNames) : counterpart name ∉ reservedNames := by
  rcases counterpart_cases name with hsame | hother
  · rwa [hsame]
  · exact (counterparts_settled _ hother).1

/-- What an edit makes of the text of a node, if it changes texts only. -/
def change : Edit → String → String
  | safeName => safe
  | constant text => fun _ => text
  | wholeNumber => plainWhole
  | floatNumber => plainFloat
  | typeName => counterpart
  | lengthCall => id
  | formatCall => id

def standardTables : List Value := [.table (typeNames.map fun (a, b) => (a, .text b))]

theorem any_textTable (name : String) (names : List (String × String)) :
    (names.map fun (a, b) => (a, Value.text b)).any (fun (key, _) => key == name)
      = (names.lookup name).isSome := by
  induction names with
  | nil => rfl
  | cons pair names ih =>
    have hsame : (pair.1 == name) = (name == pair.1) := BEq.comm
    rw [map_cons, any_cons, ih, lookup_cons]
    dsimp only
    rw [hsame]
    cases name == pair.1 <;> rfl

theorem lookup_textTable (name : String) (names : List (String × String)) :
    (names.map fun (a, b) => (a, Value.text b)).lookup name = (names.lookup name).map .text := by
  induction names with
  | nil => rfl
  | cons pair names ih =>
    rw [map_cons, lookup_cons, lookup_cons, ih]
    cases name == pair.1 <;> rfl

theorem lookupType_standard (name : String) :
    lookupType name standardTables.reverse = .ok (typeNames.lookup name) := by
  simp only [standardTables, reverse_singleton, lookupType, Value.holds, Value.entry?, any_textTable,
    lookup_textTable]
  cases typeNames.lookup name <;> rfl

theorem setText_self {f : Forest} {node : NodeId} {e : Entry} (h : f.get? node = some e) :
    f.setText node e.head.text = f := by
  refine Forest.ext_get? fun other => ?_
  by_cases hother : node = other
  · subst hother
    simp [Forest.setText, Forest.modify, Forest.get?, Array.getElem?_modify,
      show f.entries[node]? = some e from h]
  · simp [Forest.setText, Forest.modify, Forest.get?, Array.getElem?_modify, hother]

/-- All edits but those of the two calls change the text of their node and nothing else. -/
theorem apply_rewrites (edit : Edit) (hlength : edit ≠ lengthCall) (hformat : edit ≠ formatCall) :
    Revise.Rewrites (edit.apply standardTables) edit.change := by
  intro node d e he
  have hentry : Revise.entry node d = .ok e d := by
    unfold Revise.entry
    rw [Revise.bind_of_ok (Revise.get_apply d), he]
    rfl
  unfold apply
  rw [Revise.bind_of_ok hentry]
  cases edit with
  | constant | wholeNumber | floatNumber => rfl
  | lengthCall => exact absurd rfl hlength
  | formatCall => exact absurd rfl hformat
  | safeName =>
    by_cases hreserved : reservedNames.contains e.head.text
    · simp only [change, safe, if_pos hreserved]
      rfl
    · simp only [change, safe, if_neg hreserved, setText_self he]
      rfl
  | typeName =>
    simp only [lookupType_standard, change, counterpart]
    rcases typeNames.lookup e.head.text with _ | name
    · simp only [Option.getD_none, setText_self he]
      rfl
    · rfl

end Edit

/-! ## The standard edits -/

/-- The nodes that a selector by kind, or by kind and kind of the parent, is for. -/
def Source.Selector.picks : Selector → Option Kind → Kind → Bool
  | .kind k none, _, own => own == k
  | .child (.kind a none) (.kind b none), above, own => own == b && above == some a
  | _, _, _ => false

def Edit.rewriting (rule : Selector × Edit) : Rewriting := ⟨rule.1.picks, rule.2.change⟩

def Standard.rewritings : List Rewriting := edits.map Edit.rewriting

namespace Source.Forest

/-- A tree of a whole source text in which nothing named `length` stands below a dot, and no `format`
right behind `String`. -/
structure Plain (f : Forest) (shape : Shape) : Prop where
  bears : f.Bears none shape
  root : ∃ e, f.get? shape.id = some e ∧ e.head.kind = .compilationUnit
  noLength : ∀ id ∈ shape.nodes, ¬(Selector.child (ofKind .dot) (named "length")).Meets f id
  noFormat : ∀ id ∈ shape.nodes,
    ¬(Selector.child (ofKind .dot) (.adjacent (named "String") (named "format"))).Meets f id

variable {f : Forest} {shape : Shape}

/-- The nodes that a selector picks by kind, or by kind and kind of the parent. -/
theorem Plain.times_ofKind (k : Kind) {id : NodeId} {e : Entry} (he : f.get? id = some e) :
    (ofKind k).times f id = if (ofKind k).picks (f.kindAbove id) e.head.kind then 1 else 0 := by
  simp [ofKind, Selector.times, Selector.picks, Selector.fits, he]

theorem Plain.times_child (h : f.Plain shape) (a b : Kind) {id : NodeId} (hid : id ∈ shape.nodes)
    {e : Entry} (he : f.get? id = some e) :
    (Selector.child (ofKind a) (ofKind b)).times f id
      = if (Selector.child (ofKind a) (ofKind b)).picks (f.kindAbove id) e.head.kind then 1 else 0 := by
  rw [Selector.times, times_ofKind b he]
  rcases hp : f.parentOf id with _ | p
  · simp [ofKind, Selector.picks, kindAbove, hp]
  · obtain ⟨e', he'⟩ := Selector.exists_entry h.bears (h.bears.parent_mem hid hp).1
    have habove : f.kindAbove id = some e'.head.kind := by simp [kindAbove, hp, he']
    rw [habove, Option.map_some, Option.getD_some, times_ofKind a he']
    by_cases hb : e.head.kind = b <;> by_cases ha : e'.head.kind = a <;> simp [ofKind, Selector.picks, ha, hb]

/-- The root is neither a name nor part of a type. -/
theorem Plain.not_meets_root (h : f.Plain shape) {k : Kind} (hk : k ≠ .compilationUnit)
    (text : Option String) : ¬(Selector.kind k text).Meets f shape.id := by
  rintro ⟨e, he, hfits⟩
  obtain ⟨e', he', hkind⟩ := h.root
  obtain rfl : e = e' := Option.some.inj (he.symm.trans he')
  simp only [Selector.fits, Bool.and_eq_true, beq_iff_eq] at hfits
  exact hk (hfits.1.symm.trans hkind)

end Source.Forest

/-- The selectors of the standard edits. -/
inductive Standard.Form : Selector × Edit → Prop
  | own (k : Kind) (e : Edit) (hlength : e ≠ .lengthCall) (hformat : e ≠ .formatCall) :
      Form (ofKind k, e)
  | below (a b : Kind) (e : Edit) (hb : b ≠ .compilationUnit) (hlength : e ≠ .lengthCall)
      (hformat : e ≠ .formatCall) : Form (.child (ofKind a) (ofKind b), e)
  | length : Form (.child (ofKind .dot) (named "length"), .lengthCall)
  | format : Form (.child (ofKind .dot) (.adjacent (named "String") (named "format")), .formatCall)

theorem Standard.form_of_mem : ∀ rule ∈ edits, Form rule := by
  have hprimitive : ∀ k ∈ primitives, Form (.child (ofKind .typeRef) (ofKind k), .typeName) := by
    intro k hk
    refine .below _ _ _ ?_ nofun nofun
    rintro rfl
    revert hk
    decide
  intro rule hrule
  simp only [edits, mem_append, mem_map, mem_cons, not_mem_nil, or_false] at hrule
  rcases hrule with ((rfl | rfl | rfl | rfl | rfl | rfl) | ⟨k, hk, rfl⟩) | rfl | rfl | rfl
  · exact .own _ _ nofun nofun
  · exact .own _ _ nofun nofun
  · exact .own _ _ nofun nofun
  · exact .own _ _ nofun nofun
  · exact .own _ _ nofun nofun
  · exact .own _ _ nofun nofun
  · exact hprimitive k hk
  · exact .length
  · exact .format
  · exact .below _ _ _ nofun nofun nofun

namespace Standard.Form

variable {f : Forest} {shape : Shape} {rule : Selector × Edit}

theorem relational (hrule : Form rule) : rule.1.Relational := by
  cases hrule with
  | own => exact trivial
  | below | length => exact ⟨trivial, trivial⟩
  | format => exact ⟨trivial, trivial, trivial⟩

theorem grounded (hrule : Form rule) (h : f.Plain shape) : rule.1.Grounded f shape.id := by
  cases hrule with
  | own => exact trivial
  | below _ _ _ hb => exact ⟨trivial, trivial, h.not_meets_root hb _⟩
  | length => exact ⟨trivial, trivial, h.not_meets_root (k := .ident) nofun _⟩
  | format =>
    exact ⟨trivial, ⟨trivial, trivial⟩, fun hmeets => h.not_meets_root (k := .ident) nofun _ hmeets.1⟩

theorem times_eq (hrule : Form rule) (h : f.Plain shape) (hnodup : shape.nodes.Nodup) {id : NodeId}
    (hid : id ∈ shape.nodes) {e : Entry} (he : f.get? id = some e) :
    rule.1.times f id = if rule.1.picks (f.kindAbove id) e.head.kind then 1 else 0 := by
  cases hrule with
  | own k => exact Forest.Plain.times_ofKind k he
  | below a b => exact h.times_child a b hid he
  | length =>
    exact not_not.1 (mt (Selector.times_ne_zero_iff h.bears hnodup _ hid).1 (h.noLength id hid))
  | format =>
    exact not_not.1 (mt (Selector.times_ne_zero_iff h.bears hnodup _ hid).1 (h.noFormat id hid))

/-- In a tree without the two calls, the selector of a standard edit finds the nodes that the edit
picks, each one once. -/
theorem select_eq (hrule : Form rule) (h : f.Plain shape) (hnodup : shape.nodes.Nodup) {id : NodeId}
    (hid : id ∈ shape.nodes) {e : Entry} (he : f.get? id = some e) :
    rule.1.select f (some id)
      = .repeated (if rule.1.picks (f.kindAbove id) e.head.kind then 1 else 0) (some id) := by
  rw [Selector.select_eq h.bears hnodup rule.1 hrule.relational (hrule.grounded h) hid,
    hrule.times_eq h hnodup hid he]

theorem rewrites (hrule : Form rule) {above : Option Kind} {own : Kind} (hpicks : rule.1.picks above own) :
    Revise.Rewrites (rule.2.apply standardTables) rule.2.change := by
  cases hrule with
  | own k e hlength hformat => exact e.apply_rewrites hlength hformat
  | below a b e _ hlength hformat => exact e.apply_rewrites hlength hformat
  | length => cases hpicks
  | format => cases hpicks

/-- A standard edit gives a name none of the words that the two calls are known by. -/
theorem change_ne (hrule : rule ∈ edits) {above : Option Kind} (hpicks : rule.1.picks above .ident)
    {text word : String} (hword : word ∈ ["length", "String", "format"])
    (hchange : rule.2.change text = word) : text = word := by
  have hplain : ∀ word ∈ ["length", "String", "format"], word.toList.getLast? ≠ some '_' := by
    decide
  have hsafe : ∀ text, Edit.safe text = word → text = word := by
    intro text
    unfold Edit.safe
    split
    · exact fun h => absurd h (append_underscore_ne (hplain word hword))
    · exact fun h => h
  have htype : ∀ text, Edit.counterpart text = word → text = word := by
    intro text h
    rcases counterpart_cases text with hsame | hother
    · exact hsame.symm.trans h
    · exact absurd (h ▸ hword) (counterparts_settled _ hother).2.2
  simp only [edits, primitives, mem_append, mem_map, mem_cons, not_mem_nil, or_false] at hrule
  rcases hrule with ((rfl | rfl | rfl | rfl | rfl | rfl) | ⟨k, hk, rfl⟩) | rfl | rfl | rfl
  all_goals first
    | exact hsafe text hchange
    | exact htype text hchange
    | cases hpicks

end Standard.Form

namespace Source.Forest

variable {f : Forest} {shape : Shape} {id : NodeId} {done : List NodeId} {rule : Selector × Edit}

theorem meets_ofKind_rewritten {rs : List Rewriting} {k : Kind} :
    (ofKind k).Meets (f.rewritten rs done) id ↔ (ofKind k).Meets f id := by
  simp only [ofKind, Selector.Meets, rewritten, get?_retext]
  rcases f.get? id with _ | e <;> simp [Selector.fits]

theorem meets_named_iff {word : String} : (named word).Meets f id
    ↔ ∃ e, f.get? id = some e ∧ e.head.kind = .ident ∧ e.head.text = word := by
  refine exists_congr fun e => and_congr_right fun _ => ?_
  simp only [named, Selector.fits, Option.all_some, Bool.and_eq_true, beq_iff_eq]
  exact and_congr_right fun _ => eq_comm

theorem meets_named_of_rewritten (hrule : rule ∈ edits) {word : String}
    (hword : word ∈ ["length", "String", "format"])
    (h : (named word).Meets (f.rewritten [Edit.rewriting rule] done) id) :
    (named word).Meets f id := by
  obtain ⟨e', he', hkind, htext⟩ := meets_named_iff.1 h
  rw [rewritten, get?_retext] at he'
  obtain ⟨e, he, rfl⟩ := Option.map_eq_some_iff.1 he'
  refine meets_named_iff.2 ⟨e, he, hkind, ?_⟩
  dsimp only [Rewriting.headAfter_cons, Rewriting.headAfter_nil] at hkind htext
  split at htext
  · rw [Rewriting.text, hkind] at htext
    split at htext
    next hpicks => exact Standard.Form.change_ne hrule hpicks hword htext
    next => exact htext
  · exact htext

/-- The standard edits keep a tree without the two calls. -/
theorem Plain.rewritten (h : f.Plain shape) (hrule : rule ∈ edits) (done : List NodeId) :
    (f.rewritten [Edit.rewriting rule] done).Plain shape where
  bears := h.bears.retext
  root := by
    obtain ⟨e, he, hkind⟩ := h.root
    rw [Forest.rewritten, get?_retext, he]
    exact ⟨_, rfl, hkind⟩
  noLength := by
    rintro id hid ⟨hname, p, hp, hdot⟩
    rw [Forest.rewritten, parentOf_retext] at hp
    exact h.noLength id hid ⟨meets_named_of_rewritten hrule (by simp) hname, p, hp,
      meets_ofKind_rewritten.1 hdot⟩
  noFormat := by
    rintro id hid ⟨⟨hname, q, before, s, after, hq, hsiblings, hs⟩, p, hp, hdot⟩
    rw [Forest.rewritten, parentOf_retext] at hp hq
    rw [Forest.rewritten, childrenOf_retext] at hsiblings
    exact h.noFormat id hid ⟨⟨meets_named_of_rewritten hrule (by simp) hname, q, before, s, after, hq,
      hsiblings, meets_named_of_rewritten hrule (by simp) hs⟩, p, hp, meets_ofKind_rewritten.1 hdot⟩

end Source.Forest

section Passes

variable (report : Report) {f : Forest} {shape : Shape} (hnodup : shape.nodes.Nodup)
variable (hroot : shape.id = 0)
include hnodup hroot

theorem reviseWith_standard {rule : Selector × Edit} (hrule : rule ∈ edits) (h : f.Plain shape) :
    reviseWith standardTables (.list [.selector rule.1, .handler (.edit rule.2)]) ⟨f, report⟩
      = .ok () ⟨f.rewritten [Edit.rewriting rule] shape.nodes, report⟩ := by
  have hform := form_of_mem rule hrule
  refine reviseWith_rewrites report h.bears hnodup hroot (fun _ _ hpicks => hform.rewrites hpicks)
    fun done id hid e he => ?_
  -- the selector looks at a tree in which some texts are changed already
  have hdone := h.rewritten hrule done
  have hget : ∃ e', (f.rewritten [Edit.rewriting rule] done).get? id = some e' ∧
      e'.head.kind = e.head.kind := by
    rw [Forest.rewritten, Forest.get?_retext, he]
    exact ⟨_, rfl, rfl⟩
  obtain ⟨e', he', hkind⟩ := hget
  rw [hform.select_eq hdone hnodup hid he', hkind, Forest.rewritten, Forest.kindAbove_retext]
  rfl

theorem forM_reviseWith {rules : List (Selector × Edit)} (hrules : ∀ rule ∈ rules, rule ∈ edits)
    (h : f.Plain shape) :
    ((rules.map fun (s, e) => Value.list [.selector s, .handler (.edit e)]).forM
        (reviseWith standardTables) : Revise Unit) ⟨f, report⟩
        = .ok () ⟨f.rewritten (rules.map Edit.rewriting) shape.nodes, report⟩ ∧
      (f.rewritten (rules.map Edit.rewriting) shape.nodes).Plain shape := by
  induction rules generalizing f with
  | nil =>
    have hsame : f.rewritten [] shape.nodes = f := Forest.retext_eq_self fun _ _ _ => ite_self _
    simp only [map_nil, hsame]
    exact ⟨rfl, h⟩
  | cons rule rules ih =>
    have hrule := hrules rule (.head _)
    have hfirst := reviseWith_standard report hnodup hroot hrule h
    obtain ⟨hrest, hplain⟩ := ih (fun q hq => hrules q (.tail _ hq)) (h.rewritten hrule shape.nodes)
    rw [Forest.rewritten_rewritten] at hrest hplain
    exact ⟨(Revise.bind_of_ok hfirst).trans hrest, hplain⟩

theorem revise_standard_eq (h : f.Plain shape) :
    revise Config.standard ⟨f, report⟩ = .ok () ⟨f.rewritten rewritings shape.nodes, report⟩ ∧
      (f.rewritten rewritings shape.nodes).Plain shape :=
  forM_reviseWith report hnodup hroot (fun _ hrule => hrule) h

end Passes

/-! ## What becomes of a text -/

namespace Standard

variable {above : Option Kind} {head : Head}

/-- The nodes whose text may change. -/
def Changeable (above : Option Kind) (kind : Kind) : Prop :=
  kind ∈ [.nullWord, .falseWord, .trueWord, .ident, .decimalLiteral, .floatingPointLiteral] ∨
    kind ∈ primitives ∧ above = some .typeRef

theorem changeable_of_picks {rule : Selector × Edit} (hrule : rule ∈ edits) {kind : Kind}
    (hpicks : rule.1.picks above kind) : Changeable above kind := by
  simp only [edits, mem_append, mem_map, mem_cons, not_mem_nil, or_false] at hrule
  rcases hrule with ((rfl | rfl | rfl | rfl | rfl | rfl) | ⟨k, hk, rfl⟩) | rfl | rfl | rfl
  all_goals first
    | cases hpicks
    | simp_all [Selector.picks, ofKind, Selector.chain, Changeable]

theorem headAfter_of_not_changeable (h : ¬Changeable above head.kind) :
    Rewriting.headAfter rewritings above head = head := by
  refine Rewriting.headAfter_of_forall_not fun r hr => ?_
  obtain ⟨rule, hrule, rfl⟩ := mem_map.1 hr
  exact Bool.eq_false_iff.2 fun hpicks => h (changeable_of_picks hrule hpicks)

def newText (above : Option Kind) (head : Head) : String :=
  match head.kind with
  | .nullWord => "None"
  | .falseWord => "False"
  | .trueWord => "True"
  | .ident =>
    if above = some .qualifiedTypeIdent then Edit.counterpart (Edit.safe head.text)
    else Edit.safe head.text
  | .decimalLiteral => plainWhole head.text
  | .floatingPointLiteral => plainFloat head.text
  | kind => if kind ∈ primitives ∧ above = some .typeRef then Edit.counterpart head.text else head.text

theorem newText_of_not_changeable (h : ¬Changeable above head.kind) : newText above head = head.text := by
  unfold newText
  split
  case h_7 => exact if_neg fun hprimitive => h (.inr hprimitive)
  all_goals
    next hkind => exact absurd (.inl (by rw [hkind]; decide)) h

theorem text_headAfter : (Rewriting.headAfter rewritings above head).text = newText above head := by
  by_cases hchange : Changeable above head.kind
  · -- the kinds are told apart, and for each of them the edits are gone through
    simp only [Changeable, primitives, mem_cons, not_mem_nil, or_false] at hchange
    rcases hchange with (h | h | h | h | h | h) | ⟨h | h | h | h | h | h | h | h, rfl⟩ <;>
      simp [newText, rewritings, edits, primitives, Edit.rewriting, Rewriting.text, Selector.picks,
        ofKind, Selector.chain, named, Edit.change, h]
  · rw [headAfter_of_not_changeable hchange, newText_of_not_changeable hchange]

theorem newText_not_reserved (above : Option Kind) (hkind : head.kind = .ident) :
    newText above head ∉ reservedNames := by
  simp only [newText, hkind]
  split
  · exact counterpart_not_mem (safe_not_mem _)
  · exact safe_not_mem _

/-- The edits take up no text that they have written. -/
theorem newText_newText (hwhole : head.kind = .decimalLiteral → WholeLiteral head.text.toList)
    (hfloat : head.kind = .floatingPointLiteral → FloatLiteral head.text.toList) :
    newText above { head with text := newText above head } = newText above head := by
  by_cases hchange : Changeable above head.kind
  · rcases hchange with hown | ⟨hprimitive, rfl⟩
    · simp only [mem_cons, not_mem_nil, or_false] at hown
      rcases hown with h | h | h | h | h | h
      · simp only [newText, h]
      · simp only [newText, h]
      · simp only [newText, h]
      · have hsafe := safe_of_not_mem (newText_not_reserved above h)
        simp only [newText, h] at hsafe ⊢
        rw [hsafe]
        split
        · exact counterpart_counterpart _
        · rfl
      · simpa only [newText, h] using plainWhole_plainWhole (hwhole h)
      · simpa only [newText, h] using plainFloat_plainFloat (hfloat h)
    · simp only [primitives, mem_cons, not_mem_nil, or_false] at hprimitive
      rcases hprimitive with h | h | h | h | h | h | h | h <;>
        simp [newText, primitives, h, counterpart_counterpart]
  · rw [newText_of_not_changeable hchange]
    exact newText_of_not_changeable hchange

end Standard

/-- In the tree of a whole source text whose links fit together, whose numbers are written as numbers
are, and which has no call of `length` or of `String.format`, the standard edits succeed and change
texts only: constants, names, numbers and primitive types right below a type.  No name is a reserved
one in the end, and a second revision changes nothing. -/
theorem revise_standard_settles (f : Forest) (shape : Shape) (report : Report)
    (hplain : f.Plain shape) (hnodup : shape.nodes.Nodup) (hroot : shape.id = 0)
    (hwhole : ∀ id ∈ shape.nodes, ∀ e, f.get? id = some e → e.head.kind = .decimalLiteral →
      WholeLiteral e.head.text.toList)
    (hfloat : ∀ id ∈ shape.nodes, ∀ e, f.get? id = some e → e.head.kind = .floatingPointLiteral →
      FloatLiteral e.head.text.toList) :
    ∃ g : Forest, revise Config.standard ⟨f, report⟩ = .ok () ⟨g, report⟩ ∧ g.size = f.size ∧
      (∀ id e, f.get? id = some e → ∃ text,
        g.get? id = some { e with head := { e.head with text } } ∧
          (text ≠ e.head.text → id ∈ shape.nodes ∧ Changeable (f.kindAbove id) e.head.kind)) ∧
      (∀ id ∈ shape.nodes, ∀ e, g.get? id = some e → e.head.kind = .ident →
        e.head.text ∉ reservedNames) ∧
      revise Config.standard ⟨g, report⟩ = .ok () ⟨g, report⟩ := by
  obtain ⟨hrun, hplain'⟩ := revise_standard_eq report hnodup hroot hplain
  refine ⟨f.rewritten rewritings shape.nodes, hrun, Forest.size_retext, fun id e he => ?_,
    fun id hid e' he' hident => ?_, ?_⟩
  · by_cases hid : id ∈ shape.nodes
    · have hget := Forest.get?_rewritten_of_mem rewritings he hid
      rw [Rewriting.headAfter_eq, text_headAfter] at hget
      refine ⟨_, hget, fun htext => ⟨hid, ?_⟩⟩
      by_contra hnot
      exact htext (newText_of_not_changeable hnot)
    · exact ⟨e.head.text, (Forest.get?_rewritten_of_not_mem f rewritings hid).trans he,
        fun htext => absurd rfl htext⟩
  · obtain ⟨e, he⟩ := Selector.exists_entry hplain.bears hid
    rw [Forest.get?_rewritten_of_mem rewritings he hid] at he'
    obtain rfl := Option.some.inj he'
    rw [Rewriting.kind_headAfter] at hident
    rw [text_headAfter]
    exact newText_not_reserved _ hident
  · obtain ⟨hagain, -⟩ := revise_standard_eq report hnodup hroot hplain'
    have hsame : (f.rewritten rewritings shape.nodes).rewritten rewritings shape.nodes
        = f.rewritten rewritings shape.nodes := by
      simp only [Forest.rewritten, Forest.retext_retext, Forest.kindAbove_retext, text_headAfter]
      refine Forest.retext_congr fun id e he => ?_
      by_cases hid : id ∈ shape.nodes
      · simp only [if_pos hid]
        exact newText_newText (hwhole id hid e he) (hfloat id hid e he)
      · simp only [if_neg hid]
    rw [hsame] at hagain
    exact hagain

/-- A name that is reserved, a type with a counterpart, a primitive type, and numbers with marks. -/
theorem revise_standard_settles_sample :
    let leaf : Kind → String → Tree := fun kind text => .node { kind, text } []
    let t : Tree := .node { kind := .compilationUnit } [
      .node { kind := .typeRef } [leaf .intType "int"],
      .node { kind := .typeRef } [.node { kind := .qualifiedTypeIdent } [leaf .ident "String"]],
      .node { kind := .expr } [.node { kind := .dot } [leaf .ident "not", leaf .ident "format"],
        leaf .decimalLiteral "10L", leaf .floatingPointLiteral ".5f", leaf .nullWord "null"]]
    (Forest.ofTree t).Plain (t.shapeFrom 0) ∧ WholeLiteral "10L".toList ∧
      FloatLiteral ".5f".toList ∧
      ∃ g : Forest, revise Config.standard ⟨Forest.ofTree t, []⟩ = .ok () ⟨g, []⟩ ∧
        revise Config.standard ⟨g, []⟩ = .ok () ⟨g, []⟩ := by
  intro leaf t
  have hbears := Forest.bears_ofTree t
  have hnodup := Tree.nodup_shapeFrom t 0
  have hlength : ∀ id ∈ (t.shapeFrom 0).nodes,
      (Selector.child (ofKind .dot) (named "length")).times (Forest.ofTree t) id = 0 := by decide
  have hformat : ∀ id ∈ (t.shapeFrom 0).nodes,
      (Selector.child (ofKind .dot) (.adjacent (named "String") (named "format"))).times
        (Forest.ofTree t) id = 0 := by decide
  have hplain : (Forest.ofTree t).Plain (t.shapeFrom 0) :=
    ⟨hbears, ⟨_, rfl, rfl⟩,
      fun id hid h => (Selector.times_ne_zero_iff hbears hnodup _ hid).2 h (hlength id hid),
      fun id hid h => (Selector.times_ne_zero_iff hbears hnodup _ hid).2 h (hformat id hid)⟩
  have htexts : ∀ id ∈ (t.shapeFrom 0).nodes, ((Forest.ofTree t).get? id).all (fun e =>
      (e.head.kind != .decimalLiteral || e.head.text == "10L") &&
        (e.head.kind != .floatingPointLiteral || e.head.text == ".5f")) := by decide
  have hdigit : ∀ c ∈ "0123456789".toList, IsDigit c := by unfold IsDigit; decide
  have hwhole : WholeLiteral "10L".toList :=
    ⟨['1', '0'], ['L'], rfl, ⟨by simp, fun c hc => hdigit c (by revert c; decide)⟩, by simp,
      .inr (.inr rfl)⟩
  have hfloat : FloatLiteral ('.' :: (['5'] ++ ([] ++ ['f']))) :=
    .pointFirst ⟨by simp, fun c hc => hdigit c (by revert c; decide)⟩ (.inl rfl)
      (.inr ⟨'f', rfl, by decide⟩)
  obtain ⟨g, hrun, -, -, -, hagain⟩ := revise_standard_settles (Forest.ofTree t) (t.shapeFrom 0) []
    hplain hnodup rfl
    (fun id hid e he hkind => by
      have := htexts id hid
      simp only [he, hkind, Option.all_some, bne_self_eq_false, Bool.false_or, Bool.and_eq_true,
        beq_iff_eq] at this
      rw [this.1]
      exact hwhole)
    (fun id hid e he hkind => by
      have := htexts id hid
      simp only [he, hkind, Option.all_some, bne_self_eq_false, Bool.false_or, Bool.and_eq_true,
        beq_iff_eq] at this
      rw [this.2]
      exact hfloat)
  exact ⟨hplain, hwhole, hfloat, g, hrun, hagain⟩

end Transcriber
