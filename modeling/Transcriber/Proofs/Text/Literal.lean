import Transcriber.Proofs.Text.Fields

/-!
# Braces in format texts

A brace is a plain character of a format text, but in a template it has to be written twice.  Converting a
format text copies plain text as it stands, so the result shows that text only if there are no braces in it.

* `marksOf` — the characters and fields that a template shows when it is filled.
* `rendered` — the characters and fields that a template is to show, as a template has them.
* `convert_shows_iff` — the plain text of a format text is shown just if it has no braces.
-/

namespace Transcriber.Source

open List Text

/-- The characters and fields that a piece of a template shows. -/
def shown : Piece → List (Char ⊕ Field)
  | .literal text => text.map .inl
  | .field f => [.inr f]

/-- The characters and fields that a template shows, if it can be read to its end. -/
def marksOf (template : String) : Option (List (Char ⊕ Field)) :=
  let (pieces, complete) := Template.pieces template
  if complete then some (pieces.flatMap shown) else none

def rendered : Char ⊕ Field → List Char
  | .inl c => if Template.isBrace c then [c, c] else [c]
  | .inr f => '\x7b' :: (f.name ++ ':' :: (f.spec ++ ['\x7d']))

/-! ## Braces that are read -/

/-- How many braces a template has for a character or field. -/
def braces : Char ⊕ Field → Nat
  | .inl c => if Template.isBrace c then 2 else 0
  | .inr f => f.name.countP Template.isBrace + f.conversion.toList.countP Template.isBrace
      + f.spec.countP Template.isBrace + 2

/-- How many braces it has for all of them. -/
def bracesOf : List (Char ⊕ Field) → Nat
  | [] => 0
  | mark :: marks => braces mark + bracesOf marks

@[simp]
theorem bracesOf_append (marks more : List (Char ⊕ Field)) :
    bracesOf (marks ++ more) = bracesOf marks + bracesOf more := by
  induction marks with
  | nil => exact (Nat.zero_add _).symm
  | cons mark marks ih => rw [cons_append, bracesOf, ih, bracesOf, Nat.add_assoc]

theorem length_rendered_pos (mark : Char ⊕ Field) : 0 < (rendered mark).length := by
  cases mark with
  | inl c =>
    rw [rendered]
    split <;> exact Nat.succ_pos _
  | inr f => exact Nat.succ_pos _

theorem countP_readName {inBrackets : Bool} {cs name rest : List Char} {stop : Char}
    (h : Template.readName inBrackets cs = some (name, stop, rest)) :
    stop ∈ ['\x7d', ':', '!'] ∧ cs.countP Template.isBrace
      = name.countP Template.isBrace + [stop].countP Template.isBrace + rest.countP Template.isBrace := by
  induction cs generalizing inBrackets name with
  | nil => cases h
  | cons c cs ih =>
    have hmore {more : Bool} (h : (Template.readName more cs).map
        (fun found => (c :: found.1, found.2)) = some (name, stop, rest)) :
        stop ∈ ['\x7d', ':', '!'] ∧ (c :: cs).countP Template.isBrace
          = name.countP Template.isBrace + [stop].countP Template.isBrace + rest.countP Template.isBrace := by
      obtain ⟨⟨name, stop, rest⟩, hread, heq⟩ := Option.map_eq_some_iff.1 h
      dsimp only at heq
      cases heq
      obtain ⟨hstop, hcount⟩ := ih hread
      refine ⟨hstop, ?_⟩
      rw [countP_cons, countP_cons, hcount]
      omega
    rw [Template.readName] at h
    split at h
    · exact hmore h
    · split at h
      · cases h
      · split at h
        case isTrue hstop =>
          cases h
          refine ⟨by simpa [or_assoc] using hstop, ?_⟩
          rw [← singleton_append, countP_append, countP_nil, Nat.zero_add]
        case isFalse => exact hmore h

theorem countP_readSpec {opened : Nat} {cs spec rest : List Char}
    (h : Template.readSpec opened cs = some (spec, rest)) :
    cs.countP Template.isBrace = spec.countP Template.isBrace + rest.countP Template.isBrace + 1 := by
  induction cs generalizing opened spec with
  | nil => cases h
  | cons c cs ih =>
    rw [Template.readSpec] at h
    split at h
    case isTrue hstop =>
      cases h
      obtain rfl : c = '\x7d' := by simpa using (Bool.and_eq_true_iff.1 hstop).1
      simp [Template.isBrace]
    case isFalse =>
      obtain ⟨⟨spec, rest⟩, hread, heq⟩ := Option.map_eq_some_iff.1 h
      cases heq
      rw [countP_cons, countP_cons, ih hread]
      omega

/-- A field is read with the brace that ends it. -/
theorem countP_readField {cs rest : List Char} {f : Field} (h : Template.readField cs = some (f, rest)) :
    cs.countP Template.isBrace + 1 = braces (.inr f) + rest.countP Template.isBrace := by
  unfold Template.readField at h
  split at h
  · cases h
  · rename_i name stop behind hname
    obtain ⟨hstop, hcount⟩ := countP_readName hname
    simp only [mem_cons, not_mem_nil, or_false] at hstop
    rcases hstop with rfl | rfl | rfl
    · cases h
      simp [hcount, braces, Template.isBrace]
      omega
    · obtain ⟨⟨spec, rest⟩, hread, heq⟩ := Option.map_eq_some_iff.1 h
      cases heq
      simp [hcount, countP_readSpec hread, braces, Template.isBrace]
      omega
    · rw [if_neg (by decide), if_neg (by decide)] at h
      · split at h
        · cases h
        · cases h
          simp [hcount, braces, Template.isBrace, countP_cons]
          omega
        · obtain ⟨⟨spec, rest⟩, hread, heq⟩ := Option.map_eq_some_iff.1 h
          cases heq
          simp [hcount, countP_cons, countP_readSpec hread, braces, Template.isBrace]
          omega
        · cases h

theorem bracesOf_text {text : List Char} (h : ∀ c ∈ text, Template.isBrace c = false) :
    bracesOf (text.map .inl) = 0 := by
  induction text with
  | nil => rfl
  | cons c text ih => simpa [bracesOf, braces, h c (.head _)] using ih fun d hd => h d (.tail _ hd)

theorem countP_piecesUpTo {fuel : Nat} {cs : List Char} {pieces : List Piece}
    (h : Template.piecesUpTo fuel cs = (pieces, true)) :
    cs.countP Template.isBrace = bracesOf (pieces.flatMap shown) := by
  induction fuel generalizing cs pieces with
  | zero =>
    obtain ⟨rfl, hempty⟩ := Prod.mk.inj h
    rw [isEmpty_iff.1 hempty]
    rfl
  | succ fuel ih =>
    have hplain : ∀ c ∈ cs.takeWhile fun c => !Template.isBrace c, Template.isBrace c = false := fun c hc => by
      simpa using mem_takeWhile_imp hc
    rw [Template.piecesUpTo] at h
    rw [← takeWhile_append_dropWhile (p := fun c => !Template.isBrace c) (l := cs), countP_append,
      countP_eq_zero.2 fun c hc => by simp [hplain c hc], Nat.zero_add]
    generalize cs.takeWhile _ = text at h hplain
    have hbrace : ∀ c ∈ (cs.dropWhile fun c => !Template.isBrace c).head?, Template.isBrace c = true := by
      intro c hc
      have hfirst := head?_dropWhile_not (fun c => !Template.isBrace c) cs
      rw [hc] at hfirst
      simpa using hfirst
    generalize cs.dropWhile _ = behind at h hbrace ⊢
    rcases behind with _ | ⟨brace, _ | ⟨next, rest⟩⟩
    · obtain ⟨rfl, -⟩ := Prod.mk.inj h
      split <;> simp [shown, bracesOf, bracesOf_text hplain]
    · cases h
    · have hfirst := hbrace brace rfl
      dsimp only at h
      split at h
      case isTrue hdoubled =>
        obtain rfl : next = brace := by simpa using hdoubled
        generalize hread : Template.piecesUpTo fuel rest = result at h
        obtain ⟨more, complete⟩ := result
        cases h
        simp [ih hread, shown, bracesOf, bracesOf_text hplain, braces, hfirst]
        omega
      case isFalse =>
        split at h
        · cases h
        · split at h
          · cases h
          · rename_i f tail hfield
            generalize hread : Template.piecesUpTo fuel tail = result at h
            obtain ⟨more, complete⟩ := result
            cases h
            have hcount := countP_readField hfield
            rw [countP_cons, if_pos hfirst, hcount, ih hread]
            split <;> simp [shown, bracesOf, bracesOf_text hplain]

theorem countP_of_marksOf {template : List Char} {marks : List (Char ⊕ Field)}
    (h : marksOf (.ofList template) = some marks) : template.countP Template.isBrace = bracesOf marks := by
  unfold marksOf at h
  generalize hread : Template.pieces (.ofList template) = result at h
  obtain ⟨pieces, complete⟩ := result
  dsimp only at h
  split at h
  case isTrue hcomplete =>
    cases h
    rw [Template.pieces, String.toList_ofList, hcomplete] at hread
    exact countP_piecesUpTo hread
  case isFalse => cases h

/-! ## Templates that are written to be read -/

theorem piecesUpTo_doubled {brace : Char} (h : Template.isBrace brace = true) {before : List Char}
    (hbefore : ∀ c ∈ before, (!Template.isBrace c) = true) (rest : List Char) (fuel : Nat) :
    Template.piecesUpTo (fuel + 1) (before ++ brace :: brace :: rest)
      = (.literal (before ++ [brace]) :: (Template.piecesUpTo fuel rest).1, (Template.piecesUpTo fuel rest).2) := by
  have hstarts : Starts ['\x7b', '\x7d'] (brace :: brace :: rest) := fun c hc => by
    cases hc
    simpa [Template.isBrace] using h
  rw [Template.piecesUpTo, takeWhile_append_starts hbefore hstarts (by decide),
    dropWhile_append_starts hbefore hstarts (by decide)]
  dsimp only
  rw [if_pos (beq_self_eq_true _)]

/-- What is rendered is read as what it was rendered from, behind text without braces. -/
theorem piecesUpTo_rendered {marks : List (Char ⊕ Field)}
    (h : ∀ f, .inr f ∈ marks → ∃ s : Specifier, s.Proper ∧ f = s.slot) (before : List Char)
    (hbefore : ∀ c ∈ before, (!Template.isBrace c) = true) {fuel : Nat}
    (hfuel : (marks.flatMap rendered).length < fuel) :
    (Template.piecesUpTo fuel (before ++ marks.flatMap rendered)).2 = true
      ∧ (Template.piecesUpTo fuel (before ++ marks.flatMap rendered)).1.flatMap shown
        = before.map .inl ++ marks := by
  induction marks generalizing before fuel with
  | nil =>
    obtain ⟨n, rfl⟩ := Nat.exists_eq_add_of_lt hfuel
    rw [flatMap_nil, append_nil, Template.piecesUpTo, takeWhile_eq_self_iff.2 hbefore,
      dropWhile_eq_nil_iff.2 hbefore]
    refine ⟨rfl, ?_⟩
    cases before <;> simp [shown]
  | cons mark marks ih =>
    have hrest := fun f hf => h f (.tail _ hf)
    have hlong := length_rendered_pos mark
    rw [flatMap_cons, length_append] at hfuel
    cases mark with
    | inl c =>
      cases hbrace : Template.isBrace c with
      | false =>
        have hmore := ih hrest (before ++ [c]) (fun d hd => ?_) (by omega : _ < fuel)
        · simpa [rendered, hbrace] using hmore
        · rcases mem_append.1 hd with hd | hd
          · exact hbefore d hd
          · rw [mem_singleton.1 hd, hbrace]
            rfl
      | true =>
        obtain ⟨n, rfl⟩ : ∃ n, fuel = n + 1 := ⟨fuel - 1, by omega⟩
        have hwritten : rendered (.inl c) ++ marks.flatMap rendered = c :: c :: marks.flatMap rendered := by
          simp [rendered, hbrace]
        obtain ⟨hcomplete, hshown⟩ := ih hrest [] (forall_mem_nil _)
          (by omega : _ < n)
        rw [flatMap_cons, hwritten, piecesUpTo_doubled hbrace hbefore]
        refine ⟨hcomplete, ?_⟩
        rw [nil_append] at hshown
        simp [shown, hshown]
    | inr f =>
      obtain ⟨s, hs, rfl⟩ := h f (.head _)
      obtain ⟨n, rfl⟩ : ∃ n, fuel = n + 1 := ⟨fuel - 1, by omega⟩
      have hwritten : rendered (.inr s.slot) ++ marks.flatMap rendered
          = '\x7b' :: (s.position ++ ':' :: (s.spec ++ '\x7d' :: marks.flatMap rendered)) := by
        simp [rendered, Specifier.slot]
      obtain ⟨hcomplete, hshown⟩ := ih hrest [] (forall_mem_nil _)
        (by omega : _ < n)
      rw [flatMap_cons, hwritten, piecesUpTo_slot hs hbefore]
      refine ⟨hcomplete, ?_⟩
      rw [nil_append] at hshown
      cases before <;> simp [shown, hshown]

theorem marksOf_rendered {marks : List (Char ⊕ Field)}
    (h : ∀ f, .inr f ∈ marks → ∃ s : Specifier, s.Proper ∧ f = s.slot) :
    marksOf (.ofList (marks.flatMap rendered)) = some marks := by
  obtain ⟨hcomplete, hshown⟩ := piecesUpTo_rendered h [] (forall_mem_nil _) (Nat.lt_succ_self _)
  rw [nil_append] at hcomplete hshown
  rw [marksOf, Template.pieces, String.toList_ofList]
  dsimp only
  rw [hcomplete, hshown]
  rfl

namespace Segment

def marks : Segment → List (Char ⊕ Field)
  | plain text => text.map .inl
  | specifier s => if s.conversion = 'n' then [.inl '\\', .inl 'n'] else [.inr s.slot]

def plainText : Segment → List Char
  | plain text => text
  | specifier _ => []

theorem rendered_specifier (s : Specifier) : (specifier s).marks.flatMap rendered = s.replaced := by
  rw [marks, Specifier.replaced]
  split <;> simp [rendered, Specifier.slot, Template.isBrace]

/-- What a segment should become has each of its braces once more than what it does become. -/
theorem braces_rendered (g : Segment) : (g.marks.flatMap rendered).countP Template.isBrace
    = g.converted.countP Template.isBrace + g.plainText.countP Template.isBrace := by
  cases g with
  | specifier s => rw [rendered_specifier, converted, plainText, countP_nil, Nat.add_zero]
  | plain text =>
    rw [marks, converted, plainText]
    induction text with
    | nil => rfl
    | cons c text ih =>
      rw [map_cons, flatMap_cons, countP_append, ih, countP_cons, rendered]
      split <;> simp [*]
      omega

theorem Proper.rendered_eq {g : Segment} (h : g.Proper) : g.marks.flatMap rendered = g.converted := by
  cases g with
  | specifier s => exact rendered_specifier s
  | plain text =>
    have hsingle : ∀ c ∈ text, rendered (.inl c) = [c] := fun c hc => if_neg (by simp [(h c hc).2])
    rw [marks, converted, flatMap_map]
    exact (congrArg flatten (map_congr_left hsingle)).trans (flatMap_singleton' text)

end Segment

theorem exists_slot {segments : List Segment} (h : ∀ g ∈ segments, g.Legible) (f : Field)
    (hf : .inr f ∈ segments.flatMap Segment.marks) : ∃ s : Specifier, s.Proper ∧ f = s.slot := by
  obtain ⟨g, hg, hmark⟩ := mem_flatMap.1 hf
  cases g with
  | plain text => simp [Segment.marks] at hmark
  | specifier s =>
    rw [Segment.marks] at hmark
    split at hmark
    · simp at hmark
    · exact ⟨s, h _ hg, by simpa using hmark⟩

/-- A template with the braces of what it should become is made from plain text without braces. -/
theorem isBrace_of_countP {segments : List Segment}
    (h : ((segments.flatMap Segment.marks).flatMap rendered).countP Template.isBrace
      = (segments.flatMap Segment.converted).countP Template.isBrace) :
    ∀ c ∈ segments.flatMap Segment.plainText, Template.isBrace c = false := by
  have hbraces : ((segments.flatMap Segment.marks).flatMap rendered).countP Template.isBrace
      = (segments.flatMap Segment.converted).countP Template.isBrace
        + (segments.flatMap Segment.plainText).countP Template.isBrace := by
    clear h
    induction segments with
    | nil => rfl
    | cons g segments ih =>
      simp only [flatMap_cons, flatMap_append, countP_append, g.braces_rendered, ih]
      omega
  have hnone := countP_eq_zero.1 (Nat.left_eq_add.1 (h.symm.trans hbraces))
  exact fun c hc => Bool.eq_false_iff.2 (hnone c hc)

/-- A format text without plain percent signs is converted segment by segment, plain text as it stands.  The result is
the template that shows the plain text, with one field for each specifier, if and only if the plain text
has no braces; and only then does it show just that. -/
theorem convert_shows_iff {segments : List Segment} (h : ∀ g ∈ segments, g.Legible) :
    FormatText.convert (.ofList (segments.flatMap Segment.written)) = .ofList (segments.flatMap Segment.converted)
      ∧ (FormatText.convert (.ofList (segments.flatMap Segment.written))
          = .ofList ((segments.flatMap Segment.marks).flatMap rendered)
        ↔ ∀ c ∈ segments.flatMap Segment.plainText, Template.isBrace c = false)
      ∧ marksOf (.ofList ((segments.flatMap Segment.marks).flatMap rendered)) = some (segments.flatMap Segment.marks)
      ∧ (marksOf (FormatText.convert (.ofList (segments.flatMap Segment.written)))
          = some (segments.flatMap Segment.marks)
        ↔ ∀ c ∈ segments.flatMap Segment.plainText, Template.isBrace c = false) := by
  have hconvert : FormatText.convert (.ofList (segments.flatMap Segment.written))
      = .ofList (segments.flatMap Segment.converted) := by
    rw [FormatText.convert, String.length_ofList, String.toList_ofList, convertUpTo_written h (Nat.le_refl _)]
  have hrendered : marksOf (.ofList ((segments.flatMap Segment.marks).flatMap rendered))
      = some (segments.flatMap Segment.marks) := marksOf_rendered (exists_slot h)
  have hplain (hnone : ∀ c ∈ segments.flatMap Segment.plainText, Template.isBrace c = false) :
      String.ofList (segments.flatMap Segment.converted)
        = .ofList ((segments.flatMap Segment.marks).flatMap rendered) := by
    rw [flatMap_assoc]
    refine congrArg String.ofList (congrArg flatten (map_congr_left fun g hg => ?_))
    refine (Segment.Proper.rendered_eq ?_).symm
    cases g with
    | specifier s => exact h _ hg
    | plain text => exact fun c hc => ⟨h _ hg c hc, hnone c (mem_flatMap.2 ⟨_, hg, hc⟩)⟩
  rw [hconvert]
  -- In both cases the braces of the template are counted: none is missing.
  refine ⟨rfl, ⟨fun heq => isBrace_of_countP ?_, hplain⟩, hrendered, ⟨fun hshown => isBrace_of_countP ?_, ?_⟩⟩
  · rw [String.ofList_injective heq]
  · rw [countP_of_marksOf hshown, countP_of_marksOf hrendered]
  · exact fun hnone => hplain hnone ▸ hrendered

/-- The text `\x7b%d\x7d` becomes a template without a field. -/
theorem convert_shows_iff_braced :
    let segments : List Segment := [.plain ['\x7b'], .specifier ⟨none, [], [], [], 'd'⟩, .plain ['\x7d']]
    (∀ g ∈ segments, g.Legible) ∧ FormatText.convert "\x7b%d\x7d" = "\x7b\x7b:d\x7d\x7d"
      ∧ FormatText.convert "\x7b%d\x7d" ≠ .ofList ((segments.flatMap Segment.marks).flatMap rendered)
      ∧ marksOf (FormatText.convert "\x7b%d\x7d") ≠ some (segments.flatMap Segment.marks) := by
  intro segments
  have hlegible : ∀ g ∈ segments, g.Legible := by
    simp only [segments, forall_mem_cons, Segment.Legible]
    exact ⟨by decide, ⟨nofun, by decide, by decide, by decide, .inl rfl, by decide⟩, by decide, forall_mem_nil _⟩
  obtain ⟨hconvert, hrendered, -, hshows⟩ := convert_shows_iff hlegible
  exact ⟨hlegible, hconvert, fun heq => absurd (hrendered.1 heq '\x7b' (.head _)) (by decide),
    fun heq => absurd (hshows.1 heq '\x7b' (.head _)) (by decide)⟩

/-- A percent sign that is written twice stays twice, or becomes a field with what follows it. -/
theorem percent_signs_stay : FormatText.convert "%d%%" = "\x7b:d\x7d%%" ∧ FormatText.convert "%%d" = "%\x7b:d\x7d" := by
  decide +kernel

end Transcriber.Source
