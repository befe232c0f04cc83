import Mathlib.Data.List.TakeWhile
import Transcriber.Source.FormatText
import Transcriber.Text.Spec
import Transcriber.Text.Template

/-!
# Format texts as templates

A format text is plain text with specifiers in it.  Each specifier can be read in one way only, and what
stands for it is a field of a template: the template has the same plain text, and its fields have the
parts of the specifiers, one for each.

* `convertUpTo_written`, `piecesUpTo_converted` — segments are converted one by one, into known pieces.
* `convert_keeps_segments` — the whole, with the arguments that the fields stand for.
-/

namespace Transcriber.Source

open List Text

/-! ## Format texts in segments -/

def decimals : List Char := "0123456789".toList

/-- The letters of conversions. -/
def letters : List Char := "scdoxefgn".toList

/-- The parts of a specifier are in order.  A width does not begin with a zero, which would be a flag. -/
structure Specifier.Proper (s : Specifier) : Prop where
  index : ∀ digits ∈ s.index, (∀ c ∈ digits, c ∈ decimals) ∧ 1 ≤ numberOf digits
  flags : ∀ c ∈ s.flags, c ∈ "-+# 0,".toList
  width : ∀ c ∈ s.width, c ∈ decimals
  unpadded : s.width.head? ≠ some '0'
  precision : s.precision = []
    ∨ ∃ c digits, s.precision = '.' :: c :: digits ∧ ∀ d ∈ c :: digits, d ∈ decimals
  conversion : s.conversion ∈ letters

/-- A specifier as it is written behind its percent sign. -/
def Specifier.written (s : Specifier) : List Char :=
  (s.index.map (· ++ ['$'])).getD [] ++ (s.flags ++ (s.width ++ (s.precision ++ [s.conversion])))

/-- A piece of a format text. -/
inductive Segment where
  | plain (text : List Char)
  | specifier (s : Specifier)

namespace Segment

/-- Plain text has neither percent signs nor braces. -/
def Proper : Segment → Prop
  | plain text => ∀ c ∈ text, c ≠ '%' ∧ Template.isBrace c = false
  | specifier s => s.Proper

/-- Plain text without percent signs, or a specifier whose parts are in order. -/
def Legible : Segment → Prop
  | plain text => ∀ c ∈ text, c ≠ '%'
  | specifier s => s.Proper

theorem Proper.legible {g : Segment} (h : g.Proper) : g.Legible := by
  cases g with
  | plain text => exact fun c hc => (h c hc).1
  | specifier s => exact h

/-- A segment as it is written. -/
def written : Segment → List Char
  | plain text => text
  | specifier s => '%' :: s.written

end Segment

/-! ## Texts that begin with known characters -/

/-- A text begins with one of some characters, if with any. -/
def Starts (chars cs : List Char) : Prop := ∀ c ∈ cs.head?, c ∈ chars

section

variable {p : Char → Bool} {chars xs ys : List Char}

theorem Starts.append {more : List Char} (hx : Starts more xs) (hy : Starts chars ys) :
    Starts (more ++ chars) (xs ++ ys) := by
  cases xs with
  | nil => exact fun c hc => mem_append_right _ (hy c hc)
  | cons x xs => exact fun c hc => mem_append_left _ (hx c hc)

theorem Starts.optional (h : Starts chars ys) (c : Char) (b : Prop) [Decidable b] :
    Starts (c :: chars) ((if b then some c else none).toList ++ ys) := by
  split
  · exact fun d hd => by cases hd; exact .head _
  · exact fun d hd => .tail _ (h d hd)

theorem takeWhile_append_starts (hx : ∀ c ∈ xs, p c = true) (hy : Starts chars ys)
    (hp : ∀ c ∈ chars, p c = false) : (xs ++ ys).takeWhile p = xs := by
  rw [takeWhile_append_of_pos hx]
  cases ys with
  | nil => simp
  | cons y ys => simp [hp y (hy y rfl)]

theorem dropWhile_append_starts (hx : ∀ c ∈ xs, p c = true) (hy : Starts chars ys)
    (hp : ∀ c ∈ chars, p c = false) : (xs ++ ys).dropWhile p = ys := by
  rw [dropWhile_append_of_pos hx]
  cases ys with
  | nil => rfl
  | cons y ys => exact dropWhile_cons_of_neg (by simp [hp y (hy y rfl)])

end

namespace Specifier

variable {s : Specifier}

theorem Proper.starts_precision (h : s.Proper) (rest : List Char) :
    Starts ('.' :: letters) (s.precision ++ s.conversion :: rest) := by
  obtain hnone | ⟨c, digits, hsome, -⟩ := h.precision
  · rw [hnone]
    exact fun c hc => by cases hc; exact .tail _ h.conversion
  · rw [hsome]
    exact fun c hc => by cases hc; exact .head _

/-- Of the digits only the zero is a flag. -/
theorem Proper.starts_width (h : s.Proper) : Starts "123456789".toList s.width := by
  intro c hc
  refine (by decide : ∀ c ∈ decimals, c ≠ '0' → c ∈ "123456789".toList) c (h.width c (mem_of_mem_head? hc)) ?_
  rintro rfl
  exact h.unpadded hc

/-! ## Reading specifiers -/

/-- Without digits and a dollar sign there is no index. -/
theorem readIndex_of_not_mem {xs : List Char} {stop : Char} (hxs : '$' ∉ xs)
    (hstop : isDigit stop = false ∧ stop ≠ '$') (rest : List Char) :
    readIndex (xs ++ stop :: rest) = (none, xs ++ stop :: rest) := by
  have hdrop : ∀ cs : List Char, cs.drop (cs.takeWhile isDigit).length = cs.dropWhile isDigit := by
    intro cs
    have hsplit : (cs.takeWhile isDigit ++ cs.dropWhile isDigit).drop (cs.takeWhile isDigit).length
        = cs.dropWhile isDigit := drop_left
    rwa [takeWhile_append_dropWhile] at hsplit
  have hhead : ∀ tail, (xs ++ stop :: rest).dropWhile isDigit ≠ '$' :: tail := by
    intro tail heq
    induction xs with
    | nil =>
      rw [nil_append, dropWhile_cons_of_neg (by simp [hstop.1])] at heq
      exact hstop.2 (cons.inj heq).1
    | cons x xs ih =>
      rw [mem_cons, not_or] at hxs
      rw [cons_append, dropWhile_cons] at heq
      split at heq
      · exact ih hxs.2 heq
      · exact hxs.1 (cons.inj heq).1.symm
  unfold readIndex
  dsimp only
  rw [hdrop]
  split
  · exact absurd ‹_› (hhead _)
  · rfl

theorem readIndex_written (h : s.Proper) (rest : List Char) : readIndex (s.written ++ rest)
      = (s.index, s.flags ++ (s.width ++ (s.precision ++ s.conversion :: rest))) := by
  unfold written
  cases hindex : s.index with
  | some digits =>
    obtain ⟨hdigits, hone⟩ := h.index digits hindex
    have htake : ∀ tail, (digits ++ '$' :: tail).takeWhile isDigit = digits := fun tail =>
      takeWhile_append_starts (fun c hc => (by decide : ∀ c ∈ decimals, isDigit c = true) c (hdigits c hc))
        (show Starts ['$'] _ from fun c hc => by cases hc; exact .head _) (by decide)
    unfold readIndex
    simp only [Option.map_some, Option.getD_some, append_assoc, cons_append, nil_append, htake, drop_left]
    cases digits with
    | nil => exact absurd hone (by decide)
    | cons d digits => rfl
  | none =>
    have hfree : '$' ∉ s.flags ++ (s.width ++ s.precision) := by
      simp only [mem_append, not_or]
      refine ⟨fun hc => absurd (h.flags _ hc) (by decide), fun hc => absurd (h.width _ hc) (by decide), ?_⟩
      obtain hnone | ⟨c, digits, hsome, hdigits⟩ := h.precision
      · rw [hnone]
        exact not_mem_nil
      · rw [hsome, mem_cons, not_or]
        exact ⟨by decide, fun hc => absurd (hdigits _ hc) (by decide)⟩
    have hstop : ∀ c ∈ letters, isDigit c = false ∧ c ≠ '$' := by decide
    have hread := readIndex_of_not_mem hfree (hstop _ h.conversion) rest
    simpa only [Option.map_none, Option.getD_none, nil_append, append_assoc, singleton_append] using hread

theorem readPrecision_written (h : s.Proper) (rest : List Char) :
    readPrecision (s.precision ++ s.conversion :: rest) = (s.precision, s.conversion :: rest) := by
  have hpoint : ∀ c ∈ letters, c ≠ '.' := by decide
  obtain hnone | ⟨c, digits, hsome, hdigits⟩ := h.precision
  · rw [hnone, nil_append, readPrecision]
    exact fun _ heq => hpoint _ h.conversion (cons.inj heq).1
  · have htake : (c :: digits ++ s.conversion :: rest).takeWhile Char.isDigit = c :: digits :=
      takeWhile_append_starts (fun d hd => (by decide : ∀ d ∈ decimals, d.isDigit = true) d (hdigits d hd))
        (show Starts letters _ from fun d hd => by cases hd; exact h.conversion) (by decide)
    rw [hsome, cons_append, readPrecision, htake]
    simp

theorem read_written (h : s.Proper) (rest : List Char) : read? (s.written ++ rest) = some (s, rest) := by
  have hwidth : (s.width ++ (s.precision ++ s.conversion :: rest)).takeWhile Char.isDigit = s.width :=
    takeWhile_append_starts (fun c hc => (by decide : ∀ c ∈ decimals, c.isDigit = true) c (h.width c hc))
      (h.starts_precision rest) (by decide)
  have hflags : (s.flags ++ (s.width ++ (s.precision ++ s.conversion :: rest))).takeWhile isFlag = s.flags :=
    takeWhile_append_starts (fun c hc => by simpa [isFlag] using h.flags c hc)
      (h.starts_width.append (h.starts_precision rest)) (by decide)
  have hconversion : ∀ c ∈ letters, isConversion c = true := by decide
  unfold read?
  simp only [readIndex_written h, hflags, drop_left, hwidth, readPrecision_written h,
    hconversion _ h.conversion, if_true]

/-! ## The fields of specifiers -/

/-- The name of the field of a specifier: the position of its argument, counted from 0. -/
def position (s : Specifier) : List Char :=
  (s.index.map fun digits => Nat.toDigits 10 (numberOf digits - 1)).getD []

def spec (s : Specifier) : List Char :=
  (if '+' ∈ s.flags then some '+' else if ' ' ∈ s.flags then some ' ' else none).toList
    ++ ((if '#' ∈ s.flags then some '#' else none).toList
    ++ ((if '0' ∈ s.flags then some '0' else none).toList ++ (s.width
    ++ ((if ',' ∈ s.flags then some ',' else none).toList ++ (s.precision ++ [s.conversion])))))

/-- The parts of the specifier that its field is to have. -/
def parts (s : Specifier) : Spec.Parts where
  sign := if '+' ∈ s.flags then some '+' else if ' ' ∈ s.flags then some ' ' else none
  alternate := '#' ∈ s.flags
  zero := '0' ∈ s.flags
  width := s.width
  group := if ',' ∈ s.flags then some ',' else none
  places := if s.precision = [] then none else some s.precision.tail
  kind := some s.conversion

/-- What stands for a specifier: the written form of a line end, or a field. -/
def replaced (s : Specifier) : List Char :=
  if s.conversion = 'n' then ['\\', 'n'] else '\x7b' :: (s.position ++ ':' :: (s.spec ++ ['\x7d']))

theorem field_eq (h : s.Proper) : s.field = s.replaced := by
  have hposition : ∀ digits ∈ s.index, (toString ((numberOf digits : Int) - 1)).toList
      = Nat.toDigits 10 (numberOf digits - 1) := by
    intro digits hdigits
    have hone := (h.index digits hdigits).2
    rw [← Nat.toList_repr, show (numberOf digits : Int) - 1 = (numberOf digits - 1 : Nat) by omega]
    rfl
  unfold field replaced flagPart spec position
  simp only [beq_iff_eq, contains_iff_mem, apply_ite Option.toList, Option.toList_some, Option.toList_none]
  refine if_congr Iff.rfl rfl ?_
  cases hindex : s.index with
  | none => simp
  | some digits =>
    dsimp only
    rw [hposition digits hindex]
    simp

theorem optional_append {p : Char → Bool} {o : Option Char} {chars rest : List Char}
    (ho : ∀ c ∈ o, p c = true) (hrest : Starts chars rest) (hp : ∀ c ∈ chars, p c = false) :
    Spec.optional p (o.toList ++ rest) = (o, rest) := by
  cases o with
  | some c => simp [Spec.optional, ho c rfl]
  | none =>
    cases rest with
    | nil => rfl
    | cons d rest => simp [Spec.optional, hp d (hrest d rfl)]

theorem number_append {xs chars rest : List Char} (hxs : ∀ c ∈ xs, c ∈ decimals)
    (hrest : Starts chars rest) (hchars : ∀ c ∈ chars, isDigit c = false) :
    Spec.number (xs ++ rest) = (xs, rest) := by
  have hdigit : ∀ c ∈ xs, isDigit c = true := fun c hc =>
    (by decide : ∀ c ∈ decimals, isDigit c = true) c (hxs c hc)
  rw [Spec.number, takeWhile_append_starts hdigit hrest hchars, dropWhile_append_starts hdigit hrest hchars]

theorem spec_subset (h : s.Proper) : s.spec ⊆ "+ #0123456789,.scdoxefgn".toList := by
  have hdigit : decimals ⊆ "+ #0123456789,.scdoxefgn".toList := by decide
  have hletter : letters ⊆ "+ #0123456789,.scdoxefgn".toList := by decide
  simp only [spec, append_subset]
  refine ⟨?_, ?_, ?_, fun c hc => hdigit (h.width c hc), ?_, ?_, ?_⟩
  · split
    · decide
    · split <;> decide
  · split <;> decide
  · split <;> decide
  · split <;> decide
  · obtain hnone | ⟨c, digits, hsome, hdigits⟩ := h.precision
    · simp [hnone]
    · rw [hsome]
      exact cons_subset.2 ⟨by decide, fun d hd => hdigit (hdigits d hd)⟩
  · simpa using hletter h.conversion

theorem alignment_eq {cs : List Char} (h : ∀ c ∈ cs, Spec.isAlign c = false) :
    Spec.alignment cs = (none, none, cs) := by
  match cs with
  | [] => rfl
  | [a] => simp [Spec.alignment, h a (.head _)]
  | a :: b :: rest => simp [Spec.alignment, h a (.head _), h b (.tail _ (.head _))]

theorem parts_spec (h : s.Proper) : Spec.parts? s.spec = some s.parts := by
  have halign : Spec.alignment s.spec = (none, none, s.spec) := alignment_eq fun c hc =>
    (by decide : ∀ c ∈ "+ #0123456789,.scdoxefgn".toList, Spec.isAlign c = false) c (spec_subset h hc)
  -- Each part ends where the next one begins, as the parts begin with different characters.
  have hplaces := h.starts_precision []
  have hcomma := hplaces.optional ',' (',' ∈ s.flags)
  have hwidth := h.starts_width.append hcomma
  have hzero := hwidth.optional '0' ('0' ∈ s.flags)
  have hmark := hzero.optional '#' ('#' ∈ s.flags)
  have hsign := optional_append (p := fun c => c == ' ' || c == '+' || c == '-') (o := s.parts.sign)
    (by grind [parts]) hmark (by decide)
  have hdropped := optional_append (p := (· == 'z')) (o := none) nofun hmark (by decide)
  have halternate := optional_append (p := (· == '#'))
    (o := if '#' ∈ s.flags then some '#' else none) (by grind) hzero (by decide)
  have hzeroed := optional_append (p := (· == '0'))
    (o := if '0' ∈ s.flags then some '0' else none) (by grind) hwidth (by decide)
  have hnumber := number_append h.width hcomma (by decide)
  have hgroup := optional_append (p := fun c => c == ',' || c == '_')
    (o := if ',' ∈ s.flags then some ',' else none) (by grind) hplaces (by decide)
  have hagain := optional_append (o := none)
    (p := fun c => (if ',' ∈ s.flags then some ',' else none).isSome && (c == ',' || c == '_')) nofun hplaces
    fun c hc => by
      rw [(by decide : ∀ c ∈ '.' :: letters, (c == ',' || c == '_') = false) c hc, Bool.and_false]
  have hisSome : ∀ (b : Prop) [Decidable b] (c : Char), (if b then some c else none).isSome = decide b := by
    intro b _ c
    split <;> simp [*]
  simp only [Option.toList_none, nil_append] at hdropped hagain
  unfold Spec.parts?
  rw [halign, show s.spec = s.parts.sign.toList ++ _ from rfl]
  simp only [hsign, hdropped, halternate, Option.isNone_none, if_true, hzeroed, hnumber, hgroup, hagain]
  obtain hnone | ⟨c, digits, hsome, hdigits⟩ := h.precision
  · have hpoint : ∀ c ∈ letters, c ≠ '.' := by decide
    simp [hnone, Spec.optional, hpoint _ h.conversion, parts, hisSome]
  · have hread := number_append hdigits
      (show Starts letters [s.conversion] from fun d hd => by cases hd; exact h.conversion) (by decide)
    rw [cons_append] at hread
    simp [hsome, Spec.optional, parts, hread, hisSome]

/-! ## Reading fields -/

/-- The field of a specifier. -/
def slot (s : Specifier) : Field := ⟨s.position, none, s.spec⟩

theorem isDigit_of_mem_position {c : Char} (hc : c ∈ s.position) : c.isDigit = true := by
  unfold position at hc
  cases hindex : s.index with
  | none => simp [hindex] at hc
  | some digits =>
    rw [hindex] at hc
    exact Nat.isDigit_of_mem_toDigits (by decide) (by decide) hc

theorem readName_append {name : List Char} (h : ∀ c ∈ name, c.isDigit = true) (rest : List Char) :
    Template.readName false (name ++ ':' :: rest) = some (name, ':', rest) := by
  induction name with
  | nil => rfl
  | cons c name ih =>
    have hmarks : ∀ d ∈ "\x7b\x7d:![".toList, (c == d) = false := by
      intro d hd
      refine beq_false_of_ne ?_
      rintro rfl
      exact absurd (h c (.head _)) ((by decide : ∀ d ∈ "\x7b\x7d:![".toList, ¬ d.isDigit = true) c hd)
    rw [cons_append, Template.readName]
    simp [hmarks, ih fun d hd => h d (.tail _ hd)]

theorem readSpec_append {spec : List Char} (h : ∀ c ∈ spec, Template.isBrace c = false) (rest : List Char) :
    Template.readSpec 0 (spec ++ '\x7d' :: rest) = some (spec, rest) := by
  induction spec with
  | nil => rfl
  | cons c spec ih =>
    have hc := h c (.head _)
    simp only [Template.isBrace, Bool.or_eq_false_iff] at hc
    rw [cons_append, Template.readSpec]
    simp [hc, ih fun d hd => h d (.tail _ hd)]

theorem readField_slot (h : s.Proper) (rest : List Char) :
    Template.readField (s.position ++ ':' :: (s.spec ++ '\x7d' :: rest)) = some (s.slot, rest) := by
  have hplain : ∀ c ∈ s.spec, Template.isBrace c = false := fun c hc =>
    (by decide : ∀ c ∈ "+ #0123456789,.scdoxefgn".toList, Template.isBrace c = false) c (spec_subset h hc)
  unfold Template.readField
  rw [readName_append (fun c hc => isDigit_of_mem_position hc)]
  simp [readSpec_append hplain, slot]

end Specifier

/-! ## Format texts become templates -/

def Segment.converted : Segment → List Char
  | plain text => text
  | specifier s => s.replaced

section

variable {segments : List Segment}

theorem convertUpTo_plain {text : List Char} (h : ∀ c ∈ text, c ≠ '%') (cs : List Char) (fuel : Nat) :
    FormatText.convertUpTo (text.length + fuel) (text ++ cs) = text ++ FormatText.convertUpTo fuel cs := by
  induction text with
  | nil => simp
  | cons c text ih =>
    rw [length_cons, Nat.add_right_comm, cons_append, FormatText.convertUpTo,
      if_neg (by simpa using h c (.head _)), ih fun d hd => h d (.tail _ hd), cons_append]

theorem convertUpTo_written (h : ∀ g ∈ segments, g.Legible) {fuel : Nat}
    (hfuel : (segments.flatMap Segment.written).length ≤ fuel) :
    FormatText.convertUpTo fuel (segments.flatMap Segment.written) = segments.flatMap Segment.converted := by
  induction segments generalizing fuel with
  | nil => cases fuel <;> rfl
  | cons g segments ih =>
    obtain ⟨hg, hrest⟩ := forall_mem_cons.1 h
    rw [flatMap_cons, length_append] at hfuel
    rw [flatMap_cons, flatMap_cons]
    cases g with
    | plain text =>
      obtain ⟨n, rfl⟩ := Nat.exists_eq_add_of_le (Nat.le_of_add_right_le hfuel)
      exact (convertUpTo_plain hg _ n).trans (congrArg _ (ih hrest (Nat.le_of_add_le_add_left hfuel)))
    | specifier s =>
      obtain ⟨n, rfl⟩ : ∃ n, fuel = n + 1 := ⟨fuel - 1, by simp [Segment.written] at hfuel; omega⟩
      have hconvert : FormatText.convertUpTo (n + 1) ('%' :: s.written ++ segments.flatMap Segment.written)
          = s.replaced ++ FormatText.convertUpTo n (segments.flatMap Segment.written) := by
        rw [cons_append, FormatText.convertUpTo, if_pos (beq_self_eq_true _), Specifier.read_written hg,
          ← Specifier.field_eq hg]
      refine hconvert.trans (congrArg _ (ih hrest ?_))
      simp [Segment.written] at hfuel ⊢
      omega

/-- The pieces of the template for a format text.  Plain text and line ends that touch are one piece. -/
def pieces (before : List Char) : List Segment → List Piece
  | [] => if before.isEmpty then [] else [.literal before]
  | .plain text :: segments => pieces (before ++ text) segments
  | .specifier s :: segments =>
      if s.conversion = 'n' then pieces (before ++ ['\\', 'n']) segments
      else (if before.isEmpty then [] else [.literal before]) ++ .field s.slot :: pieces [] segments

/-- Behind text without braces, the field of a specifier is read as such. -/
theorem piecesUpTo_slot {s : Specifier} (h : s.Proper) {before : List Char}
    (hbefore : ∀ c ∈ before, (!Template.isBrace c) = true) (rest : List Char) (fuel : Nat) :
    Template.piecesUpTo (fuel + 1) (before ++ '\x7b' :: (s.position ++ ':' :: (s.spec ++ '\x7d' :: rest)))
      = ((if before.isEmpty then [] else [.literal before]) ++ .field s.slot :: (Template.piecesUpTo fuel rest).1,
        (Template.piecesUpTo fuel rest).2) := by
  obtain ⟨next, tail, hfield, hbrace⟩ : ∃ next tail,
      s.position ++ ':' :: (s.spec ++ '\x7d' :: rest) = next :: tail ∧ (next == '\x7b') = false := by
    cases hname : s.position with
    | nil => exact ⟨_, _, rfl, rfl⟩
    | cons d name =>
      refine ⟨_, _, rfl, beq_false_of_ne ?_⟩
      rintro rfl
      have hdigit := Specifier.isDigit_of_mem_position (s := s) (c := '\x7b') (by simp [hname])
      exact absurd hdigit (by decide)
  have hread := Specifier.readField_slot h rest
  rw [hfield] at hread
  have hopens : Starts ['\x7b'] ('\x7b' :: next :: tail) := fun c hc => by cases hc; exact .head _
  rw [hfield, Template.piecesUpTo, takeWhile_append_starts hbefore hopens (by decide),
    dropWhile_append_starts hbefore hopens (by decide)]
  dsimp only
  rw [hbrace, if_neg Bool.false_ne_true, if_neg (by decide), hread]

theorem piecesUpTo_converted (h : ∀ g ∈ segments, g.Proper) (before : List Char)
    (hbefore : ∀ c ∈ before, (!Template.isBrace c) = true) {fuel : Nat}
    (hfuel : (segments.flatMap Segment.converted).length < fuel) :
    Template.piecesUpTo fuel (before ++ segments.flatMap Segment.converted)
      = (pieces before segments, true) := by
  induction segments generalizing before fuel with
  | nil =>
    obtain ⟨n, rfl⟩ := Nat.exists_eq_add_of_lt hfuel
    rw [flatMap_nil, append_nil, Template.piecesUpTo, takeWhile_eq_self_iff.2 hbefore,
      dropWhile_eq_nil_iff.2 hbefore]
    rfl
  | cons g segments ih =>
    obtain ⟨hg, hrest⟩ := forall_mem_cons.1 h
    rw [flatMap_cons, length_append] at hfuel
    rw [flatMap_cons]
    cases g with
    | plain text =>
      rw [← append_assoc, pieces]
      refine ih hrest _ (fun c hc => (mem_append.1 hc).elim (hbefore c) fun hc => ?_) (by omega)
      rw [(hg c hc).2]
      rfl
    | specifier s =>
      rw [pieces, Segment.converted, Specifier.replaced]
      split
      case isTrue hn =>
        rw [← append_assoc]
        exact ih hrest _ (fun c hc => (mem_append.1 hc).elim (hbefore c)
          ((by decide : ∀ c ∈ ['\\', 'n'], (!Template.isBrace c) = true) c)) (by omega)
      case isFalse hn =>
        have hlong : 0 < (Segment.specifier s).converted.length := by
          simp [Segment.converted, Specifier.replaced, hn]
        obtain ⟨n, rfl⟩ : ∃ n, fuel = n + 1 := ⟨fuel - 1, by omega⟩
        have hnext := ih hrest [] (forall_mem_nil _) (show _ < n by omega)
        rw [nil_append] at hnext
        have hconverted : '\x7b' :: (s.position ++ ':' :: (s.spec ++ ['\x7d']))
            ++ segments.flatMap Segment.converted
              = '\x7b' :: (s.position ++ ':' :: (s.spec ++ '\x7d' :: segments.flatMap Segment.converted)) := by simp
        rw [hconverted, piecesUpTo_slot hg hbefore, hnext]

/-! ## The arguments of fields -/

/-- The specifiers of a format text that ask for an argument. -/
def specifiers (segments : List Segment) : List Specifier :=
  segments.filterMap fun
    | .plain _ => none
    | .specifier s => if s.conversion = 'n' then none else some s

/-- The arguments that specifiers ask for, counted from 0.  Those without an index take one after the
other. -/
def asked (next : Nat) : List Specifier → List Nat
  | [] => []
  | s :: rest =>
    match s.index with
    | some digits => (numberOf digits - 1) :: asked next rest
    | none => next :: asked (next + 1) rest

/-- The names of the fields among the pieces of a template. -/
def namesOf (pieces : List Piece) : List (List Char) :=
  pieces.filterMap fun
    | .literal _ => none
    | .field f => some f.name

/-- The arguments that fields stand for: those of the positions that they name, or one after the other if
no field has a name.  There is no third way. -/
def positions? (names : List (List Char)) : Option (List Nat) :=
  if names.all fun name => !name.isEmpty && name.all isDigit then some (names.map numberOf)
  else if names.all (·.isEmpty) then some (range names.length) else none

theorem namesOf_pieces (before : List Char) (segments : List Segment) :
    namesOf (pieces before segments) = (specifiers segments).map Specifier.position := by
  induction segments generalizing before with
  | nil =>
    unfold pieces
    split <;> rfl
  | cons g segments ih =>
    cases g with
    | plain text => exact ih _
    | specifier s =>
      unfold pieces
      split
      case isTrue hn => simpa [specifiers, hn] using ih _
      case isFalse hn =>
        split <;> simp_all [specifiers, namesOf, Specifier.slot]

theorem numberOf_toDigits (n : Nat) : numberOf (Nat.toDigits 10 n) = n := by
  have hdigit : ∀ d < 10, digitValue? d.digitChar = some d := by decide
  induction n using Nat.strongRecOn with
  | ind n ih =>
    by_cases hn : n < 10
    · rw [Nat.toDigits_of_lt_base hn]
      simp [numberOf, hdigit n hn]
    · rw [Nat.toDigits_of_base_le (by decide) (by omega), numberOf, foldl_append, ← numberOf, ih _ (by omega)]
      simp [hdigit _ (Nat.mod_lt n (by decide : 0 < 10))]
      omega

theorem isDigit_of_decimal {c : Char} (h : c.isDigit = true) : isDigit c = true := by
  have hrange : 48 ≤ c.toNat ∧ c.toNat < 48 + 10 := by
    simp only [Char.isDigit, Bool.and_eq_true, decide_eq_true_eq, UInt32.le_iff_toNat_le, ge_iff_le] at h
    exact ⟨h.1, Nat.lt_succ_of_le h.2⟩
  simp [isDigit, digitValue?, zeros, hrange]

/-- Fields stand for the arguments of their specifiers, if all of these have an index or none has. -/
theorem positions_asked {specs : List Specifier}
    (huniform : (∀ s ∈ specs, s.index ≠ none) ∨ ∀ s ∈ specs, s.index = none) :
    positions? (specs.map Specifier.position) = some (asked 0 specs) := by
  obtain hall | hnone := huniform
  · have hasked : asked 0 specs = (specs.map Specifier.position).map numberOf := by
      induction specs with
      | nil => rfl
      | cons s specs ih =>
        obtain ⟨hs, hrest⟩ := forall_mem_cons.1 hall
        obtain ⟨digits, hindex⟩ := Option.ne_none_iff_exists'.1 hs
        simp [asked, hindex, Specifier.position, numberOf_toDigits, ih hrest]
    have hnumbered : ∀ name ∈ specs.map Specifier.position, (!name.isEmpty && name.all isDigit) = true := by
      simp only [mem_map, Bool.and_eq_true, Bool.not_eq_true', isEmpty_eq_false_iff, all_eq_true]
      rintro _ ⟨s, hs, rfl⟩
      obtain ⟨digits, hindex⟩ := Option.ne_none_iff_exists'.1 (hall s hs)
      refine ⟨?_, fun c hc => isDigit_of_decimal (Specifier.isDigit_of_mem_position hc)⟩
      simp [Specifier.position, hindex, Nat.toDigits_ne_nil]
    rw [positions?, if_pos (all_eq_true.2 hnumbered), hasked]
  · have hasked : ∀ n, asked n specs = range' n specs.length := by
      induction specs with
      | nil => exact fun _ => rfl
      | cons s specs ih =>
        obtain ⟨hs, hrest⟩ := forall_mem_cons.1 hnone
        intro n
        simp [asked, hs, ih hrest, range'_succ]
    have hnames : specs.map Specifier.position = replicate specs.length [] :=
      eq_replicate_iff.2 ⟨length_map _, by simp +contextual [Specifier.position, hnone]⟩
    rw [hasked, hnames, positions?]
    cases specs <;> simp [range_eq_range']

/-- A format text is converted segment by segment: plain text stays, a line end becomes its written form, and
every other specifier becomes a field.  The result is read as a template with the same plain text, and with
one field for each of these specifiers, of which it has the parts; and if all of them have an index or none
has, the fields stand for the arguments that the specifiers ask for. -/
theorem convert_keeps_segments (h : ∀ g ∈ segments, g.Proper) :
    FormatText.convert (.ofList (segments.flatMap Segment.written))
        = .ofList (segments.flatMap Segment.converted)
      ∧ Template.pieces (FormatText.convert (.ofList (segments.flatMap Segment.written)))
        = (pieces [] segments, true)
      ∧ (∀ s ∈ specifiers segments, Spec.parts? s.slot.spec = some s.parts)
      ∧ ((∀ s ∈ specifiers segments, s.index ≠ none) ∨ (∀ s ∈ specifiers segments, s.index = none) →
        positions? (namesOf (pieces [] segments)) = some (asked 0 (specifiers segments))) := by
  have hconvert : FormatText.convert (.ofList (segments.flatMap Segment.written))
      = .ofList (segments.flatMap Segment.converted) := by
    rw [FormatText.convert, String.length_ofList, String.toList_ofList,
      convertUpTo_written (fun g hg => (h g hg).legible) (Nat.le_refl _)]
  refine ⟨hconvert, ?_, fun s hs => ?_, fun huniform => ?_⟩
  · rw [hconvert, Template.pieces, String.toList_ofList]
    exact piecesUpTo_converted h [] (forall_mem_nil _) (Nat.lt_succ_self _)
  · obtain ⟨g, hg, hs⟩ := mem_filterMap.1 hs
    cases g with
    | plain text => cases hs
    | specifier t =>
      obtain ⟨-, rfl⟩ : t.conversion ≠ 'n' ∧ t = s := by simpa using hs
      exact Specifier.parts_spec (h _ hg)
  · rw [namesOf_pieces, positions_asked huniform]

/-- The segments of `a=%2$+08,.3f;%n%1$s`. -/
def sampleSegments : List Segment :=
  [.plain "a=".toList, .specifier ⟨some ['2'], "+0,".toList, ['8'], ".3".toList, 'f'⟩, .plain [';'],
    .specifier ⟨none, [], [], [], 'n'⟩, .specifier ⟨some ['1'], [], [], [], 's'⟩]

theorem proper_sampleSegments : ∀ g ∈ sampleSegments, g.Proper := by
  simp only [sampleSegments, forall_mem_cons, Segment.Proper]
  refine ⟨by decide,
    ⟨?_, by decide, by decide, by decide, .inr ⟨'3', [], rfl, by decide⟩, by decide⟩, by decide,
    ⟨nofun, by decide, by decide, by decide, .inl rfl, by decide⟩,
    ⟨?_, by decide, by decide, by decide, .inl rfl, by decide⟩, forall_mem_nil _⟩
  all_goals
    rintro _ ⟨⟩
    decide

/-- The text `a=%2$+08,.3f;%n%1$s` has two fields, for the arguments 1 and 0. -/
theorem convert_keeps_segments_sample :
    FormatText.convert (.ofList (sampleSegments.flatMap Segment.written))
        = "a=\x7b1:+08,.3f\x7d;\\n\x7b0:s\x7d"
      ∧ positions? (namesOf (pieces [] sampleSegments)) = some [1, 0] := by
  obtain ⟨hconvert, -, -, hasked⟩ := convert_keeps_segments proper_sampleSegments
  exact ⟨hconvert.trans (by decide), hasked (.inl (by decide))⟩

end

end Transcriber.Source
