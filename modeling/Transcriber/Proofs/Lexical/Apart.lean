import Transcriber.Proofs.Lexical.Tiling

/-!
# Tokens that stay apart

No visible token of Java grows when a space follows it.  Only blanks, comments and quoted literals have
words with a space in them.  A token of another sort ends before the space, and a quoted literal ends with
its closing quote: `escaping` follows a quoted text and says whether the next character is escaped, so a
second closing quote cannot come.

* `FirstKnown.eq`, `Leads.eq_token` — the words of the rules leave one answer.
* `Pattern.quoted_ends` — a quoted literal is no beginning of another one.
-/

namespace Transcriber.Lexical

open Pattern

/-! ## Who has a word -/

section Known

variable {live : List (Kind × Pattern)} {rules : List TokenRule} {w text : List Char} {kind kind' : Kind}

theorem FirstKnown.known (h : FirstKnown live w kind) : Known live w := by
  induction live with
  | nil => exact h.elim
  | cons entry live ih =>
    rcases h with ⟨hw, -⟩ | ⟨-, h⟩
    · exact ⟨entry, .head _, hw⟩
    · obtain ⟨e, he, hw⟩ := ih h
      exact ⟨e, .tail _ he, hw⟩

theorem Known.exists_first (h : Known live w) : ∃ kind, FirstKnown live w kind := by
  obtain ⟨entry, hentry, hw⟩ := h
  induction live with
  | nil => cases hentry
  | cons first live ih =>
    by_cases hfirst : w ∈ first.2.words
    · exact ⟨first.1, .inl ⟨hfirst, rfl⟩⟩
    · rcases List.mem_cons.1 hentry with rfl | hentry
      · exact absurd hw hfirst
      · obtain ⟨kind, h⟩ := ih hentry
        exact ⟨kind, .inr ⟨hfirst, h⟩⟩

theorem FirstKnown.eq (h : FirstKnown live w kind) (h' : FirstKnown live w kind') : kind = kind' := by
  induction live with
  | nil => exact h.elim
  | cons entry live ih =>
    rcases h with ⟨hw, rfl⟩ | ⟨hw, h⟩ <;> rcases h' with ⟨hw', rfl⟩ | ⟨hw', h'⟩
    · rfl
    · exact absurd hw hw'
    · exact absurd hw' hw
    · exact ih h h'

/-- The longest word is the only answer. -/
theorem Leads.eq_token {n : Nat} {m : Match} (h : Leads live text m) (h' : Leads live text (.token kind n)) :
    m = .token kind n := by
  cases h' with
  | token pos le first longest =>
    cases h with
    | gap _ unknown _ => exact absurd first.known (unknown n pos le)
    | @token kind' n' _ le' first' longest' =>
      obtain rfl : n' = n := by
        rcases Nat.lt_trichotomy n' n with hlt | heq | hgt
        · exact absurd first.known (longest' n hlt le)
        · exact heq
        · exact absurd first'.known (longest n' hgt le')
      rw [first'.eq first]

theorem known_liveRules : Known (liveRules rules) w ↔ ∃ rule ∈ rules, w ∈ rule.pattern.words := by
  constructor
  · rintro ⟨entry, hentry, hw⟩
    obtain ⟨⟨rule, index⟩, hrule, rfl⟩ := List.mem_map.1 hentry
    exact ⟨rule, List.mem_of_getElem? (List.mem_zipIdx_iff_getElem?.1 hrule), hw⟩
  · rintro ⟨rule, hrule, hw⟩
    obtain ⟨index, hindex⟩ := List.getElem?_of_mem hrule
    exact ⟨_, List.mem_map.2 ⟨(rule, index), List.mem_zipIdx_iff_getElem?.2 hindex, rfl⟩, hw⟩

/-- Who names a word is one of the rules, and hides the token or not. -/
theorem FirstKnown.exists_rule (h : FirstKnown (liveRules rules) w kind) :
    ∃ rule ∈ rules, w ∈ rule.pattern.words ∧ hiddenKind rules kind = rule.hidden := by
  have hmem : ∀ live : List (Kind × Pattern), FirstKnown live w kind → ∃ p, (kind, p) ∈ live ∧ w ∈ p.words := by
    intro live h
    induction live with
    | nil => exact h.elim
    | cons entry live ih =>
      rcases h with ⟨hw, rfl⟩ | ⟨-, h⟩
      · exact ⟨entry.2, .head _, hw⟩
      · obtain ⟨p, hp, hw⟩ := ih h
        exact ⟨p, .tail _ hp, hw⟩
  obtain ⟨p, hp, hw⟩ := hmem _ h
  obtain ⟨⟨rule, index⟩, hrule, heq⟩ := List.mem_map.1 hp
  obtain ⟨rfl, rfl⟩ := Prod.mk.inj heq
  have hindex := List.mem_zipIdx_iff_getElem?.1 hrule
  refine ⟨rule, List.mem_of_getElem? hindex, hw, ?_⟩
  simp [hiddenKind, show rules[index]? = some rule from hindex]

end Known

/-! ## Words and characters -/

def Pattern.avoids (c : Char) : Pattern → Bool
  | .chars set => !set.mem c
  | .seq p q => p.avoids c && q.avoids c
  | .alt p q => p.avoids c && q.avoids c
  | .star p => p.avoids c
  | _ => true

variable {c q : Char} {w : List Char}

theorem Pattern.notMem_of_avoids {p : Pattern} (h : p.avoids c = true) (hw : w ∈ p.words) : c ∉ w := by
  induction p generalizing w with
  | never => exact hw.elim
  | blank => simp [(Language.mem_one w).1 hw]
  | probe => simp [(Language.mem_one w).1 hw]
  | chars set =>
    obtain ⟨d, hd, rfl⟩ := hw
    rw [List.mem_singleton]
    rintro rfl
    simp [avoids, hd] at h
  | seq p q ihp ihq =>
    rw [avoids, Bool.and_eq_true] at h
    obtain ⟨u, hu, v, hv, rfl⟩ := Language.mem_mul.1 hw
    rw [List.mem_append, not_or]
    exact ⟨ihp h.1 hu, ihq h.2 hv⟩
  | alt p q ihp ihq =>
    rw [avoids, Bool.and_eq_true] at h
    exact hw.elim (ihp h.1) (ihq h.2)
  | star p ih =>
    obtain ⟨parts, rfl, hparts⟩ := Language.mem_kstar.1 hw
    rw [List.mem_flatten]
    rintro ⟨part, hpart, hc⟩
    exact ih h (hparts part hpart) hc

theorem Pattern.step_ne_never {p : Pattern} (h : c :: w ∈ p.words) : p.step c ≠ .never := by
  intro hnever
  have hw := mem_words_step.2 h
  rw [hnever] at hw
  exact hw

/-! ## Quoted texts -/

/-- Follows a text that ends before the quote `q`: whether the character behind it is escaped, or
nothing if an unescaped quote has come. -/
def escaping (q : Char) : Bool → List Char → Option Bool
  | escaped, [] => some escaped
  | true, _ :: cs => escaping q false cs
  | false, c :: cs => if c = q then none else escaping q (c = '\\') cs

theorem escaping_append (q : Char) (escaped : Bool) (u v : List Char) :
    escaping q escaped (u ++ v) = (escaping q escaped u).bind fun e => escaping q e v := by
  induction u generalizing escaped with
  | nil => rfl
  | cons c u ih =>
    cases escaped with
    | true => exact ih false
    | false =>
      simp only [List.cons_append, escaping]
      split_ifs
      · rfl
      · exact ih _

/-- Nothing changes where neither quotes nor backslashes stand. -/
theorem escaping_plain (hq : q ∉ w) (hslash : '\\' ∉ w) : escaping q false w = some false := by
  induction w with
  | nil => rfl
  | cons c w ih =>
    rw [List.mem_cons, not_or] at hq hslash
    rw [escaping, if_neg (Ne.symm hq.1), decide_eq_false (Ne.symm hslash.1)]
    exact ih hq.2 hslash.2

theorem CharSet.mem_ofString (s : String) (c : Char) : (CharSet.ofString s).mem c = true ↔ c ∈ s.toList := by
  simp only [CharSet.mem, CharSet.ofString, Bool.bne_false, List.any_map, List.any_eq_true, Function.comp_apply,
    Bool.and_eq_true, decide_eq_true_eq]
  constructor
  · rintro ⟨d, hd, hdc, hcd⟩
    exact Char.le_antisymm hdc hcd ▸ hd
  · exact fun hc => ⟨c, hc, Char.le_refl _, Char.le_refl _⟩

theorem CharSet.mem_ofString_singleton (q c : Char) : (CharSet.ofString (String.singleton q)).mem c = true ↔ c = q := by
  rw [mem_ofString, String.toList_singleton, List.mem_singleton]

theorem CharSet.mem_single {q c : Char} : (CharSet.single q).mem c = true ↔ c = q := by
  simpa [CharSet.ofString, CharSet.single] using CharSet.mem_ofString_singleton q c

theorem Pattern.eq_of_mem_words_single (hw : w ∈ (chars (.single q)).words) : w = [q] := by
  obtain ⟨c, hc, rfl⟩ := hw
  rw [CharSet.mem_single.1 hc]

/-- A pattern whose words stand between quotes. -/
def Pattern.quoted (q : Char) (body : Pattern) : Pattern :=
  .all [.chars (.ofString (String.singleton q)), body, .chars (.ofString (String.singleton q))]

theorem Pattern.mem_words_quoted {body : Pattern} :
    w ∈ (quoted q body).words ↔ ∃ u ∈ body.words, w = q :: (u ++ [q]) := by
  have hone : ∀ v, v ∈ (chars (.ofString (String.singleton q))).words ↔ v = [q] := by
    intro v
    rw [mem_words_chars]
    constructor
    · rintro ⟨c, hc, rfl⟩
      rw [(CharSet.mem_ofString_singleton q c).1 hc]
    · exact fun h => ⟨q, (CharSet.mem_ofString_singleton q q).2 rfl, h⟩
  change w ∈ (chars _).words * (body.words * ((chars _).words * 1)) ↔ _
  simp only [mul_one, Language.mem_mul, hone]
  constructor
  · rintro ⟨_, rfl, v, ⟨u, hu, _, rfl, rfl⟩, rfl⟩
    exact ⟨u, hu, rfl⟩
  · rintro ⟨u, hu, rfl⟩
    exact ⟨[q], rfl, u ++ [q], ⟨u, hu, [q], rfl, rfl⟩, rfl⟩

theorem Pattern.quoted_ends {body : Pattern}
    (hbody : ∀ u ∈ body.words, escaping q false u = some false) {t v : List Char}
    (ht : t ∈ (quoted q body).words) : t ++ c :: v ∉ (quoted q body).words := by
  intro hlong
  obtain ⟨u, hu, rfl⟩ := mem_words_quoted.1 ht
  obtain ⟨u', hu', heq⟩ := mem_words_quoted.1 hlong
  simp only [List.cons_append, List.append_assoc, List.cons.injEq, true_and, List.nil_append] at heq
  obtain ⟨v', d, hv'⟩ : ∃ v' d, c :: v = v' ++ [d] :=
    ⟨(c :: v).dropLast, (c :: v).getLast (by simp), (List.dropLast_append_getLast (by simp)).symm⟩
  rw [hv', ← List.cons_append, ← List.append_assoc] at heq
  obtain ⟨hfront, -⟩ := List.append_inj' heq rfl
  have hcut := hbody u' hu'
  rw [← hfront, escaping_append, hbody u hu] at hcut
  simp [escaping] at hcut

end Transcriber.Lexical

namespace Transcriber.CompilationUnit

open Transcriber.Lexical Transcriber.Lexical.Pattern

/-! ## The tokens of Java -/

/-- The characters between tokens. -/
def blanks : List Char := [' ', '\t', '\r', '\n', '\x0c']

def blankPattern : Pattern := .plus (Shape.oneOf " \t\r\n\x0c")

/-- What character literals and string literals have between their quotes. -/
def charBody : Pattern := .alt (.chars (CharSet.ofString "'\\\r\n").complement) Shape.escape

/-- What string literals have between their quotes. -/
def stringBody : Pattern := .star (.alt (.chars (CharSet.ofString "\"\\\r\n").complement) Shape.escape)

/-- How a rule begins its words: only hidden rules begin with a blank or with the signs of a comment, and
only quoted literals with a quote. -/
def beginsApart (rule : TokenRule) : Bool :=
  (rule.hidden || (blanks.all fun c => rule.pattern.step c = .never) &&
    ((rule.pattern.step '/').step '*' = .never) && ((rule.pattern.step '/').step '/' = .never)) &&
  (rule.pattern.step ' ' = .never || rule.pattern = blankPattern) &&
  (rule.pattern.step '"' = .never || rule.pattern = quoted '"' stringBody) &&
  (rule.pattern.step '\'' = .never || rule.pattern = quoted '\'' charBody)

/-- Only blanks, comments and quoted literals can have spaces in them. -/
def spacesApart (rule : TokenRule) : Bool :=
  rule.pattern.avoids ' ' || [blankPattern, Shape.comment, Shape.lineComment, quoted '\'' charBody,
    quoted '"' stringBody].contains rule.pattern

theorem tokenRules_apart : ∀ rule ∈ tokenRules, beginsApart rule = true ∧ spacesApart rule = true := by
  decide +kernel

variable {w : List Char} {c : Char}

theorem escaping_escape {q : Char} (hq : q = '"' ∨ q = '\'') (hw : w ∈ Shape.escape.words) :
    escaping q false w = some false := by
  obtain ⟨slash, hslash, y, hy, rfl⟩ := Language.mem_mul.1 hw
  obtain ⟨c, hc, rfl⟩ := mem_words_chars.1 hslash
  obtain rfl : c = '\\' := (CharSet.mem_ofString_singleton '\\' c).1 hc
  have hne : '\\' ≠ q := by rcases hq with rfl | rfl <;> decide
  have hcode : ∀ p : Pattern, (p.avoids '"' && p.avoids '\'' && p.avoids '\\' && !p.accepts) = true →
      y ∈ p.words → escaping q true y = some false := by
    intro p hp hy
    simp only [Bool.and_eq_true, Bool.not_eq_true'] at hp
    obtain ⟨⟨⟨hdouble, hsingle⟩, hback⟩, haccepts⟩ := hp
    cases y with
    | nil => simp [accepts_iff.2 hy] at haccepts
    | cons d ds =>
      have hquote : q ∉ d :: ds := by
        rcases hq with rfl | rfl
        · exact notMem_of_avoids hdouble hy
        · exact notMem_of_avoids hsingle hy
      have hplain := notMem_of_avoids hback hy
      rw [List.mem_cons, not_or] at hquote hplain
      exact escaping_plain hquote.2 hplain.2
  have hend : escaping q true y = some false := by
    rcases hy with hy | hy | hy | hy
    · obtain ⟨d, -, rfl⟩ := mem_words_chars.1 hy
      rfl
    · exact hcode _ (by decide) hy
    · exact hcode _ (by decide) hy
    · exact hy.elim
  rw [List.singleton_append, escaping, if_neg hne]
  exact hend

theorem escaping_charBody (hw : w ∈ charBody.words) : escaping '\'' false w = some false := by
  rcases hw with hw | hw
  · obtain ⟨c, hc, rfl⟩ := mem_words_chars.1 hw
    refine escaping_plain ?_ ?_ <;>
      · rw [List.mem_singleton]
        rintro rfl
        revert hc
        decide
  · exact escaping_escape (.inr rfl) hw

theorem escaping_stringBody (hw : w ∈ stringBody.words) : escaping '"' false w = some false := by
  obtain ⟨parts, rfl, hparts⟩ := Language.mem_kstar.1 hw
  clear hw
  induction parts with
  | nil => rfl
  | cons part parts ih =>
    have hpart : escaping '"' false part = some false := by
      rcases hparts part (.head _) with hpart | hpart
      · obtain ⟨c, hc, rfl⟩ := mem_words_chars.1 hpart
        refine escaping_plain ?_ ?_ <;>
          · rw [List.mem_singleton]
            rintro rfl
            revert hc
            decide
      · exact escaping_escape (.inl rfl) hpart
    rw [List.flatten_cons, escaping_append, hpart]
    exact ih fun y hy => hparts y (.tail _ hy)

def Visible (w : List Char) : Prop := ∃ rule ∈ tokenRules, rule.hidden = false ∧ w ∈ rule.pattern.words

theorem Visible.head_notMem (h : Visible (c :: w)) : c ∉ blanks := by
  obtain ⟨rule, hrule, hvisible, hw⟩ := h
  have hapart := (tokenRules_apart rule hrule).1
  simp only [beginsApart, hvisible, Bool.false_or, Bool.and_eq_true, List.all_eq_true, decide_eq_true_eq] at hapart
  exact fun hc => step_ne_never hw (hapart.1.1.1.1.1 c hc)

theorem Visible.not_comment (h : Visible ('/' :: c :: w)) : c ≠ '*' ∧ c ≠ '/' := by
  obtain ⟨rule, hrule, hvisible, hw⟩ := h
  have hapart := (tokenRules_apart rule hrule).1
  simp only [beginsApart, hvisible, Bool.false_or, Bool.and_eq_true, decide_eq_true_eq] at hapart
  have hstep := step_ne_never (mem_words_step.2 hw)
  constructor
  · rintro rfl
    exact hstep hapart.1.1.1.1.2
  · rintro rfl
    exact hstep hapart.1.1.1.2

theorem mem_blanks_of_words (hw : w ∈ blankPattern.words) (hc : c ∈ w) : c ∈ blanks := by
  by_contra hblank
  refine notMem_of_avoids ?_ hw hc
  have hset : (CharSet.ofString " \t\r\n\x0c").mem c = false := by
    rw [Bool.eq_false_iff, Ne, CharSet.mem_ofString]
    exact hblank
  simp [blankPattern, plus, Shape.oneOf, avoids, hset]

/-- The words of a sequence that begins with a fixed word begin with it. -/
theorem exists_of_mem_words_word {p : Pattern} {a b : Char}
    (hw : w ∈ (Pattern.seq (.seq (.chars (.single a)) (.chars (.single b))) p).words) : ∃ v, w = a :: b :: v := by
  obtain ⟨u, hu, v, -, rfl⟩ := Language.mem_mul.1 hw
  obtain ⟨x, hx, y, hy, rfl⟩ := Language.mem_mul.1 hu
  exact ⟨v, by rw [eq_of_mem_words_single hx, eq_of_mem_words_single hy]; rfl⟩

theorem not_known_spaced {t v : List Char} (ht : Visible t) (hne : t ≠ []) :
    ¬ Known (liveRules tokenRules) (t ++ ' ' :: v) := by
  rw [known_liveRules]
  rintro ⟨rule, hrule, hw⟩
  obtain ⟨-, hspaces⟩ := tokenRules_apart rule hrule
  rw [spacesApart, Bool.or_eq_true, List.contains_iff_mem] at hspaces
  rcases hspaces with havoids | hmem
  · exact notMem_of_avoids havoids hw (by simp)
  obtain ⟨c, t, rfl⟩ := List.exists_cons_of_ne_nil hne
  -- A word that begins like a comment would make the visible token begin so, or have a space for its second sign.
  have hsigns : ∀ b : Char, b = '*' ∨ b = '/' → ∀ rest, c :: t ++ ' ' :: v ≠ '/' :: b :: rest := by
    rintro b hb rest heq
    obtain ⟨rfl, htail⟩ := List.cons.inj heq
    cases t with
    | nil =>
      obtain ⟨rfl, -⟩ := List.cons.inj htail
      simp at hb
    | cons d t =>
      obtain ⟨rfl, -⟩ := List.cons.inj htail
      obtain ⟨hstar, hslash⟩ := ht.not_comment
      exact hb.elim hstar hslash
  simp only [List.mem_cons, List.not_mem_nil, or_false] at hmem
  rcases hmem with hp | hp | hp | hp | hp <;> rw [hp] at hw
  · exact ht.head_notMem (mem_blanks_of_words hw (.head _))
  · obtain ⟨rest, heq⟩ := exists_of_mem_words_word hw
    exact hsigns _ (.inl rfl) rest heq
  · obtain ⟨rest, heq⟩ := exists_of_mem_words_word hw
    exact hsigns _ (.inr rfl) rest heq
  · obtain ⟨own, hown, hvisible, ht'⟩ := ht
    obtain ⟨u, -, heq⟩ := mem_words_quoted.1 hw
    obtain ⟨rfl, -⟩ := List.cons.inj heq
    have hapart := (tokenRules_apart own hown).1
    simp only [beginsApart, Bool.and_eq_true, Bool.or_eq_true, decide_eq_true_eq] at hapart
    rw [hapart.2.resolve_left (step_ne_never ht')] at ht'
    exact quoted_ends (fun _ => escaping_charBody) ht' hw
  · obtain ⟨own, hown, hvisible, ht'⟩ := ht
    obtain ⟨u, -, heq⟩ := mem_words_quoted.1 hw
    obtain ⟨rfl, -⟩ := List.cons.inj heq
    have hapart := (tokenRules_apart own hown).1
    simp only [beginsApart, Bool.and_eq_true, Bool.or_eq_true, decide_eq_true_eq] at hapart
    rw [hapart.1.2.resolve_left (step_ne_never ht')] at ht'
    exact quoted_ends (fun _ => escaping_stringBody) ht' hw

theorem not_known_space {t v : List Char} (ht : Visible (c :: t)) :
    ¬ Known (liveRules tokenRules) (' ' :: c :: v) := by
  rw [known_liveRules]
  rintro ⟨rule, hrule, hw⟩
  obtain ⟨hbegins, -⟩ := tokenRules_apart rule hrule
  simp only [beginsApart, Bool.and_eq_true, Bool.or_eq_true, decide_eq_true_eq] at hbegins
  rw [hbegins.1.1.2.resolve_left (step_ne_never hw)] at hw
  exact ht.head_notMem (mem_blanks_of_words hw (by simp))

end Transcriber.CompilationUnit
