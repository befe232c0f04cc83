import Transcriber.Proofs.Lexical.Apart

/-!
# Lines that begin with a star

The tokens of a documentation comment leave nothing out: every character is a word.  The only test inside
their patterns stands behind the stars that a line break takes along.  It is reached exactly where a line
begins with a star, blanks and tabs aside, and no such line is hidden inside another token.

* `javadoc_scan_lossless` — the main statement.
-/

namespace Transcriber.DocComment

open Transcriber.Lexical Pattern

/-- Nothing but blanks and tabs stands before a star. -/
def Starred (text : List Char) : Prop :=
  ∃ blanks rest, text = blanks ++ '*' :: rest ∧ ∀ c ∈ blanks, c = ' ' ∨ c = '\t'

/-- The three spellings of a line break. -/
def lineMarks : List (List Char) := [['\r', '\n'], ['\n'], ['\r']]

/-- A line break, and nothing but blanks and tabs between it and a star. -/
def StarredLine (text : List Char) : Prop := ∃ mark ∈ lineMarks, ∃ rest, text = mark ++ rest ∧ Starred rest

/-- Some line begins with a star. -/
def HasStarredLine (text : List Char) : Prop := ∃ before rest, text = before ++ rest ∧ StarredLine rest

variable {c : Char} {cs text : List Char}

theorem starred_cons : Starred (c :: cs) ↔ c = '*' ∨ (c = ' ' ∨ c = '\t') ∧ Starred cs := by
  constructor
  · rintro ⟨_ | ⟨d, blanks⟩, rest, h, hblanks⟩ <;> obtain ⟨rfl, rfl⟩ := List.cons.inj h
    · exact .inl rfl
    · exact .inr ⟨hblanks _ (.head _), blanks, rest, rfl, fun d hd => hblanks d (.tail _ hd)⟩
  · rintro (rfl | ⟨hc, blanks, rest, rfl, hblanks⟩)
    · exact ⟨[], cs, rfl, by simp⟩
    · exact ⟨c :: blanks, rest, rfl, by simpa [hc] using hblanks⟩

theorem not_starredLine_nil : ¬ StarredLine [] := by
  simp [StarredLine, lineMarks]

theorem starredLine_cons : StarredLine (c :: cs) ↔
    (c = '\n' ∨ c = '\r') ∧ Starred cs ∨ c = '\r' ∧ ∃ rest, cs = '\n' :: rest ∧ Starred rest := by
  simp only [StarredLine, lineMarks, List.mem_cons, List.not_mem_nil, or_false, exists_eq_or_imp, exists_eq_left,
    List.cons_append, List.nil_append, List.cons.injEq]
  grind

/-! ## The rest of a line break -/

/-- What may follow a line break within its token. -/
def margin : Pattern := .opt (.seq (.opt Shape.space) (.plus (.seq Shape.star .probe)))

/-- What may follow it once blanks were read. -/
def indented : Pattern := .seq (.star (.chars (.ofString " \t"))) (.plus (.seq Shape.star .probe))

/-- What may follow it once a star was read. -/
def behindStar : Pattern := .seq .probe (.star (.seq Shape.star .probe))

def afterReturn : Pattern := .alt (.seq (.chars (.single '\n')) margin) margin

theorem stepAll_margin {p : Pattern} (hp : p = margin ∨ p = indented) (c : Char) : stepAll [(2, p)] c =
    if c = '*' then [(2, behindStar)] else if c = ' ' ∨ c = '\t' then [(2, indented)] else [] := by
  split_ifs with hstar hblank
  · rcases hp with rfl | rfl <;> subst hstar <;> rfl
  · rcases hp with rfl | rfl <;> rcases hblank with rfl | rfl <;> rfl
  · have hs := Bool.eq_false_iff.2 (mt CharSet.mem_single.1 hstar)
    have hb : (CharSet.ofString " \t").mem c = false := by
      rw [Bool.eq_false_iff, Ne, CharSet.mem_ofString]
      simpa using hblank
    rcases hp with rfl | rfl <;> simp [stepAll, margin, indented, Shape.space, Shape.star, step, Pattern.opt,
      Pattern.plus, accepts, andThen, orElse, hs, hb]

theorem stepAll_afterReturn (c : Char) :
    stepAll [(2, afterReturn)] c = if c = '\n' then [(2, margin)] else stepAll [(2, margin)] c := by
  split_ifs with h
  · subst h
    rfl
  · have hstep : afterReturn.step c = margin.step c := by
      simp [afterReturn, step, andThen, orElse, accepts, Bool.eq_false_iff.2 (mt CharSet.mem_single.1 h)]
    simp only [stepAll, List.filterMap_cons, hstep]

section Unprobed

open scoped Classical

variable (count : Nat) (best : Option (Kind × Nat))

/-- The test is reached with the first star behind blanks. -/
theorem longestFrom_margin {p : Pattern} (hp : p = margin ∨ p = indented) (cs : List Char) :
    longestFrom false [(2, p)] cs count best =
      if Starred cs then .stuck else longestFrom true [(2, p)] cs count best := by
  induction cs generalizing p count best with
  | nil => simp [longestFrom, Starred]
  | cons c cs ih =>
    rw [longestFrom_cons, longestFrom_cons, stepAll_margin hp]
    simp only [starred_cons]
    by_cases hstar : c = '*'
    · simp [hstar, behindStar, probes]
    by_cases hblank : c = ' ' ∨ c = '\t'
    · simp [hstar, hblank, ih, show indented.probes = false from rfl]
    · simp [hstar, hblank]

theorem longestFrom_afterReturn (cs : List Char) : longestFrom false [(2, afterReturn)] cs count best =
    if StarredLine ('\r' :: cs) then .stuck else longestFrom true [(2, afterReturn)] cs count best := by
  simp only [starredLine_cons]
  cases cs with
  | nil => simp [longestFrom, Starred]
  | cons c cs =>
    have hmargin := longestFrom_margin count best (.inl rfl) (c :: cs)
    rw [longestFrom_cons, longestFrom_cons] at hmargin ⊢
    rw [stepAll_afterReturn]
    by_cases hfeed : c = '\n'
    · simp [hfeed, longestFrom_margin, starred_cons, show margin.probes = false from rfl]
    · rw [if_neg hfeed]
      simpa [hfeed] using hmargin

/-- Without a line break nothing is tested. -/
theorem stepAll_untested (hfeed : c ≠ '\n') (hreturn : c ≠ '\r') :
    ∀ entry ∈ stepAll (liveRules tokenRules) c, entry.2.untested = true := by
  intro entry hentry
  obtain ⟨p, hp, hstep, hnever⟩ := mem_stepAll.1 hentry
  have hrules : ∀ entry ∈ liveRules tokenRules, entry.2.untested = true ∨ entry.2 = Shape.newline := by
    decide
  rcases hrules _ hp with hfree | rfl
  · exact hstep ▸ untested_step hfree c
  · refine absurd (hstep.symm.trans ?_) hnever
    have hn := Bool.eq_false_iff.2 (mt CharSet.mem_single.1 hfeed)
    have hr := Bool.eq_false_iff.2 (mt CharSet.mem_single.1 hreturn)
    simp [Shape.newline, Shape.lineBreak, Pattern.any, Pattern.word, step, andThen, orElse, accepts, hn, hr]

/-- Where the test cannot be made, a starred line ends the reading, and nothing else is changed. -/
theorem longest_unprobed (text : List Char) :
    longest tokenRules false text = if StarredLine text then .stuck else longest tokenRules true text := by
  cases text with
  | nil => simp [longest, longestFrom, not_starredLine_nil]
  | cons c cs =>
    rw [longest, longest, longestFrom_cons, longestFrom_cons]
    by_cases hfeed : c = '\n'
    · subst hfeed
      have hstep : stepAll (liveRules tokenRules) '\n' = [(2, margin)] := by decide
      simp [hstep, longestFrom_margin, starredLine_cons, show margin.probes = false from rfl]
    by_cases hreturn : c = '\r'
    · subst hreturn
      have hstep : stepAll (liveRules tokenRules) '\r' = [(2, afterReturn)] := by decide
      simp [hstep, longestFrom_afterReturn, show afterReturn.probes = false from rfl]
    · have hfree := stepAll_untested hfeed hreturn
      have hprobes : ((stepAll (liveRules tokenRules) c).any fun entry => entry.2.probes) = false :=
        List.any_eq_false.2 fun entry hentry => by simp [probes_of_untested (hfree entry hentry)]
      rw [hprobes, longestFrom_untested hfree]
      simp [starredLine_cons, hfeed, hreturn]

end Unprobed

/-! ## Words -/

theorem known_singleton (c : Char) : Known (liveRules tokenRules) [c] := by
  suffices h : ∃ rule ∈ tokenRules, (rule.pattern.step c).accepts = true by
    obtain ⟨rule, hrule, hstep⟩ := h
    exact known_liveRules.2 ⟨rule, hrule, mem_words_step.1 (accepts_iff.1 hstep)⟩
  have hplus {set : CharSet} (h : set.mem c = true) : ((Pattern.plus (.chars set)).step c).accepts = true := by
    simp [Pattern.plus, step, h, andThen, accepts]
  by_cases hletter : Shape.letters.mem c = true
  · exact ⟨_, .head _, hplus hletter⟩
  by_cases hsign : c ∈ "\n\r\t @*\x7b\x7d/".toList
  · -- over the nine signs as a list: the characters as a whole are too many to go through
    have hsigns : ("\n\r\t @*\x7b\x7d/".toList.all fun d =>
        tokenRules.any fun rule => (rule.pattern.step d).accepts) = true := by
      decide
    exact List.any_eq_true.1 (List.all_eq_true.1 hsigns c hsign)
  · refine ⟨⟨"TEXT_CONTENT", Shape.text, false⟩, by simp [tokenRules], hplus ?_⟩
    rw [← CharSet.mem_ofString] at hsign
    simp only [CharSet.mem, CharSet.ofString, Shape.letters, Bool.bne_false, Bool.not_eq_true] at hletter hsign
    simp only [CharSet.mem, CharSet.complement, CharSet.union, CharSet.ofString, Shape.letters, List.any_append, hsign,
      hletter]
    rfl

/-- A line break has no other one inside its token. -/
theorem exists_mark {w : List Char} (h : w ∈ Shape.newline.words) :
    ∃ mark ∈ lineMarks, ∃ rest, w = mark ++ rest ∧ '\n' ∉ rest ∧ '\r' ∉ rest := by
  have hmargin {rest : List Char} (hr : rest ∈ margin.words) : '\n' ∉ rest ∧ '\r' ∉ rest :=
    ⟨notMem_of_avoids (by decide) hr, notMem_of_avoids (by decide) hr⟩
  rcases h with h | h | h | h
  · obtain ⟨u, hu, rest, hr, rfl⟩ := Language.mem_mul.1 h
    exact ⟨['\n'], by simp [lineMarks], rest, by rw [eq_of_mem_words_single (q := '\n') hu], hmargin hr⟩
  · obtain ⟨u, hu, rest, hr, rfl⟩ := Language.mem_mul.1 h
    obtain ⟨v, hv, v', hv', rfl⟩ := Language.mem_mul.1 hu
    refine ⟨['\r', '\n'], by simp [lineMarks], rest, ?_, hmargin hr⟩
    rw [eq_of_mem_words_single (q := '\r') hv, eq_of_mem_words_single (q := '\n') hv']
    rfl
  · obtain ⟨u, hu, rest, hr, rfl⟩ := Language.mem_mul.1 h
    exact ⟨['\r'], by simp [lineMarks], rest, by rw [eq_of_mem_words_single (q := '\r') hu], hmargin hr⟩
  · exact h.elim

/-- No word has a line break inside, except between carriage return and line feed. -/
theorem eq_return_of_known {b d : Char} {u v : List Char} (h : Known (liveRules tokenRules) (b :: (u ++ d :: v)))
    (hd : d = '\n' ∨ d = '\r') : u = [] ∧ b = '\r' ∧ d = '\n' := by
  obtain ⟨rule, hrule, hw⟩ := known_liveRules.1 h
  have hrules : ∀ rule ∈ tokenRules,
      rule.pattern.avoids '\n' = true ∧ rule.pattern.avoids '\r' = true ∨ rule.pattern = Shape.newline := by
    decide
  rcases hrules rule hrule with ⟨hfeed, hreturn⟩ | hnewline
  · have := notMem_of_avoids hfeed hw
    have := notMem_of_avoids hreturn hw
    grind
  · obtain ⟨mark, hmark, rest, heq, hfeed, hreturn⟩ := exists_mark (hnewline ▸ hw)
    simp only [lineMarks, List.mem_cons, List.not_mem_nil, or_false] at hmark
    rcases hmark with rfl | rfl | rfl <;> cases u <;> grind

/-! ## The whole text -/

theorem exists_token (htext : text ≠ []) : ∃ kind n, longest tokenRules true text = .token kind n ∧ 0 < n ∧
    Known (liveRules tokenRules) (text.take n) := by
  have hleads := leads_longest (by decide) (by decide : ∀ rule ∈ tokenRules, rule.pattern.lively = true) htext
  generalize longest tokenRules true text = found at hleads ⊢
  cases hleads with
  | token hpos _ hfirst _ => exact ⟨_, _, rfl, hpos, hfirst.known⟩
  | gap _ hunknown _ =>
    obtain ⟨c, cs, rfl⟩ := List.exists_cons_of_ne_nil htext
    exact absurd (known_singleton c) (hunknown 1 (by omega) (by simp))

/-- A starred line further on lies behind the first token. -/
theorem hasStarredLine_drop {n : Nat} (hfirst : ¬ StarredLine text)
    (hknown : Known (liveRules tokenRules) (text.take n)) : HasStarredLine (text.drop n) ↔ HasStarredLine text := by
  constructor
  · rintro ⟨before, rest, hdrop, hrest⟩
    exact ⟨text.take n ++ before, rest, by rw [List.append_assoc, ← hdrop, List.take_append_drop], hrest⟩
  rintro ⟨before, rest, rfl, hrest⟩
  rcases Nat.lt_or_ge before.length n with hlt | hge
  · exfalso
    cases before with
    | nil => exact hfirst hrest
    | cons b u =>
      cases rest with
      | nil => exact not_starredLine_nil hrest
      | cons d rest =>
        obtain ⟨k, rfl⟩ : ∃ k, n = u.length + (k + 1) + 1 := ⟨n - u.length - 2, by simp at hlt; omega⟩
        have htake : (b :: u ++ d :: rest).take (u.length + (k + 1) + 1) = b :: (u ++ d :: rest.take k) := by
          simp [List.take_append, List.take_of_length_le]
        rw [htake] at hknown
        obtain ⟨rfl, rfl, rfl⟩ := eq_return_of_known hknown ((starredLine_cons.1 hrest).elim And.left (.inr ·.1))
        exact hfirst (starredLine_cons.2 (.inr ⟨rfl, rest, rfl, by simpa [starredLine_cons] using hrest⟩))
  · exact ⟨before.drop n, rest, by rw [List.drop_append_of_le_length hge], hrest⟩

theorem hiddenKind_eq (kind : Kind) : hiddenKind tokenRules kind = false := by
  have hall : ∀ rule ∈ tokenRules, rule.hidden = false := by decide
  unfold hiddenKind
  split
  case h_1 rule hrule => rw [hall rule (List.mem_of_getElem? hrule), Bool.and_false]
  case h_2 => rfl

/-- From a place on the tokens make up the text, and a test that cannot be made matters for starred lines only. -/
theorem scanFrom_spec {fuel : Nat} (place : Place) (found : Nat) (hfuel : text.length < fuel) :
    (∃ tokens, scanFrom tokenRules true fuel place found text = ⟨tokens ++ [endToken (place.afterAll text)], [], false⟩ ∧
        (tokens.flatMap fun t => t.text.toList) = text ∧ ∀ t ∈ tokens, t.hidden = false) ∧
      (HasStarredLine text → (scanFrom tokenRules false fuel place found text).interrupted = true) ∧
      (¬ HasStarredLine text →
        scanFrom tokenRules false fuel place found text = scanFrom tokenRules true fuel place found text) := by
  induction fuel generalizing place found text with
  | zero => omega
  | succ fuel ih =>
    cases text with
    | nil =>
      refine ⟨⟨[], rfl, rfl, nofun⟩, fun ⟨before, rest, h, hrest⟩ => ?_, fun _ => rfl⟩
      exact absurd ((List.append_eq_nil_iff.1 h.symm).2 ▸ hrest) not_starredLine_nil
    | cons c cs =>
      obtain ⟨kind, n, hmatch, hpos, hknown⟩ := exists_token (List.cons_ne_nil c cs)
      have hrest : ((c :: cs).drop n).length < fuel := by
        simp only [List.length_drop, List.length_cons] at hfuel ⊢
        omega
      have hplace : (place.afterAll ((c :: cs).take n)).afterAll ((c :: cs).drop n) = place.afterAll (c :: cs) := by
        rw [Place.afterAll, Place.afterAll, ← List.foldl_append, List.take_append_drop, Place.afterAll]
      obtain ⟨⟨tokens, hscan, htokens, hseen⟩, hstarred, hplain⟩ := ih (place.afterAll ((c :: cs).take n)) (found + 1) hrest
      rw [scanFrom, scanFrom, longest_unprobed, hmatch]
      dsimp only
      refine ⟨⟨_ :: tokens, by rw [hscan, hplace]; rfl, ?_, List.forall_mem_cons.2 ⟨hiddenKind_eq kind, hseen⟩⟩,
        fun h => ?_, fun h => ?_⟩
      · rw [List.flatMap_cons, htokens, String.toList_ofList, List.take_append_drop]
      · split_ifs with hline
        · rfl
        · exact hstarred ((hasStarredLine_drop hline hknown).2 h)
      · have hline : ¬ StarredLine (c :: cs) := fun hline => h ⟨[], _, rfl, hline⟩
        rw [if_neg hline]
        simp only [hplain (mt (hasStarredLine_drop hline hknown).1 h)]

end Transcriber.DocComment

namespace Transcriber

open Transcriber.Lexical Transcriber.DocComment

/-- Scanning a documentation comment leaves nothing out: with the test behind the stars of a line break, no stretch of
the text is skipped and the tokens before the end make up the text.  Without it the scan breaks off exactly if some
line begins with a star, blanks and tabs aside, and finds the same tokens otherwise. -/
theorem javadoc_scan_lossless (text : String) :
    (∃ tokens, javadoc.scan true text = ⟨tokens ++ [endToken (Place.first.afterAll text.toList)], [], false⟩ ∧
        (tokens.flatMap fun t => t.text.toList) = text.toList) ∧
      ((javadoc.scan false text).interrupted = true ↔ HasStarredLine text.toList) ∧
      ((javadoc.scan false text).interrupted = false → javadoc.scan false text = javadoc.scan true text) := by
  obtain ⟨⟨tokens, hscan, htokens, -⟩, hstarred, hplain⟩ :=
    scanFrom_spec .first 0 (Nat.lt_succ_self text.toList.length)
  refine ⟨⟨tokens, hscan, htokens⟩, ⟨fun h => by_contra fun hnone => ?_, hstarred⟩, fun h => hplain fun hline => ?_⟩
  · have heq : javadoc.scan false text = _ := (hplain hnone).trans hscan
    rw [heq] at h
    cases h
  · exact Bool.noConfusion (h.symm.trans (hstarred hline))

end Transcriber
