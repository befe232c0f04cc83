import Transcriber.Language
import Transcriber.Proofs.Lexical.Longest

/-!
# Tokens and gaps tile the text

Scanning cuts a text into stretches, each a token or a gap.  The stretches lie side by side from the
start of the text to its end, each stands where its text stands, and each is what the words of the rules
demand at its place.

* `java_scan_tiles` — the main statement, for the tokens of Java.
-/

namespace Transcriber.Lexical

/-- The place behind a text: its length, one more than the line feeds in it, and the number of
characters behind the last of them. -/
def locate (u : List Char) : Place :=
  ⟨u.length, 1 + u.count '\n', (u.reverse.takeWhile (· != '\n')).length⟩

theorem locate_concat (u : List Char) (c : Char) : locate (u ++ [c]) = (locate u).after c := by
  by_cases h : c = '\n' <;> simp [locate, Place.after, List.count_append, h, Nat.add_assoc]

theorem afterAll_locate (u v : List Char) : (locate u).afterAll v = locate (u ++ v) := by
  induction v generalizing u with
  | nil => simp [Place.afterAll]
  | cons c v ih =>
    have h := ih (u ++ [c])
    rw [locate_concat] at h
    simpa [Place.afterAll] using h

/-- A stretch of a text that was scanned. -/
inductive Stretch where
  | token (token : Token)
  | gap (gap : Gap)

namespace Stretch

def chars : Stretch → List Char
  | .token t => t.text.toList
  | .gap g => g.text

/-- Where a stretch starts. -/
def place : Stretch → Place
  | .token t => t.place
  | .gap g => g.place

def token? : Stretch → Option Token
  | .token t => some t
  | .gap _ => none

def gap? : Stretch → Option Gap
  | .token _ => none
  | .gap g => some g

/-- The stretch is what reading leads to where it stands; `found` tokens come before it, and `rest` is
the text behind it. -/
def IsRead (rules : List TokenRule) (found : Nat) (rest : List Char) : Stretch → Prop
  | .token t => Leads (liveRules rules) (t.text.toList ++ rest) (.token t.kind t.length) ∧
      t.length = t.text.toList.length ∧ t.hidden = hiddenKind rules t.kind
  | .gap g => Leads (liveRules rules) (g.text ++ rest) (.gap g.text.length) ∧ g.before = found

end Stretch

def textOf (parts : List Stretch) : List Char := parts.flatMap Stretch.chars

def tokensOf (parts : List Stretch) : List Token := parts.filterMap Stretch.token?

/-- A scan cuts the text behind `u` into stretches; `found` tokens come before it. -/
structure Tiling (rules : List TokenRule) (u : List Char) (found : Nat) (text : List Char) (scan : Scan)
    (parts : List Stretch) : Prop where
  /-- The scan went through to the end. -/
  finished : scan.interrupted = false
  /-- The tokens are those among the stretches, and the end. -/
  tokens : scan.tokens = tokensOf parts ++ [endToken (locate (u ++ text))]
  /-- The gaps are those among the stretches. -/
  gaps : scan.gaps = parts.filterMap Stretch.gap?
  /-- Nothing is left out, and nothing stands twice. -/
  covers : textOf parts = text
  /-- Each stretch has characters, stands where they stand, and is what the rules demand there. -/
  each : ∀ before part after, parts = before ++ part :: after →
    part.chars ≠ [] ∧ part.place = locate (u ++ textOf before) ∧
      part.IsRead rules (found + (tokensOf before).length) (textOf after)

variable {rules : List TokenRule} {probing : Bool}

/-- The stretches behind a first one, and the first one in front of them. -/
theorem each_cons {u : List Char} {found : Nat} {part : Stretch} {parts : List Stretch}
    (hchars : part.chars ≠ []) (hplace : part.place = locate u) (hread : part.IsRead rules found (textOf parts))
    (h : ∀ before next after, parts = before ++ next :: after →
      next.chars ≠ [] ∧ next.place = locate (u ++ part.chars ++ textOf before) ∧
        next.IsRead rules (found + (tokensOf [part]).length + (tokensOf before).length) (textOf after)) :
    ∀ before next after, part :: parts = before ++ next :: after →
      next.chars ≠ [] ∧ next.place = locate (u ++ textOf before) ∧
        next.IsRead rules (found + (tokensOf before).length) (textOf after) := by
  intro before next after hsplit
  cases before with
  | nil =>
    obtain ⟨rfl, rfl⟩ := List.cons.inj hsplit
    exact ⟨hchars, by simpa [textOf] using hplace, by simpa [tokensOf] using hread⟩
  | cons first before =>
    obtain ⟨rfl, hrest⟩ := List.cons.inj hsplit
    obtain ⟨hne, hat, hnext⟩ := h before next after hrest
    refine ⟨hne, by simpa [textOf] using hat, ?_⟩
    have hcount : (tokensOf (part :: before)).length = (tokensOf [part]).length + (tokensOf before).length := by
      rw [← List.length_append, tokensOf, tokensOf, tokensOf, ← List.filterMap_append]
      rfl
    rwa [hcount, ← Nat.add_assoc]

section Cons

variable {u rest : List Char} {found : Nat} {scan : Scan} {parts : List Stretch}

theorem Tiling.cons_token {t : Token} (hchars : t.text.toList ≠ []) (hplace : t.place = locate u)
    (hread : (Stretch.token t).IsRead rules found rest)
    (h : Tiling rules (u ++ t.text.toList) (found + 1) rest scan parts) :
    Tiling rules u found (t.text.toList ++ rest) { scan with tokens := t :: scan.tokens } (.token t :: parts) where
  finished := h.finished
  tokens := by simp [tokensOf, Stretch.token?, h.tokens]
  gaps := h.gaps
  covers := by simpa [textOf, Stretch.chars] using h.covers
  each := by
    have hrest : (Stretch.token t).IsRead rules found (textOf parts) := by rwa [h.covers]
    exact each_cons hchars hplace hrest h.each

theorem Tiling.cons_gap {g : Gap} (hchars : g.text ≠ []) (hplace : g.place = locate u)
    (hread : (Stretch.gap g).IsRead rules found rest) (h : Tiling rules (u ++ g.text) found rest scan parts) :
    Tiling rules u found (g.text ++ rest) { scan with gaps := g :: scan.gaps } (.gap g :: parts) where
  finished := h.finished
  tokens := by
    rw [h.tokens, List.append_assoc]
    rfl
  gaps := by simp [Stretch.gap?, h.gaps]
  covers := by simpa [textOf, Stretch.chars] using h.covers
  each := by
    have hrest : (Stretch.gap g).IsRead rules found (textOf parts) := by rwa [h.covers]
    exact each_cons hchars hplace hrest h.each

end Cons

/-- Every match takes something off the text, so the scan ends. -/
theorem scanFrom_tiles (hread : ∀ text, text ≠ [] → Leads (liveRules rules) text (longest rules probing text))
    {fuel : Nat} (u : List Char) (found : Nat) {text : List Char} (hfuel : text.length < fuel) :
    ∃ parts, Tiling rules u found text (scanFrom rules probing fuel (locate u) found text) parts := by
  induction fuel generalizing u found text with
  | zero => omega
  | succ fuel ih =>
    cases text with
    | nil =>
      refine ⟨[], rfl, by simp [scanFrom, tokensOf], rfl, rfl, ?_⟩
      intro before part after hsplit
      simp at hsplit
    | cons c cs =>
      have hleads := hread (c :: cs) (by simp)
      have hrest (n : Nat) (hn : 0 < n) : ((c :: cs).drop n).length < fuel := by
        simp only [List.length_drop, List.length_cons] at hfuel ⊢
        omega
      have hne (n : Nat) (hn : 0 < n) : (c :: cs).take n ≠ [] := by
        obtain ⟨n, rfl⟩ : ∃ m, n = m + 1 := ⟨n - 1, by omega⟩
        simp
      rw [scanFrom]
      cases hmatch : longest rules probing (c :: cs) with
      | stuck =>
        rw [hmatch] at hleads
        cases hleads
      | token kind n =>
        rw [hmatch] at hleads
        obtain ⟨hpos, hle⟩ : 0 < n ∧ n ≤ (c :: cs).length := by
          cases hleads with
          | token hpos hle _ _ => exact ⟨hpos, hle⟩
        have hlen : ((c :: cs).take n).length = n := List.length_take_of_le hle
        obtain ⟨parts, hparts⟩ := ih (u ++ (c :: cs).take n) (found + 1) (hrest n hpos)
        let t : Token := ⟨kind, String.ofList ((c :: cs).take n), locate u, ((c :: cs).take n).length,
          hiddenKind rules kind⟩
        have hchars : t.text.toList = (c :: cs).take n := String.toList_ofList
        have hread : (Stretch.token t).IsRead rules found ((c :: cs).drop n) := by
          refine ⟨?_, by rw [hchars], rfl⟩
          rw [hchars, List.take_append_drop]
          rwa [← hlen] at hleads
        have htiles := Tiling.cons_token (hchars ▸ hne n hpos) rfl hread (by rwa [hchars])
        rw [← afterAll_locate, hchars, List.take_append_drop] at htiles
        exact ⟨_, htiles⟩
      | gap n =>
        rw [hmatch] at hleads
        obtain ⟨hpos, hle⟩ : 0 < n ∧ n ≤ (c :: cs).length := by
          cases hleads with
          | gap hpos _ hpassed => exact ⟨hpos, hpassed.le⟩
        have hlen : ((c :: cs).take n).length = n := List.length_take_of_le hle
        obtain ⟨parts, hparts⟩ := ih (u ++ (c :: cs).take n) found (hrest n hpos)
        let g : Gap := ⟨(c :: cs).take n, locate u, found⟩
        have hread : (Stretch.gap g).IsRead rules found ((c :: cs).drop n) := by
          refine ⟨?_, rfl⟩
          rw [List.take_append_drop, hlen]
          exact hleads
        have htiles := Tiling.cons_gap (hne n hpos) rfl hread hparts
        rw [← afterAll_locate, List.take_append_drop] at htiles
        exact ⟨_, htiles⟩

/-- The scan of a text cuts it into stretches, if every pattern has a word and there are no tests or the
tests can be made. -/
theorem scan_tiles (hne : rules ≠ []) (hlively : ∀ rule ∈ rules, rule.pattern.lively = true)
    (htests : probing = true ∨ ∀ rule ∈ rules, rule.pattern.untested = true) (text : String) :
    ∃ parts, Tiling rules [] 0 text.toList (scan rules probing text) parts := by
  refine scanFrom_tiles (fun rest hrest => ?_) [] 0 (Nat.lt_succ_self _)
  have hleads := leads_longest hne hlively hrest
  rcases htests with rfl | hfree
  · exact hleads
  · rwa [longest_untested hfree]

namespace Tiling

variable {text : List Char} {scan : Scan} {parts : List Stretch}

variable {t : Token}

variable (h : Tiling rules [] 0 text scan parts)
include h

theorem exists_around (ht : t ∈ tokensOf parts) :
    ∃ u v, text = u ++ t.text.toList ++ v ∧ t.place = locate u ∧ t.length = t.text.toList.length := by
  obtain ⟨part, hpart, hsome⟩ := List.mem_filterMap.1 ht
  obtain ⟨before, after, hsplit⟩ := List.append_of_mem hpart
  obtain ⟨-, hplace, hread⟩ := h.each before part after hsplit
  cases part with
  | gap g => cases hsome
  | token t' =>
    cases hsome
    refine ⟨textOf before, textOf after, ?_, by simpa [Stretch.place] using hplace, hread.2.1⟩
    rw [← h.covers, hsplit]
    simp [textOf, Stretch.chars]

theorem place_eq (ht : t ∈ scan.tokens) : t.place = locate (text.take t.start) := by
  rw [h.tokens, List.mem_append, List.mem_singleton] at ht
  rcases ht with ht | rfl
  · obtain ⟨u, v, htext, hplace, -⟩ := h.exists_around ht
    have hstart : t.start = u.length := congrArg Place.offset hplace
    rw [hstart, htext, List.append_assoc, List.take_left, hplace]
  · simp [endToken, Token.start, locate]

theorem slice_eq (ht : t ∈ scan.tokens.dropLast) :
    t.text.toList = (text.take (t.stop + 1).toNat).drop t.start := by
  rw [h.tokens, List.dropLast_concat] at ht
  obtain ⟨u, v, htext, hplace, hlen⟩ := h.exists_around ht
  have hoffset : t.place.offset = u.length := congrArg Place.offset hplace
  have hstop : (t.stop + 1).toNat = (u ++ t.text.toList).length := by
    rw [List.length_append, ← hlen, ← hoffset, Token.stop]
    omega
  rw [hstop, htext, List.take_left, Token.start, hoffset, List.drop_left]

end Tiling

end Transcriber.Lexical

namespace Transcriber

open Transcriber.Lexical

/-- No pattern of Java has a dead end or a test. -/
theorem CompilationUnit.tokenRules_lively :
    ∀ rule ∈ CompilationUnit.tokenRules, rule.pattern.lively = true ∧ rule.pattern.untested = true := by
  decide +kernel

theorem exists_java_tiling (probing : Bool) (text : String) :
    ∃ parts, Tiling CompilationUnit.tokenRules [] 0 text.toList (java.scan probing text) parts :=
  scan_tiles (by decide) (fun rule hrule => (CompilationUnit.tokenRules_lively rule hrule).1)
    (.inr fun rule hrule => (CompilationUnit.tokenRules_lively rule hrule).2) text

/-- Scanning Java loses nothing and counts right: the tokens, hidden ones included, and the gaps cut the
text into stretches that lie side by side, each the longest match of the first rule or else skipped; every
token stands on the line and in the column where its text stands, and its text is the text between its ends;
and behind everything else stands the end, at the end of the text. -/
theorem java_scan_tiles (probing : Bool) (text : String) :
    (∃ parts, Tiling CompilationUnit.tokenRules [] 0 text.toList (java.scan probing text) parts) ∧
      (∀ t ∈ (java.scan probing text).tokens, t.place = locate (text.toList.take t.start)) ∧
      (∀ t ∈ (java.scan probing text).tokens.dropLast,
        t.text.toList = (text.toList.take (t.stop + 1).toNat).drop t.start) ∧
      (∃ last, (java.scan probing text).tokens.getLast? = some last ∧ last.kind = Kind.endOfText ∧
        last.start = text.length) := by
  obtain ⟨parts, h⟩ := exists_java_tiling probing text
  refine ⟨⟨parts, h⟩, fun t ht => h.place_eq ht, fun t ht => h.slice_eq ht, ?_⟩
  refine ⟨endToken (locate text.toList), by simp [h.tokens], rfl, ?_⟩
  exact String.length_toList

/-- A comment that is never closed is read to the end of the text before the slash is taken for itself. -/
example : ((java.scan true "/*\n\"a").tokens.map fun t => (t.text, t.place),
      (java.scan true "/*\n\"a").gaps.map fun g => (g.text, g.place)) =
    ([("/", ⟨0, 1, 0⟩), ("*", ⟨1, 1, 1⟩), ("\n", ⟨2, 1, 2⟩), ("<EOF>", ⟨5, 2, 2⟩)],
      [(['"', 'a'], ⟨3, 2, 0⟩)]) := by
  decide +kernel

end Transcriber
