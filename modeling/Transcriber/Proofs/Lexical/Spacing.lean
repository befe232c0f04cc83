import Transcriber.Proofs.Lexical.Apart

/-!
# Layout does not matter

The visible tokens of a text can be written side by side with single spaces, and are then scanned to the
same kinds and texts.  A parser sees nothing else, so it reads both texts alike.

* `scanFrom_spaced` — tokens with spaces between them are scanned one by one.
* `java_parse_respaced` — the main statement.
-/

namespace Transcriber

open Transcriber.Lexical Transcriber.CompilationUnit List

/-- The visible tokens of a scan but its end, written side by side with single spaces. -/
def Lexical.Scan.respaced (s : Scan) : String :=
  " ".intercalate ((s.tokens.dropLast.filter fun t => !t.hidden).map Token.text)

/-- A text and the kind of visible token that it is by itself. -/
structure Spelled (kind : Kind) (w : List Char) : Prop where
  ne_nil : w ≠ []
  first : FirstKnown (liveRules tokenRules) w kind
  shown : hiddenKind tokenRules kind = false

variable {kind : Kind} {w text : List Char}

theorem Spelled.visible (h : Spelled kind w) : Visible w := by
  obtain ⟨rule, hrule, hw, hhidden⟩ := h.first.exists_rule
  exact ⟨rule, hrule, hhidden ▸ h.shown, hw⟩

theorem leads_java_longest (probing : Bool) (htext : text ≠ []) :
    Leads (liveRules tokenRules) text (longest tokenRules probing text) := by
  rw [longest_untested fun rule hrule => (tokenRules_lively rule hrule).2]
  exact leads_longest (by decide) (fun rule hrule => (tokenRules_lively rule hrule).1) htext

/-- A token before a space, or before the end, is read as it is by itself. -/
theorem longest_spelled (probing : Bool) {rest : List Char} (h : Spelled kind w)
    (hrest : rest = [] ∨ ∃ v, rest = ' ' :: v) :
    longest tokenRules probing (w ++ rest) = .token kind w.length := by
  refine (leads_java_longest probing (by simp [h.ne_nil])).eq_token (.token ?_ (by simp) ?_ ?_)
  · exact length_pos_iff.2 h.ne_nil
  · rw [take_left]
    exact h.first
  · intro m hm hle
    rcases hrest with rfl | ⟨v, rfl⟩
    · simp at hle
      omega
    · obtain ⟨k, rfl⟩ : ∃ k, m = w.length + (k + 1) := ⟨m - w.length - 1, by omega⟩
      rw [take_length_add_append, take_succ_cons]
      exact not_known_spaced h.visible h.ne_nil

theorem longest_space (probing : Bool) {c : Char} {t : List Char} (ht : Visible (c :: t)) (v : List Char) :
    ∃ kind, hiddenKind tokenRules kind = true ∧
      longest tokenRules probing (' ' :: c :: v) = .token kind 1 := by
  have hknown : Known (liveRules tokenRules) [' '] := by
    obtain ⟨rule, hrule, haccepts⟩ : ∃ rule ∈ tokenRules, (rule.pattern.step ' ').accepts = true := by decide +kernel
    exact known_liveRules.2 ⟨rule, hrule, Pattern.mem_words_step.1 (Pattern.accepts_iff.1 haccepts)⟩
  obtain ⟨kind, hfirst⟩ := hknown.exists_first
  obtain ⟨rule, hrule, hw, hhidden⟩ := hfirst.exists_rule
  refine ⟨kind, ?_, (leads_java_longest probing (by simp)).eq_token (.token (by omega) (by simp) hfirst ?_)⟩
  · by_contra hshown
    rw [hhidden, Bool.not_eq_true] at hshown
    exact Visible.head_notMem ⟨rule, hrule, hshown, hw⟩ (by decide)
  · intro m hm hle
    obtain ⟨k, rfl⟩ : ∃ k, m = k + 2 := ⟨m - 2, by omega⟩
    exact not_known_space ht

theorem scanFrom_token {rules : List TokenRule} {probing : Bool} {n : Nat}
    (hne : text ≠ []) (h : longest rules probing text = .token kind n) (fuel : Nat) (place : Place) (found : Nat) :
    scanFrom rules probing (fuel + 1) place found text =
      let rest := scanFrom rules probing fuel (place.afterAll (text.take n)) (found + 1) (text.drop n)
      ⟨⟨kind, String.ofList (text.take n), place, (text.take n).length, hiddenKind rules kind⟩ :: rest.tokens,
        rest.gaps, rest.interrupted⟩ := by
  obtain ⟨c, cs, rfl⟩ := exists_cons_of_ne_nil hne
  rw [scanFrom, h]

theorem terminals_cons (t : Token) (ts : List Token) : SourceLanguage.terminals (t :: ts) =
    if t.hidden then SourceLanguage.terminals ts else ⟨t.kind, t.text⟩ :: SourceLanguage.terminals ts := by
  cases h : t.hidden <;> simp [SourceLanguage.terminals, h]

def endTerminal : Grammar.Terminal := ⟨Kind.endOfText, "<EOF>"⟩

theorem scanFrom_nil (rules : List TokenRule) (probing : Bool) (fuel : Nat) (place : Place) (found : Nat) :
    scanFrom rules probing fuel place found [] = ⟨[endToken place], [], false⟩ := by
  cases fuel <;> rfl

/-- A token in front of a text that goes on with a space, or ends. -/
theorem scanFrom_spelled (probing : Bool) {rest : List Char} (h : Spelled kind w)
    (hrest : rest = [] ∨ ∃ v, rest = ' ' :: v) (fuel : Nat) (place : Place) (found : Nat) :
    ∃ place', (scanFrom tokenRules probing (fuel + 1) place found (w ++ rest)).gaps
        = (scanFrom tokenRules probing fuel place' (found + 1) rest).gaps ∧
      SourceLanguage.terminals (scanFrom tokenRules probing (fuel + 1) place found (w ++ rest)).tokens
        = ⟨kind, String.ofList w⟩ ::
          SourceLanguage.terminals (scanFrom tokenRules probing fuel place' (found + 1) rest).tokens := by
  refine ⟨place.afterAll w, ?_⟩
  rw [scanFrom_token (by simp [h.ne_nil]) (longest_spelled probing h hrest), take_left, drop_left]
  refine ⟨rfl, ?_⟩
  rw [terminals_cons, if_neg (by simp [h.shown])]

theorem scanFrom_spaced (probing : Bool) (ts : List (Kind × List Char)) (hts : ∀ t ∈ ts, Spelled t.1 t.2)
    {fuel : Nat} (place : Place) (found : Nat)
    (hfuel : (List.intercalate [' '] (ts.map Prod.snd)).length < fuel) :
    (scanFrom tokenRules probing fuel place found (List.intercalate [' '] (ts.map Prod.snd))).gaps = [] ∧
      SourceLanguage.terminals
          (scanFrom tokenRules probing fuel place found (List.intercalate [' '] (ts.map Prod.snd))).tokens
        = ts.map (fun t => ⟨t.1, String.ofList t.2⟩) ++ [endTerminal] := by
  induction ts generalizing fuel place found with
  | nil =>
    rw [map_nil, intercalate_nil, scanFrom_nil]
    exact ⟨rfl, rfl⟩
  | cons t ts ih =>
    have ht := hts t (.head _)
    replace hts := fun t' ht' => hts t' (.tail _ ht')
    cases ts with
    | nil =>
      obtain ⟨fuel, rfl⟩ : ∃ n, fuel = n + 1 := ⟨fuel - 1, by omega⟩
      obtain ⟨place', hgaps, htokens⟩ := scanFrom_spelled probing ht (.inl rfl) fuel place found
      rw [append_nil, scanFrom_nil] at hgaps htokens
      simp only [map_cons, map_nil, intercalate_singleton]
      exact ⟨hgaps, htokens⟩
    | cons t' ts =>
      have htext : List.intercalate [' '] ((t :: t' :: ts).map Prod.snd)
          = t.2 ++ ' ' :: List.intercalate [' '] ((t' :: ts).map Prod.snd) := by
        simp only [map_cons, intercalate_cons_cons, append_assoc, singleton_append]
      have hpos := length_pos_iff.2 ht.ne_nil
      rw [htext] at hfuel ⊢
      rw [length_append, length_cons] at hfuel
      obtain ⟨fuel, rfl⟩ : ∃ n, fuel = n + 2 := ⟨fuel - 2, by omega⟩
      obtain ⟨place', hgaps, htokens⟩ := scanFrom_spelled probing ht (.inr ⟨_, rfl⟩) (fuel + 1) place found
      rw [hgaps, htokens]
      -- The space is a hidden token, as the next token does not begin with a blank.
      obtain ⟨c, cs, ht'⟩ := exists_cons_of_ne_nil (hts t' (.head _)).ne_nil
      have hvisible : Visible (c :: cs) := ht' ▸ (hts t' (.head _)).visible
      obtain ⟨v, hv⟩ : ∃ v, List.intercalate [' '] ((t' :: ts).map Prod.snd) = c :: v := by
        cases ts with
        | nil => exact ⟨cs, by simpa using ht'⟩
        | cons t'' ts => exact ⟨_, by
            rw [map_cons, map_cons, intercalate_cons_cons, ht', cons_append, cons_append]⟩
      obtain ⟨kind, hhidden, hspace⟩ := longest_space probing hvisible v
      rw [← hv] at hspace
      rw [scanFrom_token (by simp) hspace, terminals_cons, if_pos hhidden]
      obtain ⟨hrest, hterminals⟩ := ih hts (place'.afterAll ([' '])) (found + 1 + 1) (show _ < fuel by omega)
      exact ⟨hrest, congrArg (_ :: ·) hterminals⟩

/-- Each visible token of a text is of its kind by itself. -/
theorem spelled_of_tiling {s : Scan} {parts : List Stretch}
    (h : Tiling tokenRules [] 0 text s parts) {t : Token} (ht : t ∈ tokensOf parts) (hshown : t.hidden = false) :
    Spelled t.kind t.text.toList := by
  obtain ⟨part, hpart, hsome⟩ := mem_filterMap.1 ht
  obtain ⟨before, after, hsplit⟩ := append_of_mem hpart
  obtain ⟨hne, -, hread⟩ := h.each before part after hsplit
  cases part with
  | gap g => cases hsome
  | token t' =>
    cases hsome
    obtain ⟨hleads, hlen, hhidden⟩ := hread
    refine ⟨hne, ?_, hhidden ▸ hshown⟩
    cases hleads with
    | token _ _ first _ =>
      rw [hlen, take_left] at first
      exact first

/-- Layout and comments do not matter: the visible tokens of a text, written side by side with single spaces,
are scanned without a gap to the same kinds and texts, and every rule reads both texts alike. -/
theorem java_parse_respaced (probing : Bool) (text : String) :
    (java.scan probing (java.scan probing text).respaced).gaps = [] ∧
      SourceLanguage.terminals (java.scan probing (java.scan probing text).respaced).tokens
        = SourceLanguage.terminals (java.scan probing text).tokens ∧
      ∀ (strict : Bool) (rule : Nat),
        (java.parse strict probing rule (java.scan probing text).respaced).outcome
          = (java.parse strict probing rule text).outcome := by
  obtain ⟨parts, h⟩ := exists_java_tiling probing text
  have hlast : (java.scan probing text).tokens.dropLast = tokensOf parts := by
    rw [h.tokens, List.dropLast_concat]
  generalize hshown : (tokensOf parts).filter (fun t => !t.hidden) = shown
  have hspelled : ∀ t ∈ shown.map (fun t => (t.kind, t.text.toList)), Spelled t.1 t.2 := by
    simp only [List.forall_mem_map, ← hshown, List.mem_filter]
    intro t ht
    exact spelled_of_tiling h ht.1 (by simpa using ht.2)
  have htext : (java.scan probing text).respaced.toList
      = List.intercalate [' '] ((shown.map fun t => (t.kind, t.text.toList)).map Prod.snd) := by
    rw [Scan.respaced, String.toList_intercalate, hlast, hshown, List.map_map, List.map_map]
    rfl
  obtain ⟨hgaps, hterminals⟩ := scanFrom_spaced probing _ hspelled .first 0 (Nat.lt_succ_self _)
  rw [← htext] at hgaps hterminals
  have hsame : SourceLanguage.terminals (java.scan probing (java.scan probing text).respaced).tokens
      = SourceLanguage.terminals (java.scan probing text).tokens := by
    refine hterminals.trans ?_
    rw [h.tokens, SourceLanguage.terminals, List.filter_append, hshown]
    simp [endTerminal, endToken]
  refine ⟨hgaps, hsame, fun strict rule => ?_⟩
  simp only [SourceLanguage.parse, hsame]

end Transcriber
