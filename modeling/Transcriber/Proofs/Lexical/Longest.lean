import Transcriber.Lexical.Scan
import Transcriber.Proofs.Lexical.Words

/-!
# The longest match

What `longestFrom` finds is said without its loop.  `Leads` looks at the words of the rules alone: the
longest prefix of the text that is a word of some rule is the token, and the first rule that has this
word names it; where no prefix is a word, the gap is as much of the text as begins a word, and the
character that ended all hope.

The reading runs ahead of the last match.  The induction is on the text, with the patterns that are left
of the rules after each character; a match found earlier counts only if nothing longer is found later.

* `Known`, `Begun`, `FirstKnown` — words, beginnings of words, and who names a word.
* `longest_untested` — without tests inside the patterns it does not matter whether they can be made.
-/

namespace Transcriber.Lexical

open Pattern List

def Known (live : List (Kind × Pattern)) (w : List Char) : Prop := ∃ entry ∈ live, w ∈ entry.2.words

/-- Some pattern has a word that begins so. -/
def Begun (live : List (Kind × Pattern)) (u : List Char) : Prop := ∃ v, Known live (u ++ v)

def FirstKnown : List (Kind × Pattern) → List Char → Kind → Prop
  | [], _, _ => False
  | (kind', p) :: rest, w, kind => (w ∈ p.words ∧ kind = kind') ∨ (w ∉ p.words ∧ FirstKnown rest w kind)

/-- No prefix of the text but the empty one is a word. -/
def Unknown (live : List (Kind × Pattern)) (text : List Char) : Prop :=
  ∀ m, 0 < m → m ≤ text.length → ¬ Known live (text.take m)

/-- So many characters of the text are passed before it is clear that no word begins so, or before the
text ends. -/
structure Passed (live : List (Kind × Pattern)) (text : List Char) (n : Nat) : Prop where
  le : n ≤ text.length
  begun : ∀ m < n, Begun live (text.take m)
  ended : n = text.length ∨ ¬ Begun live (text.take n)

/-- What reading at the front of a text is to lead to. -/
inductive Leads (live : List (Kind × Pattern)) (text : List Char) : Match → Prop where
  /-- The longest word, named by the first pattern that has it. -/
  | token {kind : Kind} {n : Nat} (pos : 0 < n) (le : n ≤ text.length)
      (first : FirstKnown live (text.take n) kind)
      (longest : ∀ m, n < m → m ≤ text.length → ¬ Known live (text.take m)) :
      Leads live text (.token kind n)
  /-- No word at all. -/
  | gap {n : Nat} (pos : 0 < n) (unknown : Unknown live text) (passed : Passed live text n) :
      Leads live text (.gap n)

/-! ## One character -/

def stepAll (live : List (Kind × Pattern)) (c : Char) : List (Kind × Pattern) :=
  live.filterMap fun (kind, p) =>
    let q := p.step c
    if q = .never then none else some (kind, q)

variable {live : List (Kind × Pattern)} {c : Char} {w rest : List Char} {kind : Kind}

/-- The match that ends with the character just read, if there is one. -/
def completed (next : List (Kind × Pattern)) (count : Nat) : Option (Kind × Nat) :=
  (next.find? fun entry => entry.2.accepts).map fun entry => (entry.1, count)

theorem longestFrom_cons (probing : Bool) (count : Nat) (best : Option (Kind × Nat)) :
    longestFrom probing live (c :: rest) count best =
      if (stepAll live c).isEmpty then .ofBest best (count + 1)
      else if !probing && (stepAll live c).any (fun entry => entry.2.probes) then .stuck
      else longestFrom probing (stepAll live c) rest (count + 1)
        (completed (stepAll live c) (count + 1) <|> best) := by
  rw [longestFrom]
  rfl

theorem mem_stepAll {entry : Kind × Pattern} :
    entry ∈ stepAll live c ↔ ∃ p, (entry.1, p) ∈ live ∧ p.step c = entry.2 ∧ entry.2 ≠ .never := by
  obtain ⟨kind, q⟩ := entry
  simp only [stepAll, mem_filterMap, Prod.exists]
  constructor
  · rintro ⟨kind', p, hp, h⟩
    split_ifs at h with hnever
    cases h
    exact ⟨p, hp, rfl, hnever⟩
  · rintro ⟨p, hp, rfl, hnever⟩
    exact ⟨kind, p, hp, if_neg hnever⟩

theorem known_stepAll : Known (stepAll live c) w ↔ Known live (c :: w) := by
  constructor
  · rintro ⟨⟨kind, q⟩, hq, hw⟩
    obtain ⟨p, hp, rfl, -⟩ := mem_stepAll.1 hq
    exact ⟨(kind, p), hp, mem_words_step.1 hw⟩
  · rintro ⟨⟨kind, p⟩, hp, hw⟩
    have hstep := mem_words_step.2 hw
    refine ⟨(kind, p.step c), mem_stepAll.2 ⟨p, hp, rfl, fun hnever => ?_⟩, hstep⟩
    rw [show p.step c = .never from hnever] at hstep
    exact hstep

theorem begun_stepAll : Begun (stepAll live c) w ↔ Begun live (c :: w) :=
  exists_congr fun _ => known_stepAll

theorem firstKnown_stepAll : FirstKnown (stepAll live c) w kind ↔ FirstKnown live (c :: w) kind := by
  induction live with
  | nil => rfl
  | cons entry live ih =>
    obtain ⟨kind', p⟩ := entry
    by_cases hnever : p.step c = .never
    · have hw : c :: w ∉ p.words := by
        rw [← mem_words_step, hnever]
        exact id
      simpa [stepAll, hnever, FirstKnown, hw] using ih
    · have hcons : stepAll ((kind', p) :: live) c = (kind', p.step c) :: stepAll live c := by
        simp [stepAll, hnever]
      rw [hcons, FirstKnown, FirstKnown, ih, mem_words_step]

theorem lively_stepAll (h : ∀ entry ∈ live, entry.2.lively = true) :
    ∀ entry ∈ stepAll live c, entry.2.lively = true := by
  intro entry hentry
  obtain ⟨p, hp, hstep, hnever⟩ := mem_stepAll.1 hentry
  have hlively := lively_step (h _ hp) c
  rw [hstep] at hlively
  exact hlively.resolve_left hnever

/-- The empty word belongs to the pattern that accepts first. -/
theorem firstKnown_nil_of_find? {entry : Kind × Pattern}
    (h : (live.find? fun entry => entry.2.accepts) = some entry) : FirstKnown live [] entry.1 := by
  induction live with
  | nil => simp at h
  | cons first live ih =>
    obtain ⟨kind', p⟩ := first
    rw [List.find?_cons] at h
    split at h
    · next haccepts =>
        cases h
        exact .inl ⟨accepts_iff.1 haccepts, rfl⟩
    · next haccepts => exact .inr ⟨fun hnil => by simp [accepts_iff.2 hnil] at haccepts, ih h⟩

theorem not_known_nil_of_find? (h : (live.find? fun entry => entry.2.accepts) = none) : ¬ Known live [] := by
  rintro ⟨entry, hentry, hnil⟩
  simpa [accepts_iff.2 hnil] using List.find?_eq_none.1 h entry hentry

theorem begun_nil (hne : live ≠ []) (h : ∀ entry ∈ live, entry.2.lively = true) : Begun live [] := by
  obtain ⟨entry, hentry⟩ := exists_mem_of_ne_nil live hne
  obtain ⟨w, hw⟩ := exists_mem_words (h entry hentry)
  exact ⟨w, entry, hentry, hw⟩

/-! ## The whole reading -/

theorem Unknown.cons (h : Unknown (stepAll live c) rest) (hone : ¬ Known live [c]) : Unknown live (c :: rest) := by
  intro m hm hle
  obtain ⟨m, rfl⟩ : ∃ n, m = n + 1 := ⟨m - 1, by omega⟩
  rw [take_succ_cons, ← known_stepAll]
  rcases Nat.eq_zero_or_pos m with rfl | hpos
  · rw [known_stepAll]
    exact hone
  · exact h m hpos (by simpa using hle)

theorem Passed.cons {n : Nat} (h : Passed (stepAll live c) rest n) (hnil : Begun live []) :
    Passed live (c :: rest) (n + 1) where
  le := by simpa using h.le
  begun m hm := by
    cases m with
    | zero => exact hnil
    | succ m =>
      rw [take_succ_cons, ← begun_stepAll]
      exact h.begun m (by omega)
  ended := by
    rw [take_succ_cons, ← begun_stepAll]
    exact h.ended.imp (by simp) id

theorem Leads.cons {n : Nat} (h : Leads (stepAll live c) rest (.token kind n)) :
    Leads live (c :: rest) (.token kind (n + 1)) := by
  cases h with
  | token hpos hle hfirst hlongest =>
    refine .token (by omega) (by simpa using hle) ?_ fun m hm hle' => ?_
    · rw [take_succ_cons]
      exact firstKnown_stepAll.1 hfirst
    · obtain ⟨m, rfl⟩ : ∃ k, m = k + 1 := ⟨m - 1, by omega⟩
      rw [take_succ_cons, ← known_stepAll]
      exact hlongest m (by omega) (by simpa using hle')

/-- Reading on finds a longer word, or falls back on the best match so far. -/
theorem longestFrom_spec (hne : live ≠ []) (hlively : ∀ entry ∈ live, entry.2.lively = true)
    (text : List Char) (count : Nat) (best : Option (Kind × Nat)) :
    (∃ kind n, Leads live text (.token kind n) ∧
        longestFrom true live text count best = .token kind (count + n)) ∨
      (∃ n, Unknown live text ∧ Passed live text n ∧
        longestFrom true live text count best = .ofBest best (count + n)) := by
  induction text generalizing live count best with
  | nil =>
    refine .inr ⟨0, fun m hm hle => ?_, ⟨Nat.le_refl _, fun m hm => ?_, .inl rfl⟩, by simp [longestFrom]⟩
    · exact absurd hle (by simp; omega)
    · omega
  | cons c rest ih =>
    have hnil := begun_nil hne hlively
    rw [longestFrom_cons, Bool.not_true, Bool.false_and, if_neg (Bool.false_ne_true)]
    by_cases hempty : stepAll live c = []
    · -- No pattern is left: the character is the one that ended all hope.
      have hdead : ¬ Begun live [c] := by
        rw [← begun_stepAll, hempty]
        rintro ⟨v, entry, hentry, -⟩
        cases hentry
      refine .inr ⟨1, ?_, ⟨by simp, fun m hm => ?_, .inr (by simpa using hdead)⟩, by simp [hempty]⟩
      · intro m hm hle hknown
        obtain ⟨m, rfl⟩ : ∃ n, m = n + 1 := ⟨m - 1, by omega⟩
        exact hdead ⟨rest.take m, hknown⟩
      · obtain rfl : m = 0 := by omega
        exact hnil
    rw [if_neg (by simpa using hempty)]
    rw [completed]
    cases hfound : (stepAll live c).find? fun entry => entry.2.accepts with
    | some entry =>
      -- The character completes a word, which counts unless a longer one is found.
      rcases ih hempty (lively_stepAll hlively) (count + 1) (some (entry.1, count + 1)) with
        ⟨kind, n, hleads, hrun⟩ | ⟨n, hunknown, -, hrun⟩
      · exact .inl ⟨kind, n + 1, hleads.cons, by simpa [Nat.add_comm, Nat.add_left_comm] using hrun⟩
      · refine .inl ⟨entry.1, 1, .token (by omega) (by simp) ?_ fun m hm hle => ?_, hrun⟩
        · exact firstKnown_stepAll.1 (firstKnown_nil_of_find? hfound)
        · obtain ⟨m, rfl⟩ : ∃ k, m = k + 1 := ⟨m - 1, by omega⟩
          rw [take_succ_cons, ← known_stepAll]
          exact hunknown m (by omega) (by simpa using hle)
    | none =>
      rcases ih hempty (lively_stepAll hlively) (count + 1) best with
        ⟨kind, n, hleads, hrun⟩ | ⟨n, hunknown, hpassed, hrun⟩
      · exact .inl ⟨kind, n + 1, hleads.cons, by simpa [Nat.add_comm, Nat.add_left_comm] using hrun⟩
      · refine .inr ⟨n + 1, hunknown.cons ?_, hpassed.cons hnil, ?_⟩
        · rw [← known_stepAll]
          exact not_known_nil_of_find? hfound
        · simpa [Nat.add_comm, Nat.add_left_comm] using hrun

/-- The longest match at the front of a text is what the words of the rules say. -/
theorem leads_longest {rules : List TokenRule} (hne : rules ≠ [])
    (hlively : ∀ rule ∈ rules, rule.pattern.lively = true) {text : List Char} (htext : text ≠ []) :
    Leads (liveRules rules) text (longest rules true text) := by
  have hlive : ∀ entry ∈ liveRules rules, entry.2.lively = true := by
    intro entry hentry
    obtain ⟨⟨rule, index⟩, hrule, rfl⟩ := mem_map.1 hentry
    exact hlively rule (mem_of_getElem? (mem_zipIdx_iff_getElem?.1 hrule))
  have hne' : liveRules rules ≠ [] := by simpa [liveRules] using hne
  rcases longestFrom_spec hne' hlive text 0 none with ⟨kind, n, hleads, hrun⟩ | ⟨n, hunknown, hpassed, hrun⟩
  · rw [longest, hrun, Nat.zero_add]
    exact hleads
  · rw [longest, hrun, Nat.zero_add]
    refine .gap (Nat.pos_of_ne_zero ?_) hunknown hpassed
    rintro rfl
    rcases hpassed.ended with h | h
    · exact htext (length_eq_zero_iff.1 h.symm)
    · exact h (begun_nil hne' hlive)

/-! ## Tests inside patterns -/

/-- Whether no test stands anywhere in the pattern. -/
def Pattern.untested : Pattern → Bool
  | .seq p q => p.untested && q.untested
  | .alt p q => p.untested && q.untested
  | .star p => p.untested
  | .probe => false
  | _ => true

variable {p : Pattern}

theorem Pattern.probes_of_untested (h : p.untested = true) : p.probes = false := by
  induction p with
  | seq p q ihp ihq =>
    rw [untested, Bool.and_eq_true] at h
    simp [probes, ihp h.1, ihq h.2]
  | alt p q ihp ihq =>
    rw [untested, Bool.and_eq_true] at h
    simp [probes, ihp h.1, ihq h.2]
  | star p ih => exact ih h
  | probe => simp [untested] at h
  | _ => rfl

theorem Pattern.untested_andThen {q : Pattern} (hp : p.untested = true) (hq : q.untested = true) :
    (p.andThen q).untested = true := by
  unfold andThen
  split <;> simp_all [untested]

theorem Pattern.untested_orElse {q : Pattern} (hp : p.untested = true) (hq : q.untested = true) :
    (p.orElse q).untested = true := by
  unfold orElse
  split_ifs <;> simp_all [untested]

theorem Pattern.untested_step (h : p.untested = true) (c : Char) : (p.step c).untested = true := by
  induction p with
  | chars set =>
    rw [step]
    split_ifs <;> rfl
  | seq p q ihp ihq =>
    rw [untested, Bool.and_eq_true] at h
    rw [step]
    split_ifs
    · exact untested_orElse (untested_andThen (ihp h.1) h.2) (ihq h.2)
    · exact untested_andThen (ihp h.1) h.2
  | alt p q ihp ihq =>
    rw [untested, Bool.and_eq_true] at h
    exact untested_orElse (ihp h.1) (ihq h.2)
  | star p ih => exact untested_andThen (ih h) h
  | _ => rfl

theorem longestFrom_untested (h : ∀ entry ∈ live, entry.2.untested = true) (probing : Bool) (text : List Char)
    (count : Nat) (best : Option (Kind × Nat)) :
    longestFrom probing live text count best = longestFrom true live text count best := by
  induction text generalizing live count best with
  | nil => rfl
  | cons c rest ih =>
    have hnext : ∀ entry ∈ stepAll live c, entry.2.untested = true := by
      intro entry hentry
      obtain ⟨p, hp, hstep, -⟩ := mem_stepAll.1 hentry
      exact hstep ▸ untested_step (h _ hp) c
    have hprobes : ((stepAll live c).any fun entry => entry.2.probes) = false :=
      any_eq_false.2 fun entry hentry => by simp [probes_of_untested (hnext entry hentry)]
    rw [longestFrom_cons, longestFrom_cons, hprobes, Bool.and_false, Bool.and_false]
    simp only [Bool.false_eq_true, if_false]
    rw [ih hnext]

theorem longest_untested {rules : List TokenRule} (h : ∀ rule ∈ rules, rule.pattern.untested = true)
    (probing : Bool) (text : List Char) : longest rules probing text = longest rules true text := by
  refine longestFrom_untested (fun entry hentry => ?_) probing text 0 none
  obtain ⟨⟨rule, index⟩, hrule, rfl⟩ := mem_map.1 hentry
  exact h rule (mem_of_getElem? (mem_zipIdx_iff_getElem?.1 hrule))

end Transcriber.Lexical
