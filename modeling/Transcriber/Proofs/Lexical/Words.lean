import Mathlib.Computability.Language
import Transcriber.Lexical.Pattern

/-!
# The words of a token pattern

`Pattern.words` is the meaning of a pattern as a language.  Reading a pattern one character at a time
follows that meaning: `step` takes the first character off the words, and `accepts` asks for the empty
one.  A pattern whose character sets all have members has words, and so has what is left of it after a
character, unless that is `never`; so a pattern is left over exactly as long as what was read begins one
of its words.

* `lively` — every set of the pattern has a member; `exists_mem_words`, `lively_step`.
-/

namespace Transcriber.Lexical

open Language

open scoped Computability

namespace Pattern

/-- The words of a pattern.  A test that can be carried out matches the empty word. -/
def words : Pattern → Language Char
  | .never => 0
  | .blank => 1
  | .chars set => {w | ∃ c, set.mem c = true ∧ w = [c]}
  | .seq p q => p.words * q.words
  | .alt p q => p.words + q.words
  | .star p => p.words∗
  | .probe => 1

variable {p q : Pattern} {c : Char} {w : List Char}

theorem mem_words_chars {set : CharSet} : w ∈ (chars set).words ↔ ∃ c, set.mem c = true ∧ w = [c] := Iff.rfl

theorem words_andThen (p q : Pattern) : (p.andThen q).words = p.words * q.words := by
  unfold andThen
  split <;> simp [words]

theorem words_orElse (p q : Pattern) : (p.orElse q).words = p.words + q.words := by
  unfold orElse
  split_ifs with hp hq
  · simp [hp, words]
  · rcases hq with rfl | rfl <;> simp [words]
  · rfl

/-- A pattern accepts at once exactly if the empty word is one of its words. -/
theorem accepts_iff : p.accepts = true ↔ [] ∈ p.words := by
  induction p with
  | never => simp [accepts, words]
  | blank => simp [accepts, words]
  | chars set => simp [accepts, mem_words_chars]
  | seq p q ihp ihq => simp [accepts, words, ihp, ihq, mem_mul]
  | alt p q ihp ihq => rw [accepts, Bool.or_eq_true, ihp, ihq, words, mem_add]
  | star p _ => simp [accepts, words, nil_mem_kstar]
  | probe => simp [accepts, words]

theorem cons_mem_mul {l m : Language Char} :
    c :: w ∈ l * m ↔ (∃ u v, c :: u ∈ l ∧ v ∈ m ∧ u ++ v = w) ∨ ([] ∈ l ∧ c :: w ∈ m) := by
  rw [mem_mul]
  constructor
  · rintro ⟨a, ha, b, hb, hab⟩
    cases a with
    | nil => exact .inr ⟨ha, by rwa [← hab]⟩
    | cons d a =>
      obtain ⟨rfl, rfl⟩ := List.cons.inj hab
      exact .inl ⟨a, b, ha, hb, rfl⟩
  · rintro (⟨u, v, hu, hv, rfl⟩ | ⟨hnil, hw⟩)
    · exact ⟨c :: u, hu, v, hv, rfl⟩
    · exact ⟨[], hnil, c :: w, hw, rfl⟩

theorem cons_mem_kstar {l : Language Char} : c :: w ∈ l∗ ↔ ∃ u v, c :: u ∈ l ∧ v ∈ l∗ ∧ u ++ v = w := by
  constructor
  · intro h
    obtain ⟨parts, hflat, hparts⟩ := mem_kstar_iff_exists_nonempty.1 h
    cases parts with
    | nil => simp at hflat
    | cons first rest =>
      obtain ⟨hfirst, hne⟩ := hparts first (.head _)
      cases first with
      | nil => exact absurd rfl hne
      | cons d u =>
        obtain ⟨rfl, rfl⟩ := List.cons.inj hflat
        refine ⟨u, rest.flatten, hfirst, ?_, rfl⟩
        exact join_mem_kstar fun y hy => (hparts y (.tail _ hy)).1
  · rintro ⟨u, v, hu, hv, rfl⟩
    rw [← one_add_self_mul_kstar_eq_kstar]
    exact .inr (append_mem_mul hu hv)

/-- What is left of a pattern after a character are the rests of its words that begin with it. -/
theorem mem_words_step : w ∈ (p.step c).words ↔ c :: w ∈ p.words := by
  induction p generalizing w with
  | never => simp [step, words]
  | blank => simp [step, words]
  | chars set =>
    rw [step, mem_words_chars]
    split_ifs with h
    · simp [words, h]
    · simp only [words, notMem_zero, List.cons.injEq, false_iff]
      rintro ⟨d, hd, rfl, -⟩
      exact h hd
  | seq p q ihp ihq =>
    have hfirst : w ∈ ((p.step c).andThen q).words ↔ ∃ u v, c :: u ∈ p.words ∧ v ∈ q.words ∧ u ++ v = w := by
      rw [words_andThen, mem_mul]
      simp only [ihp]
      constructor
      · rintro ⟨u, hu, v, hv, h⟩
        exact ⟨u, v, hu, hv, h⟩
      · rintro ⟨u, v, hu, hv, h⟩
        exact ⟨u, hu, v, hv, h⟩
    rw [words, cons_mem_mul, step]
    split_ifs with h
    · rw [words_orElse, mem_add, hfirst, ihq]
      simp [accepts_iff.1 h]
    · rw [hfirst]
      simp [mt accepts_iff.2 h]
  | alt p q ihp ihq => rw [step, words_orElse, words, mem_add, mem_add, ihp, ihq]
  | star p ih =>
    rw [step, words_andThen, words, cons_mem_kstar, mem_mul]
    constructor
    · rintro ⟨u, hu, v, hv, h⟩
      exact ⟨u, v, ih.1 hu, hv, h⟩
    · rintro ⟨u, v, hu, hv, h⟩
      exact ⟨u, ih.2 hu, v, hv, h⟩
  | probe => simp [step, words]

/-! ## Patterns without dead ends -/

/-- Whether every character set of the pattern is seen to have a member; `never` may only end a list of
alternatives. -/
def lively : Pattern → Bool
  | .never => false
  | .blank => true
  | .chars set => set.mem '0' || set.ranges.any fun range => set.mem range.1
  | .seq p q => p.lively && q.lively
  | .alt p q => p.lively && (q = .never || q.lively)
  | .star p => p.lively
  | .probe => true

theorem exists_mem_words (h : p.lively = true) : ∃ w, w ∈ p.words := by
  induction p with
  | never => simp [lively] at h
  | blank => exact ⟨[], rfl⟩
  | chars set =>
    rw [lively, Bool.or_eq_true, List.any_eq_true] at h
    rcases h with h | ⟨range, -, h⟩ <;> exact ⟨[_], _, h, rfl⟩
  | seq p q ihp ihq =>
    rw [lively, Bool.and_eq_true] at h
    obtain ⟨u, hu⟩ := ihp h.1
    obtain ⟨v, hv⟩ := ihq h.2
    exact ⟨u ++ v, append_mem_mul hu hv⟩
  | alt p q ihp _ =>
    rw [lively, Bool.and_eq_true] at h
    obtain ⟨u, hu⟩ := ihp h.1
    exact ⟨u, .inl hu⟩
  | star p _ => exact ⟨[], nil_mem_kstar _⟩
  | probe => exact ⟨[], rfl⟩

/-- Nothing is left, or a pattern without dead ends. -/
def LivelyOrNever (p : Pattern) : Prop := p = .never ∨ p.lively = true

theorem LivelyOrNever.andThen (hp : p.LivelyOrNever) (hq : q.lively = true) : (p.andThen q).LivelyOrNever := by
  rcases hp with rfl | hp
  · exact .inl rfl
  · refine .inr ?_
    unfold Pattern.andThen
    split <;> simp_all [lively]

theorem LivelyOrNever.orElse (hp : p.LivelyOrNever) (hq : q.LivelyOrNever) : (p.orElse q).LivelyOrNever := by
  unfold Pattern.orElse
  split_ifs with h h'
  · exact hq
  · exact hp
  · rw [not_or] at h'
    exact .inr (by simp [lively, hp.resolve_left h, hq.resolve_left h'.1])

theorem lively_step (h : p.lively = true) (c : Char) : (p.step c).LivelyOrNever := by
  induction p with
  | never => exact .inl rfl
  | blank => exact .inl rfl
  | chars set =>
    rw [step]
    split_ifs
    · exact .inr rfl
    · exact .inl rfl
  | seq p q ihp ihq =>
    rw [lively, Bool.and_eq_true] at h
    have hfirst := (ihp h.1).andThen h.2
    rw [step]
    split_ifs
    · exact hfirst.orElse (ihq h.2)
    · exact hfirst
  | alt p q ihp ihq =>
    rw [lively, Bool.and_eq_true, Bool.or_eq_true, decide_eq_true_iff] at h
    refine (ihp h.1).orElse ?_
    rcases h.2 with rfl | hq
    · exact .inl rfl
    · exact ihq hq
  | star p ih => exact (ih h).andThen h
  | probe => exact .inl rfl

end Pattern

end Transcriber.Lexical
