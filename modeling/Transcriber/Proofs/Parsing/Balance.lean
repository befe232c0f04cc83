import Transcriber.Proofs.Parsing.Lookahead

/-!
# Balanced braces

The opening braces before a position, less the closing ones, are its height.  The brace that closes another
one stands where the height first falls back, so the shortest balanced beginning of a text ends there.

* `shortest?_eq_some_iff` — the shortest balanced beginning, from an opening brace on.
* `Closes.braces` — the pairs of braces from an opening brace to the one that closes it.
-/

namespace Transcriber.Grammar

open Transcriber.Lexical

/-- The kind of the token at a position; the end of the text stands behind all tokens. -/
def kindAt (kinds : List Kind) (p : Nat) : Kind := kinds.getD p Kind.endOfText

/-- As many closing as opening braces, with nothing else between them than texts. -/
def Balanced (kinds : List Kind) : Prop :=
  kinds ≠ [] ∧ (∀ kind ∈ kinds, kind ∈ textKinds ++ braceKinds) ∧
    kinds.count (kindNamed "BRACE_OPEN") = kinds.count (kindNamed "BRACE_CLOSE")
deriving Decidable

/-- The length of the shortest balanced beginning. -/
def shortest? (kinds : List Kind) : Option Nat :=
  (List.range (kinds.length + 1)).find? fun n => Balanced (kinds.take n)

theorem kindNamed_open : kindNamed "BRACE_OPEN" = 11 := by decide

theorem kindNamed_close : kindNamed "BRACE_CLOSE" = 12 := by decide

/-- How many braces are open before a position. -/
def height (kinds : List Kind) (p : Nat) : Int := (kinds.take p).count 11 - (kinds.take p).count 12

section Levels

variable {kinds : List Kind} {p q m : Nat}

theorem height_succ (kinds : List Kind) (p : Nat) : height kinds (p + 1) = height kinds p +
    if kindAt kinds p = 11 then 1 else if kindAt kinds p = 12 then -1 else 0 := by
  simp only [height, List.take_add_one, List.count_append, kindAt, List.getD_eq_getElem?_getD]
  cases kinds[p]? with
  | none => simp [Kind.endOfText]
  | some kind => by_cases h : kind = 11 <;> by_cases h' : kind = 12 <;> simp [h, h'] <;> omega

/-- From one position to another the braces are balanced. -/
structure Level (kinds : List Kind) (p q : Nat) : Prop where
  le : p ≤ q
  known : ∀ j, p ≤ j → j < q → kindAt kinds j ∈ textKinds ++ braceKinds
  above : ∀ j, p ≤ j → j ≤ q → height kinds p ≤ height kinds j
  level : height kinds q = height kinds p

/-- The brace at a position is closed by the one at another. -/
structure Closes (kinds : List Kind) (p m : Nat) : Prop where
  opens : kindAt kinds p = 11
  inside : Level kinds (p + 1) m
  closes : kindAt kinds m = 12

theorem Level.refl (kinds : List Kind) (p : Nat) : Level kinds p p where
  le := Nat.le_refl p
  known j := by omega
  above j h h' := Int.le_of_eq (by rw [Nat.le_antisymm h h'])
  level := rfl

theorem Level.trans (h : Level kinds p q) (h' : Level kinds q m) : Level kinds p m where
  le := Nat.le_trans h.le h'.le
  known j hj hj' := if hq : j < q then h.known j hj hq else h'.known j (by omega) hj'
  above j hj hj' := by
    by_cases hq : j ≤ q
    · exact h.above j hj hq
    · exact h.level ▸ h'.above j (by omega) hj'
  level := h'.level.trans h.level

theorem height_open (h : kindAt kinds p = 11) : height kinds (p + 1) = height kinds p + 1 := by
  rw [height_succ, if_pos h]

theorem height_close (h : kindAt kinds p = 12) : height kinds (p + 1) = height kinds p - 1 := by
  rw [height_succ, if_neg (by rw [h]; decide), if_pos h]
  rfl

theorem Level.of_text (h : kindAt kinds p ∈ textKinds) : Level kinds p (p + 1) := by
  have hheight : height kinds (p + 1) = height kinds p := by
    rw [height_succ]
    rw [textKinds_eq] at h
    generalize kindAt kinds p = kind at h ⊢
    rw [if_neg, if_neg, Int.add_zero]
    all_goals
      rintro rfl
      exact absurd h (by decide)
  refine ⟨Nat.le_succ p, fun j hj hj' => ?_, fun j hj hj' => ?_, hheight⟩
  · obtain rfl : j = p := by omega
    exact List.mem_append_left _ h
  · obtain rfl | rfl : j = p ∨ j = p + 1 := by omega
    · exact Int.le_refl _
    · exact Int.le_of_eq hheight.symm

/-- Braces with what they enclose. -/
theorem Closes.level (h : Closes kinds p m) : Level kinds p (m + 1) := by
  have hopen := height_open h.opens
  have hclose := height_close h.closes
  have hinside := h.inside
  refine ⟨by have := hinside.le; omega, fun j hj hj' => ?_, fun j hj hj' => ?_, ?_⟩
  · rw [List.mem_append, braceKinds_eq]
    by_cases hp : j = p
    · exact .inr (by rw [hp, h.opens]; decide)
    · by_cases hm : j = m
      · exact .inr (by rw [hm, h.closes]; decide)
      · exact braceKinds_eq ▸ List.mem_append.1 (hinside.known j (by omega) (by omega))
  · have := hinside.level
    obtain rfl | rfl | ⟨hj, hj'⟩ : j = p ∨ j = m + 1 ∨ p + 1 ≤ j ∧ j ≤ m := by omega
    · omega
    · omega
    · have := hinside.above j hj hj'
      omega
  · have := hinside.level
    omega

/-- What is balanced can be cut off before a closing brace. -/
theorem Level.rest (h : Level kinds p q) (hm : Level kinds p m) (hclose : kindAt kinds m = 12) :
    Level kinds q m := by
  have hle : q ≤ m := Nat.le_of_not_lt fun hlt => by
    have := h.above (m + 1) (by have := hm.le; omega) (by omega)
    have := height_close hclose
    have := hm.level
    omega
  have hp := h.le
  exact ⟨hle, fun j hj => hm.known j (by omega), fun j hj hj' => h.level ▸ hm.above j (by omega) hj',
    hm.level.trans h.level.symm⟩

/-- An opening brace is closed before its level is reached again. -/
theorem exists_closes (hopen : kindAt kinds p = 11) (hpq : p < q) (hlevel : height kinds q = height kinds p)
    (hknown : ∀ j, p ≤ j → j < q → kindAt kinds j ∈ textKinds ++ braceKinds) :
    ∃ m < q, Closes kinds p m := by
  have hup := height_open hopen
  -- Until the brace is closed, the level stays above the one before it.
  have hstays (n : Nat) (hn : p + 1 + n ≤ q) : (∃ m < p + 1 + n, Closes kinds p m) ∨
      ∀ j, p + 1 ≤ j → j ≤ p + 1 + n → height kinds (p + 1) ≤ height kinds j := by
    induction n with
    | zero => exact .inr fun j hj hj' => Int.le_of_eq (congrArg _ (by omega))
    | succ n ih =>
      obtain ⟨m, hm, hcloses⟩ | habove := ih (by omega)
      · exact .inl ⟨m, by omega, hcloses⟩
      have hstep := height_succ kinds (p + 1 + n)
      have hhere := habove (p + 1 + n) (by omega) (Nat.le_refl _)
      by_cases hdown : kindAt kinds (p + 1 + n) = 12 ∧ height kinds (p + 1 + n) = height kinds (p + 1)
      · exact .inl ⟨p + 1 + n, by omega, hopen,
          ⟨by omega, fun j hj hj' => hknown j (by omega) (by omega), habove, hdown.2⟩, hdown.1⟩
      · refine .inr fun j hj hj' => ?_
        by_cases hlast : j ≤ p + 1 + n
        · exact habove j hj hlast
        · obtain rfl : j = p + 1 + n + 1 := by omega
          split at hstep
          · omega
          split at hstep
          case isTrue hkind =>
            have hne : height kinds (p + 1 + n) ≠ height kinds (p + 1) := fun h => hdown ⟨hkind, h⟩
            omega
          case isFalse => omega
  obtain ⟨m, hm, hcloses⟩ | habove := hstays (q - (p + 1)) (by omega)
  · exact ⟨m, by omega, hcloses⟩
  · have := habove q (by omega) (by omega)
    omega

/-! ### The shortest balanced beginning -/

theorem count_drop_take (kinds : List Kind) (p n : Nat) :
    (((kinds.drop p).take n).count 11 : Int) - ((kinds.drop p).take n).count 12 =
      height kinds (p + n) - height kinds p := by
  simp only [height, List.take_add, List.count_append]
  omega

theorem getElem?_known (h : kindAt kinds p ∈ textKinds ++ braceKinds) : kinds[p]? = some (kindAt kinds p) := by
  cases hp : kinds[p]? with
  | none => exact absurd (by simp [kindAt, hp]) (ne_endOfText _ h)
  | some kind => simp [kindAt, hp]

/-- Some tokens from a position on are balanced. -/
theorem balanced_iff {n : Nat} : Balanced ((kinds.drop p).take n) ∧ n ≤ (kinds.drop p).length ↔ 0 < n ∧
    (∀ j, p ≤ j → j < p + n → kindAt kinds j ∈ textKinds ++ braceKinds) ∧
      height kinds (p + n) = height kinds p := by
  have hcount := count_drop_take kinds p n
  rw [Balanced, kindNamed_open, kindNamed_close]
  constructor
  · rintro ⟨⟨hne, hknown, hsame⟩, hn⟩
    refine ⟨Nat.pos_of_ne_zero fun h => hne (by rw [h, List.take_zero]), fun j hj hj' => ?_, by omega⟩
    rw [List.length_drop] at hn
    have hlt : j < kinds.length := by omega
    have hget : ((kinds.drop p).take n)[j - p]? = kinds[j]? := by
      rw [List.getElem?_take_of_lt (by omega), List.getElem?_drop, Nat.add_sub_cancel' hj]
    rw [List.getElem?_eq_getElem hlt] at hget
    rw [kindAt, List.getD_eq_getElem?_getD, List.getElem?_eq_getElem hlt]
    exact hknown _ (List.mem_of_getElem? hget)
  · rintro ⟨hpos, hknown, hsame⟩
    have hlast := getElem?_known (hknown (p + n - 1) (by omega) (by omega))
    have hlt := (List.getElem?_eq_some_iff.1 hlast).1
    refine ⟨⟨?_, fun kind hkind => ?_, by omega⟩, by rw [List.length_drop]; omega⟩
    · rw [← List.length_pos_iff, List.length_take, List.length_drop]
      omega
    · obtain ⟨i, hi⟩ := List.mem_iff_getElem?.1 hkind
      have hin : i < n := by
        have := (List.getElem?_eq_some_iff.1 hi).1
        rw [List.length_take] at this
        omega
      rw [List.getElem?_take_of_lt hin, List.getElem?_drop] at hi
      have hk := hknown (p + i) (by omega) (by omega)
      rwa [kindAt, List.getD_eq_getElem?_getD, hi] at hk

theorem Closes.balanced (h : Closes kinds p m) :
    Balanced ((kinds.drop p).take (m + 1 - p)) ∧ m + 1 - p ≤ (kinds.drop p).length := by
  have hlevel := h.level
  rw [balanced_iff, Nat.add_sub_cancel' hlevel.le]
  exact ⟨Nat.sub_pos_of_lt (Nat.lt_of_lt_of_le (Nat.lt_succ_self p) (Nat.le_succ_of_le h.inside.le)),
    hlevel.known, hlevel.level⟩

/-- From an opening brace on, the shortest balanced beginning ends with the brace that closes it. -/
theorem shortest?_eq_some_iff (hopen : kindAt kinds p = 11) {n : Nat} :
    shortest? (kinds.drop p) = some n ↔ ∃ m, Closes kinds p m ∧ n = m + 1 - p := by
  simp only [shortest?, List.find?_range_eq_some, decide_eq_true_eq, List.mem_range, Nat.lt_succ_iff,
    Bool.not_eq_true', decide_eq_false_iff_not]
  constructor
  · rintro ⟨hbalanced, hn, hleast⟩
    obtain ⟨hpos, hknown, hlevel⟩ := balanced_iff.1 ⟨hbalanced, hn⟩
    obtain ⟨m, hm, hcloses⟩ := exists_closes hopen (by omega) hlevel hknown
    refine ⟨m, hcloses, ?_⟩
    have hge : n ≤ m + 1 - p := Nat.le_of_not_lt fun h => hleast _ h hcloses.balanced.1
    omega
  · rintro ⟨m, hcloses, rfl⟩
    refine ⟨hcloses.balanced.1, hcloses.balanced.2, fun k hk hbalanced => ?_⟩
    obtain ⟨hpos, -, hlevel⟩ := balanced_iff.1 ⟨hbalanced, Nat.le_trans (Nat.le_of_lt hk) hcloses.balanced.2⟩
    have := hcloses.inside.above (p + k) (by omega) (by omega)
    have := height_open hopen
    omega

theorem exists_balanced_iff (hopen : kindAt kinds 0 = 11) :
    (∃ n, Balanced (kinds.take n)) ↔ ∃ m, Closes kinds 0 m := by
  constructor
  · rintro ⟨n, hn⟩
    rw [List.take_eq_take_min] at hn
    obtain ⟨hpos, hknown, hlevel⟩ := balanced_iff (p := 0).1 ⟨hn, Nat.min_le_right _ _⟩
    rw [Nat.zero_add] at hknown hlevel
    obtain ⟨m, -, hm⟩ := exists_closes hopen hpos hlevel hknown
    exact ⟨m, hm⟩
  · rintro ⟨m, hm⟩
    exact ⟨m + 1, hm.balanced.1⟩

/-! ### Pairs of braces -/

/-- The opening braces from one position to another, each with the place of the brace that closes it. -/
def bracesBetween (kinds : List Kind) (p q : Nat) : List (Nat × Option Nat) :=
  (List.range' p (q - p)).filterMap fun i =>
    if kindAt kinds i = kindNamed "BRACE_OPEN" then some (i, (shortest? (kinds.drop i)).map (i + · - 1)) else none

theorem bracesBetween_append (hp : p ≤ q) (hq : q ≤ m) :
    bracesBetween kinds p q ++ bracesBetween kinds q m = bracesBetween kinds p m := by
  rw [bracesBetween, bracesBetween, bracesBetween, ← List.filterMap_append]
  congr 1
  obtain ⟨a, rfl⟩ := Nat.exists_eq_add_of_le hp
  obtain ⟨b, rfl⟩ := Nat.exists_eq_add_of_le hq
  rw [Nat.add_sub_cancel_left, Nat.add_sub_cancel_left, Nat.add_assoc, Nat.add_sub_cancel_left]
  simp

theorem bracesBetween_one (h : kindAt kinds p ≠ 11) : bracesBetween kinds p (p + 1) = [] := by
  simp [bracesBetween, kindNamed_open, h]

theorem bracesBetween_self : bracesBetween kinds p p = [] := by
  simp [bracesBetween]

theorem Closes.braces (h : Closes kinds p m) :
    bracesBetween kinds p (m + 1) = (p, some m) :: bracesBetween kinds (p + 1) m := by
  have hle := h.inside.le
  have hmate : shortest? (kinds.drop p) = some (m + 1 - p) := (shortest?_eq_some_iff h.opens).2 ⟨m, h, rfl⟩
  have hlast : bracesBetween kinds m (m + 1) = [] := bracesBetween_one (by rw [h.closes]; decide)
  have hfirst : bracesBetween kinds p (p + 1) = [(p, some m)] := by
    simp only [bracesBetween, kindNamed_open, Nat.add_sub_cancel_left, List.range'_one, List.filterMap_cons, h.opens,
      if_true, hmate, List.filterMap_nil, Option.map_some]
    congr 3
    omega
  rw [← bracesBetween_append (Nat.le_succ p) (by omega), ← bracesBetween_append hle (Nat.le_succ m), hlast, hfirst,
    List.append_nil]
  rfl

end Levels

end Transcriber.Grammar
