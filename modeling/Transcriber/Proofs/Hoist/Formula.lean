import Mathlib.Logic.Function.Basic
import Transcriber.Proofs.Expression.Derivable

/-!
# Steps inside formulas

Formulas over whole numbers may change variables while they are evaluated: a step adds one to a
variable or takes one away, before or after its value is used.  The output language has no such
steps, so they are done by commands before the formula is evaluated; where the old value is used, a
made up name keeps it.
-/

namespace Transcriber

open Reading Function List

/-! ## Formulas of the input language -/

/-- The operators of formulas. -/
inductive Arithmetic where
  | plus | minus | times
deriving DecidableEq, Repr

/-- The operator in its place among all operators. -/
def Arithmetic.toBinary : Arithmetic → Binary
  | .plus => .plus
  | .minus => .minus
  | .times => .times

def Arithmetic.apply : Arithmetic → Int → Int → Int
  | .plus, a, b => a + b
  | .minus, a, b => a - b
  | .times, a, b => a * b

/-- Formulas of the input language. -/
inductive Formula where
  | number (digits : String)
  | name (text : String)
  /-- One is added to a variable or taken away from it, before or after its value is used. -/
  | step (text : String) (before up : Bool)
  | binary (op : Arithmetic) (left right : Formula)
  | parenthesized (inner : Formula)
deriving DecidableEq, Repr

/-- The values of all variables in the input language. -/
abbrev Store := String → Int

/-- What a number in decimal digits stands for. -/
def decimal (digits : String) : Int := (Nat.ofDigitChars 10 digits.toList 0 : Nat)

def stepped (up : Bool) (value : Int) : Int := if up then value + 1 else value - 1

namespace Formula

/-- The value of a formula, and the values of all variables afterwards.  Operands are evaluated from
left to right. -/
def eval : Formula → Store → Int × Store
  | number digits, σ => (decimal digits, σ)
  | name text, σ => (σ text, σ)
  | step text before up, σ =>
    (if before then stepped up (σ text) else σ text, Function.update σ text (stepped up (σ text)))
  | binary op left right, σ =>
    (op.apply (left.eval σ).1 (right.eval (left.eval σ).2).1, (right.eval (left.eval σ).2).2)
  | parenthesized inner, σ => inner.eval σ

/-- The names of a formula, each as often as it occurs. -/
def names : Formula → List String
  | number _ => []
  | name text => [text]
  | step text _ _ => [text]
  | binary _ left right => left.names ++ right.names
  | parenthesized inner => inner.names

/-- The names whose values are changed. -/
def changed : Formula → List String
  | number _ => []
  | name _ => []
  | step text _ _ => [text]
  | binary _ left right => left.changed ++ right.changed
  | parenthesized inner => inner.changed

theorem changed_subset (f : Formula) : f.changed ⊆ f.names := by
  induction f with
  | number digits => exact List.Subset.refl _
  | name text => exact nil_subset _
  | step text before up => exact List.Subset.refl _
  | binary op left right ihl ihr =>
    exact append_subset.2 ⟨subset_append_of_subset_left _ ihl, subset_append_of_subset_right _ ihr⟩
  | parenthesized inner ih => exact ih

end Formula

/-! ## Commands of the output language -/

/-- The values of the variables that have one in the output language. -/
abbrev Memory := String → Option Int

/-- The value of operands under the operators of formulas; variables need to have one. -/
def Grouping.value (m : Memory) : Grouping → Option Int
  | .operand text => if IsDecimal text then some (decimal text) else m text
  | .unary .minus inner => (inner.value m).map fun a => -a
  | .unary .plus inner => inner.value m
  | .binary .plus left right => do return (← left.value m) + (← right.value m)
  | .binary .minus left right => do return (← left.value m) - (← right.value m)
  | .binary .times left right => do return (← left.value m) * (← right.value m)
  | _ => none

/-- A command: a variable gets a value. -/
structure Command where
  target : String
  value : Grouping
deriving DecidableEq, Repr

/-- Does what a command says, if the value is there. -/
def Command.run (c : Command) (m : Memory) : Option Memory :=
  (c.value.value m).map fun v => Function.update m c.target (some v)

/-- Does what commands say, one after the other. -/
def runAll (cs : List Command) (m : Memory) : Option Memory := cs.foldlM (fun m c => c.run m) m

variable {m : Memory} {low high : Nat} {text : String}

theorem runAll_append {cs ds : List Command} {m1 : Memory} (h : runAll cs m = some m1) :
    runAll (cs ++ ds) m = runAll ds m1 := by
  unfold runAll at h ⊢
  rw [foldlM_append, h]
  rfl

theorem runAll_singleton {c : Command} {m' : Memory} (h : c.run m = some m') : runAll [c] m = some m' := by
  unfold runAll
  rw [foldlM_cons, h]
  rfl

theorem get_of_runAll {cs : List Command} {m' : Memory} (h : runAll cs m = some m') {x : String}
    (hx : ∀ c ∈ cs, c.target ≠ x) : m' x = m x := by
  induction cs generalizing m with
  | nil =>
    cases h
    rfl
  | cons c cs ih =>
    unfold runAll at h
    rw [foldlM_cons, Option.bind_eq_bind, Option.bind_eq_some_iff] at h
    obtain ⟨m1, hrun, hrest⟩ := h
    rw [ih hrest fun d hd => hx d (.tail _ hd)]
    obtain ⟨v, -, rfl⟩ := Option.map_eq_some_iff.1 hrun
    exact update_of_ne (hx c (.head _)).symm _ _

/-! ## What is left of a formula without its steps -/

/-- Formulas of the output language, as they are written. -/
inductive Term where
  | word (text : String)
  | binary (op : Arithmetic) (left right : Term)
  | parenthesized (inner : Term)
deriving DecidableEq, Repr

namespace Term

/-- The words of a term. -/
def words : Term → List String
  | word text => [text]
  | binary _ left right => left.words ++ right.words
  | parenthesized inner => inner.words

/-- The operands of a term under their operators. -/
def grouping : Term → Grouping
  | word text => .operand text
  | binary op left right => .binary op.toBinary left.grouping right.grouping
  | parenthesized inner => inner.grouping

theorem value_binary {m : Memory} {op : Arithmetic} {left right : Term} {a b : Int}
    (hl : left.grouping.value m = some a) (hr : right.grouping.value m = some b) :
    (binary op left right).grouping.value m = some (op.apply a b) := by
  cases op <;> simp [grouping, Arithmetic.toBinary, Grouping.value, hl, hr, Arithmetic.apply]

theorem value_congr {m m' : Memory} {t : Term}
    (h : ∀ x ∈ t.words, ¬ IsDecimal x → m' x = m x) : t.grouping.value m' = t.grouping.value m := by
  induction t with
  | word text =>
    unfold grouping Grouping.value
    split
    · rfl
    · exact h text (mem_singleton_self text) ‹_›
  | binary op left right ihl ihr =>
    have hl := ihl fun x hx => h x (mem_append_left _ hx)
    have hr := ihr fun x hx => h x (mem_append_right _ hx)
    cases op <;> simp [grouping, Arithmetic.toBinary, Grouping.value, hl, hr]
  | parenthesized inner ih => exact ih h

end Term

/-! ## Made up names -/

def madeUpName (base : String) (count : Nat) : String := "__" ++ base ++ "_" ++ toString count

def IsMadeUp (text : String) : Prop := ∃ base count, text = madeUpName base count

theorem toList_madeUpName (base : String) (count : Nat) :
    (madeUpName base count).toList = '_' :: '_' :: base.toList ++ '_' :: Nat.toDigits 10 count := by
  have hdigits : (toString count).toList = Nat.toDigits 10 count := Nat.toList_repr
  unfold madeUpName
  simp only [String.toList_append, hdigits]
  simp

theorem madeUpName_inj {base base' : String} {count count' : Nat}
    (h : madeUpName base count = madeUpName base' count') : count = count' := by
  have hdigits : ∀ (text : List Char) (n : Nat),
      (text ++ '_' :: Nat.toDigits 10 n).reverse.takeWhile Char.isDigit = (Nat.toDigits 10 n).reverse := by
    intro text n
    rw [reverse_append, reverse_cons, append_assoc, takeWhile_append_of_pos,
      singleton_append, takeWhile_cons_of_neg (by decide), append_nil]
    exact fun c hc => Nat.isDigit_of_mem_toDigits (by decide) (by decide) (mem_reverse.1 hc)
  have hlists := congrArg String.toList h
  rw [toList_madeUpName, toList_madeUpName] at hlists
  have htails := congrArg (fun cs => cs.reverse.takeWhile Char.isDigit) hlists
  rw [hdigits, hdigits, reverse_inj] at htails
  rw [← Nat.ofDigitChars_ten_toDigits (n := count), htails, Nat.ofDigitChars_ten_toDigits]

/-- A name that is made up between two counts. -/
def MadeUpIn (low high : Nat) (text : String) : Prop :=
  ∃ base count, low ≤ count ∧ count < high ∧ text = madeUpName base count

theorem MadeUpIn.isMadeUp (h : MadeUpIn low high text) : IsMadeUp text := by
  obtain ⟨base, count, -, -, heq⟩ := h
  exact ⟨base, count, heq⟩

theorem MadeUpIn.mono {low' high' : Nat} (h : MadeUpIn low high text)
    (hlow : low' ≤ low) (hhigh : high ≤ high') : MadeUpIn low' high' text := by
  obtain ⟨base, count, hle, hlt, heq⟩ := h
  exact ⟨base, count, Nat.le_trans hlow hle, Nat.lt_of_lt_of_le hlt hhigh, heq⟩

theorem MadeUpIn.not_later {mid : Nat} (h : MadeUpIn low mid text) : ¬ MadeUpIn mid high text := by
  rintro ⟨base, count, hle, -, heq⟩
  obtain ⟨base', count', -, hlt, heq'⟩ := h
  have hcount := madeUpName_inj (heq.symm.trans heq')
  omega

/-! ## Names and numbers -/

def keywords : List String := reserved ++ ["None", "True", "False", "print", "exec"]

/-- A text that can be the name of a variable in both languages. -/
structure IsName (text : String) : Prop where
  ne_nil : text.toList ≠ []
  chars : ∀ c ∈ text.toList, c.isAlphanum = true ∨ c = '_'
  start : text.toList.head?.any Char.isDigit = false
  free : text ∉ keywords

instance (text : String) : Decidable (IsName text) :=
  decidable_of_iff (text.toList ≠ [] ∧ (∀ c ∈ text.toList, c.isAlphanum = true ∨ c = '_')
      ∧ text.toList.head?.any Char.isDigit = false ∧ text ∉ keywords)
    ⟨fun ⟨h1, h2, h3, h4⟩ => ⟨h1, h2, h3, h4⟩, fun ⟨h1, h2, h3, h4⟩ => ⟨h1, h2, h3, h4⟩⟩

theorem IsName.isOperand (h : IsName text) : IsOperand text :=
  .inl ⟨h.ne_nil, h.chars, h.start, fun hmem => h.free (mem_append_left _ hmem)⟩

theorem IsName.not_decimal (h : IsName text) : ¬ IsDecimal text := by
  rintro ⟨hne, hdigits, -⟩
  have hstart := h.start
  cases hlist : text.toList with
  | nil => exact hne hlist
  | cons c cs =>
    rw [hlist] at hstart hdigits
    rw [List.head?_cons, Option.any_some, hdigits c (.head _)] at hstart
    cases hstart

theorem isName_madeUpName {base : String} (h : IsName base) (count : Nat) :
    IsName (madeUpName base count) := by
  have hlist := toList_madeUpName base count
  refine ⟨?_, ?_, ?_, ?_⟩
  · rw [hlist]
    exact cons_ne_nil _ _
  · rw [hlist]
    intro c hc
    simp only [cons_append, mem_cons, mem_append] at hc
    rcases hc with rfl | rfl | hc | rfl | hc
    · exact .inr rfl
    · exact .inr rfl
    · exact h.chars c hc
    · exact .inr rfl
    · have hdigit := Nat.isDigit_of_mem_toDigits (by decide) (by decide) hc
      exact .inl (by simp [Char.isAlphanum, hdigit])
  · rw [hlist]
    rfl
  · -- No keyword begins with two underscores.
    have hkeywords : ∀ word ∈ keywords, word.toList.take 2 ≠ ['_', '_'] := by decide
    intro hmem
    refine hkeywords _ hmem ?_
    rw [hlist]
    rfl

namespace Formula

/-- The rule of the input language that a formula belongs to. -/
def rule : Formula → Nat
  | binary op _ _ => op.toBinary.rule
  | _ => primaryRule

/-- All names and numbers of a formula can be written, and there are parentheses where the rules need
them. -/
def WellFormed : Formula → Prop
  | number digits => IsDecimal digits
  | name text => IsName text
  | step text _ _ => IsName text
  | binary op left right =>
    op.toBinary.rule ≤ left.rule ∧ op.toBinary.rule + 1 ≤ right.rule ∧ left.WellFormed ∧ right.WellFormed
  | parenthesized inner => inner.WellFormed

instance decidableWellFormed : (f : Formula) → Decidable f.WellFormed
  | number digits => inferInstanceAs (Decidable (IsDecimal digits))
  | name text => inferInstanceAs (Decidable (IsName text))
  | step text _ _ => inferInstanceAs (Decidable (IsName text))
  | binary _ left right =>
    have := decidableWellFormed left
    have := decidableWellFormed right
    inferInstanceAs (Decidable (_ ∧ _ ∧ _ ∧ _))
  | parenthesized inner => decidableWellFormed inner

end Formula

/-! ## Hoisting -/

/-- A line of its own: an assignment, or a step. -/
inductive Deed where
  | assign (target : String) (value : Term)
  | step (text : String) (up : Bool)
deriving DecidableEq, Repr

def Deed.command : Deed → Command
  | assign target value => ⟨target, value.grouping⟩
  | step text up => ⟨text, .binary (if up then .plus else .minus) (.operand text) (.operand "1")⟩

/-- What becomes of a formula: lines before the one in which its value is used, what is left of it
there, and how many names have been made up in the end. -/
structure Hoisted where
  deeds : List Deed
  term : Term
  count : Nat
deriving Repr

/-- Takes the steps out of a formula. -/
def Formula.hoist : Formula → Nat → Hoisted
  | number digits, n => ⟨[], .word digits, n⟩
  | name text, n => ⟨[], .word text, n⟩
  | step text true up, n => ⟨[.step text up], .word text, n + 1⟩
  | step text false up, n =>
    ⟨[.assign (madeUpName text n) (.word text), .step text up], .word (madeUpName text n), n + 1⟩
  | binary op left right, n =>
    ⟨(left.hoist n).deeds ++ (right.hoist (left.hoist n).count).deeds,
      .binary op (left.hoist n).term (right.hoist (left.hoist n).count).term,
      (right.hoist (left.hoist n).count).count⟩
  | parenthesized inner, n => { inner.hoist n with term := .parenthesized (inner.hoist n).term }

namespace Formula

theorem le_count (f : Formula) (n : Nat) : n ≤ (f.hoist n).count := by
  induction f generalizing n with
  | number digits => exact Nat.le_refl n
  | name text => exact Nat.le_refl n
  | step text before up => cases before <;> exact Nat.le_succ n
  | binary op left right ihl ihr => exact Nat.le_trans (ihl n) (ihr _)
  | parenthesized inner ih => exact ih n

/-- The lines for the steps are about the variables that are changed and about new names. -/
theorem target_of_mem_deeds (f : Formula) (n : Nat) {d : Deed} (hd : d ∈ (f.hoist n).deeds) :
    d.command.target ∈ f.changed ∨ MadeUpIn n (f.hoist n).count d.command.target := by
  induction f generalizing n with
  | number digits => cases hd
  | name text => cases hd
  | step text before up =>
    cases before with
    | true =>
      cases mem_singleton.1 hd
      exact .inl (mem_singleton_self text)
    | false =>
      rcases mem_cons.1 hd with rfl | hd
      · exact .inr ⟨text, n, Nat.le_refl n, Nat.lt_succ_self n, rfl⟩
      · cases mem_singleton.1 hd
        exact .inl (mem_singleton_self text)
  | binary op left right ihl ihr =>
    rcases mem_append.1 hd with hd | hd
    · refine (ihl n hd).imp (mem_append_left _) fun h => ?_
      exact h.mono (Nat.le_refl n) (right.le_count _)
    · refine (ihr _ hd).imp (mem_append_right _) fun h => ?_
      exact h.mono (left.le_count n) (Nat.le_refl _)
  | parenthesized inner ih => exact ih n hd

/-- What is left of a formula has its names, its numbers and new names. -/
theorem word_of_mem_term {f : Formula} (hf : f.WellFormed) (n : Nat) {x : String}
    (hx : x ∈ (f.hoist n).term.words) :
    IsDecimal x ∨ x ∈ f.names ∨ MadeUpIn n (f.hoist n).count x := by
  induction f generalizing n with
  | number digits =>
    cases mem_singleton.1 hx
    exact .inl hf
  | name text => exact .inr (.inl hx)
  | step text before up =>
    cases before with
    | true => exact .inr (.inl hx)
    | false =>
      cases mem_singleton.1 hx
      exact .inr (.inr ⟨text, n, Nat.le_refl n, Nat.lt_succ_self n, rfl⟩)
  | binary op left right ihl ihr =>
    obtain ⟨-, -, hleft, hright⟩ := hf
    rcases mem_append.1 hx with hx | hx
    · refine (ihl hleft n hx).imp_right (Or.imp (mem_append_left _) fun h => ?_)
      exact h.mono (Nat.le_refl n) (right.le_count _)
    · refine (ihr hright _ hx).imp_right (Or.imp (mem_append_right _) fun h => ?_)
      exact h.mono (left.le_count n) (Nat.le_refl _)
  | parenthesized inner ih => exact ih hf n hx

end Formula

/-! ## The lines do what the formula does -/

/-- Both languages agree about the values of some variables. -/
def Agree (P : String → Prop) (σ : Store) (m : Memory) : Prop := ∀ x, P x → m x = some (σ x)

section

variable {P : String → Prop} {σ : Store} {x : String}

theorem Agree.update (h : Agree P σ m) (x : String) (v : Int) :
    Agree P (Function.update σ x v) (Function.update m x (some v)) := by
  intro y hy
  by_cases hyx : y = x
  · subst hyx
    rw [update_self, update_self]
  · rw [update_of_ne hyx, update_of_ne hyx]
    exact h y hy

/-- A new name is nothing that both languages agree about. -/
theorem Agree.update_new (h : Agree P σ m) (hx : ¬ P x) (v : Option Int) :
    Agree P σ (Function.update m x v) := by
  intro y hy
  have hyx : y ≠ x := fun hyx => hx (hyx ▸ hy)
  rw [update_of_ne hyx]
  exact h y hy

theorem value_name (hx : IsName x) (h : m x = some (σ x)) : (Grouping.operand x).value m = some (σ x) := by
  rw [Grouping.value, if_neg hx.not_decimal, h]

theorem run_step (hx : IsName x) (h : m x = some (σ x)) (up : Bool) :
    (Deed.step x up).command.run m = some (Function.update m x (some (stepped up (σ x)))) := by
  have hvalue : (Term.word x).grouping.value m = some (σ x) := value_name hx h
  have hone : (Term.word "1").grouping.value m = some 1 := if_pos (by decide)
  cases up with
  | true =>
    change ((Term.binary .plus (.word x) (.word "1")).grouping.value m).map _ = _
    rw [Term.value_binary hvalue hone]
    rfl
  | false =>
    change ((Term.binary .minus (.word x) (.word "1")).grouping.value m).map _ = _
    rw [Term.value_binary hvalue hone]
    rfl

theorem count_of_append_right {xs ys : List String} (hx : x ∈ ys) (h : (xs ++ ys).count x = 1) :
    x ∉ xs ∧ ys.count x = 1 := by
  have hpos := count_pos_iff.2 hx
  rw [count_append] at h
  exact ⟨count_eq_zero.1 (by omega), by omega⟩

theorem count_of_append_left {xs ys : List String} (hx : x ∈ xs) (h : (xs ++ ys).count x = 1) :
    xs.count x = 1 := by
  have hpos := count_pos_iff.2 hx
  rw [count_append] at h
  omega

/-- The lines for the steps of a formula change the variables as the formula does, and what is left of
the formula then has its value.  Every variable that is changed occurs once, so it makes no difference
that the steps are done before anything else is evaluated. -/
theorem Formula.run_hoist {f : Formula} (hf : f.WellFormed) (hP : ∀ x, P x → ¬ IsMadeUp x)
    (hnames : ∀ x ∈ f.names, P x) (honce : ∀ x ∈ f.changed, f.names.count x = 1)
    (h : Agree P σ m) (n : Nat) :
    ∃ m', runAll ((f.hoist n).deeds.map Deed.command) m = some m' ∧ Agree P (f.eval σ).2 m'
      ∧ (f.hoist n).term.grouping.value m' = some (f.eval σ).1 := by
  induction f generalizing σ m n with
  | number digits => exact ⟨m, rfl, h, if_pos hf⟩
  | name text =>
    exact ⟨m, rfl, h, value_name hf (h text (hnames text (mem_singleton_self text)))⟩
  | step text before up =>
    have hPtext := hnames text (mem_singleton_self text)
    have htext := h text hPtext
    cases before with
    | true =>
      refine ⟨_, runAll_singleton (run_step hf htext up), h.update text _, ?_⟩
      exact (value_name (σ := Function.update σ text (stepped up (σ text))) hf
        (h.update text _ text hPtext)).trans (by rw [update_self]; rfl)
    | false =>
      -- The made up name keeps the value from before the step.
      have hne : madeUpName text n ≠ text := fun heq => hP text hPtext ⟨text, n, heq.symm⟩
      have hkeep : (Deed.assign (madeUpName text n) (.word text)).command.run m
          = some (Function.update m (madeUpName text n) (some (σ text))) := by
        change ((Grouping.operand text).value m).map _ = _
        rw [value_name hf htext]
        rfl
      have hagree := h.update_new (fun hPnew => hP _ hPnew ⟨text, n, rfl⟩)
        (x := madeUpName text n) (some (σ text))
      refine ⟨_, (runAll_append (runAll_singleton hkeep)).trans
        (runAll_singleton (run_step hf (hagree text hPtext) up)), hagree.update text _, ?_⟩
      change (Grouping.operand (madeUpName text n)).value _ = some (σ text)
      rw [Grouping.value, if_neg (isName_madeUpName hf n).not_decimal, update_of_ne hne, update_self]
  | binary op left right ihl ihr =>
    obtain ⟨-, -, hleft, hright⟩ := hf
    have hnamesl : ∀ x ∈ left.names, P x := fun x hx => hnames x (mem_append_left _ hx)
    have hnamesr : ∀ x ∈ right.names, P x := fun x hx => hnames x (mem_append_right _ hx)
    have honcer : ∀ x ∈ right.changed, x ∉ left.names ∧ right.names.count x = 1 := fun x hx =>
      count_of_append_right (right.changed_subset hx) (honce x (mem_append_right _ hx))
    obtain ⟨m1, hrun1, hagree1, hvalue1⟩ := ihl hleft hnamesl
      (fun x hx => count_of_append_left (left.changed_subset hx) (honce x (mem_append_left _ hx))) h n
    obtain ⟨m2, hrun2, hagree2, hvalue2⟩ := ihr hright hnamesr (fun x hx => (honcer x hx).2) hagree1
      (left.hoist n).count
    refine ⟨m2, ?_, hagree2, Term.value_binary ?_ hvalue2⟩
    · rw [hoist, map_append, runAll_append hrun1, hrun2]
    · -- The steps of the right operand are about nothing that is left of the left one.
      rw [← hvalue1]
      refine Term.value_congr fun x hx hdecimal => get_of_runAll hrun2 ?_
      rintro _ hc rfl
      obtain ⟨d, hd, rfl⟩ := mem_map.1 hc
      have hword := (word_of_mem_term hleft n hx).resolve_left hdecimal
      rcases right.target_of_mem_deeds _ hd with htarget | htarget
      · rcases hword with hword | hword
        · exact (honcer _ htarget).1 hword
        · exact hP _ (hnamesr _ (right.changed_subset htarget)) hword.isMadeUp
      · rcases hword with hword | hword
        · exact hP _ (hnamesl _ hword) htarget.isMadeUp
        · exact hword.not_later htarget
  | parenthesized inner ih => exact ih hf hnames honce h n

end

/-! ## Assignments one after the other -/

/-- An assignment of the input language. -/
structure Assignment where
  target : String
  value : Formula
deriving DecidableEq, Repr

namespace Assignment

def exec (a : Assignment) (σ : Store) : Store :=
  Function.update (a.value.eval σ).2 a.target (a.value.eval σ).1

/-- The names of an assignment, each as often as it occurs. -/
def names (a : Assignment) : List String := a.target :: a.value.names

def deeds (a : Assignment) (n : Nat) : List Deed :=
  (a.value.hoist n).deeds ++ [.assign a.target (a.value.hoist n).term]

/-- An assignment whose meaning is clear: all names can be written, none is of the sort that is made
up, and the variables that are changed on the way occur once. -/
structure Proper (a : Assignment) : Prop where
  target : IsName a.target
  value : a.value.WellFormed
  source : ∀ x ∈ a.names, ¬ IsMadeUp x
  once : ∀ x ∈ a.value.changed, a.names.count x = 1

theorem run_deeds {a : Assignment} (ha : a.Proper) {P : String → Prop} (hP : ∀ x, P x → ¬ IsMadeUp x)
    (hnames : ∀ x ∈ a.names, P x) {σ : Store} {m : Memory} (h : Agree P σ m) (n : Nat) :
    ∃ m', runAll ((a.deeds n).map Deed.command) m = some m' ∧ Agree P (a.exec σ) m' := by
  obtain ⟨m1, hrun1, hagree1, hvalue1⟩ := a.value.run_hoist ha.value hP
    (fun x hx => hnames x (.tail _ hx)) (fun x hx => (count_of_append_right (a.value.changed_subset hx)
        (show ([a.target] ++ a.value.names).count x = 1 from ha.once x hx)).2) h n
  refine ⟨Function.update m1 a.target (some (a.value.eval σ).1), ?_, hagree1.update a.target _⟩
  rw [deeds, map_append, runAll_append hrun1]
  refine runAll_singleton ?_
  change ((a.value.hoist n).term.grouping.value m1).map _ = _
  rw [hvalue1]
  rfl

end Assignment

/-- What assignments do, one after the other. -/
def execAll (as : List Assignment) (σ : Store) : Store := as.foldl (fun σ a => a.exec σ) σ

/-- The lines of assignments one after the other. -/
def deedsOf : List Assignment → Nat → List Deed
  | [], _ => []
  | a :: as, n => a.deeds n ++ deedsOf as (a.value.hoist n).count

theorem runAll_deedsOf {as : List Assignment} (has : ∀ a ∈ as, a.Proper) {P : String → Prop}
    (hP : ∀ x, P x → ¬ IsMadeUp x) (hnames : ∀ a ∈ as, ∀ x ∈ a.names, P x) {σ : Store}
    (h : Agree P σ m) (n : Nat) :
    ∃ m', runAll ((deedsOf as n).map Deed.command) m = some m' ∧ Agree P (execAll as σ) m' := by
  induction as generalizing σ m n with
  | nil => exact ⟨m, rfl, h⟩
  | cons a as ih =>
    obtain ⟨m1, hrun1, hagree1⟩ := a.run_deeds (has a (.head _)) hP (hnames a (.head _)) h n
    obtain ⟨m2, hrun2, hagree2⟩ := ih (fun b hb => has b (.tail _ hb))
      (fun b hb => hnames b (.tail _ hb)) hagree1 (a.value.hoist n).count
    refine ⟨m2, ?_, hagree2⟩
    rw [deedsOf, map_append, runAll_append hrun1, hrun2]

end Transcriber
