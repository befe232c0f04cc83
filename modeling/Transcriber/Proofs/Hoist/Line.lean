import Transcriber.Proofs.Expression.Grouping
import Transcriber.Proofs.Hoist.Formula
import Transcriber.Proofs.Statement.Headed

/-!
# The lines of commands

Commands are written on lines of their own and can be read back from there: a name, a mark for the
assignment, and a formula.
-/

namespace Transcriber

open Reading Expression List

/-! ## Reading commands -/

def Reading.readTokens (ts : List Token) : Option Grouping := do
  result (← ts.foldlM step {})

/-- What a mark between a name and a value makes of them. -/
def assigned? (target : String) (value : Grouping) : List Char → Option Command
  | ['='] => some ⟨target, value⟩
  | ['+', '='] => some ⟨target, .binary .plus (.operand target) value⟩
  | ['-', '='] => some ⟨target, .binary .minus (.operand target) value⟩
  | _ => none

def Command.read? (line : String) : Option Command :=
  match tokens line.toList with
  | .word target :: .mark mark :: rest =>
    if IsName (String.ofList target) then do
      assigned? (String.ofList target) (← readTokens rest) mark
    else none
  | _ => none

example : Command.read? "x = a - (b + 2) * c"
    = some ⟨"x", .binary .minus (.operand "a")
      (.binary .times (.binary .plus (.operand "b") (.operand "2")) (.operand "c"))⟩ := by decide

theorem isBlank_eq_false {c : Char} (h : c.isAlphanum = true ∨ c = '_') : Text.isBlank c = false := by
  rcases h with h | rfl
  · have hcode : 48 ≤ c.toNat ∧ c.toNat ≤ 122 := by
      change ((decide ('A'.val ≤ c.val ∧ c.val ≤ 'Z'.val)
        || decide ('a'.val ≤ c.val) && decide (c.val ≤ 'z'.val))
        || decide ('0'.val ≤ c.val) && decide (c.val ≤ '9'.val)) = true at h
      simp only [UInt32.le_iff_toNat_le, Char.reduceVal, UInt32.reduceToNat, Bool.or_eq_true,
        Bool.and_eq_true, decide_eq_true_eq] at h
      change 48 ≤ c.val.toNat ∧ c.val.toNat ≤ 122
      omega
    simp only [Text.isBlank, Text.blanks, Text.Ranges.has, Text.Ranges.hasCode, any_cons,
      any_nil, Bool.or_eq_false_iff, Bool.and_eq_false_iff, decide_eq_false_iff_not, and_true]
    omega
  · decide

theorem IsName.worded {text : String} (h : IsName text) : Worded text := by
  obtain ⟨c, cs, hcs⟩ := exists_cons_of_ne_nil h.ne_nil
  refine ⟨⟨fun hmem => ?_, ?_⟩, fun hempty => h.ne_nil ?_⟩
  · exact absurd (h.isOperand.isWordChar hmem) (by decide)
  · unfold Unblank
    rw [hcs, List.head?_cons, Option.all_some, isBlank_eq_false (h.chars c (hcs ▸ .head _))]
    rfl
  · rw [hempty]
    rfl

theorem Command.read_eq (mark : String) {target value : String} {k : Nat} {g : Grouping} (ht : IsName target)
    (hmark : tokens mark.toList = [.mark mark.toList]) (hg : Phrase k value.toList g) :
    Command.read? (target ++ " " ++ mark ++ " " ++ value) = assigned? target g mark.toList := by
  have htarget : tokens target.toList = [.word target.toList] :=
    tokens_word ht.ne_nil fun c hc => ht.isOperand.isWordChar hc
  have htokens : tokens (target ++ " " ++ mark ++ " " ++ value).toList
      = .word target.toList :: .mark mark.toList :: tokens value.toList := by
    have hlist : (target ++ " " ++ mark ++ " " ++ value).toList
        = target.toList ++ ' ' :: (mark.toList ++ ' ' :: value.toList) := by simp
    rw [hlist, tokens_append breaks_blank, tokens_blank, tokens_append breaks_blank, tokens_blank,
      htarget, hmark]
    rfl
  unfold Command.read?
  rw [htokens]
  dsimp only
  rw [String.ofList_toList, if_pos ht]
  have hread : readTokens (tokens value.toList) = some g := hg.read_eq
  rw [hread]
  rfl

/-! ## Terms -/

namespace Term

/-- A term as it is written. -/
def text : Term → String
  | word text => text
  | binary op left right => left.text ++ " " ++ sign op.toBinary ++ " " ++ right.text
  | parenthesized inner => "(" ++ inner.text ++ ")"

/-- The rule that a term belongs to. -/
def rule : Term → Nat
  | binary op _ _ => op.toBinary.rule
  | _ => primaryRule

/-- All words of a term are names or numbers, and there are parentheses where the rules need them. -/
def WellFormed : Term → Prop
  | word text => IsName text ∨ IsDecimal text
  | binary op left right =>
    op.toBinary.rule ≤ left.rule ∧ op.toBinary.rule + 1 ≤ right.rule ∧ left.WellFormed ∧ right.WellFormed
  | parenthesized inner => inner.WellFormed

theorem phrase {t : Term} (h : t.WellFormed) : Phrase t.rule t.text.toList t.grouping := by
  induction t with
  | word text => exact .word (h.imp_left IsName.isOperand |>.elim id .inr)
  | binary op left right ihl ihr =>
    obtain ⟨hl, hr, hleft, hright⟩ := h
    have hlevel : level op.toBinary = op.toBinary.rule ∧ leftLevel op.toBinary = op.toBinary.rule := by
      cases op <;> decide
    have hphrase : Phrase (level op.toBinary) _ (.binary op.toBinary _ _) :=
      .binary ((ihl hleft).mono (hlevel.2 ▸ hl)) ((ihr hright).mono (hlevel.1 ▸ hr))
    rw [hlevel.1] at hphrase
    simpa [text, grouping, rule] using hphrase
  | parenthesized inner ih =>
    have hphrase := Phrase.parentheses (k := primaryRule) ((ih h).mono (Nat.zero_le _))
    simpa [text, grouping, rule] using hphrase

theorem oneLine_word {text : String} (h : IsName text ∨ IsDecimal text) : OneLine text := by
  rcases h with hname | ⟨-, hdigits, -⟩
  · exact hname.worded.neat.oneLine
  · exact fun hmem => absurd (hdigits _ hmem) (by decide)

theorem oneLine_text {t : Term} (h : t.WellFormed) : OneLine t.text := by
  induction t with
  | word text => exact oneLine_word h
  | binary op left right ihl ihr =>
    obtain ⟨-, -, hleft, hright⟩ := h
    have hsign : OneLine (sign op.toBinary) := by cases op <;> decide
    exact ((((ihl hleft).append (by decide)).append hsign).append (by decide)).append (ihr hright)
  | parenthesized inner ih =>
    exact (OneLine.append (by decide) (ih h)).append (by decide)

end Term

theorem Formula.wellFormed_term {f : Formula} (h : f.WellFormed) (n : Nat) :
    (f.hoist n).term.WellFormed ∧ (f.hoist n).term.rule = f.rule := by
  induction f generalizing n with
  | number digits => exact ⟨.inr h, rfl⟩
  | name text => exact ⟨.inl h, rfl⟩
  | step text before up =>
    cases before with
    | true => exact ⟨.inl h, rfl⟩
    | false => exact ⟨.inl (isName_madeUpName h n), rfl⟩
  | binary op left right ihl ihr =>
    obtain ⟨hl, hr, hleft, hright⟩ := h
    obtain ⟨hleft', hl'⟩ := ihl hleft n
    obtain ⟨hright', hr'⟩ := ihr hright (left.hoist n).count
    exact ⟨⟨hl' ▸ hl, hr' ▸ hr, hleft', hright'⟩, rfl⟩
  | parenthesized inner ih => exact ⟨(ih h n).1, rfl⟩

/-! ## Lines -/

namespace Deed

/-- The line of an assignment or a step. -/
def text : Deed → String
  | assign target value => target ++ " = " ++ value.text
  | step name up => name ++ (if up then " += 1" else " -= 1")

/-- A line whose names and numbers can be written. -/
def WellFormed : Deed → Prop
  | assign target value => IsName target ∧ value.WellFormed
  | step name _ => IsName name

theorem read_text {d : Deed} (h : d.WellFormed) : Command.read? d.text = some d.command := by
  cases d with
  | assign target value =>
    obtain ⟨htarget, hvalue⟩ := h
    have hread := Command.read_eq "=" htarget (by decide) (Term.phrase hvalue)
    simpa [text, String.append_assoc, assigned?, command] using hread
  | step name up =>
    have hone : Phrase 0 "1".toList (.operand "1") := .word (.inr (by decide))
    cases up with
    | true =>
      have hread := Command.read_eq "+=" h (by decide) hone
      simpa [text, String.append_assoc, assigned?, command] using hread
    | false =>
      have hread := Command.read_eq "-=" h (by decide) hone
      simpa [text, String.append_assoc, assigned?, command] using hread

theorem worded_text {d : Deed} (h : d.WellFormed) : Worded d.text := by
  cases d with
  | assign target value =>
    obtain ⟨htarget, hvalue⟩ := h
    change Worded (target ++ " = " ++ value.text)
    rw [String.append_assoc]
    exact htarget.worded.behind (OneLine.append (by decide) (Term.oneLine_text hvalue))
  | step name up => exact IsName.worded h |>.behind (by cases up <;> decide)

end Deed

theorem Formula.wellFormed_deeds {f : Formula} (h : f.WellFormed) (n : Nat) :
    ∀ d ∈ (f.hoist n).deeds, d.WellFormed := by
  induction f generalizing n with
  | number digits => exact nofun
  | name text => exact nofun
  | step text before up =>
    cases before with
    | true => exact forall_mem_singleton.2 h
    | false =>
      refine forall_mem_cons.2 ⟨⟨isName_madeUpName h n, .inl h⟩, ?_⟩
      exact forall_mem_singleton.2 h
  | binary op left right ihl ihr =>
    obtain ⟨-, -, hleft, hright⟩ := h
    exact forall_mem_append.2 ⟨ihl hleft n, ihr hright _⟩
  | parenthesized inner ih => exact ih h n

theorem Assignment.Proper.wellFormed_deeds {a : Assignment} (h : a.Proper) (n : Nat) :
    ∀ d ∈ a.deeds n, d.WellFormed :=
  forall_mem_append.2 ⟨a.value.wellFormed_deeds h.value n,
    forall_mem_singleton.2 ⟨h.target, (a.value.wellFormed_term h.value n).1⟩⟩

theorem wellFormed_deedsOf {as : List Assignment} (h : ∀ a ∈ as, a.Proper) (n : Nat) :
    ∀ d ∈ deedsOf as n, d.WellFormed := by
  induction as generalizing n with
  | nil => exact nofun
  | cons a as ih =>
    obtain ⟨ha, has⟩ := forall_mem_cons.1 h
    exact forall_mem_append.2 ⟨ha.wellFormed_deeds n, ih has _⟩

/-- Lines that are read and done one after the other do what their commands do. -/
theorem mapM_read_text {ds : List Deed} (h : ∀ d ∈ ds, d.WellFormed) :
    (ds.map Deed.text).mapM Command.read? = some (ds.map Deed.command) := by
  induction ds with
  | nil => rfl
  | cons d ds ih =>
    obtain ⟨hd, hds⟩ := forall_mem_cons.1 h
    rw [map_cons, mapM_cons, Deed.read_text hd, ih hds]
    rfl

end Transcriber
