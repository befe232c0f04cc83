import Transcriber.Proofs.Expression.Reading

/-!
# Expressions as they stand in a text

The grammar of the output language for operators, conditional expressions and chains of comparisons,
as trees that keep their parentheses.  Such a tree is grammatical if each operand binds tightly enough
for its place.  Its tokens say where its parentheses are, so that a tree can be told from what it
means and from its tokens.

* `Reads` — what a text means; `reads_iff_grammatical` — whether a text means what was written.
-/

namespace Transcriber

open Reading List

/-- What an expression means.  A chain goes on with a comparison: what stands before it holds, and the
last operand of that compares with one more. -/
inductive Sense where
  | operand (text : List Char)
  | unary (op : Unary) (inner : Sense)
  | binary (op : Binary) (left right : Sense)
  | choice (test yes no : Sense)
  | chain (op : Binary) (before right : Sense)
deriving DecidableEq, Repr

/-- The number of operands and operators; a choice has two signs. -/
def Sense.size : Sense → Nat
  | operand _ => 1
  | unary _ inner => inner.size + 1
  | binary _ left right => left.size + right.size + 1
  | choice test yes no => test.size + yes.size + no.size + 2
  | chain _ before right => before.size + right.size + 1

/-- An expression as it stands in a text. -/
inductive Utterance where
  | operand (text : List Char)
  | parentheses (inner : Utterance)
  | unary (op : Unary) (inner : Utterance)
  | binary (op : Binary) (left right : Utterance)
  | choice (yes test no : Utterance)
  | chain (op : Binary) (before right : Utterance)
deriving DecidableEq, Repr

namespace Reading

/-- The token of an operator between operands. -/
def binaryToken : Binary → Token
  | .or => .word "or".toList
  | .and => .word "and".toList
  | op => .mark (sign op).toList

/-- The token of an operator before its operand. -/
def unaryToken : Unary → Token
  | .not => .word "not".toList
  | .plus => .mark ['+']
  | .minus => .mark ['-']
  | .invert => .mark ['~']

def isParenthesis (t : Token) : Bool := t == .mark ['('] || t == .mark [')']

theorem binaryToken_plain (op : Binary) : isParenthesis (binaryToken op) = false := by
  cases op <;> decide

theorem unaryToken_plain (op : Unary) : isParenthesis (unaryToken op) = false := by
  cases op <;> decide

end Reading

namespace Utterance

/-- What an expression means: its parentheses only group. -/
def sense : Utterance → Sense
  | operand text => .operand text
  | parentheses inner => inner.sense
  | unary op inner => .unary op inner.sense
  | binary op left right => .binary op left.sense right.sense
  | choice yes test no => .choice test.sense yes.sense no.sense
  | chain op before right => .chain op before.sense right.sense

/-- The tokens of an expression. -/
def tokens : Utterance → List Token
  | operand text => [.word text]
  | parentheses inner => .mark ['('] :: (inner.tokens ++ [.mark [')']])
  | unary op inner => unaryToken op :: inner.tokens
  | binary op left right => left.tokens ++ binaryToken op :: right.tokens
  | choice yes test no =>
    yes.tokens ++ .word "if".toList :: (test.tokens ++ .word "else".toList :: no.tokens)
  | chain op before right => before.tokens ++ binaryToken op :: right.tokens

/-- How tightly the outermost operator of an expression binds. -/
def rank : Utterance → Nat
  | operand _ => 12
  | parentheses _ => 12
  | unary op _ => unaryLevel op + 1
  | binary op _ _ => level op + 1
  | choice _ _ _ => 0
  | chain _ _ _ => 4

/-- Whether the outermost operators of an expression compare. -/
def isComparison : Utterance → Bool
  | binary op _ _ => Reading.compares op
  | chain _ _ _ => true
  | _ => false

/-- The expressions of the output language: each operand binds tightly enough for its place.
Operators group from the left, conditional expressions from the right; several comparisons in a row
are a chain. -/
def Grammatical : Utterance → Prop
  | operand text => String.ofList text ∉ reserved
  | parentheses inner => inner.Grammatical
  | unary op inner => inner.Grammatical ∧ unaryLevel op + 1 ≤ inner.rank
  | binary op left right =>
    (left.Grammatical ∧ leftLevel op + 1 ≤ left.rank) ∧ right.Grammatical ∧ level op + 2 ≤ right.rank
  | choice yes test no =>
    (yes.Grammatical ∧ 1 ≤ yes.rank) ∧ (test.Grammatical ∧ 1 ≤ test.rank) ∧ no.Grammatical
  | chain op before right =>
    (before.Grammatical ∧ before.isComparison = true)
      ∧ (right.Grammatical ∧ 5 ≤ right.rank) ∧ Reading.compares op = true

instance decidableGrammatical : (u : Utterance) → Decidable u.Grammatical
  | operand _ => inferInstanceAs (Decidable (¬ _))
  | parentheses inner => decidableGrammatical inner
  | unary _ inner =>
    have := decidableGrammatical inner
    inferInstanceAs (Decidable (_ ∧ _))
  | binary _ left right =>
    have := decidableGrammatical left
    have := decidableGrammatical right
    inferInstanceAs (Decidable ((_ ∧ _) ∧ _ ∧ _))
  | choice yes test no =>
    have := decidableGrammatical yes
    have := decidableGrammatical test
    have := decidableGrammatical no
    inferInstanceAs (Decidable ((_ ∧ _) ∧ (_ ∧ _) ∧ _))
  | chain _ before right =>
    have := decidableGrammatical before
    have := decidableGrammatical right
    inferInstanceAs (Decidable ((_ ∧ _) ∧ (_ ∧ _) ∧ _))

end Utterance

/-! ## Tokens and the parentheses around them -/

namespace Reading

/-- The tokens of a text that are no parentheses, each with the number of parentheses around it. -/
def nested : Nat → List Token → List (Token × Nat)
  | _, [] => []
  | depth, t :: ts =>
    if t = .mark ['('] then nested (depth + 1) ts
    else if t = .mark [')'] then nested (depth - 1) ts
    else (t, depth) :: nested depth ts

theorem nested_cons {t : Token} (ht : isParenthesis t = false) (depth : Nat) (ts : List Token) :
    nested depth (t :: ts) = (t, depth) :: nested depth ts := by
  simp only [isParenthesis, Bool.or_eq_false_iff, beq_eq_false_iff_ne] at ht
  rw [nested, if_neg ht.1, if_neg ht.2]

end Reading

namespace Utterance

/-- The tokens of an expression that are no parentheses, each with the number of parentheses around
it. -/
def nested (depth : Nat) : Utterance → List (Token × Nat)
  | operand text => [(.word text, depth)]
  | parentheses inner => inner.nested (depth + 1)
  | unary op inner => (unaryToken op, depth) :: inner.nested depth
  | binary op left right => left.nested depth ++ (binaryToken op, depth) :: right.nested depth
  | choice yes test no =>
    yes.nested depth ++ (.word "if".toList, depth)
      :: (test.nested depth ++ (.word "else".toList, depth) :: no.nested depth)
  | chain op before right => before.nested depth ++ (binaryToken op, depth) :: right.nested depth

/-- The tokens of an expression show which parentheses stand around which of them. -/
theorem nested_tokens_append (u : Utterance) (depth : Nat) (rest : List Token) :
    Reading.nested depth (u.tokens ++ rest) = u.nested depth ++ Reading.nested depth rest := by
  induction u generalizing depth rest with
  | operand text => exact nested_cons rfl depth rest
  | parentheses inner ih =>
    have hopen : Reading.nested depth (.mark ['('] :: (inner.tokens ++ .mark [')'] :: rest))
        = Reading.nested (depth + 1) (inner.tokens ++ .mark [')'] :: rest) := rfl
    rw [tokens, cons_append, append_assoc, singleton_append, hopen, ih]
    rfl
  | unary op inner ih => rw [tokens, cons_append, nested_cons (unaryToken_plain op), ih]; rfl
  | binary op left right ihl ihr =>
    rw [tokens, append_assoc, cons_append, ihl, nested_cons (binaryToken_plain op), ihr, nested, append_assoc]
    rfl
  | choice yes test no ihy iht ihn =>
    rw [tokens, append_assoc, cons_append, append_assoc, cons_append, ihy,
      nested_cons rfl, iht, nested_cons rfl, ihn, nested]
    simp only [append_assoc, cons_append]
  | chain op before right ihl ihr =>
    rw [tokens, append_assoc, cons_append, ihl, nested_cons (binaryToken_plain op), ihr, nested, append_assoc]
    rfl

variable {u v : Utterance} {depth : Nat}

theorem nested_eq_of_tokens_eq (h : u.tokens = v.tokens) (depth : Nat) : u.nested depth = v.nested depth := by
  have hu := u.nested_tokens_append depth []
  have hv := v.nested_tokens_append depth []
  rw [Reading.nested, append_nil, append_nil] at hu hv
  rw [← hu, ← hv, h]

/-- All of an expression stands inside the parentheses around it. -/
theorem le_of_mem_nested {p : Token × Nat} (h : p ∈ u.nested depth) : depth ≤ p.2 := by
  induction u generalizing depth with
  | operand text =>
    obtain rfl := mem_singleton.1 h
    exact Nat.le_refl _
  | parentheses inner ih => exact Nat.le_of_succ_le (ih h)
  | unary op inner ih =>
    rcases mem_cons.1 h with rfl | h
    · exact Nat.le_refl _
    · exact ih h
  | binary op left right ihl ihr =>
    rcases mem_append.1 h with h | h
    · exact ihl h
    rcases mem_cons.1 h with rfl | h
    · exact Nat.le_refl _
    · exact ihr h
  | choice yes test no ihy iht ihn =>
    rcases mem_append.1 h with h | h
    · exact ihy h
    rcases mem_cons.1 h with rfl | h
    · exact Nat.le_refl _
    rcases mem_append.1 h with h | h
    · exact iht h
    rcases mem_cons.1 h with rfl | h
    · exact Nat.le_refl _
    · exact ihn h
  | chain op before right ihl ihr =>
    rcases mem_append.1 h with h | h
    · exact ihl h
    rcases mem_cons.1 h with rfl | h
    · exact Nat.le_refl _
    · exact ihr h

/-- Whether the outermost part of an expression is a pair of parentheses. -/
def isEnclosed : Utterance → Bool
  | parentheses _ => true
  | _ => false

/-- An expression that is not enclosed has a token outside of all parentheses. -/
theorem exists_mem_nested (h : u.isEnclosed = false) (depth : Nat) : ∃ t, (t, depth) ∈ u.nested depth := by
  cases u with
  | operand text => exact ⟨_, mem_singleton_self _⟩
  | parentheses inner => cases h
  | unary op inner => exact ⟨_, .head _⟩
  | binary op left right => exact ⟨_, mem_append_right _ (.head _)⟩
  | choice yes test no => exact ⟨_, mem_append_right _ (.head _)⟩
  | chain op before right => exact ⟨_, mem_append_right _ (.head _)⟩

theorem nested_ne_of_isEnclosed {inner : Utterance} (h : v.isEnclosed = false) (depth : Nat) :
    inner.nested (depth + 1) ≠ v.nested depth := by
  intro heq
  obtain ⟨t, ht⟩ := exists_mem_nested h depth
  exact Nat.not_succ_le_self _ (le_of_mem_nested (heq ▸ ht : (t, depth) ∈ inner.nested (depth + 1)))

/-- Expressions of the same sense have the same number of tokens, parentheses apart. -/
theorem length_nested (u : Utterance) (depth : Nat) : (u.nested depth).length = u.sense.size := by
  induction u generalizing depth with
  | operand text => rfl
  | parentheses inner ih => exact ih _
  | unary op inner ih => simp only [nested, sense, Sense.size, length_cons, ih]
  | binary op left right ihl ihr =>
    simp only [nested, sense, Sense.size, length_append, length_cons, ihl, ihr]
    omega
  | choice yes test no ihy iht ihn =>
    simp only [nested, sense, Sense.size, length_append, length_cons, ihy, iht, ihn]
    omega
  | chain op before right ihl ihr =>
    simp only [nested, sense, Sense.size, length_append, length_cons, ihl, ihr]
    omega

/-- Two operands with the same token between them can be told apart by the number of their tokens. -/
theorem nested_inj {l l' : Utterance} (hl : l.sense = l'.sense) {p p' : Token × Nat}
    {rest rest' : List (Token × Nat)}
    (h : l.nested depth ++ p :: rest = l'.nested depth ++ p' :: rest') :
    l.nested depth = l'.nested depth ∧ rest = rest' := by
  have hlength : (l.nested depth).length = (l'.nested depth).length := by
    rw [length_nested, length_nested, hl]
  obtain ⟨hleft, hright⟩ := append_inj h hlength
  exact ⟨hleft, (List.cons.inj hright).2⟩

/-- What an expression means and where its parentheses are decide what it is.  The induction is on the
first one; the second one can only have its parentheses at the same places. -/
theorem eq_of_nested_of_sense (h : u.nested depth = v.nested depth) (hs : u.sense = v.sense) : u = v := by
  induction u generalizing v depth with
  | parentheses inner ih =>
    cases v with
    | parentheses inner' => rw [ih h hs]
    | _ => exact absurd h (nested_ne_of_isEnclosed rfl depth)
  | operand text =>
    cases v with
    | parentheses inner => exact absurd h.symm (nested_ne_of_isEnclosed rfl depth)
    | operand text' => rw [Sense.operand.inj hs]
    | _ => cases hs
  | unary op inner ih =>
    cases v with
    | parentheses inner => exact absurd h.symm (nested_ne_of_isEnclosed rfl depth)
    | unary op' inner' =>
      obtain ⟨rfl, hinner⟩ := Sense.unary.inj hs
      rw [ih (List.cons.inj h).2 hinner]
    | _ => cases hs
  | binary op left right ihl ihr =>
    cases v with
    | parentheses inner => exact absurd h.symm (nested_ne_of_isEnclosed rfl depth)
    | binary op' left' right' =>
      obtain ⟨rfl, hl, hr⟩ := Sense.binary.inj hs
      obtain ⟨hleft, hright⟩ := nested_inj hl h
      rw [ihl hleft hl, ihr hright hr]
    | _ => cases hs
  | choice yes test no ihy iht ihn =>
    cases v with
    | parentheses inner => exact absurd h.symm (nested_ne_of_isEnclosed rfl depth)
    | choice yes' test' no' =>
      obtain ⟨ht, hy, hn⟩ := Sense.choice.inj hs
      obtain ⟨hyes, hrest⟩ := nested_inj hy h
      obtain ⟨htest, hno⟩ := nested_inj ht hrest
      rw [ihy hyes hy, iht htest ht, ihn hno hn]
    | _ => cases hs
  | chain op before right ihl ihr =>
    cases v with
    | parentheses inner => exact absurd h.symm (nested_ne_of_isEnclosed rfl depth)
    | chain op' before' right' =>
      obtain ⟨rfl, hl, hr⟩ := Sense.chain.inj hs
      obtain ⟨hleft, hright⟩ := nested_inj hl h
      rw [ihl hleft hl, ihr hright hr]
    | _ => cases hs

/-- No two expressions have the same tokens and the same sense. -/
theorem eq_of_tokens_of_sense (h : u.tokens = v.tokens) (hs : u.sense = v.sense) : u = v :=
  eq_of_nested_of_sense (nested_eq_of_tokens_eq h 0) hs

end Utterance

/-! ## What a text means -/

/-- What a text means in the output language: it is the text of an expression of the grammar that
means it. -/
def Reads (text : String) (s : Sense) : Prop :=
  ∃ u : Utterance, u.Grammatical ∧ u.tokens = tokens text.toList ∧ u.sense = s

/-- A text means what was written if and only if what was written follows from the grammar. -/
theorem reads_iff_grammatical {text : String} {u : Utterance} (h : tokens text.toList = u.tokens) :
    Reads text u.sense ↔ u.Grammatical := by
  constructor
  · rintro ⟨v, hv, htokens, hsense⟩
    rwa [← Utterance.eq_of_tokens_of_sense (htokens.trans h) hsense]
  · exact fun hu => ⟨u, hu, h.symm, rfl⟩

example : Reads "a < b < c" (.chain .less
    (.binary .less (.operand ['a']) (.operand ['b'])) (.operand ['c'])) :=
  ⟨.chain .less (.binary .less (.operand ['a']) (.operand ['b'])) (.operand ['c']), by decide, by decide, rfl⟩

end Transcriber
