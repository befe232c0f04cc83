import Transcriber.Proofs.Expression.Reading
import Transcriber.Source.Tree

/-!
# The rules for operators

The rules of the input language for operators, from the loosest to the tightest, and what they have
in common with how tightly operators bind in the output language.

* `Moderate.left_level`, `Moderate.right_level` — the operands of a tree bind tightly enough in the
  output language.
-/

namespace Transcriber

open Source Reading

/-! ## The rules of the input language -/

/-- The kind of node of an operator between two operands. -/
def Binary.kind : Binary → Kind
  | .or => .logicalOr
  | .and => .logicalAnd
  | .equal => .equal
  | .notEqual => .notEqual
  | .less => .lessThan
  | .greater => .greaterThan
  | .lessEqual => .lessOrEqual
  | .greaterEqual => .greaterOrEqual
  | .bitOr => .bitOr
  | .bitXor => .bitXor
  | .bitAnd => .bitAnd
  | .shiftLeft => .shiftLeft
  | .shiftRight => .shiftRight
  | .plus => .plus
  | .minus => .minus
  | .times => .star
  | .over => .div
  | .modulo => .mod

/-- The sign of an operator in the input language. -/
def Binary.text : Binary → String
  | .or => "||"
  | .and => "&&"
  | .equal => "=="
  | .notEqual => "!="
  | .less => "<"
  | .greater => ">"
  | .lessEqual => "<="
  | .greaterEqual => ">="
  | .bitOr => "|"
  | .bitXor => "^"
  | .bitAnd => "&"
  | .shiftLeft => "<<"
  | .shiftRight => ">>"
  | .plus => "+"
  | .minus => "-"
  | .times => "*"
  | .over => "/"
  | .modulo => "%"

/-- The rule that an operator belongs to, counted from the loosest one. -/
def Binary.rule : Binary → Nat
  | .or => 0
  | .and => 1
  | .bitOr => 2
  | .bitXor => 3
  | .bitAnd => 4
  | .equal | .notEqual => 5
  | .less | .greater | .lessEqual | .greaterEqual => 6
  | .shiftLeft | .shiftRight => 7
  | .plus | .minus => 8
  | .times | .over | .modulo => 9

/-- The kind of node of an operator before its operand. -/
def Unary.kind : Unary → Kind
  | .not => .logicalNot
  | .plus => .unaryPlus
  | .minus => .unaryMinus
  | .invert => .bitNot

/-- The rule of the operators that stand before their operands. -/
def unaryRule : Nat := 10

/-- The rule of names, numbers and what stands in parentheses. -/
def primaryRule : Nat := 11

/-- A rule of the input language: the one for whole expressions, or one for operators. -/
inductive Rule where
  | expression
  | operation (n : Nat)

def IsWord (text : String) : Prop := text.toList ≠ [] ∧ ∀ c ∈ text.toList, isWordChar c = true

instance (text : String) : Decidable (IsWord text) := inferInstanceAs (Decidable (_ ∧ _))

/-- A decimal number of the input language; it may end in the mark of long numbers. -/
def IsDecimalLiteral (text : String) : Prop :=
  IsDecimal text
    ∨ text.toList.getLast? ∈ [some 'l', some 'L'] ∧ IsDecimal (String.ofList text.toList.dropLast)

instance (text : String) : Decidable (IsDecimalLiteral text) := inferInstanceAs (Decidable (_ ∨ _ ∧ _))

/-- The trees that follow from a rule, with their groupings.  Operators between two operands group
from the left. -/
inductive Derivable : Rule → Tree → Grouping → Prop
  | expression {head : Head} {t : Tree} {g : Grouping} (hkind : head.kind = .expr)
      (h : Derivable (.operation 0) t g) : Derivable .expression (.node head [t]) g
  | name {head : Head} (hkind : head.kind = .ident) (hword : IsWord head.text) :
      Derivable (.operation primaryRule) (.node head []) (.operand head.text)
  | number {head : Head} (hkind : head.kind = .decimalLiteral) (hnumber : IsDecimalLiteral head.text) :
      Derivable (.operation primaryRule) (.node head []) (.operand head.text)
  | parenthesized {head : Head} {t : Tree} {g : Grouping} (hkind : head.kind = .parenthesizedExpr)
      (h : Derivable .expression t g) : Derivable (.operation primaryRule) (.node head [t]) g
  | unary (op : Unary) {head : Head} {t : Tree} {g : Grouping} (hkind : head.kind = op.kind)
      (h : Derivable (.operation unaryRule) t g) :
      Derivable (.operation unaryRule) (.node head [t]) (.unary op g)
  | binary (op : Binary) {head : Head} {l r : Tree} {a b : Grouping} (hkind : head.kind = op.kind)
      (htext : head.text = op.text) (hl : Derivable (.operation op.rule) l a)
      (hr : Derivable (.operation (op.rule + 1)) r b) :
      Derivable (.operation op.rule) (.node head [l, r]) (.binary op a b)
  | tighter {n : Nat} {t : Tree} {g : Grouping} (h : Derivable (.operation (n + 1)) t g) :
      Derivable (.operation n) t g

variable {n : Nat} {t : Tree} {g : Grouping} {head : Head} {op : Binary}

theorem Derivable.looser {m : Nat} (hle : n ≤ m)
    (h : Derivable (.operation m) t g) : Derivable (.operation n) t g := by
  induction hle with
  | refl => exact h
  | step _ ih => exact ih (.tighter h)

/-! ## Comparisons and negations -/

/-- The kinds of comparisons. -/
def comparisons : List Kind :=
  [.equal, .notEqual, .lessThan, .greaterThan, .lessOrEqual, .greaterOrEqual]

mutual

/-- Whether a tree holds a comparison that stands in no parentheses. -/
def compares : Tree → Bool
  | .node head children =>
    comparisons.contains head.kind || head.kind != .parenthesizedExpr && anyCompares children

/-- Whether one of some trees holds a comparison that stands in no parentheses. -/
def anyCompares : List Tree → Bool
  | [] => false
  | t :: ts => compares t || anyCompares ts

end

/-- Comparisons and negations stand only where both languages agree about them. -/
inductive Moderate : Tree → Prop
  | node {head : Head} {children : List Tree}
      (hcompared : head.kind ∈ comparisons → ∀ t ∈ children, compares t = false)
      (hbits : head.kind ∈ [Kind.bitOr, .bitXor, .bitAnd] → ∀ t ∈ children, t.kind ∉ comparisons)
      (hnegation : ∀ t ∈ children, t.kind = .logicalNot → head.kind ∈ [Kind.expr, .logicalAnd, .logicalOr])
      (hs : ∀ t ∈ children, Moderate t) : Moderate (.node head children)

@[simp] theorem moderate_node {children : List Tree} :
    Moderate (.node head children) ↔ (head.kind ∈ comparisons → ∀ t ∈ children, compares t = false)
      ∧ (head.kind ∈ [Kind.bitOr, .bitXor, .bitAnd] → ∀ t ∈ children, t.kind ∉ comparisons)
      ∧ (∀ t ∈ children, t.kind = .logicalNot → head.kind ∈ [Kind.expr, .logicalAnd, .logicalOr])
      ∧ ∀ t ∈ children, Moderate t := by
  constructor
  · rintro ⟨hcompared, hbits, hnegation, hs⟩
    exact ⟨hcompared, hbits, hnegation, hs⟩
  · rintro ⟨hcompared, hbits, hnegation, hs⟩
    exact .node hcompared hbits hnegation hs

theorem Moderate.child {children : List Tree} (hm : Moderate (.node head children)) (ht : t ∈ children) :
    Moderate t := by
  obtain ⟨-, -, -, hs⟩ := hm
  exact hs t ht

/-! ## The levels of both languages -/

/-- How tightly the trees of a rule bind in the output language, if they are neither comparisons nor
negations. -/
def ruleLevel (n : Nat) : Nat :=
  if n ≤ 1 then n else if n ≤ 4 then n + 2 else if n ≤ 6 then 7 else n

/-- How tightly the operators of a tree bind in the output language, given the rule and the kind of
the tree. -/
def treeLevel (n : Nat) (kind : Kind) : Nat :=
  if kind = .logicalNot then unaryLevel .not
  else if kind ∈ comparisons then level .equal
  else ruleLevel n

theorem ruleLevel_le (n : Nat) : ruleLevel n ≤ ruleLevel (n + 1) := by
  unfold ruleLevel
  split_ifs <;> omega

theorem treeLevel_le (n : Nat) (kind : Kind) : treeLevel n kind ≤ treeLevel (n + 1) kind := by
  unfold treeLevel
  split
  · exact Nat.le_refl _
  · split
    · exact Nat.le_refl _
    · exact ruleLevel_le n

/-- Both languages have the operators in the same order, but for comparisons. -/
theorem treeLevel_binary (op : Binary) : treeLevel op.rule op.kind = level op := by
  cases op <;> rfl

theorem Derivable.not_comparison {rule : Rule} (h : Derivable rule t g) (hrule : rule = .operation n)
    (hn : 7 ≤ n) : t.kind ∉ comparisons := by
  induction h generalizing n with
  | expression hkind h ih => cases hrule
  | name hkind hword => simp [Tree.kind, Tree.head, hkind, comparisons]
  | number hkind hnumber => simp [Tree.kind, Tree.head, hkind, comparisons]
  | parenthesized hkind h ih => simp [Tree.kind, Tree.head, hkind, comparisons]
  | @unary op head t g hkind h ih =>
    cases op <;> simp [Tree.kind, Tree.head, hkind, Unary.kind, comparisons]
  | @binary op head l r a b hkind htext hl hr ihl ihr =>
    cases hrule
    cases op <;> simp [Tree.kind, Tree.head, hkind, Binary.kind, comparisons, Binary.rule] at hn ⊢
  | @tighter m t g h ih =>
    cases hrule
    exact ih rfl (by omega)

/-- The operands of an operator bind tightly enough, if they do so when they are neither comparisons
nor negations. -/
theorem Moderate.operand_level {children : List Tree} {k : Nat} (hm : Moderate (.node head children))
    (hkind : head.kind = op.kind)
    (ht : t ∈ children) (h : Derivable (.operation n) t g) (hn : op.rule ≤ n)
    (hk : k ≤ ruleLevel n) (hlogical : op = .or ∨ op = .and → k ≤ 2) : k ≤ treeLevel n t.kind := by
  obtain ⟨hcompared, hbits, hnegation, -⟩ := hm
  rw [hkind] at hcompared hbits hnegation
  unfold treeLevel
  split
  case isTrue hnot =>
    -- Only the logical operators have negations as operands.
    have hop : op = .or ∨ op = .and := by
      have hparent := hnegation t ht hnot
      revert hparent
      cases op <;> decide
    exact hlogical hop
  · split
    case isTrue hcomparison =>
      -- Only the logical operators have comparisons as operands.
      have hself : compares t = true := by
        cases t with
        | node head children =>
          have hmem : comparisons.contains head.kind = true := List.contains_iff_mem.2 hcomparison
          rw [compares, hmem]
          rfl
      have hcompares : op.kind ∉ comparisons := fun hmem => by
        rw [hcompared hmem t ht] at hself
        cases hself
      have hbitwise : op.kind ∉ [Kind.bitOr, .bitXor, .bitAnd] := fun hmem => hbits hmem t ht hcomparison
      have hrule : op.rule < 7 := by
        by_contra hle
        exact h.not_comparison rfl (by omega) hcomparison
      have hop : op = .or ∨ op = .and := by
        revert hcompares hbitwise hrule
        cases op <;> decide
      exact Nat.le_succ_of_le (hlogical hop)
    · exact hk

theorem Moderate.left_level {l r : Tree} {a : Grouping}
    (hm : Moderate (.node head [l, r])) (hkind : head.kind = op.kind)
    (h : Derivable (.operation op.rule) l a) : leftLevel op ≤ treeLevel op.rule l.kind := by
  refine hm.operand_level hkind (by simp) h (Nat.le_refl _) ?_ ?_
  · cases op <;> decide
  · rintro (rfl | rfl) <;> decide

theorem Moderate.right_level {l r : Tree} {b : Grouping}
    (hm : Moderate (.node head [l, r])) (hkind : head.kind = op.kind)
    (h : Derivable (.operation (op.rule + 1)) r b) :
    level op + 1 ≤ treeLevel (op.rule + 1) r.kind := by
  refine hm.operand_level hkind (by simp) h (Nat.le_succ _) ?_ ?_
  · cases op <;> decide
  · rintro (rfl | rfl) <;> decide

/-- The operand of a sign is neither a comparison nor a negation. -/
theorem Moderate.unary_level {op : Unary} (hm : Moderate (.node head [t])) (hkind : head.kind = op.kind)
    (h : Derivable (.operation unaryRule) t g) : unaryRule ≤ treeLevel unaryRule t.kind := by
  obtain ⟨-, -, hnegation, -⟩ := hm
  unfold treeLevel
  split
  case isTrue hnot =>
    have hparent := hnegation t (List.mem_singleton_self t) hnot
    rw [hkind] at hparent
    cases op <;> simp [Unary.kind] at hparent
  · rw [if_neg (h.not_comparison rfl (by decide))]
    decide

end Transcriber
