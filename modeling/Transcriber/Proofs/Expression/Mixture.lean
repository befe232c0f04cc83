import Transcriber.Proofs.Expression.Grouping
import Transcriber.Proofs.Expression.Utterance

/-!
# Where the two languages group differently

In the input language comparisons bind more tightly than the operators on bits, negations more tightly
than all operators between operands, and a conditional expression may stand in the middle of another
one.  The output language has other rules, and the text of an expression has only the parentheses that
its tree has.  So the text means something else exactly when such operators meet without parentheses.

* `Build.wording_reads_iff` — the text of a tree means what the tree means if and only if no such operators meet.
-/

namespace Transcriber

open Source Build Reading Expression

/-! ## The rules of the input language -/

/-- A rule of the input language: for whole expressions, conditional expressions, or operators. -/
inductive Stratum where
  | expression
  | conditional
  | operation (n : Nat)

/-- The trees that follow from a rule, with what is written for them. -/
inductive Composed : Stratum → Tree → Utterance → Prop
  | expression {head : Head} {t : Tree} {u : Utterance} (hkind : head.kind = .expr)
      (h : Composed .conditional t u) : Composed .expression (.node head [t]) u
  | choice {head : Head} {test yes no : Tree} {a b c : Utterance} (hkind : head.kind = .question)
      (htest : Composed (.operation 0) test a) (hyes : Composed .conditional yes b)
      (hno : Composed .conditional no c) :
      Composed .conditional (.node head [test, yes, no]) (.choice b a c)
  | unconditional {t : Tree} {u : Utterance} (h : Composed (.operation 0) t u) :
      Composed .conditional t u
  | name {head : Head} (hkind : head.kind = .ident) (hword : IsWord head.text) :
      Composed (.operation primaryRule) (.node head []) (.operand head.text.toList)
  | literal {head : Head} (hkind : Expression.literals.contains head.kind = true)
      (hword : IsWord head.text) :
      Composed (.operation primaryRule) (.node head []) (.operand head.text.toList)
  | parenthesized {head : Head} {t : Tree} {u : Utterance} (hkind : head.kind = .parenthesizedExpr)
      (h : Composed .expression t u) :
      Composed (.operation primaryRule) (.node head [t]) (.parentheses u)
  | unary (op : Unary) {head : Head} {t : Tree} {u : Utterance} (hkind : head.kind = op.kind)
      (h : Composed (.operation unaryRule) t u) :
      Composed (.operation unaryRule) (.node head [t]) (.unary op u)
  | binary (op : Binary) {head : Head} {l r : Tree} {a b : Utterance} (hkind : head.kind = op.kind)
      (htext : head.text = op.text) (hl : Composed (.operation op.rule) l a)
      (hr : Composed (.operation (op.rule + 1)) r b) :
      Composed (.operation op.rule) (.node head [l, r]) (.binary op a b)
  | tighter {n : Nat} {t : Tree} {u : Utterance} (h : Composed (.operation (n + 1)) t u) :
      Composed (.operation n) t u

variable {n : Nat} {t : Tree} {u : Utterance} {stratum : Stratum}

theorem Composed.looser {m : Nat} (hle : n ≤ m)
    (h : Composed (.operation m) t u) : Composed (.operation n) t u := by
  induction hle with
  | refl => exact h
  | step _ ih => exact ih (.tighter h)

/-! ## Operators that meet -/

/-- The kinds of nodes below which a negation needs no parentheses. -/
def negationParents : List Kind :=
  [.expr, .parenthesizedExpr, .logicalAnd, .logicalOr, .logicalNot, .question]

/-- Whether the two languages disagree about an operand at a position below an operator, if there are
no parentheses around it: a comparison below a comparison or an operator on bits, a negation below an
operator that binds more tightly, a conditional expression in the middle of another one. -/
def clashes (parent : Kind) (position : Nat) (child : Kind) : Bool :=
  comparisons.contains child
      && (comparisons.contains parent || [Kind.bitOr, .bitXor, .bitAnd].contains parent)
    || child == .logicalNot && !negationParents.contains parent
    || child == .question && parent == .question && position == 1

mutual

/-- Whether operators meet in a tree about which the two languages disagree. -/
def mixes : Tree → Bool
  | .node head children => mixesFrom head.kind 0 children

/-- Whether they do so among some operands of an operator, or between them and the operator. -/
def mixesFrom (parent : Kind) : Nat → List Tree → Bool
  | _, [] => false
  | position, t :: ts =>
    clashes parent position t.kind || mixes t || mixesFrom parent (position + 1) ts

end

/-! ## How tightly operands bind -/

/-- What is known of the rank of what is written for a tree of a rule. -/
def Ranked (kind : Kind) (u : Utterance) : Stratum → Prop
  | .operation n =>
    if kind = .logicalNot then u.rank = 3
    else if kind ∈ comparisons then u.rank = 4 ∧ n ≤ 6
    else ruleLevel n + 1 ≤ u.rank ∧ kind ≠ .question
  | .conditional => 1 ≤ u.rank ↔ kind ≠ .question
  | .expression => True

theorem Composed.ranked (h : Composed stratum t u) : Ranked t.kind u stratum := by
  have hliterals : ∀ kind ∈ Expression.literals,
      kind ≠ .logicalNot ∧ kind ∉ comparisons ∧ kind ≠ .question := by decide
  induction h with
  | expression hkind h ih => trivial
  | @choice head test yes no a b c hkind htest hyes hno =>
    simp [Ranked, Tree.kind, Tree.head, hkind, Utterance.rank]
  | @unconditional t u h ih =>
    simp only [Ranked] at ih ⊢
    split at ih
    · simp_all
    · split at ih
      next hmem =>
        have hquestion : t.kind ≠ .question := fun heq => by
          rw [heq] at hmem
          exact absurd hmem (by decide)
        simp [ih.1, hquestion]
      · have hlevel : ruleLevel 0 = 0 := rfl
        simp [ih.2, show 1 ≤ u.rank by omega]
  | @name head hkind hword => simp [Ranked, Tree.kind, Tree.head, hkind, comparisons, Utterance.rank,
      ruleLevel, primaryRule]
  | @literal head hkind hword =>
    obtain ⟨hnot, hcompare, hquestion⟩ := hliterals _ (List.contains_iff_mem.1 hkind)
    simp [Ranked, Tree.kind, Tree.head, hnot, hcompare, hquestion, Utterance.rank, ruleLevel, primaryRule]
  | @parenthesized head t u hkind h ih => simp [Ranked, Tree.kind, Tree.head, hkind, comparisons,
      Utterance.rank, ruleLevel, primaryRule]
  | @unary op head t u hkind h ih =>
    cases op <;> simp [Ranked, Tree.kind, Tree.head, hkind, Unary.kind, comparisons, Utterance.rank,
      unaryLevel, ruleLevel, unaryRule]
  | @binary op head l r a b hkind htext hl hr ihl ihr =>
    cases op <;> simp [Ranked, Tree.kind, Tree.head, hkind, Binary.kind, Binary.rule, comparisons,
      Utterance.rank, level, ruleLevel]
  | @tighter n t u h ih =>
    simp only [Ranked] at ih ⊢
    split at ih
    · simp_all
    · split at ih
      · simp_all
        omega
      · have hle := ruleLevel_le n
        simp_all
        omega

/-- An operand of a rule binds tightly enough for its place below an operator between operands if and
only if the two languages agree about it. -/
theorem Composed.rank_iff (op : Binary) (k position : Nat)
    (h : Composed (.operation n) t u) (hn : op.rule ≤ n) (hlow : level op ≤ k)
    (hcompare : Reading.compares op = true → 4 ≤ k) (hhigh : k ≤ ruleLevel n)
    (hlogical : op = .or ∨ op = .and → k ≤ 2) :
    k + 1 ≤ u.rank ↔ clashes op.kind position t.kind = false := by
  have hranked := h.ranked
  simp only [Ranked] at hranked
  have hquestion : (t.kind == Kind.question && op.kind == .question && position == 1) = false := by
    cases op <;> simp [Binary.kind]
  unfold clashes
  rw [hquestion, Bool.or_false]
  split at hranked
  next hnot =>
    have hparents : negationParents.contains op.kind = decide (op = .or ∨ op = .and) := by
      cases op <;> decide
    have hlevel : ¬ (op = .or ∨ op = .and) → 3 ≤ level op := by
      cases op <;> decide
    rw [hnot, hranked, hparents]
    by_cases hop : op = .or ∨ op = .and
    · have hk := hlogical hop
      simp [comparisons, hop]
      omega
    · have hk := hlevel hop
      simp [comparisons, hop]
      omega
  · split at hranked
    next hnot hmem =>
      obtain ⟨hrank, hsix⟩ := hranked
      have hcontains : comparisons.contains t.kind = true := List.contains_iff_mem.2 hmem
      have hparents : (comparisons.contains op.kind || [Kind.bitOr, .bitXor, .bitAnd].contains op.kind)
          = decide (¬ (op = .or ∨ op = .and)) ∨ 7 ≤ op.rule := by
        cases op <;> decide
      have hlevel : ¬ (op = .or ∨ op = .and) → 4 ≤ level op ∨ Reading.compares op = true := by
        cases op <;> decide
      rw [hrank, hcontains, beq_false_of_ne hnot, hparents.resolve_right (by omega)]
      by_cases hop : op = .or ∨ op = .and
      · have hk := hlogical hop
        simp [hop]
        omega
      · have hk : 4 ≤ k := (hlevel hop).elim (fun hle => hle.trans hlow) hcompare
        simp [hop]
        omega
    next hnot hmem =>
      have hcontains : comparisons.contains t.kind = false := by
        simpa [List.contains_iff_mem] using hmem
      rw [hcontains, beq_false_of_ne hnot]
      simp
      omega

/-- The operand of an operator before it binds tightly enough if and only if the two languages agree
about it. -/
theorem Composed.rank_iff_unary {op : Unary} (h : Composed (.operation unaryRule) t u) :
    unaryLevel op + 1 ≤ u.rank ↔ clashes op.kind 0 t.kind = false := by
  have hranked := h.ranked
  simp only [Ranked] at hranked
  split at hranked
  next hnot =>
    rw [hnot, hranked]
    cases op <;> simp [clashes, Unary.kind, comparisons, negationParents, unaryLevel]
  · split at hranked
    next hnot hmem => exact absurd hranked.2 (by decide)
    next hnot hmem =>
      have hcontains : comparisons.contains t.kind = false := by
        simpa [List.contains_iff_mem] using hmem
      have hrank : 11 ≤ u.rank := hranked.1
      unfold clashes
      rw [hcontains, beq_false_of_ne hnot]
      cases op <;> simp [Unary.kind, unaryLevel] <;> omega

theorem Composed.one_le_rank (h : Composed (.operation n) t u) : 1 ≤ u.rank := by
  have hranked := h.ranked
  simp only [Ranked] at hranked
  split_ifs at hranked <;> omega

/-- What is written for a tree follows from the grammar of the output language if and only if no
operators meet in it about which the languages disagree. -/
theorem Composed.grammatical_iff (h : Composed stratum t u)
    (hnames : t.Every fun head => head.kind = .ident ∨ Expression.literals.contains head.kind = true →
      head.text ∉ reserved) : u.Grammatical ↔ mixes t = false := by
  induction h with
  | @expression head t u hkind h ih =>
    rw [ih (hnames.child (List.mem_singleton_self t))]
    simp [mixes, mixesFrom, hkind, clashes, comparisons, negationParents]
  | @choice head test yes no a b c hkind htest hyes hno iht ihy ihn =>
    have htests : clashes .question 0 test.kind = false := by
      simp [clashes, comparisons, negationParents]
    have hmiddle : clashes .question 1 yes.kind = (yes.kind == .question) := by
      simp [clashes, comparisons, negationParents]
    have hlast : clashes .question 2 no.kind = false := by
      simp [clashes, comparisons, negationParents]
    have hranked : 1 ≤ b.rank ↔ yes.kind ≠ .question := hyes.ranked
    have hchild : ∀ t ∈ [test, yes, no], t.Every _ := fun t ht => hnames.child ht
    rw [Utterance.Grammatical, iht (hchild test (by simp)), ihy (hchild yes (by simp)),
      ihn (hchild no (by simp)), hranked]
    simp only [mixes, mixesFrom, hkind, htests, hmiddle, hlast, Bool.false_or, Bool.or_false,
      Bool.or_eq_false_iff, beq_eq_false_iff_ne]
    constructor
    · rintro ⟨⟨hyes, hkind⟩, ⟨htest, -⟩, hno⟩
      exact ⟨htest, ⟨hkind, hyes⟩, hno⟩
    · rintro ⟨htests, ⟨hkind, hyes⟩, hno⟩
      exact ⟨⟨hyes, hkind⟩, ⟨htests, htest.one_le_rank⟩, hno⟩
  | unconditional h ih => exact ih hnames
  | @name head hkind hword =>
    have hreserved : head.text ∉ reserved := hnames.head (.inl hkind)
    simpa [Utterance.Grammatical, mixes, mixesFrom] using hreserved
  | @literal head hkind hword =>
    have hreserved : head.text ∉ reserved := hnames.head (.inr hkind)
    simpa [Utterance.Grammatical, mixes, mixesFrom] using hreserved
  | @parenthesized head t u hkind h ih =>
    rw [Utterance.Grammatical, ih (hnames.child (List.mem_singleton_self t))]
    simp [mixes, mixesFrom, hkind, clashes, comparisons, negationParents]
  | @unary op head t u hkind h ih =>
    rw [Utterance.Grammatical, ih (hnames.child (List.mem_singleton_self t)), h.rank_iff_unary]
    simp only [mixes, mixesFrom, hkind, Bool.or_false, Bool.or_eq_false_iff]
    exact and_comm
  | @binary op head l r a b hkind htext hl hr ihl ihr =>
    have hleft := hl.rank_iff op (leftLevel op) 0 (Nat.le_refl _)
      (by cases op <;> decide) (by cases op <;> decide) (by cases op <;> decide)
      (by rintro (rfl | rfl) <;> decide)
    have hright := hr.rank_iff op (level op + 1) 1 (Nat.le_succ _)
      (by cases op <;> decide) (by cases op <;> decide) (by cases op <;> decide)
      (by rintro (rfl | rfl) <;> decide)
    have hchild : ∀ t ∈ [l, r], t.Every _ := fun t ht => hnames.child ht
    rw [Utterance.Grammatical, ihl (hchild l (by simp)), ihr (hchild r (by simp)), hleft, hright]
    simp only [mixes, mixesFrom, hkind, Bool.or_false, Bool.or_eq_false_iff]
    constructor
    · rintro ⟨⟨hl, hclash⟩, hr, hclash'⟩
      exact ⟨⟨hclash, hl⟩, hclash', hr⟩
    · rintro ⟨⟨hclash, hl⟩, hclash', hr⟩
      exact ⟨⟨hl, hclash⟩, hr, hclash'⟩
  | tighter h ih => exact ih hnames

/-! ## The texts of trees -/

/-- A text with the tokens of an expression.  No mark before it makes a pair with its first character.
-/
structure Utterance.Spelled (u : Utterance) (text : List Char) : Prop where
  start : ∃ c rest, text = c :: rest ∧ ∀ mark ∈ ['+', '-', '~', '('], pairs.contains [mark, c] = false
  tokens_eq : Reading.tokens text = u.tokens

namespace Utterance.Spelled

variable {v : Utterance} {text : List Char}

theorem word (hne : text ≠ []) (hword : ∀ c ∈ text, isWordChar c = true) :
    (Utterance.operand text).Spelled text where
  start := by
    obtain ⟨c, rest, rfl⟩ := List.exists_cons_of_ne_nil hne
    exact ⟨c, rest, rfl, fun mark _ => pairs_word (hword c (.head _)) mark⟩
  tokens_eq := tokens_word hne hword

theorem parentheses (h : u.Spelled text) : (Utterance.parentheses u).Spelled ('(' :: text ++ [')']) where
  start := ⟨'(', _, rfl, by decide⟩
  tokens_eq := by
    obtain ⟨c, rest, rfl, hpairs⟩ := h.start
    rw [tokens_parentheses hpairs, h.tokens_eq]
    rfl

theorem unary (op : Unary) (h : u.Spelled text) :
    (Utterance.unary op u).Spelled ((unarySign op).toList ++ text) where
  start := by cases op <;> exact ⟨_, _, rfl, by decide⟩
  tokens_eq := by
    obtain ⟨c, rest, rfl, hpairs⟩ := h.start
    rw [Utterance.tokens, ← h.tokens_eq]
    cases op with
    | not => exact tokens_negated (c :: rest)
    | plus => exact tokens_mark rfl (by decide) (hpairs '+' (by decide))
    | minus => exact tokens_mark rfl (by decide) (hpairs '-' (by decide))
    | invert => exact tokens_mark rfl (by decide) (hpairs '~' (by decide))

variable {text' : List Char}

theorem tokens_between (h : u.Spelled text) (h' : v.Spelled text') {sign : String}
    {t : Token} (ht : Reading.tokens sign.toList = [t]) :
    Reading.tokens (text ++ ' ' :: (sign.toList ++ ' ' :: text')) = u.tokens ++ t :: v.tokens := by
  rw [tokens_append breaks_blank, tokens_blank, tokens_append breaks_blank, tokens_blank, ht,
    h.tokens_eq, h'.tokens_eq]
  rfl

theorem binary (op : Binary) (h : u.Spelled text) (h' : v.Spelled text') :
    (Utterance.binary op u v).Spelled (text ++ ' ' :: ((sign op).toList ++ ' ' :: text')) where
  start := by
    obtain ⟨c, rest, rfl, hpairs⟩ := h.start
    exact ⟨c, _, rfl, hpairs⟩
  tokens_eq := h.tokens_between h' (by cases op <;> decide)

theorem choice {w : Utterance} {text'' : List Char} (h : u.Spelled text) (h' : v.Spelled text')
    (h'' : w.Spelled text'') :
    (Utterance.choice u v w).Spelled
      (text ++ ' ' :: ("if".toList ++ ' ' :: (text' ++ ' ' :: ("else".toList ++ ' ' :: text'')))) where
  start := by
    obtain ⟨c, rest, rfl, hpairs⟩ := h.start
    exact ⟨c, _, rfl, hpairs⟩
  tokens_eq := by
    have hinner := h'.tokens_between h'' (show Reading.tokens "else".toList = [.word "else".toList] by decide)
    rw [tokens_append breaks_blank, tokens_blank, tokens_append breaks_blank, tokens_blank, hinner,
      h.tokens_eq]
    rfl

end Utterance.Spelled

theorem Expression.write_question {s : Scope} {c : Cursor} {sheet : Sheet} (h : c.kind = .question) :
    Expression.write s c sheet = writeChoice Expression.write s c := by
  rw [write_eq]
  unfold writeVisit writeAccept
  rw [h]
  change (writeChoice Expression.write s c >>= fun a => pure (Expression.Next.done a)) >>= _ = _
  cases writeChoice Expression.write s c <;> rfl

theorem worded_question {c test yes no : Cursor} {a b d : String} (hkind : c.kind = .question)
    (hchildren : c.children = [test, yes, no]) (htest : WrittenAs .loose test a)
    (hyes : WrittenAs .loose yes b) (hno : WrittenAs .loose no d) :
    WrittenAs .loose c (b ++ " if " ++ (a ++ " else " ++ d)) := by
  obtain ⟨testSheet, hwriteTest, htest⟩ := htest
  obtain ⟨yesSheet, hwriteYes, hyes⟩ := hyes
  obtain ⟨noSheet, hwriteNo, hno⟩ := hno
  have hinner : (Doc.node (Slot.left ++ " else " ++ Slot.right) testSheet.doc noSheet.doc).text?
      = some (a ++ " else " ++ d) :=
    (Doc.text_node htest hno).trans (Slot.filled_between " else " (by decide) a d)
  refine ⟨⟨Slot.left ++ " if " ++ Slot.right, yesSheet.doc,
    .node (Slot.left ++ " else " ++ Slot.right) testSheet.doc noSheet.doc⟩, ?_,
    (Doc.text_node hyes hinner).trans (Slot.filled_between " if " (by decide) b _)⟩
  rw [write_question hkind]
  unfold writeChoice
  rw [hchildren]
  change (Expression.write .loose test {} >>= fun _ => Expression.write .loose yes {} >>= fun _ =>
    Expression.write .loose no {} >>= _) = _
  rw [hwriteTest, hwriteYes, hwriteNo]
  rfl

theorem SaidAs.choice {head : Head} {test yes no : Tree} {a b d : String} (hkind : head.kind = .question)
    (htest : SaidAs test a) (hyes : SaidAs yes b) (hno : SaidAs no d) :
    SaidAs (.node head [test, yes, no]) (b ++ " if " ++ (a ++ " else " ++ d)) := by
  refine .of_written hkind (by decide) ?_ fun _ _ => worded_question hkind rfl
    (htest.child hkind rfl) (hyes.child hkind rfl) (hno.child hkind rfl)
  simpa [Tree.children] using ⟨htest.plain, hyes.plain, hno.plain⟩

theorem Composed.kind_eq (h : Composed .expression t u) : t.kind = .expr := by
  cases h with
  | expression hkind _ => exact hkind

/-- A tree that follows from the rules is said as it is written, with its own parentheses. -/
theorem Composed.spoken (h : Composed stratum t u) : ∃ text, SaidAs t text ∧ u.Spelled text.toList := by
  induction h with
  | expression hkind h ih =>
    obtain ⟨text, hsaid, hspelled⟩ := ih
    exact ⟨text, hsaid.expression hkind, hspelled⟩
  | choice hkind _ _ _ iht ihy ihn =>
    obtain ⟨test, htest, hspelledTest⟩ := iht
    obtain ⟨yes, hyes, hspelledYes⟩ := ihy
    obtain ⟨no, hno, hspelledNo⟩ := ihn
    refine ⟨_, .choice hkind htest hyes hno, ?_⟩
    simpa using hspelledYes.choice hspelledTest hspelledNo
  | unconditional h ih => exact ih
  | name hkind hword => exact ⟨_, .name hkind, .word hword.1 hword.2⟩
  | literal hkind hword => exact ⟨_, .literal hkind, .word hword.1 hword.2⟩
  | parenthesized hkind h ih =>
    obtain ⟨text, hsaid, hspelled⟩ := ih
    refine ⟨_, hsaid.parenthesized hkind h.kind_eq, ?_⟩
    simpa using hspelled.parentheses
  | unary op hkind h ih =>
    obtain ⟨text, hsaid, hspelled⟩ := ih
    refine ⟨_, hsaid.unary hkind, ?_⟩
    simpa using hspelled.unary op
  | binary op hkind htext hl hr ihl ihr =>
    obtain ⟨left, hleft, hspelledLeft⟩ := ihl
    obtain ⟨right, hright, hspelledRight⟩ := ihr
    refine ⟨_, hleft.binary hkind htext hright, ?_⟩
    simpa using hspelledLeft.binary op hspelledRight
  | tighter h ih => exact ih

/-- The text of a tree has the tokens of what is written for it. -/
theorem Composed.wording {tree : Tree}
    (h : Composed stratum tree u) (hroot : tree.kind ≠ .parenthesizedExpr) {w : Workshop}
    (hconfig : w.config = .standard) :
    ∃ text w', wording tree w = .ok text w' ∧ tokens text.toList = u.tokens := by
  obtain ⟨text, hsaid, hspelled⟩ := h.spoken
  obtain ⟨w', hwording⟩ := hsaid.wording hroot hconfig
  exact ⟨text, w', hwording, hspelled.tokens_eq⟩

namespace Build

/-- The text of a tree means what the tree means if and only if no operators meet in it, without
parentheses, about which the two languages disagree. -/
theorem wording_reads_iff {stratum : Stratum} {tree : Tree} {u : Utterance}
    (h : Composed stratum tree u)
    (hnames : tree.Every fun head =>
      head.kind = .ident ∨ Expression.literals.contains head.kind = true → head.text ∉ reserved)
    (hroot : tree.kind ≠ .parenthesizedExpr) {w : Workshop} (hconfig : w.config = .standard) :
    ∃ text w', wording tree w = .ok text w' ∧ (Reads text u.sense ↔ mixes tree = false) := by
  obtain ⟨text, w', hwording, htokens⟩ := h.wording hroot hconfig
  exact ⟨text, w', hwording, (reads_iff_grammatical htokens).trans (h.grammatical_iff hnames)⟩

def nameNode (text : String) : Tree := .node { kind := .ident, text } []

theorem composed_name (text : String) (h : IsWord text) (n : Nat) (hn : n ≤ primaryRule) :
    Composed (.operation n) (nameNode text) (.operand text.toList) :=
  .looser hn (.name rfl h)

/-- The tree of `a ? b ? c : d : !e && f < g`. -/
def nestedChoiceTree : Tree :=
  .node { kind := .expr } [.node { kind := .question, text := "?" } [nameNode "a",
      .node { kind := .question, text := "?" } [nameNode "b", nameNode "c", nameNode "d"],
      .node { kind := .logicalAnd, text := "&&" } [.node { kind := .logicalNot, text := "!" } [nameNode "e"],
        .node { kind := .lessThan, text := "<" } [nameNode "f", nameNode "g"]]]]

/-- What is written for that tree. -/
def nestedChoiceUtterance : Utterance :=
  .choice (.choice (.operand ['c']) (.operand ['b']) (.operand ['d'])) (.operand ['a'])
    (.binary .and (.unary .not (.operand ['e'])) (.binary .less (.operand ['f']) (.operand ['g'])))

theorem composed_nestedChoice : Composed .expression nestedChoiceTree nestedChoiceUtterance := by
  refine .expression rfl (.choice rfl (composed_name "a" (by decide) 0 (by decide)) ?_ ?_)
  · exact .choice rfl (composed_name "b" (by decide) 0 (by decide))
      (.unconditional (composed_name "c" (by decide) 0 (by decide)))
      (.unconditional (composed_name "d" (by decide) 0 (by decide)))
  · refine .unconditional (.tighter (.binary .and rfl rfl ?_ ?_))
    · exact .looser (m := unaryRule) (by decide)
        (.unary .not rfl (composed_name "e" (by decide) unaryRule (by decide)))
    · exact .looser (m := 6) (by decide) (.binary .less rfl rfl
        (composed_name "f" (by decide) 6 (by decide)) (composed_name "g" (by decide) 7 (by decide)))

/-- A conditional expression in the middle of another one is read as something else. -/
theorem wording_reads_iff_nestedChoice :
    (Composed .expression nestedChoiceTree nestedChoiceUtterance
      ∧ (nestedChoiceTree.Every fun head =>
        head.kind = .ident ∨ Expression.literals.contains head.kind = true → head.text ∉ reserved)
      ∧ nestedChoiceTree.kind ≠ .parenthesizedExpr)
    ∧ ∃ text w', wording nestedChoiceTree { config := .standard } = .ok text w'
      ∧ (Reads text nestedChoiceUtterance.sense ↔ mixes nestedChoiceTree = false) := by
  have hnames : nestedChoiceTree.Every fun head =>
      head.kind = .ident ∨ Expression.literals.contains head.kind = true → head.text ∉ reserved := by
    simp [nestedChoiceTree, nameNode, reserved]
  have hroot : nestedChoiceTree.kind ≠ .parenthesizedExpr := by decide
  exact ⟨⟨composed_nestedChoice, hnames, hroot⟩,
    wording_reads_iff composed_nestedChoice hnames hroot rfl⟩

/-- The tree of `a == b & c`. -/
def comparedBitsTree : Tree :=
  .node { kind := .expr } [.node { kind := .bitAnd, text := "&" } [
      .node { kind := .equal, text := "==" } [nameNode "a", nameNode "b"], nameNode "c"]]

/-- What is written for that tree. -/
def comparedBitsUtterance : Utterance :=
  .binary .bitAnd (.binary .equal (.operand ['a']) (.operand ['b'])) (.operand ['c'])

/-- A comparison below an operator on bits, and a conditional expression in the middle of another one,
are written without parentheses; their texts do not mean what the trees mean. -/
theorem misread_compared_bits :
    (Composed .expression comparedBitsTree comparedBitsUtterance
      ∧ (∃ w', wording comparedBitsTree { config := .standard } = .ok "a == b & c" w')
      ∧ ¬ Reads "a == b & c" comparedBitsUtterance.sense
      ∧ Reads "a == b & c"
        (.binary .equal (.operand ['a']) (.binary .bitAnd (.operand ['b']) (.operand ['c']))))
    ∧ Composed .expression nestedChoiceTree nestedChoiceUtterance
      ∧ ∃ text w', wording nestedChoiceTree { config := .standard } = .ok text w'
        ∧ ¬ Reads text nestedChoiceUtterance.sense := by
  refine ⟨⟨?_, ok_of_given (by decide +kernel), ?_, ?_⟩, composed_nestedChoice, ?_⟩
  · refine .expression rfl (.unconditional (.looser (m := 4) (by decide) (.binary .bitAnd rfl rfl ?_ ?_)))
    · exact .tighter (.binary .equal rfl rfl (composed_name "a" (by decide) 5 (by decide))
        (composed_name "b" (by decide) 6 (by decide)))
    · exact composed_name "c" (by decide) 5 (by decide)
  · rw [reads_iff_grammatical (by decide)]
    decide
  · exact ⟨.binary .equal (.operand ['a']) (.binary .bitAnd (.operand ['b']) (.operand ['c'])),
      by decide, by decide, rfl⟩
  · obtain ⟨text, w', hwording, htokens⟩ :=
      composed_nestedChoice.wording (by decide) (w := { config := .standard }) rfl
    refine ⟨text, w', hwording, ?_⟩
    rw [reads_iff_grammatical htokens]
    decide

end Build

end Transcriber
