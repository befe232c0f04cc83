import Mathlib.Tactic.Common
import Transcriber.Text.Ranges

/-!
# Reading operators back

A reader for the operators of the output language.  A text is cut into words and marks; operators are
then put together with their operands by how tightly they bind.  Operators that bind equally tightly
group from the left; of comparisons there is only one at a time, as a chain of them means something
else than its parts.

* `Reading.Phrase` — texts that are read as one operand wherever an operator of a level may stand.
-/

namespace Transcriber

open List Option

/-- An operator between two operands. -/
inductive Binary where
  | or | and | equal | notEqual | less | greater | lessEqual | greaterEqual
  | bitOr | bitXor | bitAnd | shiftLeft | shiftRight | plus | minus | times | over | modulo
deriving DecidableEq, Repr

/-- An operator before its operand. -/
inductive Unary where
  | not | plus | minus | invert
deriving DecidableEq, Repr

/-- Operands under operators. -/
inductive Grouping where
  | operand (text : String)
  | unary (op : Unary) (inner : Grouping)
  | binary (op : Binary) (left right : Grouping)
deriving DecidableEq, Repr

namespace Reading

/-! ## Words and marks -/

/-- A token of the output language. -/
inductive Token where
  | word (text : List Char)
  | mark (text : List Char)
deriving DecidableEq, Repr

/-- The characters that belong to the word before them, in either language. -/
def isWordChar (c : Char) : Bool := c.isAlphanum || c == '_' || c == '$' || 128 ≤ c.toNat

def pairs : List (List Char) :=
  ["<<", ">>", "<=", ">=", "==", "!=", "<>", "**", "//", "->", ":=", "+=", "-=", "*=", "/=", "%=",
    "@=", "&=", "|=", "^="].map (·.toList)

def ended (word : List Char) : List Token := if word.isEmpty then [] else [.word word]

/-- The tokens of a text behind the beginning of a word. -/
def tokensAfter : List Char → List Char → List Token
  | word, [] => ended word
  | word, [c] =>
    if isWordChar c then ended (word ++ [c])
    else if c == ' ' then ended word
    else ended word ++ [.mark [c]]
  | word, c :: d :: rest =>
    if isWordChar c then tokensAfter (word ++ [c]) (d :: rest)
    else if c == ' ' then ended word ++ tokensAfter [] (d :: rest)
    else if pairs.contains [c, d] then ended word ++ .mark [c, d] :: tokensAfter [] rest
    else ended word ++ .mark [c] :: tokensAfter [] (d :: rest)

/-- The tokens of a text. -/
def tokens (text : List Char) : List Token := tokensAfter [] text

/-- Whether a character can neither go on with a word nor end a mark of two characters. -/
def Breaks (d : Char) : Prop := isWordChar d = false ∧ ∀ c, pairs.contains [c, d] = false

theorem breaks_blank : Breaks ' ' := ⟨rfl, fun c => by simp [pairs]⟩

theorem breaks_closing : Breaks ')' := ⟨rfl, fun c => by simp [pairs]⟩

variable {d c : Char} {text : List Char}

theorem tokensAfter_break (hd : Breaks d) (word rest : List Char) :
    tokensAfter word (d :: rest) = ended word ++ tokensAfter [] (d :: rest) := by
  cases rest with
  | nil => cases hblank : d == ' ' <;> simp [tokensAfter, hd.1, hblank, ended]
  | cons e rest =>
    rw [tokensAfter, tokensAfter, hd.1]
    split
    case isTrue h => cases h
    · split
      · rfl
      · split <;> rfl

/-- A text can be cut before a character that ends what stands before it. -/
theorem tokensAfter_append (hd : Breaks d) (word text rest : List Char) :
    tokensAfter word (text ++ d :: rest) = tokensAfter word text ++ tokensAfter [] (d :: rest) := by
  fun_induction tokensAfter word text with
  | case1 word => exact tokensAfter_break hd word rest
  | case2 word c hc =>
    rw [singleton_append, tokensAfter, if_pos hc, tokensAfter_break hd]
  | case3 word c hc hblank =>
    rw [singleton_append, tokensAfter, if_neg hc, if_pos hblank]
  | case4 word c hc hblank =>
    rw [singleton_append, tokensAfter, if_neg hc, if_neg hblank, hd.2 c,
      if_neg Bool.false_ne_true, append_assoc, singleton_append]
  | case5 word c e text hc ih =>
    rw [cons_append, cons_append, tokensAfter, if_pos hc]
    exact ih
  | case6 word c e text hc hblank ih =>
    rw [cons_append, cons_append, tokensAfter, if_neg hc, if_pos hblank, append_assoc]
    exact congrArg _ ih
  | case7 word c e text hc hblank hpair ih =>
    rw [cons_append, cons_append, tokensAfter, if_neg hc, if_neg hblank, if_pos hpair,
      ih, append_assoc, cons_append]
  | case8 word c e text hc hblank hpair ih =>
    rw [cons_append, cons_append, tokensAfter, if_neg hc, if_neg hblank, if_neg hpair,
      append_assoc, cons_append]
    exact congrArg (fun ts => ended word ++ Token.mark [c] :: ts) ih

theorem tokens_append (hd : Breaks d) (text rest : List Char) :
    tokens (text ++ d :: rest) = tokens text ++ tokens (d :: rest) :=
  tokensAfter_append hd [] text rest

theorem tokens_blank (text : List Char) : tokens (' ' :: text) = tokens text := by
  cases text <;> rfl

theorem tokensAfter_word {word : List Char} (h : ∀ c ∈ text, isWordChar c = true) :
    tokensAfter word text = ended (word ++ text) := by
  fun_induction tokensAfter word text with
  | case1 word => rw [append_nil]
  | case2 word c hc => rfl
  | case5 word c e text hc ih =>
    rw [ih fun x hx => h x (.tail _ hx), append_assoc, singleton_append]
  | _ => exact absurd (h _ (.head _)) (by assumption)

theorem tokens_word (hne : text ≠ []) (h : ∀ c ∈ text, isWordChar c = true) : tokens text = [.word text] := by
  rw [tokens, tokensAfter_word h, nil_append, ended, if_neg (by simpa using hne)]

/-- A mark of one character that makes no pair with what follows stands for itself. -/
theorem tokens_mark (hc : isWordChar c = false) (hblank : c ≠ ' ') (hpair : pairs.contains [c, d] = false) :
    tokens (c :: d :: text) = .mark [c] :: tokens (d :: text) := by
  rw [tokens, tokensAfter, hc, if_neg Bool.false_ne_true, if_neg (by simpa using hblank), hpair,
    if_neg Bool.false_ne_true]
  rfl

theorem pairs_word (hc : isWordChar c = true) (mark : Char) : pairs.contains [mark, c] = false := by
  rw [Bool.eq_false_iff]
  intro hpair
  have hends : ∀ pair ∈ pairs, pair.getLast?.any isWordChar = false := by decide
  have hend : isWordChar c = false := hends _ (contains_iff_mem.1 hpair)
  rw [hend] at hc
  cases hc

theorem tokens_parentheses {rest : List Char}
    (hpairs : ∀ mark ∈ ['+', '-', '~', '('], pairs.contains [mark, c] = false) :
    tokens ('(' :: (c :: rest) ++ [')']) = .mark ['('] :: (tokens (c :: rest) ++ [.mark [')']]) := by
  have hclosing := tokens_append breaks_closing (c :: rest) []
  rw [cons_append] at hclosing
  rw [cons_append, cons_append, tokens_mark rfl (by decide) (hpairs '(' (by decide)), hclosing]
  rfl

theorem tokens_negated (text : List Char) :
    tokens ("not ".toList ++ text) = .word "not".toList :: tokens text := by
  change tokens ("not".toList ++ ' ' :: text) = _
  rw [tokens_append breaks_blank, tokens_blank]
  rfl

/-! ## Operators -/

/-- The sign of an operator. -/
def sign : Binary → String
  | .or => "or"
  | .and => "and"
  | .equal => "=="
  | .notEqual => "!="
  | .less => "<"
  | .greater => ">"
  | .lessEqual => "<="
  | .greaterEqual => ">="
  | .bitOr => "|"
  | .bitXor => "^"
  | .bitAnd => "&"
  | .shiftLeft => "<<"
  | .shiftRight => ">>"
  | .plus => "+"
  | .minus => "-"
  | .times => "*"
  | .over => "/"
  | .modulo => "%"

/-- How tightly an operator binds. -/
def level : Binary → Nat
  | .or => 0
  | .and => 1
  | .equal | .notEqual | .less | .greater | .lessEqual | .greaterEqual => 3
  | .bitOr => 4
  | .bitXor => 5
  | .bitAnd => 6
  | .shiftLeft | .shiftRight => 7
  | .plus | .minus => 8
  | .times | .over | .modulo => 9

/-- How tightly an operator before its operand binds. -/
def unaryLevel : Unary → Nat
  | .not => 2
  | .plus | .minus | .invert => 10

def compares : Binary → Bool
  | .equal | .notEqual | .less | .greater | .lessEqual | .greaterEqual => true
  | _ => false

/-- How tightly the operators of a left operand have to bind: operators group from the left, but for
comparisons. -/
def leftLevel (op : Binary) : Nat := if compares op then level op + 1 else level op

/-- The operator between operands that a token stands for. -/
def binary? : Token → Option Binary
  | .word text =>
    if text = "or".toList then some .or else if text = "and".toList then some .and else none
  | .mark text =>
    [Binary.equal, .notEqual, .less, .greater, .lessEqual, .greaterEqual, .bitOr, .bitXor,
      .bitAnd, .shiftLeft, .shiftRight, .plus, .minus, .times, .over, .modulo].find?
      fun op => (sign op).toList == text

/-- The operator before an operand that a token stands for. -/
def unary? : Token → Option Unary
  | .word text => if text = "not".toList then some .not else none
  | .mark ['+'] => some .plus
  | .mark ['-'] => some .minus
  | .mark ['~'] => some .invert
  | .mark _ => none

/-- The words that are no operands. -/
def reserved : List String := [
  "and", "as", "assert", "async", "await", "break", "class", "continue", "def", "del", "elif",
  "else", "except", "finally", "for", "from", "global", "if", "import", "in", "is", "lambda",
  "nonlocal", "not", "or", "pass", "raise", "return", "try", "while", "with", "yield"]

/-- A word that is read as a name: letters, digits and underscores, and no digit at its start. -/
structure IsIdentifier (text : String) : Prop where
  ne_nil : text.toList ≠ []
  chars : ∀ c ∈ text.toList, c.isAlphanum = true ∨ c = '_'
  start : text.toList.head?.any Char.isDigit = false
  free : text ∉ reserved

instance (text : String) : Decidable (IsIdentifier text) :=
  decidable_of_iff (text.toList ≠ [] ∧ (∀ c ∈ text.toList, c.isAlphanum = true ∨ c = '_')
      ∧ text.toList.head?.any Char.isDigit = false ∧ text ∉ reserved)
    ⟨fun ⟨h1, h2, h3, h4⟩ => ⟨h1, h2, h3, h4⟩, fun ⟨h1, h2, h3, h4⟩ => ⟨h1, h2, h3, h4⟩⟩

/-- A number in decimal digits, without a zero at its start. -/
def IsDecimal (text : String) : Prop :=
  text.toList ≠ [] ∧ (∀ c ∈ text.toList, c.isDigit = true)
    ∧ (text.toList.head? = some '0' → text.toList.length = 1)

instance (text : String) : Decidable (IsDecimal text) := inferInstanceAs (Decidable (_ ∧ _ ∧ _))

/-- A word that is read as an operand. -/
def IsOperand (text : String) : Prop := IsIdentifier text ∨ IsDecimal text

instance (text : String) : Decidable (IsOperand text) := inferInstanceAs (Decidable (_ ∨ _))

theorem IsOperand.ne_nil {text : String} (h : IsOperand text) : text.toList ≠ [] := by
  rcases h with h | h
  · exact h.ne_nil
  · exact h.1

theorem IsOperand.isWordChar {text : String} (h : IsOperand text) {c : Char} (hc : c ∈ text.toList) :
    isWordChar c = true := by
  rcases h with h | h
  · rcases h.chars c hc with halphanum | rfl
    · simp [Reading.isWordChar, halphanum]
    · rfl
  · simp [Reading.isWordChar, Char.isAlphanum, h.2.1 c hc]

theorem IsOperand.not_reserved {text : String} (h : IsOperand text) : text ∉ reserved := by
  rcases h with h | ⟨hne, hdigits, -⟩
  · exact h.free
  · have hreserved : ∀ word ∈ reserved, word.toList.head?.any Char.isDigit = false := by decide
    intro hmem
    obtain ⟨c, cs, hcs⟩ := exists_cons_of_ne_nil hne
    have hstart := hreserved text hmem
    rw [hcs, head?_cons, Option.any_some, hdigits c (hcs ▸ .head _)] at hstart
    cases hstart

/-! ## Putting operators together -/

/-- What waits for an operand. -/
inductive Frame where
  | parentheses
  | unary (op : Unary)
  | binary (op : Binary) (left : Grouping)
deriving DecidableEq, Repr

namespace Frame

def plug (g : Grouping) : Frame → Grouping
  | parentheses => g
  | unary op => .unary op g
  | binary op left => .binary op left g

/-- Whether an operator of a level may stand in the operand of a frame. -/
def admits (k : Nat) : Frame → Bool
  | parentheses => true
  | unary op => unaryLevel op ≤ k
  | binary op _ => level op < k

/-- Whether an operand of a frame ends before an operator whose own operands have a level. -/
def binds (k : Nat) : Frame → Bool
  | parentheses => false
  | unary op => k ≤ unaryLevel op
  | binary op _ => k ≤ level op

end Frame

/-- Whether an operator of a level may stand where the frames wait for an operand. -/
def admits (k : Nat) : List Frame → Bool
  | [] => true
  | frame :: _ => frame.admits k

/-- Gives an operand to the frames that end before an operator. -/
def complete (k : Nat) : List Frame → Grouping → List Frame × Grouping
  | [], g => ([], g)
  | frame :: stack, g =>
    if frame.binds k then complete k stack (frame.plug g) else (frame :: stack, g)

/-- How far the reading of a text has come: what waits for an operand, and the operand that has just
been read, if there is one. -/
structure State where
  stack : List Frame := []
  found : Option Grouping := none
deriving DecidableEq, Repr

/-- Reads a token where an operand has to begin. -/
def seek (stack : List Frame) (t : Token) : Option State :=
  match unary? t with
  | some op => if admits (unaryLevel op) stack then some ⟨.unary op :: stack, none⟩ else none
  | none =>
    match t with
    | .word text =>
      if IsOperand (String.ofList text) then some ⟨stack, some (.operand (String.ofList text))⟩
      else none
    | .mark text => if text = ['('] then some ⟨.parentheses :: stack, none⟩ else none

/-- Reads a token behind an operand. -/
def goOn (stack : List Frame) (g : Grouping) (t : Token) : Option State :=
  match binary? t with
  | some op =>
    let (stack, left) := complete (leftLevel op) stack g
    if admits (level op) stack then some ⟨.binary op left :: stack, none⟩ else none
  | none =>
    if t = .mark [')'] then
      match complete 0 stack g with
      | (.parentheses :: stack, g) => some ⟨stack, some g⟩
      | _ => none
    else none

def step (s : State) (t : Token) : Option State :=
  match s.found with
  | none => seek s.stack t
  | some g => goOn s.stack g t

/-- What has been read when the text is at its end. -/
def result (s : State) : Option Grouping := do
  let g ← s.found
  match complete 0 s.stack g with
  | ([], g) => some g
  | _ => none

/-- The grouping of a text. -/
def read (text : String) : Option Grouping := do
  result (← (tokens text.toList).foldlM step {})

example : read "-a + b * (c | 1) < ~d << 2 and not e"
    = some (.binary .and (.binary .less (.binary .plus (.unary .minus (.operand "a"))
          (.binary .times (.operand "b") (.binary .bitOr (.operand "c") (.operand "1"))))
        (.binary .shiftLeft (.unary .invert (.operand "d")) (.operand "2")))
      (.unary .not (.operand "e"))) := by decide

example : read "a < b < c" = none := by decide

/-! ## Phrases -/

section

variable {k k' : Nat} {stack frames : List Frame} {g g' : Grouping}

variable {frame : Frame}

theorem Frame.admits_mono (hk : k ≤ k') (h : frame.admits k = true) : frame.admits k' = true := by
  cases frame <;> simp_all [Frame.admits] <;> omega

theorem Frame.binds_mono (hk : k ≤ k') (h : frame.binds k' = true) : frame.binds k = true := by
  cases frame <;> simp_all [Frame.binds] <;> omega

theorem admits_mono (hk : k ≤ k') (h : admits k stack = true) : admits k' stack = true := by
  cases stack with
  | nil => rfl
  | cons frame stack => exact Frame.admits_mono hk h

/-- What frames make of an operand, one after the other. -/
def plugAll (frames : List Frame) (g : Grouping) : Grouping := frames.foldl (fun g f => f.plug g) g

theorem complete_append (h : ∀ frame ∈ frames, frame.binds k = true) :
    complete k (frames ++ stack) g = complete k stack (plugAll frames g) := by
  induction frames generalizing g with
  | nil => rfl
  | cons frame frames ih =>
    rw [cons_append, complete, if_pos (h frame (.head _)), ih fun f hf => h f (.tail _ hf)]
    rfl

/-- A frame that takes an operator leaves the left operand of the operator alone. -/
theorem Frame.binds_leftLevel {op : Binary} (h : frame.admits (level op) = true) :
    frame.binds (leftLevel op) = false := by
  cases frame with
  | parentheses => rfl
  | unary op' => cases op <;> cases op' <;> simp_all [Frame.admits, Frame.binds, leftLevel, level,
      unaryLevel, compares]
  | binary op' left =>
    have hle : level op ≤ leftLevel op := by unfold leftLevel; split <;> omega
    simp only [Frame.admits, decide_eq_true_eq] at h
    simp only [Frame.binds, decide_eq_false_iff_not]
    omega

theorem complete_leftLevel {op : Binary} (h : admits (level op) stack = true) :
    complete (leftLevel op) stack g = (stack, g) := by
  cases stack with
  | nil => rfl
  | cons frame stack => rw [complete, Frame.binds_leftLevel h, if_neg Bool.false_ne_true]

end

/-- A text that is read as one operand wherever an operator of a level may stand. -/
structure Phrase (k : Nat) (text : List Char) (g : Grouping) : Prop where
  /-- No mark of an operator before the text makes a pair with its first character. -/
  start : ∃ c rest, text = c :: rest ∧ ∀ mark ∈ ['+', '-', '~', '('], pairs.contains [mark, c] = false
  reads : ∀ stack, admits k stack = true → ∃ frames g',
    (tokens text).foldlM step ⟨stack, none⟩ = some ⟨frames ++ stack, some g'⟩
      ∧ (∀ frame ∈ frames, frame.binds k = true) ∧ plugAll frames g' = g

namespace Phrase

variable {k k' : Nat} {g : Grouping}

theorem mono (h : Phrase k' text g) (hk : k ≤ k') : Phrase k text g where
  start := h.start
  reads stack hstack := by
    obtain ⟨frames, g', hrun, hbinds, hplug⟩ := h.reads stack (admits_mono hk hstack)
    exact ⟨frames, g', hrun, fun f hf => Frame.binds_mono hk (hbinds f hf), hplug⟩

theorem read_eq {text : String} (h : Phrase k text.toList g) : read text = some g := by
  obtain ⟨frames, g', hrun, hbinds, rfl⟩ := h.reads [] rfl
  have hcomplete : complete 0 (frames ++ []) g' = ([], plugAll frames g') :=
    complete_append fun f hf => Frame.binds_mono (Nat.zero_le k) (hbinds f hf)
  unfold read
  rw [hrun]
  change (match complete 0 (frames ++ []) g' with
    | ([], g) => some g
    | _ => none) = _
  rw [hcomplete]

/-- A name or a number is a phrase. -/
theorem word {text : String} (h : IsOperand text) : Phrase k text.toList (.operand text) where
  start := by
    obtain ⟨c, rest, hrest⟩ := exists_cons_of_ne_nil h.ne_nil
    refine ⟨c, rest, hrest, fun mark _ => ?_⟩
    exact pairs_word (h.isWordChar (hrest ▸ .head _)) mark
  reads stack hstack := by
    refine ⟨[], .operand text, ?_, nofun, rfl⟩
    have hunary : unary? (.word text.toList) = none := by
      refine if_neg fun hnot => h.not_reserved ?_
      rw [String.toList_inj.1 hnot]
      decide
    rw [tokens_word h.ne_nil fun c hc => h.isWordChar hc]
    change (seek stack (.word text.toList)).bind some = _
    unfold seek
    rw [hunary]
    dsimp only
    rw [String.ofList_toList, if_pos h]
    rfl

/-- A phrase in parentheses is a phrase. -/
theorem parentheses (h : Phrase 0 text g) : Phrase k ('(' :: text ++ [')']) g where
  start := ⟨'(', _, rfl, by decide⟩
  reads stack _ := by
    obtain ⟨c, rest, rfl, hpairs⟩ := h.start
    obtain ⟨frames, g', hrun, hbinds, rfl⟩ := h.reads (.parentheses :: stack) rfl
    refine ⟨[], plugAll frames g', ?_, nofun, rfl⟩
    have hopen : step ⟨stack, none⟩ (.mark ['(']) = some ⟨.parentheses :: stack, none⟩ := rfl
    have hclose : step ⟨frames ++ .parentheses :: stack, some g'⟩ (.mark [')'])
        = some ⟨stack, some (plugAll frames g')⟩ := by
      have hcomplete : complete 0 (frames ++ .parentheses :: stack) g'
          = (.parentheses :: stack, plugAll frames g') := by
        rw [complete_append hbinds]
        rfl
      change goOn (frames ++ .parentheses :: stack) g' (.mark [')']) = _
      have hbinary : binary? (.mark [')']) = none := by decide
      unfold goOn
      rw [hbinary, hcomplete]
      rfl
    rw [tokens_parentheses hpairs, foldlM_cons, hopen, bind_eq_bind, bind_some, foldlM_append,
      hrun, bind_eq_bind, bind_some, foldlM_cons, hclose]
    rfl

/-- What is read behind an operator that stands before its operand. -/
theorem reads_unary {op : Unary} {t : Token} (h : Phrase (unaryLevel op) text g)
    (ht : unary? t = some op) (stack : List Frame) (hstack : admits (unaryLevel op) stack = true) :
    ∃ frames g', (t :: tokens text).foldlM step ⟨stack, none⟩ = some ⟨frames ++ stack, some g'⟩
      ∧ (∀ frame ∈ frames, frame.binds (unaryLevel op) = true)
      ∧ plugAll frames g' = .unary op g := by
  obtain ⟨frames, g', hrun, hbinds, rfl⟩ := h.reads (.unary op :: stack) (by simp [admits, Frame.admits])
  have hstep : step ⟨stack, none⟩ t = some ⟨.unary op :: stack, none⟩ := by
    change seek stack t = _
    unfold seek
    rw [ht]
    exact if_pos hstack
  refine ⟨frames ++ [.unary op], g', ?_, ?_, ?_⟩
  · rw [foldlM_cons, hstep, bind_eq_bind, bind_some, hrun, append_assoc]
    rfl
  · intro frame hframe
    rcases mem_append.1 hframe with hmem | hmem
    · exact hbinds frame hmem
    · rw [mem_singleton.1 hmem]
      simp [Frame.binds]
  · rw [plugAll, foldl_append]
    rfl

theorem marked (op : Unary) (mark : Char) (hmark : mark ∈ ['+', '-', '~'])
    (hop : unary? (.mark [mark]) = some op) (h : Phrase (unaryLevel op) text g) :
    Phrase (unaryLevel op) (mark :: text) (.unary op g) where
  start := by
    refine ⟨mark, text, rfl, ?_⟩
    have hpairs : ∀ c ∈ ['+', '-', '~'], ∀ m ∈ ['+', '-', '~', '('], pairs.contains [m, c] = false := by
      decide
    exact hpairs mark hmark
  reads stack hstack := by
    obtain ⟨c, rest, rfl, hpairs⟩ := h.start
    have hmarks : ∀ c ∈ ['+', '-', '~'], isWordChar c = false ∧ c ≠ ' '
        ∧ c ∈ ['+', '-', '~', '('] := by decide
    obtain ⟨hword, hblank, hmem⟩ := hmarks mark hmark
    rw [tokens_mark hword hblank (hpairs mark hmem)]
    exact h.reads_unary hop stack hstack

theorem negated (h : Phrase 2 text g) : Phrase 2 ("not ".toList ++ text) (.unary .not g) where
  start := ⟨'n', _, rfl, by decide⟩
  reads stack hstack := by
    rw [tokens_negated]
    have hnot : Phrase (unaryLevel .not) text g := h
    exact hnot.reads_unary rfl stack hstack

theorem binary {op : Binary} {left right : List Char} {a b : Grouping}
    (hleft : Phrase (leftLevel op) left a) (hright : Phrase (level op + 1) right b) :
    Phrase (level op) (left ++ ' ' :: ((sign op).toList ++ ' ' :: right)) (.binary op a b) where
  start := by
    obtain ⟨c, rest, rfl, hpairs⟩ := hleft.start
    exact ⟨c, _, rfl, hpairs⟩
  reads stack hstack := by
    have hcut : ∃ t, binary? t = some op ∧ tokens (left ++ ' ' :: ((sign op).toList ++ ' ' :: right))
          = tokens left ++ t :: tokens right := by
      rw [tokens_append breaks_blank, tokens_blank, tokens_append breaks_blank, tokens_blank]
      cases op <;> exact ⟨_, by decide, rfl⟩
    obtain ⟨t, ht, hcut⟩ := hcut
    have hlevel : level op ≤ leftLevel op := by unfold leftLevel; split <;> omega
    obtain ⟨frames, a', hrun, hbinds, rfl⟩ := hleft.reads stack (admits_mono hlevel hstack)
    obtain ⟨frames', b', hrun', hbinds', rfl⟩ :=
      hright.reads (.binary op (plugAll frames a') :: stack) (by simp [admits, Frame.admits])
    have hstep : step ⟨frames ++ stack, some a'⟩ t
        = some ⟨.binary op (plugAll frames a') :: stack, none⟩ := by
      change goOn (frames ++ stack) a' t = _
      unfold goOn
      rw [ht]
      dsimp only
      rw [complete_append hbinds, complete_leftLevel hstack]
      exact if_pos hstack
    refine ⟨frames' ++ [.binary op (plugAll frames a')], b', ?_, ?_, ?_⟩
    · rw [hcut, foldlM_append, hrun, bind_eq_bind, bind_some, foldlM_cons,
        hstep, bind_eq_bind, bind_some, hrun', append_assoc]
      rfl
    · intro frame hframe
      rcases mem_append.1 hframe with hmem | hmem
      · exact Frame.binds_mono (Nat.le_succ _) (hbinds' frame hmem)
      · rw [mem_singleton.1 hmem]
        simp [Frame.binds]
    · rw [plugAll, foldl_append]
      rfl

end Phrase

end Reading

end Transcriber
