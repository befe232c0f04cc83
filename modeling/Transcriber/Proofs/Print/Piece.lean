import Transcriber.Proofs.Print.Opening

/-!
# A module in pieces

The blocks below a module, each with what is printed of it: expressions with their texts, methods,
statements and types with the lines that open them.  Expressions that stand in a type and mention its
name with a dot are moved to the end of the module.

* `Piece.count_printed` — every expression is printed once.
-/

namespace Transcriber

open List

/-- A block with what stands below it. -/
inductive Piece where
  /-- An expression and its text. -/
  | line (id : BlockId) (b : Block) (text : String)
  /-- A method or a statement; what opens it, level by level. -/
  | suite (id : BlockId) (b : Block) (opening : Int → String) (members : List Piece)
  /-- A type. -/
  | type (id : BlockId) (b : Block) (opening : Int → String) (members : List Piece)

/-- An expression of a type that is moved to the end of the module. -/
structure Move where
  owner : BlockId
  /-- The name of the type. -/
  name : String
  child : BlockId
  text : String

/-- A text that is printed, with the expression of which it is. -/
abbrev Shown := Option BlockId × String

/-- The block that is put at the end of the module for an expression that is moved there. -/
def Move.wrapper (home : BlockId) (v : Move) : Block :=
  { form := .expression { template := v.name ++ "." ++ Slot.right, right := .block v.child },
    parent := some home }

/-- What is printed of it: the expression behind the name of its type. -/
def Move.shown (home : BlockId) (level : Int) (v : Move) : Block × List Shown :=
  (v.wrapper home, [(some v.child, Printer.lineText (indentOf level) (v.name ++ "." ++ v.text))])

/-- Puts empty lines between blocks: as many as two neighbors ask for. -/
def arrange (gap : Block → Block → Nat) (blank : String) : Option Block → List (Block × List Shown) →
    List Shown
  | _, [] => []
  | before, (b, shown) :: rest =>
    List.replicate ((before.map (gap · b)).getD 0) (none, blank) ++ shown ++ arrange gap blank (some b) rest

namespace Piece

def id : Piece → BlockId
  | line id _ _ => id
  | suite id _ _ _ => id
  | type id _ _ _ => id

/-- The block of a piece. -/
def block : Piece → Block
  | line _ b _ => b
  | suite _ b _ _ => b
  | type _ b _ _ => b

/-- An expression of a type is moved if its text has the name of the type with a dot. -/
def move? (owner : BlockId) (name : String) : Piece → Option Move
  | line id _ text =>
    if Value.occursIn (name ++ ".").toList text.toList then some ⟨owner, name, id, text⟩ else none
  | _ => none

mutual

def ids : Piece → List BlockId
  | line id _ _ => [id]
  | suite id _ _ members => id :: idsEach members
  | type id _ _ members => id :: idsEach members

def idsEach : List Piece → List BlockId
  | [] => []
  | p :: ps => p.ids ++ idsEach ps

end

mutual

/-- The expressions among the blocks of a piece. -/
def expressions : Piece → List BlockId
  | line id _ _ => [id]
  | suite _ _ _ members => expressionsEach members
  | type _ _ _ members => expressionsEach members

def expressionsEach : List Piece → List BlockId
  | [] => []
  | p :: ps => p.expressions ++ expressionsEach ps

end

mutual

/-- The expressions of types that are moved: first those of a type, then those of the types in it. -/
def moves : Piece → List Move
  | line _ _ _ => []
  | suite _ _ _ members => movesEach members
  | type id b _ members =>
    members.filterMap (move? id (Handler.nameText b.name)) ++ movesEach members

def movesEach : List Piece → List Move
  | [] => []
  | p :: ps => p.moves ++ movesEach ps

end

mutual

/-- What is printed in the place of a piece. -/
def lines (level : Int) : Piece → List Shown
  | line id _ text => [(some id, Printer.lineText (indentOf level) text)]
  | suite _ b opening members =>
    (none, opening level) :: (none, b.headText (level + 1))
      :: (linesEach (level + 1) members).flatMap Prod.snd
  | type id b opening members =>
    (none, opening level) :: (none, b.headText (level + 1))
      :: arrange (fun before after => if Printer.blankBetween before after then 1 else 0)
        (Printer.lineText (indentOf (level + 1)) "") none
        (((linesEach (level + 1) members).filter fun shown =>
          (shown.1.move? id (Handler.nameText b.name)).isNone).map fun shown => (shown.1.block, shown.2))

def linesEach (level : Int) : List Piece → List (Piece × List Shown)
  | [] => []
  | p :: ps => (p, p.lines level) :: linesEach level ps

end

/-- What is printed between the prologue and the epilogue of a module: its children, then the
expressions that are moved, each behind the name of its type. -/
def printed (home : BlockId) (level : Int) (ps : List Piece) : List Shown :=
  arrange Printer.blanksBetween (Printer.lineText (indentOf level) "") none
    ((ps.map fun p => (p.block, p.lines level)) ++ (movesEach ps).map (Move.shown home level))

theorem linesEach_eq (level : Int) (ps : List Piece) :
    linesEach level ps = ps.map fun p => (p, p.lines level) := by
  induction ps with
  | nil => rfl
  | cons p ps ih => rw [linesEach, ih, map_cons]

theorem idsEach_eq (ps : List Piece) : idsEach ps = ps.flatMap ids := by
  induction ps with
  | nil => rfl
  | cons p ps ih => rw [idsEach, ih, flatMap_cons]

theorem id_mem_ids (p : Piece) : p.id ∈ p.ids := by
  cases p <;> simp [id, ids]

theorem move?_eq_some {owner : BlockId} {name : String} {p : Piece} {v : Move}
    (h : p.move? owner name = some v) :
    ∃ b, p = line v.child b v.text ∧ v.owner = owner ∧ v.name = name := by
  cases p with
  | line id b text =>
    rw [move?, Option.ite_none_right_eq_some] at h
    cases h.2
    exact ⟨b, rfl, rfl, rfl⟩
  | suite => cases h
  | type => cases h

/-! ## Every expression is printed once -/

theorem filterMap_arrange (gap : Block → Block → Nat) (blank : String) (before : Option Block)
    (items : List (Block × List Shown)) :
    (arrange gap blank before items).filterMap Prod.fst
      = items.flatMap fun item => item.2.filterMap Prod.fst := by
  induction items generalizing before with
  | nil => rfl
  | cons item items ih =>
    obtain ⟨b, shown⟩ := item
    have hblank : ∀ n, (List.replicate n ((none, blank) : Shown)).filterMap Prod.fst = [] := by
      intro n
      rw [filterMap_replicate_of_none rfl]
    rw [arrange, filterMap_append, filterMap_append, hblank, nil_append, ih, flatMap_cons]

/-- The expressions of some pieces that are printed in their places. -/
def shownEach (level : Int) (ps : List Piece) : List BlockId :=
  ps.flatMap fun p => (p.lines level).filterMap Prod.fst

/-- What is moved out of a type is not printed in it. -/
theorem shownEach_split (level : Int) (owner : BlockId) (name : String) (ps : List Piece) :
    (shownEach level (ps.filter fun p => (p.move? owner name).isNone)
      ++ (ps.filterMap (move? owner name)).map Move.child).Perm (shownEach level ps) := by
  induction ps with
  | nil => exact .refl _
  | cons p ps ih =>
    cases hmove : p.move? owner name with
    | none =>
      rw [filter_cons_of_pos (by simp [hmove]), filterMap_cons_none hmove, shownEach,
        shownEach, flatMap_cons, flatMap_cons, append_assoc]
      exact ih.append_left _
    | some v =>
      obtain ⟨b, rfl, -, -⟩ := move?_eq_some hmove
      rw [filter_cons_of_neg (by simp [hmove]), filterMap_cons_some hmove, map_cons]
      exact perm_middle.trans (ih.cons _)

mutual

theorem perm_expressions (level : Int) : ∀ p : Piece,
    ((p.lines level).filterMap Prod.fst ++ p.moves.map Move.child).Perm p.expressions
  | line id _ text => by simp [lines, moves, expressions]
  | suite id b opening members => by
      have hshown : ((suite id b opening members).lines level).filterMap Prod.fst
          = shownEach (level + 1) members := by
        simp [lines, linesEach_eq, shownEach, filterMap_flatMap, flatMap_map]
      rw [hshown, moves, expressions]
      exact perm_expressionsEach (level + 1) members
  | type id b opening members => by
      have hshown : ((type id b opening members).lines level).filterMap Prod.fst
          = shownEach (level + 1) (members.filter fun p =>
            (p.move? id (Handler.nameText b.name)).isNone) := by
        simp [lines, linesEach_eq, shownEach, filterMap_arrange, flatMap_map, filter_map, Function.comp_def]
      rw [hshown, moves, expressions, map_append, ← append_assoc]
      exact ((shownEach_split (level + 1) id _ members).append_right _).trans
        (perm_expressionsEach (level + 1) members)

theorem perm_expressionsEach (level : Int) : ∀ ps : List Piece,
    (shownEach level ps ++ (movesEach ps).map Move.child).Perm (expressionsEach ps)
  | [] => .refl _
  | p :: ps => by
      have hp := perm_expressions level p
      have hps := perm_expressionsEach level ps
      rw [shownEach, flatMap_cons, movesEach, map_append, expressionsEach]
      refine .trans ?_ (hp.append hps)
      rw [append_assoc, append_assoc]
      exact (perm_append_comm_assoc ..).append_left _

end

mutual

theorem sublist_ids : ∀ p : Piece, p.expressions.Sublist p.ids
  | line _ _ _ => .refl _
  | suite _ _ _ members => (sublist_idsEach members).cons _
  | type _ _ _ members => (sublist_idsEach members).cons _

theorem sublist_idsEach : ∀ ps : List Piece, (expressionsEach ps).Sublist (idsEach ps)
  | [] => .refl _
  | p :: ps => (sublist_ids p).append (sublist_idsEach ps)

end

theorem count_printed (home : BlockId) (level : Int) {ps : List Piece} (hnodup : (idsEach ps).Nodup)
    {i : BlockId} (hi : i ∈ expressionsEach ps) :
    ((printed home level ps).filterMap Prod.fst).count i = 1 := by
  have hshown : (printed home level ps).filterMap Prod.fst
      = shownEach level ps ++ (movesEach ps).map Move.child := by
    rw [printed, filterMap_arrange, flatMap_append, flatMap_map, flatMap_map]
    exact congrArg (_ ++ ·) map_eq_flatMap.symm
  rw [hshown, (perm_expressionsEach level ps).count_eq]
  exact count_eq_one_of_mem ((sublist_idsEach ps).nodup hnodup) hi

end Piece

end Transcriber
