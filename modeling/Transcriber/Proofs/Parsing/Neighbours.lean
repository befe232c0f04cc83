import Transcriber.Proofs.Lexical.Tiling
import Transcriber.Proofs.Parsing.Leaves

/-!
# The tokens of a shift

A parser does not see the hidden tokens of a text.  So the angle brackets of a shift are neighbours among the tokens
that it sees, but need not be adjacent in the text: blanks and comments may stand between them, and nothing else.

* `Grammar.IsShift` — the nodes of shifts.
* `java_shift_adjacent_iff` — the main statement.
-/

namespace Transcriber

open Transcriber.Lexical Transcriber.Grammar

/-- Neighbours among leaves stand at a position and the next one. -/
theorem Grammar.exists_of_leavesOf {terminals : List Terminal} {a b : Leaf} (h : [a, b] <:+: leavesOf terminals) :
    ∃ us vs, terminals = us ++ ⟨a.kind, a.text⟩ :: ⟨b.kind, b.text⟩ :: vs
      ∧ a.position = some us.length ∧ b.position = some (us.length + 1) := by
  obtain ⟨us, vs, hsplit⟩ := h
  have hsplit : leavesOf terminals = us ++ a :: b :: vs := by simpa using hsplit.symm
  have hmap : terminals = (leavesOf terminals).map fun leaf => ⟨leaf.kind, leaf.text⟩ :=
    List.ext_getElem (by simp [leavesOf]) (by simp [leavesOf])
  have hposition {i : Nat} {leaf : Leaf} (hleaf : (leavesOf terminals)[i]? = some leaf) : leaf.position = some i := by
    rw [leavesOf, List.getElem?_mapIdx] at hleaf
    obtain ⟨token, -, rfl⟩ := Option.map_eq_some_iff.1 hleaf
    rfl
  refine ⟨us.map fun leaf => ⟨leaf.kind, leaf.text⟩, vs.map fun leaf => ⟨leaf.kind, leaf.text⟩, ?_, ?_, ?_⟩
  · rw [hmap, hsplit]
    simp
  · exact hposition (by simp [hsplit])
  · exact hposition (by simp [hsplit])

namespace Grammar.Tree

variable {node : Head × List Tree}

mutual

/-- The leaves below a node stand side by side among the leaves of the tree. -/
theorem leaves_isInfix : ∀ {tree : Tree}, node ∈ tree.nodes → leavesOfAll node.2 <:+: tree.leaves
  | .node head children, h => by
      rcases List.mem_cons.1 h with rfl | h
      · exact List.infix_rfl
      · exact leavesOfAll_isInfix h

theorem leavesOfAll_isInfix : ∀ {trees : List Tree}, node ∈ nodesOfAll trees →
    leavesOfAll node.2 <:+: leavesOfAll trees
  | t :: rest, h => by
      rcases List.mem_append.1 h with h | h
      · exact (leaves_isInfix h).trans (List.prefix_append _ _).isInfix
      · exact (leavesOfAll_isInfix h).trans (List.suffix_append _ _).isInfix

end

/-- Neighbours below a node are neighbours among the tokens that were read. -/
theorem read_isInfix {tree : Tree} {a b : Leaf} (hnode : node ∈ tree.nodes)
    (hab : [leaf a, leaf b] <:+: node.2) (ha : a.isRead) (hb : b.isRead) : [a, b] <:+: tree.read := by
  obtain ⟨before, after, hchildren⟩ := hab
  have hleaves : [a, b] <:+: leavesOfAll node.2 := by
    rw [← hchildren, leavesOfAll_eq]
    exact ⟨before.flatMap leaves, after.flatMap leaves, by simp [leaves]⟩
  simpa [Tree.read, ha, hb] using (hleaves.trans (leaves_isInfix hnode)).filter Leaf.isRead

end Grammar.Tree

namespace Lexical

/-- What a parser sees of a stretch of text. -/
def Stretch.shown? (part : Stretch) : Option Terminal :=
  (part.token?.filter fun t => !t.hidden).map fun t => ⟨t.kind, t.text⟩

theorem Stretch.exists_token {part : Stretch} {a : Terminal} (h : part.shown? = some a) :
    ∃ t, part = .token t ∧ t.hidden = false ∧ (t.kind, t.text) = (a.kind, a.text) := by
  cases part with
  | gap g => cases h
  | token t =>
    obtain ⟨t', ht, rfl⟩ := Option.map_eq_some_iff.1 h
    obtain ⟨⟨⟩, hshown⟩ := Option.filter_eq_some_iff.1 ht
    exact ⟨t, rfl, by simpa using hshown, rfl⟩

theorem terminals_tokensOf (parts : List Stretch) :
    SourceLanguage.terminals (tokensOf parts) = parts.filterMap Stretch.shown? := by
  rw [SourceLanguage.terminals, tokensOf, List.filter_filterMap, List.map_filterMap]
  rfl

theorem hidden_of_shown? {parts : List Stretch} (h : ∀ part ∈ parts, part.shown? = none) :
    ∀ u ∈ tokensOf parts, u.hidden = true := by
  intro u hu
  obtain ⟨part, hpart, htoken⟩ := List.mem_filterMap.1 hu
  simpa [Stretch.shown?, htoken] using h part hpart

variable {rules : List TokenRule} {text : List Char} {scan : Scan} {parts : List Stretch}

variable (h : Tiling rules [] 0 text scan parts)
include h

theorem Tiling.terminals_eq :
    SourceLanguage.terminals scan.tokens = parts.filterMap Stretch.shown? ++ [⟨Kind.endOfText, "<EOF>"⟩] := by
  rw [← terminals_tokensOf, h.tokens, SourceLanguage.terminals, List.filter_append, List.map_append]
  rfl

/-- Two tokens of a text are adjacent if and only if nothing stands between them. -/
theorem Tiling.adjacent_iff {before between after : List Stretch}
    {s t : Token} (hparts : parts = before ++ .token s :: (between ++ .token t :: after)) :
    (t.start : Int) = s.stop + 1 ↔ between = [] := by
  obtain ⟨-, hs, -, hlength, -⟩ := h.each before (.token s) _ hparts
  obtain ⟨-, ht, -⟩ := h.each (before ++ .token s :: between) (.token t) after (by simpa using hparts)
  have hstart : s.start = (textOf before).length := congrArg Place.offset hs
  have hnext : t.start = s.start + s.length + (textOf between).length := by
    have hoffset : t.start = (textOf (before ++ .token s :: between)).length := congrArg Place.offset ht
    rw [hoffset, hstart, hlength]
    simp [textOf, Stretch.chars, Nat.add_assoc]
  have hstop : s.stop + 1 = (s.start + s.length : Nat) := by
    simp [Token.stop, Token.start]
  cases between with
  | nil => simp [hnext, hstop, textOf]
  | cons part rest =>
    obtain ⟨hchars, -⟩ := h.each (before ++ [.token s]) part (rest ++ .token t :: after) (by simpa using hparts)
    have hpos := List.length_pos_iff.2 hchars
    have htext : part.chars.length ≤ (textOf (part :: rest)).length := by simp [textOf]
    rw [hstop, hnext]
    simp only [reduceCtorEq, iff_false]
    omega

/-- Two neighbours among the tokens that a parser sees, and what stands between them. -/
theorem Tiling.exists_between {us vs : List Terminal} {a b : Terminal}
    (hab : SourceLanguage.terminals scan.tokens = us ++ a :: b :: vs) (hb : b.kind ≠ Kind.endOfText) :
    ∃ before p between q after, parts = before ++ p :: (between ++ q :: after)
      ∧ before.filterMap Stretch.shown? = us
      ∧ p.shown? = some a ∧ q.shown? = some b ∧ ∀ part ∈ between, part.shown? = none := by
  rw [h.terminals_eq] at hab
  rcases List.eq_nil_or_concat vs with rfl | ⟨vs, e, rfl⟩
  · have hlast : b = ⟨Kind.endOfText, "<EOF>"⟩ := by
      simpa using (congrArg List.getLast? hab).symm
    exact absurd (congrArg Terminal.kind hlast) hb
  · have hshown : parts.filterMap Stretch.shown? = us ++ a :: b :: vs := by
      rw [List.concat_eq_append, ← List.cons_append, ← List.cons_append, ← List.append_assoc] at hab
      exact List.append_inj_left' hab rfl
    obtain ⟨before, rest, rfl, hbefore, hrest⟩ := List.filterMap_eq_append_iff.1 hshown
    obtain ⟨gap, p, rest, rfl, hgap, hp, hrest⟩ := List.filterMap_eq_cons_iff.1 hrest
    obtain ⟨between, q, after, rfl, hbetween, hq, -⟩ := List.filterMap_eq_cons_iff.1 hrest
    refine ⟨before ++ gap, p, between, q, after, by simp, ?_, hp, hq, hbetween⟩
    rw [List.filterMap_append, hbefore, List.filterMap_eq_nil_iff.2 hgap, List.append_nil]

end Lexical

/-- A shift: an expression of two operands with two or three angle brackets of one kind between them, read from the
text. -/
def Grammar.IsShift (node : Head × List Tree) (operator : List Leaf) : Prop :=
  java.table.network.ruleIndex? "expression" = some node.1.rule
    ∧ (∃ left right, node.2 = left :: (operator.map Tree.leaf ++ [right]))
    ∧ operator.map Leaf.kind ∈ [["LT", "LT"], ["GT", "GT"], ["GT", "GT", "GT"]].map
        (List.map java.grammar.vocabulary.kindOf)
    ∧ ∀ leaf ∈ operator, leaf.isRead

/-- Two neighbours in the operator of a shift are the visible tokens at a position and the next one, and only hidden
tokens and gaps stand between them.  They are adjacent in the text if and only if there is nothing of that. -/
theorem java_shift_adjacent_iff (probing : Bool) (rule : Nat) (text : String) :
    ∃ tree, (java.parse false probing rule text).outcome.tree = .ok tree ∧
      ∀ node ∈ tree.nodes, ∀ operator, IsShift node operator → ∀ a b, [a, b] <:+: operator →
        ∃ before s between t after, Tiling CompilationUnit.tokenRules [] 0 text.toList (java.scan probing text)
            (before ++ .token s :: (between ++ .token t :: after))
          ∧ s.hidden = false ∧ (s.kind, s.text) = (a.kind, a.text)
          ∧ a.position = some (SourceLanguage.terminals (tokensOf before)).length
          ∧ t.hidden = false ∧ (t.kind, t.text) = (b.kind, b.text)
          ∧ b.position = some ((SourceLanguage.terminals (tokensOf before)).length + 1)
          ∧ (∀ u ∈ tokensOf between, u.hidden = true) ∧ ((t.start : Int) = s.stop + 1 ↔ between = []) := by
  obtain ⟨parts, h⟩ := exists_java_tiling probing text
  have hreads := java.parse_reads probing rule text
  cases htree : (java.parse false probing rule text).outcome.tree with
  | error fault =>
    rw [Outcome.Reads, htree, h.finished] at hreads
    exact nomatch hreads.2
  | ok tree =>
    rw [Outcome.Reads, htree] at hreads
    refine ⟨tree, rfl, ?_⟩
    rintro node hnode operator ⟨-, ⟨left, right, hchildren⟩, -, hread⟩ a b hab
    have hneighbours : [Tree.leaf a, .leaf b] <:+: node.2 := by
      rw [hchildren]
      exact ((hab.map Tree.leaf).trans (List.prefix_append _ _).isInfix).trans (List.suffix_cons _ _).isInfix
    have ha := hread a (hab.subset (by simp))
    have hb := hread b (hab.subset (by simp))
    have hleaves := (hreads ▸ tree.read_isInfix hnode hneighbours ha hb).trans (List.take_prefix _ _).isInfix
    obtain ⟨us, vs, hterminals, hapos, hbpos⟩ := exists_of_leavesOf hleaves
    have hkind : b.kind ≠ Kind.endOfText := by simpa using (Bool.and_eq_true_iff.1 hb).2
    obtain ⟨before, p, between, q, after, rfl, rfl, hp, hq, hbetween⟩ := h.exists_between hterminals hkind
    obtain ⟨s, rfl, hs⟩ := Stretch.exists_token hp
    obtain ⟨t, rfl, ht⟩ := Stretch.exists_token hq
    rw [← terminals_tokensOf] at hapos hbpos
    exact ⟨before, s, between, t, after, h, hs.1, hs.2, hapos, ht.1, ht.2, hbpos, hidden_of_shown? hbetween,
      h.adjacent_iff rfl⟩

end Transcriber
