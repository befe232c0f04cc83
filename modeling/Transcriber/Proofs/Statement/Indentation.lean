import Mathlib.Data.List.TakeWhile
import Mathlib.Order.Monotone.Defs
import Transcriber.Proofs.Statement.Grammar

/-!
# Lines by their indentation

A text is a list of lines, and lines are nested by their indentation alone: to a line belong the lines
behind it, as long as they are indented deeper.

* `Entry.read_written` — entries are found again in the text that they are written in.
-/

namespace Transcriber

open Expression List String

/-- The lines of a text that are not blank: how many spaces each begins with, and what is behind them.
-/
def linesOf (text : String) : List Line :=
  ((Text.split '\n' text).filter fun line => !Text.allBlank line).map fun line =>
    ((line.toList.takeWhile (· == ' ')).length, ofList (line.toList.dropWhile (· == ' ')))

namespace Entry

/-- Lines as entries: to a line belong the lines behind it, as long as they are deeper. -/
def nest : List Line → List Entry
  | [] => []
  | line :: rest =>
    .mk line.2 (nest (rest.takeWhile fun other => line.1 < other.1))
      :: nest (rest.dropWhile fun other => line.1 < other.1)
termination_by lines => lines.length
decreasing_by
  · exact Nat.lt_succ_of_le (takeWhile_sublist _).length_le
  · exact Nat.lt_succ_of_le (dropWhile_sublist _).length_le

/-- The entries of a text. -/
def read (text : String) : List Entry := nest (linesOf text)

end Entry

/-! ## Lines of entries -/

def atDepth (f : Nat → Nat) (lines : List Line) : List Line := lines.map fun line => (f line.1, line.2)

theorem atDepth_deeper (f : Nat → Nat) (lines : List Line) :
    atDepth f (deeper lines) = atDepth (fun d => f (d + 1)) lines := by
  unfold atDepth deeper
  rw [List.map_map]
  rfl

/-- No run begins where the first element does not pass. -/
theorem span_of_head {α : Type} {p : α → Bool} {l : List α} (h : ∀ x ∈ l.head?, p x = false) :
    l.takeWhile p = [] ∧ l.dropWhile p = l := by
  cases l with
  | nil => exact ⟨rfl, rfl⟩
  | cons x l => simp [h x rfl]

namespace Entry

theorem head_linesAll {entries : List Entry} {line : Line} (h : (linesAll entries).head? = some line) :
    line.1 = 0 := by
  cases entries with
  | nil =>
    rw [linesAll_nil] at h
    cases h
  | cons entry entries =>
    obtain ⟨text, suite⟩ := entry
    rw [linesAll_cons] at h
    cases h
    rfl

/-- Entries are found again in their lines, however deep each level is indented. -/
theorem nest_linesAll {f : Nat → Nat} (hf : StrictMono f) (entries : List Entry) :
    nest (atDepth f (linesAll entries)) = entries := by
  generalize hn : (linesAll entries).length = n
  induction n using Nat.strongRecOn generalizing entries f with
  | ind n ih =>
    cases entries with
    | nil =>
      rw [linesAll_nil]
      exact nest.eq_1
    | cons entry entries =>
      obtain ⟨text, suite⟩ := entry
      -- The lines of the suite are deeper than the first one, and the next entry is not.
      have hlines : atDepth f (linesAll (mk text suite :: entries)) = (f 0, text)
          :: (atDepth (fun d => f (d + 1)) (linesAll suite) ++ atDepth f (linesAll entries)) := by
        rw [linesAll_cons, ← atDepth_deeper]
        simp [atDepth]
      have hdeep : ∀ line ∈ atDepth (fun d => f (d + 1)) (linesAll suite), decide (f 0 < line.1) = true := by
        intro line hline
        obtain ⟨other, -, rfl⟩ := mem_map.1 hline
        exact decide_eq_true (hf (Nat.succ_pos _))
      have hnext : ∀ line ∈ (atDepth f (linesAll entries)).head?, decide (f 0 < line.1) = false := by
        intro line hline
        unfold atDepth at hline
        rw [List.head?_map] at hline
        obtain ⟨other, hother, rfl⟩ := Option.map_eq_some_iff.1 hline
        rw [head_linesAll hother]
        simp
      obtain ⟨htake, hdrop⟩ := span_of_head hnext
      have hlength : (linesAll suite).length + (linesAll entries).length < n := by
        rw [← hn, linesAll_cons]
        simp [deeper]
      have hsucc : StrictMono fun d => f (d + 1) := fun _ _ hlt => hf (Nat.succ_lt_succ hlt)
      rw [hlines, nest, takeWhile_append_of_pos hdeep, dropWhile_append_of_pos hdeep, htake,
        hdrop, append_nil, ih _ (by omega) hsucc suite rfl, ih _ (by omega) hf entries rfl]

end Entry

/-! ## Lines in a text -/

theorem Text.parts_append {mark : Char} {cs : List Char} (h : mark ∉ cs) (rest : List Char) :
    parts mark (cs ++ mark :: rest) = cs :: parts mark rest := by
  induction cs with
  | nil => simp [parts]
  | cons c cs ih =>
    have hne : (c == mark) = false := beq_false_of_ne fun heq => h (heq ▸ .head _)
    rw [cons_append, parts, hne, ih fun hmem => h (.tail _ hmem)]
    rfl

/-- What stands before the lines of a level. -/
def indentation (level : Nat) : String := String.join (List.replicate level "    ")

theorem toList_indentation (level : Nat) : (indentation level).toList = List.replicate (4 * level) ' ' := by
  induction level with
  | zero => rfl
  | succ level ih =>
    have hnext : indentation (level + 1) = "    " ++ indentation level := by
      unfold indentation
      rw [replicate_succ, join_cons]
    rw [hnext, toList_append, ih, Nat.mul_succ, Nat.add_comm, replicate_add]
    rfl

/-- Lines in writing. -/
def written (level : Nat) (lines : List Line) : String :=
  String.join (lines.map fun line => Printer.lineText (indentation (level + line.1)) line.2)

theorem written_append (level : Nat) (lines lines' : List Line) :
    written level (lines ++ lines') = written level lines ++ written level lines' := by
  unfold written
  rw [map_append, join_append]

theorem written_deeper (level : Nat) (lines : List Line) :
    written level (deeper lines) = written (level + 1) lines := by
  unfold written deeper
  rw [List.map_map]
  refine congrArg String.join (List.map_congr_left fun line _ => ?_)
  change Printer.lineText (indentation (level + (line.1 + 1))) line.2 = _
  rw [Nat.add_right_comm, Nat.add_assoc]

section

variable {text : String}

/-- A text that can stand on a line begins with something that is no blank. -/
theorem Expression.Worded.head (h : Worded text) :
    ∃ c cs, text.toList = c :: cs ∧ Text.isBlank c = false := by
  obtain ⟨c, cs, hcs⟩ := exists_cons_of_ne_nil (toList_ne_nil h.ne_empty)
  have hunblank := h.neat.unblank
  unfold Unblank at hunblank
  rw [hcs] at hunblank
  exact ⟨c, cs, hcs, by simpa using hunblank⟩

theorem allBlank_append_of_worded (h : Worded text) (indent ending : String) :
    Text.allBlank (indent ++ text ++ ending) = false := by
  obtain ⟨c, cs, hcs, hc⟩ := h.head
  unfold Text.allBlank
  simp [hcs, hc]

theorem lineText_of_worded (h : Worded text) (indent : String) :
    Printer.lineText indent text = indent ++ text ++ "\n" := by
  unfold Printer.lineText
  dsimp only
  rw [allBlank_append_of_worded h]
  rfl

theorem span_indentation (h : Worded text) (level : Nat) :
    (((indentation level ++ text).toList.takeWhile (· == ' ')).length,
      ofList ((indentation level ++ text).toList.dropWhile (· == ' '))) = (4 * level, text) := by
  obtain ⟨c, cs, hcs, hc⟩ := h.head
  have hspaces : ∀ c ∈ List.replicate (4 * level) ' ', (c == ' ') = true := by
    intro c hc
    rw [eq_of_mem_replicate hc]
    rfl
  have hne : (c == ' ') = false := by
    refine beq_false_of_ne fun heq => ?_
    rw [heq] at hc
    exact absurd hc (by decide)
  obtain ⟨htake, hdrop⟩ := span_of_head (p := (· == ' ')) (l := c :: cs) (by simpa using hne)
  rw [toList_append, toList_indentation, takeWhile_append_of_pos hspaces,
    dropWhile_append_of_pos hspaces, hcs, htake, hdrop, append_nil, List.length_replicate,
    ← hcs, ofList_toList]

end

theorem linesOf_written {lines : List Line} (h : ∀ line ∈ lines, Worded line.2) (level : Nat) :
    linesOf (written level lines) = atDepth (fun d => 4 * (level + d)) lines := by
  induction lines with
  | nil => rfl
  | cons line lines ih =>
    obtain ⟨d, text⟩ := line
    have hworded : Worded text := h _ (.head _)
    have hrest := ih fun line hline => h line (.tail _ hline)
    have hnewline : '\n' ∉ (indentation (level + d) ++ text).toList := by
      rw [toList_append, toList_indentation, mem_append]
      rintro (hmem | hmem)
      · exact absurd (eq_of_mem_replicate hmem) (by decide)
      · exact hworded.neat.oneLine hmem
    have hwritten : (written level ((d, text) :: lines)).toList
        = (indentation (level + d) ++ text).toList ++ '\n' :: (written level lines).toList := by
      unfold written
      rw [map_cons, join_cons, lineText_of_worded hworded, toList_append, toList_append]
      simp
    have hblank : Text.allBlank (indentation (level + d) ++ text) = false := by
      simpa using allBlank_append_of_worded hworded (indentation (level + d)) ""
    have hsplit : Text.split '\n' (written level ((d, text) :: lines))
        = (indentation (level + d) ++ text) :: Text.split '\n' (written level lines) := by
      unfold Text.split
      rw [hwritten, Text.parts_append hnewline, map_cons, ofList_toList]
    unfold linesOf at hrest ⊢
    rw [hsplit, filter_cons_of_pos (by rw [hblank]; rfl), map_cons, hrest, span_indentation hworded]
    rfl

/-- Entries are found again in the text that they are written in. -/
theorem Entry.read_written {entries : List Entry} (h : ∀ line ∈ linesAll entries, Worded line.2)
    (level : Nat) : read (written level (linesAll entries)) = entries := by
  unfold read
  rw [linesOf_written h, nest_linesAll]
  intro a b hlt
  change 4 * (level + a) < 4 * (level + b)
  omega

end Transcriber
