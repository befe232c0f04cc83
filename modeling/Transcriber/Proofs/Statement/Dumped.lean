import Transcriber.Proofs.Statement.Indentation

/-!
# Printing statements

Blocks that stand for lines are printed as these lines, whatever the level is, and printing them
changes nothing.

* `Laid.worded` — every line says something.
-/

namespace Transcriber

open Build Source Expression Printer

/-! ## The parts of a printed block -/

section

variable {w : Workshop} {id : Nat} {b : Block}

theorem Calm.indentAt (hw : Calm w) (level : Nat) : Handler.indentAt level w = .ok (indentation level) w := by
  have hindent : Handler.indent w = .ok (.text "    ") w := by
    change EStateM.Result.ok (w.config.last "indentPrefix" (.text "    ")) w = _
    rw [hw.config]
    rfl
  unfold Handler.indentAt
  rw [bind_of_ok hindent]
  rfl

/-- What the handlers give that the standard settings have for a part of a block. -/
theorem Calm.callAll (hw : Calm w) (p : Printer) (hb : w.blocks[id]? = some b) {part : String}
    (hs : List Handler) {called : List Called}
    (hitems : (standardLayer.lookup (b.form.settingKey ++ part ++ "Handlers")).getD (.list [])
      = Standard.handlers hs)
    (hcall : List.Forall₂ (fun h c => h.call p.texts [.block id] w = .ok c w) hs called) :
    callAll p id part w = .ok called w :=
  callAll_standard hw.config p hb hs hitems hcall

end

variable {p : Printer} {w : Workshop} {id : Nat} {b : Block}

/-- The items of a sequence are written as lines, before those of the sequences that follow. -/
theorem writeAll_cons {indent : String} {called : Called} {rest : List Called}
    {items : List Value} {g : Value → String} {text : String} {w2 : Workshop} (w1 : Workshop)
    (hitems : called.items w = .ok items w1) (hne : ∀ item ∈ items, item ≠ .none)
    (hwritten : ∀ item ∈ items, item.written p.texts w1 = .ok (g item) w1)
    (hrest : writeAll p indent rest w1 = .ok text w2) :
    writeAll p indent (called :: rest) w
      = .ok (String.join (items.map fun item => lineText indent (g item)) ++ text) w2 := by
  rw [writeAll, bind_of_ok hitems]
  refine (bind_of_ok (mapM_apply_of_ok
    (g := fun item => lineText indent (g item)) fun item hitem => ?_)).trans ?_
  · have hnone := hne item hitem
    have hone := hwritten item hitem
    split
    · exact absurd rfl hnone
    · rw [bind_of_ok hone]
      rfl
  · rw [bind_of_ok hrest]
    rfl

/-- A block with a body is printed as its opening, its head, its body. -/
theorem dumpBlock_apply {w' : Workshop} (hw : Calm w)
    (hb : w.blocks[id]? = some b) (hexpression : b.isExpression = false)
    (hmodule : b.isModule = false) {level : Nat} {called heads : List Called} {opening head : String}
    {items : List Printer.BodyItem} {texts : List String}
    (hprologue : Printer.prologue p id w = .ok called w)
    (hopening : writeAll p (indentation level) called w = .ok opening w')
    (hheads : callAll p id "Head" w' = .ok heads w')
    (hhead : writeHead p (level + 1) heads w' = .ok head w')
    (hbody : Printer.body p id w' = .ok items w')
    (htexts : items.mapM (writeItem p (level + 1)) w' = .ok texts w')
    (hepilogue : callAll p id "Epilogue" w' = .ok [] w') :
    dumpBlock p level id w = .ok (opening ++ head ++ String.join texts) w' := by
  unfold dumpBlock
  rw [bind_of_ok (block_apply w id hb), bind_of_ok (hw.indentAt level), hexpression, hmodule]
  simp only [Bool.false_eq_true, if_false]
  rw [bind_of_ok hprologue, bind_of_ok hopening, bind_of_ok hheads, bind_of_ok hhead, bind_of_ok hbody]
  have hjoin : (String.join <$> items.mapM (writeItem p ((level : Int) + 1))) w'
      = .ok (String.join texts) w' := by
    change EStateM.map String.join _ w' = _
    unfold EStateM.map
    rw [htexts]
  rw [bind_of_ok hjoin, bind_of_ok hepilogue]
  change EStateM.Result.ok (opening ++ head ++ String.join texts ++ "") w' = _
  rw [String.append_empty]

/-! ## Blocks that stand for lines -/

/-- The standard settings say nothing about statements and what they hold. -/
theorem Calm.callAll_suite (hw : Calm w) (p : Printer)
    (hb : w.blocks[id]? = some b) (hsuite : b.form.isSuite = true) (hmethod : b.form ≠ .method)
    {part : String} (hpart : part ∈ ["Prologue", "Head", "Epilogue"]) :
    Printer.callAll p id part w = .ok [] w := by
  refine hw.callAll p hb [] ?_ .nil
  cases hform : b.form with
  | method => exact absurd hform hmethod
  | content =>
    simp only [List.mem_cons, List.not_mem_nil, or_false] at hpart
    rcases hpart with rfl | rfl | rfl <;> rfl
  | statement keyword opening =>
    simp only [List.mem_cons, List.not_mem_nil, or_false] at hpart
    rcases hpart with rfl | rfl | rfl <;> rfl
  | _ =>
    rw [hform] at hsuite
    cases hsuite

/-- A statement or a block for statements is printed as its opening and its body. -/
theorem dumpBlock_suite (hw : Calm w)
    (hb : w.blocks[id]? = some b) (hsuite : b.form.isSuite = true) (hmethod : b.form ≠ .method)
    {level : Nat} {called : List Called} {opening : String} {texts : List String}
    (hprologue : Printer.prologue p id w = .ok called w)
    (hopening : Printer.writeAll p (indentation level) called w = .ok opening w)
    (htexts : b.children.mapM (p.dump (level + 1)) w = .ok texts w) :
    Printer.dumpBlock p level id w = .ok (opening ++ String.join texts) w := by
  obtain ⟨hexpression, hmodule, hclass⟩ := Block.sort_of_isSuite hsuite
  have hnone : b.isMethod = false := beq_false_of_ne hmethod
  have hbody : Printer.body p id w = .ok (b.children.map .block) w := by
    unfold Printer.body
    rw [bind_of_ok (block_apply w id hb), hclass, hnone]
    rfl
  rw [← String.append_empty (s := opening)]
  refine dumpBlock_apply hw hb hexpression hmodule hprologue hopening
    (hw.callAll_suite p hb hsuite hmethod (by decide)) rfl hbody ?_
    (hw.callAll_suite p hb hsuite hmethod (by decide))
  rw [List.mapM_map]
  exact htexts

namespace Laid

variable {low : Nat} {ids : List Nat} {lines : List Line}

theorem worded (h : Laid w low ids lines) : ∀ line ∈ lines, Worded line.2 := by
  have hdeeper : ∀ {inner : List Line}, (∀ line ∈ inner, Worded line.2) →
      ∀ line ∈ deeper inner, Worded line.2 := by
    intro inner hinner line hline
    obtain ⟨other, hother, rfl⟩ := List.mem_map.1 hline
    exact hinner other hother
  induction h with
  | nil => exact nofun
  | expression _ _ _ hworded _ ih => exact List.forall_mem_cons.2 ⟨hworded, ih⟩
  | statement _ _ _ _ _ hworded _ _ ihinner ih =>
    exact List.forall_mem_cons.2 ⟨hworded, List.forall_mem_append.2 ⟨hdeeper ihinner, ih⟩⟩
  | content _ _ _ _ _ ihinner ih => exact List.forall_mem_append.2 ⟨hdeeper ihinner, ih⟩

/-- What is printed for the first block comes before what is printed for the others. -/
theorem dumped_cons {p : Printer} {level id : Nat} {text : String} (first : List Line)
    (hrun : p.dump level id w = .ok text w) (htext : text = written level first)
    (hrest : ∃ texts, ids.mapM (p.dump level) w = .ok texts w ∧ String.join texts = written level lines) :
    ∃ texts, (id :: ids).mapM (p.dump level) w = .ok texts w
      ∧ String.join texts = written level (first ++ lines) := by
  obtain ⟨texts, hruns, hjoin⟩ := hrest
  refine ⟨text :: texts, ?_, by rw [String.join_cons, hjoin, htext, written_append]⟩
  rw [List.mapM_cons, bind_of_ok hrun, bind_of_ok hruns]
  rfl

/-- Blocks that stand for lines are printed as these lines.  The printer needs levels enough for the
blocks that are newer than those around them, and for what expressions hold. -/
theorem dumped (h : Laid w low ids lines) (hw : Calm w) {n : Nat}
    (hn : 2 * w.blocks.size + 2 ≤ n + low) (level : Nat) :
    ∃ texts, ids.mapM ((Printer.forLevels n).dump level) w = .ok texts w
      ∧ String.join texts = written level lines := by
  have hsingle : ∀ (level : Nat) (text : String),
      Printer.lineText (indentation level) text = written level [(0, text)] := by
    intro level text
    unfold written
    simp [String.join]
  induction h generalizing n level with
  | nil => exact ⟨[], rfl, rfl⟩
  | @expression low id ids lines doc text hle h htext hworded _ ih =>
    refine dumped_cons [(0, text)] ?_ (hsingle level text) (ih hn level)
    obtain ⟨b, e, hb, hform⟩ : ∃ b e, w.blocks[id]? = some b ∧ b.form = .expression e := by
      cases h with
      | atom hatom => exact absurd rfl (hatom id)
      | block _ hb hform => exact ⟨_, _, hb, hform⟩
    have hlt : id < w.blocks.size := (Array.getElem?_eq_some_iff.1 hb).1
    obtain ⟨n, rfl⟩ : ∃ m, n = m + 1 := ⟨n - 1, by omega⟩
    have hdepth := h.depth_le
    have hexpression : b.isExpression = true := by simp [Block.isExpression, hform, Form.expr?]
    have hprinted : (Printer.forLevels n).text id w = .ok text w := h.operandText (by omega) htext
    change Printer.dumpBlock (Printer.forLevels n) level id w = _
    unfold Printer.dumpBlock
    rw [bind_of_ok (block_apply w id hb), bind_of_ok (hw.indentAt level), hexpression,
      if_pos rfl, bind_of_ok hprinted]
    rfl
  | @statement low id ids inner lines b keyword text opening doc hle hb hform hopening htext hworded _ _
      ihinner ih =>
      have hlt : id < w.blocks.size := (Array.getElem?_eq_some_iff.1 hb).1
      obtain ⟨n, rfl⟩ : ∃ m, n = m + 1 := ⟨n - 1, by omega⟩
      have hdepth := hopening.depth_le
      have hprinted : (Printer.forLevels n).text opening w = .ok text w :=
        hopening.operandText (by omega) htext
      obtain ⟨texts, hruns, hjoin⟩ := ihinner (n := n) (by omega) (level + 1)
      have hprologue : Printer.prologue (Printer.forLevels n) id w
          = .ok [.sequence (pure [.block opening])] w := by
        unfold Printer.prologue
        rw [bind_of_ok (block_apply w id hb), hform]
        rfl
      have hwritten : Printer.writeAll (Printer.forLevels n) (indentation level)
          [.sequence (pure [.block opening])] w
          = .ok (Printer.lineText (indentation level) text) w := by
        refine (writeAll_cons (g := fun _ => text) w rfl (by simp) ?_ rfl).trans ?_
        · rintro item hitem
          cases List.mem_singleton.1 hitem
          exact hprinted
        · simp [String.join]
      refine dumped_cons ((0, text) :: deeper inner)
        (dumpBlock_suite hw hb (by rw [hform]; rfl) (by rw [hform]; exact Form.noConfusion) hprologue
          hwritten hruns) ?_ (ih hn level)
      rw [hjoin, hsingle, ← written_deeper, ← written_append]
      rfl
  | @content low id ids inner lines b hle hb hform _ _ ihinner ih =>
    have hlt : id < w.blocks.size := (Array.getElem?_eq_some_iff.1 hb).1
    obtain ⟨n, rfl⟩ : ∃ m, n = m + 1 := ⟨n - 1, by omega⟩
    obtain ⟨texts, hruns, hjoin⟩ := ihinner (n := n) (by omega) (level + 1)
    have hsuite : b.form.isSuite = true := by rw [hform]; rfl
    have hmethod : b.form ≠ .method := by rw [hform]; exact Form.noConfusion
    have hprologue : Printer.prologue (Printer.forLevels n) id w = .ok [] w := by
      have hclass : b.isClass = false := by simp [Block.isClass, hform]
      have hnone : b.isMethod = false := beq_false_of_ne hmethod
      unfold Printer.prologue
      rw [bind_of_ok (block_apply w id hb), hform, hclass, hnone]
      exact bind_of_ok (hw.callAll_suite _ hb hsuite hmethod (by decide))
    refine dumped_cons (deeper inner)
      (dumpBlock_suite hw hb hsuite hmethod hprologue rfl hruns) ?_ (ih hn level)
    rw [hjoin, written_deeper, String.empty_append]

end Laid

end Transcriber
