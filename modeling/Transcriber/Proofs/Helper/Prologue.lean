import Transcriber.Proofs.Helper.Tended
import Transcriber.Proofs.Walk.Moments

/-!
# A module brings its helpers along

The prologue of a module writes the helpers of which the module has a note.  After a walk over a
whole tree with the standard settings, everything that is written with the help of a helper finds it
there, and no helper is there twice.

* `Build.walkTree_brings_helpers` — the main statement.
-/

namespace Transcriber

open Build Source Handler

/-! ## The prologue of a module -/

/-- The lines of a helper. -/
def Aid.lines : Aid → List String
  | .shift => Helper.shiftLines
  | .abstract => ["from abc import ABCMeta, abstractmethod"]
  | .locks => Helper.lockLines

/-- The helpers of which a module has a note, in the order of the prologue. -/
def Program.aids (p : Program) : List Aid := [Aid.shift, .abstract, .locks].filter p.provides

/-- The lines of the prologue of a module before its helpers. -/
def Program.front (name : Option String) : List String := [
  "#!/usr/bin/env python",
  "\"\"\" generated source for module " ++ nameText name ++ " \"\"\"",
  "from __future__ import print_function"]

/-- The lines of the prologue of a module. -/
def Program.prologue (p : Program) (name : Option String) : List String :=
  front name ++ p.aids.flatMap Aid.lines

variable {aid : Aid} {line : String}

theorem Program.mem_aids {p : Program} : aid ∈ p.aids ↔ p.provides aid = true := by
  unfold aids
  cases aid <;> simp

theorem Program.aids_nodup (p : Program) : p.aids.Nodup := List.Nodup.filter _ (by decide)

/-- The first line of a helper stands in no other helper, and only once in its own. -/
theorem Aid.count_lines (h : aid.lines.head? = some line) (aid' : Aid) :
    aid'.lines.count line = if aid' = aid then 1 else 0 := by
  cases aid <;> cases h <;> cases aid' <;> decide

theorem Program.count_front (h : aid.lines.head? = some line)
    (name : Option String) : (front name).count line = 0 := by
  have hquote : ∀ s : String, s.toList.head? ≠ some '"' →
      "\"\"\" generated source for module " ++ nameText name ++ " \"\"\"" ≠ s := by
    rintro s hs rfl
    exact hs (by simp)
  refine List.count_eq_zero.2 fun hmem => ?_
  simp only [front, List.mem_cons, List.not_mem_nil, or_false] at hmem
  rcases hmem with rfl | hdoc | rfl
  · cases aid <;> exact absurd h (by decide)
  · refine hquote line ?_ hdoc.symm
    cases aid <;> cases h <;> decide
  · cases aid <;> exact absurd h (by decide)

theorem Program.count_prologue (p : Program) (name : Option String) (h : aid.lines.head? = some line) :
    (p.prologue name).count line = if aid ∈ p.aids then 1 else 0 := by
  have hall : ∀ aids : List Aid, aids.Nodup →
      (aids.flatMap Aid.lines).count line = if aid ∈ aids then 1 else 0 := by
    intro aids hnodup
    induction aids with
    | nil => rfl
    | cons a aids ih =>
      obtain ⟨ha, hnodup⟩ := List.nodup_cons.1 hnodup
      rw [List.flatMap_cons, List.count_append, ih hnodup, Aid.count_lines h a]
      by_cases haid : a = aid
      · subst haid
        simp [ha]
      · simp [haid, Ne.symm haid]
  rw [prologue, List.count_append, count_front h, hall _ p.aids_nodup, Nat.zero_add]

/-! ## How it is written -/

namespace Printer

variable {w : Workshop}

theorem prologue_module (hconfig : w.config = .standard) {id : BlockId} {b : Block}
    (hb : w.blocks[id]? = some b) {program : Program} (hform : b.form = .program program)
    (p : Printer) (indent : String) :
    (do writeAll p indent (← prologue p id)) w
      = .ok (String.join ((program.prologue b.name).map (lineText indent))) w := by
  have hitems : (standardLayer.lookup (b.form.settingKey ++ "Prologue" ++ "Handlers")).getD (.list [])
      = .list [.handler .interpreterLine, .handler .docString,
        .text "from __future__ import print_function", .handler .shiftHelper,
        .handler .abstractHelper, .handler .lockHelper] := by
    rw [hform]
    rfl
  have hcalled : callAll p id "Prologue" w = .ok [.sequence (pure (Handler.lines ["#!/usr/bin/env python"])),
      Handler.about docStringOf (.block id),
      .sequence (pure (Handler.lines ["from __future__ import print_function"])),
      .sequence (do return if (← programOf (.block id)).needsShift then
        Handler.lines Helper.shiftLines else []),
      .sequence (do return if (← programOf (.block id)).needsAbstract then
        Handler.lines ["from abc import ABCMeta, abstractmethod"] else []),
      .sequence (do return if (← programOf (.block id)).needsLocks then
        Handler.lines Helper.lockLines else [])] w := by
    unfold callAll
    rw [bind_of_ok (handlers_standard hconfig hb hitems)]
    rfl
  have hprologue : prologue p id w = callAll p id "Prologue" w := by
    unfold prologue
    rw [bind_of_ok (block_apply w id hb)]
    simp only [hform]
    rw [bind_of_ok hcalled, hcalled]
    simp [Block.isClass, Block.isMethod, hform]
    rfl
  have hprogram : programOf (.block id) w = .ok program w := by
    change (block id >>= _) w = _
    rw [bind_of_ok (block_apply w id hb), hform]
    rfl
  have hasked (needs : Program → Bool) (lines : List String) : (Called.sequence (do
      return if needs (← programOf (.block id)) then Handler.lines lines else [])).items w
        = .ok (Handler.lines (if needs program then lines else [])) w := by
    refine rethrow_eq_ok.2 ?_
    rw [bind_of_ok hprogram]
    cases needs program <;> rfl
  -- Each sequence comes to its own lines.
  have hlines : String.join ((program.prologue b.name).map (lineText indent))
      = String.join ((([["#!/usr/bin/env python"],
        ["\"\"\" generated source for module " ++ nameText b.name ++ " \"\"\""],
        ["from __future__ import print_function"],
        if program.needsShift then Helper.shiftLines else [],
        if program.needsAbstract then ["from abc import ABCMeta, abstractmethod"] else [],
        if program.needsLocks then Helper.lockLines else []] : List (List String)).flatten).map
          (lineText indent)) := by
    refine congrArg (fun lines => String.join (List.map (lineText indent) lines)) ?_
    unfold Program.prologue Program.front Program.aids
    cases hs : program.needsShift <;> cases ha : program.needsAbstract <;>
      cases hl : program.needsLocks <;> simp [Program.provides, Aid.lines, hs, ha, hl]
  rw [bind_of_ok (hprologue.trans hcalled), hlines]
  refine writeAll_lines p indent (.cons rfl (.cons ?_ (.cons rfl (.cons (hasked (·.needsShift) _)
    (.cons (hasked (·.needsAbstract) _) (.cons (hasked (·.needsLocks) _) .nil))))))
  refine rethrow_eq_ok.2 ?_
  change (block id >>= _) w = _
  rw [bind_of_ok (block_apply w id hb), hform]
  rfl

/-- Whenever a module is printed, its prologue comes first. -/
theorem dump_module (hconfig : w.config = .standard) {id : BlockId} {b : Block}
    (hb : w.blocks[id]? = some b) {program : Program} (hform : b.form = .program program)
    {level : Int} {text : String} {w' : Workshop} (h : Build.dump level id w = .ok text w') :
    ∃ indent rest, indentAt level w = .ok indent w
      ∧ text = String.join ((program.prologue b.name).map (lineText indent)) ++ rest := by
  obtain ⟨p, w1, hprinter, h1⟩ := bind_eq_ok.1 h
  obtain ⟨-, rfl⟩ : p = forLevels (2 * w.blocks.size + 7 + 1) ∧ w = w1 := by
    cases hprinter
    exact ⟨rfl, rfl⟩
  cases hprinter
  obtain ⟨b', hb', h2⟩ := block_bind_eq_ok.1 h1
  obtain rfl := Option.some.inj (hb.symm.trans hb')
  obtain ⟨indent, w3, hindent, h3⟩ := bind_eq_ok.1 h2
  obtain rfl : w = w3 := by
    obtain ⟨value, w4, hvalue, hlift⟩ := bind_eq_ok.1 hindent
    obtain rfl : w = w4 := by
      cases hvalue
      rfl
    cases htimes : value.times level with
    | error failure =>
      rw [htimes] at hlift
      cases hlift
    | ok s =>
      rw [htimes] at hlift
      cases hlift
      rfl
  rw [if_neg (by simp [Block.isExpression, hform, Form.expr?])] at h3
  obtain ⟨called, w5, hprologue, h4⟩ := bind_eq_ok.1 h3
  obtain ⟨opening, w6, hopening, h5⟩ := bind_eq_ok.1 h4
  have hfront := bind_eq_ok.2 ⟨called, w5, hprologue, hopening⟩
  rw [prologue_module hconfig hb hform] at hfront
  cases hfront
  refine ⟨indent, ?_⟩
  obtain ⟨_, w7, -, h6⟩ := bind_eq_ok.1 h5
  obtain ⟨head, w8, -, h7⟩ := bind_eq_ok.1 h6
  rw [if_pos (by simp [Block.isModule, hform])] at h7
  obtain ⟨_, w9, -, h8⟩ := bind_eq_ok.1 h7
  obtain ⟨body, w10, -, h9⟩ := bind_eq_ok.1 h8
  obtain ⟨_, w11, -, h10⟩ := bind_eq_ok.1 h9
  obtain ⟨closing, w12, -, h11⟩ := bind_eq_ok.1 h10
  obtain ⟨rfl, -⟩ := pure_eq_ok.1 h11
  exact ⟨head ++ body ++ closing, hindent, by simp only [String.append_assoc]⟩

end Printer

/-! ## What is written with the help of a helper -/

/-- A handler that is asked about a block gives a line. -/
def Handler.Shows (h : Handler) (id : BlockId) (line : String) (w : Workshop) : Prop :=
  ∃ texts items w', (do (← h.call texts [.block id]).items) w = .ok items w' ∧ .text line ∈ items

/-- Something in the workshop is written with the help of a helper: an expression calls the unsigned
shift; the prologue of a method has a decorator for locks or for abstract methods; a statement holds
a lock; the head of a type names the class of abstract classes. -/
inductive Workshop.Writes (w : Workshop) : Aid → Prop
  | shifted {id : BlockId} {b : Block} {e : Expr} (hb : w.blocks[id]? = some b)
      (he : b.form.expr? = some e) (ht : e.template ∈ Slot.shifts) : Writes w .shift
  | synchronized {id : BlockId} {b : Block} (hb : w.blocks[id]? = some b)
      (hmethod : b.isMethod = true) (h : synchronizedMethod.Shows id "@synchronized" w) :
      Writes w .locks
  | locked {id opening : BlockId} {b : Block} (hb : w.blocks[id]? = some b)
      (h : b.form = .statement "with" opening) : Writes w .locks
  | abstract {id : BlockId} (h : abstractMethod.Shows id "@abstractmethod" w) :
      Writes w .abstract
  | head {id : BlockId} {hs : List Value} (h : Printer.handlers id "Head" "Handlers" w = .ok hs w)
      (hmem : .handler (.echo "__metaclass__ = ABCMeta") ∈ hs) : Writes w .abstract

theorem Workshop.Writes.calls {w : Workshop} (hconfig : w.config = .standard)
    (h : w.Writes aid) : ∃ (i : BlockId) (b : Block), w.blocks[i]? = some b ∧ b.calls aid = true := by
  cases h with
  | shifted hb he ht => exact ⟨_, _, hb, by simpa [Block.calls, he] using ht⟩
  | @synchronized id b hb hmethod h =>
    obtain ⟨texts, items, w', hrun, hmem⟩ := h
    have hform : b.form = .method := by simpa [Block.isMethod] using hmethod
    refine ⟨id, b, hb, ?_⟩
    obtain ⟨id', w0, hid, habout⟩ := bind_eq_ok.1 (rethrow_eq_ok.1 hrun)
    obtain ⟨rfl, rfl⟩ := pure_eq_ok.1 hid
    obtain ⟨b', hb', hitems⟩ := block_bind_eq_ok.1 habout
    obtain rfl := Option.some.inj (hb.symm.trans hb')
    obtain ⟨rfl, -⟩ := pure_eq_ok.1 hitems
    simp only [Block.calls, hform]
    split at hmem
    · assumption
    · cases hmem
  | locked hb h => exact ⟨_, _, hb, by simp [Block.calls, h]⟩
  | @abstract id h =>
    obtain ⟨texts, items, w', hrun, hmem⟩ := h
    obtain ⟨id', w0, hid, habout⟩ := bind_eq_ok.1 (rethrow_eq_ok.1 hrun)
    obtain ⟨rfl, rfl⟩ := pure_eq_ok.1 hid
    obtain ⟨b, hb, hitems⟩ := block_bind_eq_ok.1 habout
    cases hparent : b.parent with
    | none =>
      rw [hparent] at hitems
      obtain ⟨rfl, -⟩ := pure_eq_ok.1 hitems
      cases hmem
    | some parent =>
      rw [hparent] at hitems
      obtain ⟨b', hb', hlines⟩ := block_bind_eq_ok.1 hitems
      obtain ⟨rfl, -⟩ := pure_eq_ok.1 hlines
      refine ⟨parent, b', hb', ?_⟩
      split at hmem
      · assumption
      · cases hmem
  | @head id hs h hmem =>
    have hrest := get_bind_eq_ok.1 h
    obtain ⟨key, w3, hkey, -⟩ := bind_eq_ok.1 hrest
    obtain ⟨b, w4, hblock, -⟩ := bind_eq_ok.1 hkey
    obtain ⟨hb, rfl⟩ := block_eq_ok.1 hblock
    refine ⟨id, b, hb, ?_⟩
    cases hform : b.form with
    | interface => simp [Block.calls, Block.isInterface, hform]
    | _ =>
      -- No other sort of block has a text among the handlers of its head.
      have hitems := Printer.handlers_standard hconfig hb
        (show (standardLayer.lookup (b.form.settingKey ++ "Head" ++ "Handlers")).getD (.list [])
          = .list _ by rw [hform]; rfl)
      rw [hitems] at h
      cases h
      simp at hmem

/-! ## Notes -/

/-- The kinds of nodes for unsigned shifts. -/
def Expression.unsignedShifts : List Kind := [.bitShiftRight, .bitShiftRightAssign]

section

variable {id : BlockId} {c : Cursor} {w w' : Workshop}

/-- A node for an unsigned shift is accepted, and then the module has a note of it. -/
theorem Expression.provides_of_shift {descend : Visit} {template : String} {o : Option BlockId}
    (hm : Stepwise (Tends fun _ => False) (looseOperands descend id c)) (hconfig : w.config = .standard)
    (h : shift descend id c template w = .ok o w') :
    w'.config = .standard ∧ w'.Provides .shift ∧ o = none := by
  obtain ⟨_, w1, htemplate, h⟩ := bind_eq_ok.1 h
  obtain ⟨_, w2, hoperands, h⟩ := bind_eq_ok.1 h
  obtain ⟨_, w3, hneed, h⟩ := bind_eq_ok.1 h
  obtain ⟨rfl, rfl⟩ := pure_eq_ok.1 h
  obtain rfl := modify_eq_ok.1 htemplate
  have hbefore := Tends.of_reaches (hm hoperands) hconfig
  obtain ⟨hsame, -, hprovides⟩ := noted (x := fun _ => False) .shift
    (f := fun p => { p with needsShift := true })
    (fun p aid h => by cases aid <;> first | exact h | rfl) (fun _ => rfl) hneed
  exact ⟨hsame.trans hbefore.1, hprovides, rfl⟩

/-- An expression that has visited a node for an unsigned shift leaves a note of it. -/
theorem Expression.provides_of_visit {fuel : Nat} (hc : c.Within (Tree.Throughout Tree.Worded))
    (hkind : c.kind ∈ unsignedShifts) (hfuel : c.tree.height ≤ fuel) (hconfig : w.config = .standard)
    (h : walkUpTo fuel id c w = .ok () w') : w'.Provides .shift := by
  have hB := lawful_tends
  have hK := Kin.same_lawful (Tree.Throughout Tree.Worded)
  have hakin : (Kin.same (Tree.Throughout Tree.Worded)).akin c c := ⟨rfl, hc⟩
  obtain ⟨fuel, rfl⟩ := Tree.exists_fuel hfuel
  have hd : (Bond.steps (Tends fun _ => False)).Visits
      ((Kin.same (Tree.Throughout Tree.Worded)).Within c c) (walkUpTo fuel) (walkUpTo fuel) :=
    fun _ _ _ _ hi h => hB.does_expression hK fuel hi h.near (by have := h.lt; omega)
      (by have := h.lt'; omega)
  have hm := (hB.does_looseOperands hK hakin hd (Nat.lt_succ_self id)).stepwise
  obtain ⟨_, w1, hbefore, h1⟩ := bind_eq_ok.1 h
  have hconfig1 := (Tends.of_reaches (tends_takeComments (x := fun _ => False) _ _ _ hbefore) hconfig).1
  obtain ⟨visitor, w2, haccept, h2⟩ := bind_eq_ok.1 h1
  obtain ⟨hconfig2, hprovides, rfl⟩ : w2.config = .standard ∧ w2.Provides .shift ∧ visitor = none := by
    rcases List.mem_pair.1 hkind with hkind | hkind
    all_goals
      unfold accept at haccept
      rw [hkind] at haccept
      exact provides_of_shift hm hconfig1 haccept
  -- What is left are comments behind the node, and what the settings do.
  obtain ⟨_, w3, hafter, h3⟩ := bind_eq_ok.1 h2
  have hnotes := Tends.of_reaches (tends_takeComments (x := fun _ => False) _ _ _ hafter) hconfig2
  rw [if_neg (by rcases List.mem_pair.1 hkind with hkind | hkind <;> rw [hkind] <;> decide)] at h3
  have hlast := Tends.of_reaches (tends_mutate (x := fun _ => False) _ h3) hnotes.1
  exact hlast.2.provides (hnotes.2.provides hprovides)

/-- No visit of a node loses a note. -/
theorem Declaration.provides_of_visit {fuel : Nat} (hc : c.Within (Tree.Throughout Tree.Worded))
    (hfuel : c.tree.height ≤ fuel) (hconfig : w.config = .standard)
    (h : walkUpTo fuel id c w = .ok () w') {aid : Aid} (hprovides : w.Provides aid) : w'.Provides aid := by
  have hsteps := (lawful_tends.does_declaration (Kin.same_lawful _) fuel (Nat.lt_succ_self id)
    (.inl ⟨rfl, hc⟩) hfuel hfuel).stepwise h
  exact (Tends.of_reaches hsteps hconfig).2.provides hprovides

end

namespace Build

/-- After a walk over a whole tree, in which modifiers with the text of a keyword are that keyword,
the prologue of the module is written, comes first whenever the module is printed, and has every
helper of which there is a note, and every helper with whose help something is written; it has no
helper twice.  Whenever an expression has visited a node for an unsigned shift, on the way or by
itself, there is a note of it, and no visit of any node by any block loses a note. -/
theorem walkTree_brings_helpers (w : Workshop) (name : Option String) (program : Program)
    {tree : Tree} (hwords : tree.Throughout Tree.Worded) (tokens : List Lexeme) {w' : Workshop}
    (h : walkTree 0 tree tokens (w.opened name program) = .ok () w') :
    ∃ (b : Block) (p : Program), w'.blocks[0]? = some b ∧ b.form = .program p
      ∧ (∀ printer indent, (do Printer.writeAll printer indent (← Printer.prologue printer 0)) w'
          = .ok (String.join ((p.prologue b.name).map (Printer.lineText indent))) w')
      ∧ (∀ level text w'', dump level 0 w' = .ok text w'' →
          ∃ indent rest, Handler.indentAt level w' = .ok indent w'
            ∧ text = String.join ((p.prologue b.name).map (Printer.lineText indent)) ++ rest)
      ∧ (∀ aid, w'.Writes aid ∨ w'.Provides aid → aid.lines <:+: p.prologue b.name)
      ∧ (∀ (aid : Aid) line, aid.lines.head? = some line → (p.prologue b.name).count line ≤ 1)
      ∧ ∀ {id : BlockId} {c : Cursor} {fuel : Nat} {v v' : Workshop},
          c.Within (Tree.Throughout Tree.Worded) → c.tree.height ≤ fuel → v.config = .standard →
          (c.kind ∈ Expression.unsignedShifts → Expression.walkUpTo fuel id c v = .ok () v' →
              v'.Provides .shift)
            ∧ (Declaration.walkUpTo fuel id c v = .ok () v' → ∀ aid, v.Provides aid → v'.Provides aid) := by
  obtain ⟨_, w₀, hstart, hwalk⟩ := bind_eq_ok.1 h
  obtain rfl := modify_eq_ok.1 hstart
  obtain ⟨hconfig, htended⟩ :=
    Tends.of_reaches (lawful_tends.stepwise_walk 0 (Cursor.within_ofTree hwords) hwalk) rfl
  obtain ⟨b, hb, hsort⟩ := htended.sort (i := 0) (b := { form := .program program, name }) rfl
  obtain ⟨p, hform⟩ : ∃ p, b.form = .program p := by
    cases hform : b.form with
    | program p => exact ⟨p, rfl⟩
    | _ => simp [hform, Form.sortName] at hsort
  -- The module is the only one, so every note is its own.
  have honly {aid : Aid} (h : w'.Provides aid) : p.provides aid = true := by
    obtain ⟨j, d, q, hd, hq, hprovides⟩ := h
    obtain ⟨d₀, hd₀⟩ := htended.modules hd (by simp [Block.isModule, hq])
    obtain ⟨rfl, -⟩ := w.opened_get name program hd₀
    obtain rfl := Option.some.inj (hb.symm.trans hd)
    obtain rfl := Form.program.inj (hform.symm.trans hq)
    exact hprovides
  refine ⟨b, p, hb, hform, Printer.prologue_module hconfig hb hform,
    fun level text w'' hdump => Printer.dump_module hconfig hb hform hdump, fun aid hneed => ?_,
    fun aid line hline => ?_, fun hc hfuel hstandard => ⟨?_, ?_⟩⟩
  · have hprovides : p.provides aid = true := by
      rcases hneed with hwrites | hnoted
      · obtain ⟨i, c, hc, hcalls⟩ := hwrites.calls hconfig
        obtain ⟨c₀, hc₀, hcalls₀⟩ | hnoted | hfalse := htended.calls hc hcalls
        · obtain ⟨-, rfl⟩ := w.opened_get name program hc₀
          cases aid <;> cases hcalls₀
        · exact honly hnoted
        · exact hfalse.elim
      · exact honly hnoted
    obtain ⟨before, after, heq⟩ := List.append_of_mem (Program.mem_aids.2 hprovides)
    rw [Program.prologue, heq, List.flatMap_append, List.flatMap_cons]
    exact ⟨Program.front b.name ++ before.flatMap Aid.lines, after.flatMap Aid.lines, by simp⟩
  · rw [Program.count_prologue p b.name hline]
    split <;> omega
  · exact fun hkind hvisit => Expression.provides_of_visit hc hkind hfuel hstandard hvisit
  · exact fun hvisit aid hnoted => Declaration.provides_of_visit hc hfuel hstandard hvisit hnoted

/-- An interface, and a class with a synchronized method in which something is shifted. -/
def helpedTree : Tree :=
  .node { kind := .compilationUnit } [
    .node { kind := .interfaceWord, text := "interface" } [.node { kind := .ident, text := "I" } []],
    .node { kind := .classWord, text := "class" } [.node { kind := .ident, text := "A" } [],
      .node { kind := .classTopLevelScope } [.node { kind := .voidMethodDecl } [
          .node { kind := .modifierList } [.node { kind := .synchronizedWord, text := "synchronized" } []],
          .node { kind := .ident, text := "m" } [],
          .node { kind := .formalParamList } [],
          .node { kind := .blockScope } [.node { kind := .expr } [
              .node { kind := .bitShiftRightAssign, text := ">>>=" } [
                .node { kind := .ident, text := "a" } [],
                .node { kind := .ident, text := "b" } []]]]]]]]

/-- The module of that text shifts, and brings the helper along. -/
theorem walkTree_brings_shift :
    helpedTree.Throughout Tree.Worded
      ∧ ∃ w', walkTree 0 helpedTree [] (({ config := .standard } : Workshop).opened none {}) = .ok () w'
        ∧ w'.Writes .shift
        ∧ ∃ (b : Block) (p : Program), w'.blocks[0]? = some b ∧ b.form = .program p
          ∧ Helper.shiftLines <:+: p.prologue b.name := by
  have hwords : helpedTree.Throughout Tree.Worded := by
    simp [helpedTree, Tree.Worded, Tree.kind, Tree.text, Tree.head, Tree.children]
  obtain ⟨w', hrun⟩ := ok_of_succeeded (show succeeded (walkTree 0 helpedTree []
    (({ config := .standard } : Workshop).opened none {})) = true by decide +kernel)
  have hshift : ((ending (walkTree 0 helpedTree []
      (({ config := .standard } : Workshop).opened none {}))).blocks.any fun b => b.calls .shift)
      = true := by decide +kernel
  have hwrites : w'.Writes .shift := by
    rw [hrun] at hshift
    obtain ⟨i, hi, hcalls⟩ := Array.any_eq_true.1 hshift
    obtain ⟨e, he, ht⟩ := (Option.any_eq_true ..).1 hcalls
    exact .shifted (Array.getElem?_eq_getElem hi) he (by simpa using ht)
  obtain ⟨b, p, hb, hform, -, -, hhelpers, -⟩ := walkTree_brings_helpers _ none {} hwords [] hrun
  exact ⟨hwords, w', hrun, hwrites, b, p, hb, hform, hhelpers .shift (.inl hwrites)⟩

end Build

end Transcriber
