import Transcriber.Proofs.Print.Again

/-!
# How blocks open

Under the standard settings a type, a method or a statement is printed from the lines that open it,
a line that describes it, and its body.  The lines that open a block are printed the same again while
types and modules get other children.

* `Printer.dumpBlock_suite`, `Printer.dumpBlock_type` — the parts from which a block is printed.
-/

namespace Transcriber

open Build Block Handler List Printer

/-- A type, a method, a statement, or statements inside a method.  A method has to be the only one of
its name in the block to which it belongs. -/
inductive Block.Shaped (w : Workshop) (id : BlockId) (b : Block) : Prop
  | type (hform : b.form = .plainClass)
  | method {owner : BlockId} {o : Block} (hform : b.form = .method) (hparent : b.parent = some owner)
      (howner : w.blocks[owner]? = some o) (hsingle : o.children.filter (w.isMethodNamed b.name) = [id])
  | statement {keyword : String} {opening : BlockId} (hform : b.form = .statement keyword opening)
  | content (hform : b.form = .content)

/-- The lines that open a block can be printed. -/
def Workshop.Opens (w : Workshop) (id : BlockId) (opening : Int → String) : Prop :=
  ∀ level, ∃ n, (Printer.prologue (.forLevels n) id >>=
    writeAll (.forLevels n) (indentOf level)) w = .ok (opening level) w

/-- A sequence that is the same again; the blocks in it are expressions. -/
def Called.Again (w0 w : Workshop) (c0 c : Called) : Prop :=
  Repeats w0 w c0.items c.items
    ∧ ∀ items, c0.items w0 = .ok items w0 → ∀ v ∈ items, ∀ i, v = .block i → w0.HoldsExpr i

section

variable {w0 w : Workshop} {p0 p : Printer}

theorem Called.again_lines {c0 c : Called} {lines : List String}
    (h0 : c0.items w0 = .ok (Handler.lines lines) w0) (h : c.items w = .ok (Handler.lines lines) w) :
    Called.Again w0 w c0 c := by
  refine ⟨repeats_of_ok h0 h, fun items hitems v hv i hi => ?_⟩
  rw [h0] at hitems
  cases hitems
  subst hi
  obtain ⟨s, -, hs⟩ := mem_map.1 hv
  cases hs

variable (hp : Serves w0 w p0 p)

include hp

theorem repeats_written {v : Value} (hv : ∀ i, v = .block i → w0.HoldsExpr i) :
    Repeats w0 w (v.written p0.texts) (v.written p.texts) := by
  cases v with
  | block i => exact hp i (hv i rfl)
  | _ => exact repeats_pure _

theorem repeats_writeAll (indent : String) {cs0 cs : List Called}
    (h : List.Forall₂ (Called.Again w0 w) cs0 cs) :
    Repeats w0 w (writeAll p0 indent cs0) (writeAll p indent cs) := by
  induction h with
  | nil => exact repeats_pure _
  | cons hc _ ih =>
    refine repeats_bind hc.1 fun items hitems => ?_
    refine repeats_bind (repeats_mapM fun v hv => ?_) fun written _ => ?_
    · split
      · exact repeats_pure _
      · exact repeats_bind (repeats_written hp (hc.2 items hitems v hv)) fun _ _ => repeats_pure _
    · exact repeats_bind ih fun _ _ => repeats_pure _

theorem repeats_paramText {q : Parameter} (hq : ∀ i, q.default = some (.block i) → w0.HoldsExpr i) :
    Repeats w0 w (paramText p0 (.ofParameter q)) (paramText p (.ofParameter q)) := by
  obtain ⟨name, type, default⟩ := q
  cases default with
  | none => exact repeats_of_ok rfl rfl
  | some d =>
    have htext : ∀ p : Printer, paramText p (.ofParameter ⟨name, type, some d⟩)
        = (do return name ++ "=" ++ (← (Value.ofOperand d).written p.texts)) := fun p => rfl
    rw [htext, htext]
    refine repeats_bind (repeats_written hp fun i hi => hq i ?_) fun _ _ => repeats_pure _
    cases d <;> cases hi
    rfl

end

/-! ## The lines that open a block -/

section

variable {w0 w : Workshop} {p0 p : Printer} (hconfig : w0.config = .standard)
  (hcomposed : w0.Composed) (hre : Rearranged w0 w) (hp : Serves w0 w p0 p) {i : BlockId} {b : Block}
  (hb : w0.blocks[i]? = some b)

include hcomposed hre hb in
theorem again_decorators : Called.Again w0 w (decorators i) (decorators i) := by
  obtain ⟨children, hb', -⟩ := hre.old hb
  have hitems : ∀ v : Workshop, ∀ b' : Block, v.blocks[i]? = some b' →
      (decorators i).items v = .ok (b'.decorators.map .ofOperand) v := by
    intro v b' hv
    refine rethrow_eq_ok.2 ?_
    rw [bind_of_ok (block_apply v i hv)]
    rfl
  refine ⟨repeats_of_ok (hitems w0 b hb) (hitems w { b with children } hb'), fun items h v hv j hj => ?_⟩
  rw [hitems w0 b hb] at h
  cases h
  obtain ⟨o, ho, hvalue⟩ := mem_map.1 hv
  refine hcomposed.decorators hb o ho j ?_
  subst hj
  cases o <;> cases hvalue
  rfl

/-- The bases of a type; what has none has the one that every type has. -/
def Block.baseNames (b : Block) : List String :=
  if b.bases.isEmpty then commonBases else b.bases

def Block.typeLine (b : Block) : String :=
  "class " ++ nameText b.name ++ (if (", ".intercalate b.baseNames).isEmpty then ""
      else "(" ++ ", ".intercalate b.baseNames ++ ")") ++ ":"

/-- The line that opens a type is put together from the bases that the settings give. -/
theorem classLine_of_bases (hb' : w.blocks[i]? = some b) {names : List String}
    (hitems : itemsOf p i "Base" w = .ok (Handler.lines names) w) :
    classLine p i w = .ok (Handler.lines ["class " ++ nameText b.name
      ++ (if (", ".intercalate names).isEmpty then "" else "(" ++ ", ".intercalate names ++ ")") ++ ":"]) w := by
  unfold classLine
  rw [bind_of_ok hitems]
  refine (bind_of_ok (show _ = EStateM.Result.ok names w from ?_)).trans ?_
  · rw [Handler.lines, mapM_map]
    exact (mapM_apply_of_ok fun s _ => rfl).trans (by rw [map_id'])
  · rw [bind_of_ok (block_apply w i hb')]
    rfl

theorem itemsOf_bases (hw : w.config = .standard) (hb' : w.blocks[i]? = some b)
    (hitems : (standardLayer.lookup (b.form.settingKey ++ "Base" ++ "Handlers")).getD (.list [])
      = Standard.handlers [.bases]) (p : Printer) :
    itemsOf p i "Base" w = .ok (Handler.lines b.baseNames) w := by
  have hcall : Handler.bases.call p.texts [.block i] w
      = .ok (.value (.list (Handler.lines b.baseNames))) w := by
    change (block i >>= _ >>= _) w = _
    rw [bind_assoc, bind_of_ok (block_apply w i hb')]
    rfl
  unfold itemsOf
  rw [bind_of_ok (callAll_standard hw p hb' [.bases] hitems (.cons hcall .nil))]
  exact congrArg (EStateM.Result.ok · w) (append_nil _)

theorem classLine_apply (hw : w.config = .standard) (hb' : w.blocks[i]? = some b)
    (hform : b.form = .plainClass) (p : Printer) :
    classLine p i w = .ok (Handler.lines [b.typeLine]) w :=
  classLine_of_bases hb' (itemsOf_bases hw hb' (by rw [hform]; rfl) p)

def Handler.marks : List Handler := [.abstractMethod, .classMethod, .overloads, .synchronizedMethod]

/-- A method that is alone with its name is marked only if it was before. -/
theorem overloadsOf_single {v : Workshop} {i owner : BlockId} {b o : Block} (hb : v.blocks[i]? = some b)
    (hparent : b.parent = some owner) (howner : v.blocks[owner]? = some o)
    (hsingle : o.children.filter (v.isMethodNamed b.name) = [i]) :
    overloadsOf i v = .ok (Handler.lines (match b.overloaded with
      | some mark => if mark.isEmpty then [] else [mark]
      | none => [])) v := by
  have hmethods : methodsNamed owner b.name v = .ok [i] v := by
    unfold methodsNamed
    rw [bind_of_ok (get_apply v), bind_of_ok (block_apply v owner howner)]
    exact congrArg (EStateM.Result.ok · v) hsingle
  unfold overloadsOf
  rw [bind_of_ok (block_apply v i hb), hparent]
  refine (bind_of_ok (show demand (some owner) v = .ok owner v from rfl)).trans ?_
  rw [bind_of_ok hmethods]
  dsimp only
  rw [bind_of_ok (block_apply v i hb)]
  cases b.overloaded with
  | none => rfl
  | some mark =>
    dsimp only
    split <;> rfl

include hre hb in
theorem again_marks (hmethod : b.form = .method) {owner : BlockId} {o : Block}
    (hparent : b.parent = some owner) (howner : w0.blocks[owner]? = some o)
    (hsingle : o.children.filter (w0.isMethodNamed b.name) = [i]) (p0 p : Printer) :
    ∃ cs0 cs : List Called,
      List.Forall₂ (fun h c => Handler.call p0.texts h [.block i] w0 = .ok c w0) Handler.marks cs0
      ∧ List.Forall₂ (fun h c => Handler.call p.texts h [.block i] w = .ok c w) Handler.marks cs
      ∧ List.Forall₂ (Called.Again w0 w) cs0 cs := by
  have hb' : w.blocks[i]? = some b := hre.get hb (by simp [isClass, hmethod]) (by simp [isModule, hmethod])
  obtain ⟨children, howner', -, hnamed⟩ := hre.old howner
  -- Each handler gives the same lines wherever the type has this method as its only one of the name.
  have hsame {f : BlockId → Build (List Value)} (lines : List String) (h : ∀ v children, v.blocks[i]? = some b →
      v.blocks[owner]? = some { o with children } → children.filter (v.isMethodNamed b.name) = [i] →
        f i v = .ok (Handler.lines lines) v) :
      Called.Again w0 w (Handler.about f (.block i)) (Handler.about f (.block i)) :=
    Called.again_lines (about_items (h w0 _ hb howner hsingle))
      (about_items (h w _ hb' howner' (by rw [hre.isMethodNamed_eq, hnamed, hsingle])))
  refine ⟨_, _, .cons rfl (.cons rfl (.cons rfl (.cons rfl .nil))),
    .cons rfl (.cons rfl (.cons rfl (.cons rfl .nil))), .cons ?_ (.cons ?_ (.cons ?_ (.cons ?_ .nil)))⟩
  · refine hsame (if o.isInterface then ["@abstractmethod"] else []) fun v _ hb howner _ => ?_
    rw [bind_of_ok (block_apply v i hb), hparent]
    refine (bind_of_ok (block_apply v owner howner)).trans ?_
    change EStateM.Result.ok (if o.isInterface = true then _ else _) v = _
    split <;> rfl
  · refine hsame (if b.isStatic && !b.decorators.contains (.text "classmethod") then
      ["@classmethod"] else []) fun v _ hb _ _ => ?_
    rw [bind_of_ok (block_apply v i hb)]
    split <;> rfl
  · exact hsame _ fun v _ hb howner hsingle => overloadsOf_single hb hparent howner hsingle
  · refine hsame (if b.modifiers.contains "synchronized" then ["@synchronized"] else []) fun v _ hb _ _ => ?_
    rw [bind_of_ok (block_apply v i hb)]
    split <;> rfl

include hcomposed hp hb in
theorem again_methodLine (hconfig : w0.config = .standard) (hw : w.config = .standard)
    (hb' : w.blocks[i]? = some b) (hmethod : b.form = .method) : Called.Again w0 w
      (.sequence (methodLine p0 i)) (.sequence (methodLine p i)) := by
  have hitems : ∀ (v : Workshop) (q : Printer), v.config = .standard → v.blocks[i]? = some b →
      itemsOf q i "Param" v = .ok (b.parameters.map .ofParameter) v := by
    intro v q hv hvb
    have hcall : Handler.params.call q.texts [.block i] v
        = .ok (.value (.list (b.parameters.map .ofParameter))) v := by
      change (block i >>= _) v = _
      rw [bind_of_ok (block_apply v i hvb)]
      rfl
    unfold itemsOf
    rw [bind_of_ok (callAll_standard hv q hvb [.params] (by rw [hmethod]; rfl) (.cons hcall .nil))]
    exact congrArg (EStateM.Result.ok · v) (append_nil _)
  refine ⟨repeats_rethrow ?_, fun items hrun v hv j hj => ?_⟩
  · unfold methodLine
    refine repeats_bind_ok (hitems w0 p0 hconfig hb) (hitems w p hw hb') ?_
    refine repeats_bind (repeats_mapM fun v hv => ?_) fun params _ => ?_
    · obtain ⟨q, hq, rfl⟩ := mem_map.1 hv
      exact repeats_paramText hp (hcomposed.defaults hb q hq)
    · exact repeats_block_bind hb hb' (repeats_pure _)
  · obtain ⟨params, w1, -, hline⟩ := bind_eq_ok.1 (rethrow_eq_ok.1 hrun)
    obtain ⟨texts, w2, -, hline⟩ := bind_eq_ok.1 hline
    obtain ⟨b1, w3, -, hline⟩ := bind_eq_ok.1 hline
    obtain ⟨rfl, -⟩ := pure_eq_ok.1 hline
    subst hj
    cases mem_singleton.1 hv

/-- What is not a statement has what the handlers give before its decorators and its line. -/
theorem prologue_apply {cs : List Called} (hb' : w.blocks[i]? = some b)
    (hform : ∀ keyword opening, b.form ≠ .statement keyword opening)
    (hcall : callAll p i "Prologue" w = .ok cs w) : Printer.prologue p i w = .ok
      (if b.isClass then cs ++ [decorators i, .sequence (classLine p i)]
        else if b.isMethod then cs ++ [decorators i, .sequence (methodLine p i)]
        else cs) w := by
  unfold Printer.prologue
  rw [bind_of_ok (block_apply w i hb')]
  cases hsort : b.form with
  | statement keyword opening => exact absurd hsort (hform keyword opening)
  | _ =>
    dsimp only
    rw [bind_of_ok hcall]
    split
    · rfl
    · split <;> rfl

include hconfig hcomposed hre hp hb in
theorem again_prologue (hshape : b.Shaped w0 i) : ∃ cs0 cs : List Called,
    Printer.prologue p0 i w0 = .ok cs0 w0 ∧ Printer.prologue p i w = .ok cs w
      ∧ List.Forall₂ (Called.Again w0 w) cs0 cs := by
  obtain ⟨children, hb', hsame, -⟩ := hre.old hb
  have hw : w.config = .standard := hre.config.trans hconfig
  have hdecorators := again_decorators hcomposed hre hb
  have hnone (v : Workshop) (q : Printer) (c : Block) (hv : v.config = .standard) (hc : v.blocks[i]? = some c)
      (hform : c.form = .plainClass ∨ c.form = .content) : callAll q i "Prologue" v = .ok [] v :=
    callAll_standard hv q hc [] (by rcases hform with hform | hform <;> rw [hform] <;> rfl) .nil
  cases hshape with
  | type hform =>
    refine ⟨_, _, prologue_apply hb (by simp [hform]) (hnone w0 p0 b hconfig hb (.inl hform)),
      prologue_apply hb' (by simp [hform]) (hnone w p _ hw hb' (.inl hform)), ?_⟩
    simp only [isClass, hform, if_true, nil_append]
    refine .cons hdecorators (.cons (Called.again_lines (rethrow_eq_ok.2
      (classLine_apply hconfig hb hform p0)) (rethrow_eq_ok.2 (classLine_apply hw hb' hform p))) .nil)
  | method hform hparent howner hsingle =>
    obtain ⟨cs0, cs, hcall0, hcall, hagain⟩ := again_marks hre hb hform hparent howner hsingle p0 p
    obtain rfl : children = b.children := hsame (by simp [isClass, hform]) (by simp [isModule, hform])
    refine ⟨_, _, prologue_apply hb (by simp [hform])
        (callAll_standard hconfig p0 hb Handler.marks (by rw [hform]; rfl) hcall0),
      prologue_apply hb' (by simp [hform])
        (callAll_standard hw p hb' Handler.marks (by rw [hform]; rfl) hcall), ?_⟩
    simp only [isClass, isMethod, hform, Bool.false_eq_true, if_false, beq_self_eq_true, if_true]
    exact rel_append hagain (.cons hdecorators
      (.cons (again_methodLine hcomposed hp hb hconfig hw hb' hform) .nil))
  | @statement keyword opening hform =>
    have hopening : ∀ (v : Workshop) (q : Printer) (c : Block), v.blocks[i]? = some c →
        c.form = .statement keyword opening → Printer.prologue q i v
          = .ok [.sequence (pure [.block opening])] v := by
      intro v q c hv hc
      unfold Printer.prologue
      rw [bind_of_ok (block_apply v i hv), hc]
      rfl
    refine ⟨_, _, hopening w0 p0 b hb hform, hopening w p _ hb' hform, .cons ⟨?_, ?_⟩ .nil⟩
    · exact repeats_rethrow (repeats_pure _)
    · intro items hitems v hv j hj
      obtain ⟨rfl, -⟩ := pure_eq_ok.1 (rethrow_eq_ok.1 hitems)
      obtain rfl := mem_singleton.1 hv
      cases hj
      exact hcomposed.opening hb hform
  | content hform =>
    refine ⟨_, _, prologue_apply hb (by simp [hform]) (hnone w0 p0 b hconfig hb (.inr hform)),
      prologue_apply hb' (by simp [hform]) (hnone w p _ hw hb' (.inr hform)), ?_⟩
    simp [isClass, isMethod, hform]

end

/-- The lines that open a block are printed the same again. -/
theorem Workshop.Opens.again {w0 w : Workshop} {p : Printer} (hconfig : w0.config = .standard)
    (hcomposed : w0.Composed) (hre : Rearranged w0 w) (hp : ∀ n, Serves w0 w (.forLevels n) p)
    {i : BlockId} {b : Block} (hb : w0.blocks[i]? = some b) (hshape : b.Shaped w0 i)
    {opening : Int → String} (h : w0.Opens i opening) (level : Int) :
    (Printer.prologue p i >>= writeAll p (indentOf level)) w = .ok (opening level) w := by
  obtain ⟨n, hn⟩ := h level
  obtain ⟨cs0, cs, hcs0, hcs, hagain⟩ := again_prologue hconfig hcomposed hre (hp n) hb hshape
  exact (repeats_bind_ok hcs0 hcs (repeats_writeAll (hp n) (indentOf level) hagain) hn).2

theorem Workshop.opens_type {w : Workshop} (hconfig : w.config = .standard) {i : BlockId} {b : Block}
    (hb : w.blocks[i]? = some b) (hform : b.form = .plainClass) (hdecorators : b.decorators = []) :
    w.Opens i fun level => lineText (indentOf level) b.typeLine := by
  intro level
  refine ⟨0, ?_⟩
  rw [bind_of_ok (prologue_apply hb (by simp [hform])
    (callAll_standard hconfig _ hb [] (by rw [hform]; rfl) .nil))]
  simp only [isClass, hform, if_true, nil_append]
  have hnone : (decorators i).items w = .ok (Handler.lines []) w := by
    refine rethrow_eq_ok.2 ?_
    rw [bind_of_ok (block_apply w i hb), hdecorators]
    rfl
  have hline : (Called.sequence (classLine (.forLevels 0) i)).items w
      = .ok (Handler.lines [b.typeLine]) w := rethrow_eq_ok.2 (classLine_apply hconfig hb hform _)
  rw [writeAll_lines _ _ (.cons hnone (.cons hline .nil))]
  simp [String.join]

/-! ## The parts of a block -/

def Block.description (b : Block) : String :=
  "\"\"\" generated source for " ++ b.form.settingKey ++ " " ++ nameText b.name ++ " \"\"\""

/-- What stands between the lines that open a block and its body: types and methods are described. -/
def Block.headText (b : Block) (level : Int) : String :=
  if b.isClass || b.isMethod then lineText (indentOf level) b.description else ""

namespace Printer

variable {w : Workshop} {p : Printer} {i : BlockId} {b : Block} (hconfig : w.config = .standard)
  (hb : w.blocks[i]? = some b)

include hb in
theorem docString_items : (Handler.about docStringOf (.block i)).items w
    = .ok (Handler.lines [b.description]) w := by
  refine about_items ?_
  unfold docStringOf
  rw [bind_of_ok (block_apply w i hb)]
  rfl

include hconfig in
theorem writeHead_line {c : Called} {line : String} (hc : c.items w = .ok (Handler.lines [line]) w)
    (level : Int) : writeHead p level [c] w = .ok (lineText (indentOf level) line) w := by
  unfold writeHead
  rw [bind_of_ok hc]
  refine (bind_of_ok (show _ = EStateM.Result.ok ([line].map (lineText (indentOf level))) w from ?_)).trans ?_
  · rw [Handler.lines, mapM_map]
    exact mapM_apply_of_ok fun s _ => bind_of_ok (indentAt_standard hconfig level)
  · change EStateM.Result.ok (String.join [_] ++ "") w = _
    simp [String.join]

include hconfig hb

section

variable (hform : b.form = .plainClass ∨ b.form.isSuite = true)
include hform

theorem callAll_head : callAll p i "Head" w = .ok (if b.isClass || b.isMethod then
      [Handler.about docStringOf (.block i)] else []) w := by
  have hdoc : (standardLayer.lookup (b.form.settingKey ++ "Head" ++ "Handlers")).getD (.list [])
      = Standard.handlers [.docString] → callAll p i "Head" w
        = .ok [Handler.about docStringOf (.block i)] w :=
    fun h => callAll_standard hconfig p hb [.docString] h (.cons rfl .nil)
  have hnone : (standardLayer.lookup (b.form.settingKey ++ "Head" ++ "Handlers")).getD (.list [])
      = Standard.handlers [] → callAll p i "Head" w = .ok [] w :=
    fun h => callAll_standard hconfig p hb [] h .nil
  cases hsort : b.form with
  | plainClass => simpa [isClass, hsort] using hdoc (by rw [hsort]; rfl)
  | method => simpa [isMethod, hsort] using hdoc (by rw [hsort]; rfl)
  | statement keyword opening =>
    simpa [isClass, isMethod, hsort] using hnone (by rw [hsort]; rfl)
  | content => simpa [isClass, isMethod, hsort] using hnone (by rw [hsort]; rfl)
  | _ => simp [hsort, Form.isSuite] at hform

theorem callAll_epilogue : callAll p i "Epilogue" w = .ok [] w := by
  refine callAll_standard hconfig p hb [] ?_ .nil
  cases hsort : b.form with
  | plainClass => rfl
  | method => rfl
  | statement keyword opening => rfl
  | content => rfl
  | _ => simp [hsort, Form.isSuite] at hform

theorem head_apply (level : Int) :
    (callAll p i "Head" >>= writeHead p level) w = .ok (b.headText level) w := by
  rw [bind_of_ok (callAll_head hconfig hb hform)]
  unfold headText
  split
  · exact writeHead_line hconfig (docString_items hb) level
  · rfl

end

theorem hasHead_apply (hform : b.form = .plainClass ∨ b.form = .method) : hasHead p i w = .ok true w := by
  have hhead := callAll_head (p := p) hconfig hb (hform.imp_right fun h => by rw [h]; rfl)
  rw [if_pos (by rcases hform with h | h <;> simp [isClass, isMethod, h])] at hhead
  unfold hasHead
  rw [bind_of_ok hhead, hasHead.any, bind_of_ok (docString_items hb)]
  rfl

omit hconfig hb

variable (hconfig : w.config = .standard) (hb : w.blocks[i]? = some b)
include hconfig hb

theorem dumpBlock_line
    (hexpr : b.isExpression = true) {text : String} (htext : p.text i w = .ok text w) (level : Int) :
    dumpBlock p level i w = .ok (lineText (indentOf level) text) w := by
  unfold dumpBlock
  rw [bind_of_ok (block_apply w i hb),
    bind_of_ok (indentAt_standard hconfig level), if_pos hexpr, bind_of_ok htext]
  rfl

/-- The lines that open a block and its head, one behind the other. -/
theorem dumpBlock_of_body
    (hform : b.form = .plainClass ∨ b.form.isSuite = true) {level : Int} {opening : String}
    {items : List BodyItem} {texts : List String} {w1 w' : Workshop} {b' : Block}
    (hopening : (prologue p i >>= writeAll p (indentOf level)) w = .ok opening w)
    (hbody : body p i w = .ok items w1) (htexts : items.mapM (writeItem p (level + 1)) w1 = .ok texts w')
    (hconfig' : w'.config = .standard) (hb' : w'.blocks[i]? = some b') (hsame : b'.form = b.form) :
    dumpBlock p level i w = .ok (opening ++ b.headText (level + 1) ++ String.join texts) w' := by
  have hjoined : (String.join <$> items.mapM (writeItem p (level + 1))) w1 = .ok (String.join texts) w' := by
    rw [← bind_pure_comp, bind_of_ok htexts]
    rfl
  obtain ⟨cs, w3, hcs, hwrite⟩ := bind_eq_ok.1 hopening
  obtain ⟨heads, w2, hheads, hhead⟩ := bind_eq_ok.1 (head_apply hconfig hb hform (level + 1))
  have hexpr : b.isExpression = false := by
    cases hsort : b.form <;> simp_all [isExpression, Form.expr?, Form.isSuite]
  have hmodule : b.isModule = false := by
    cases hsort : b.form <;> simp_all [isModule, Form.isSuite]
  unfold dumpBlock
  rw [bind_of_ok (block_apply w i hb), bind_of_ok (indentAt_standard hconfig level)]
  simp only [hexpr, hmodule, Bool.false_eq_true, if_false]
  rw [bind_of_ok hcs, bind_of_ok hwrite, bind_of_ok hheads, bind_of_ok hhead,
    bind_of_ok hbody, bind_of_ok hjoined,
    bind_of_ok (callAll_epilogue hconfig' hb' (by rw [hsame]; exact hform))]
  change EStateM.Result.ok (opening ++ b.headText (level + 1) ++ String.join texts ++ "") w' = _
  rw [String.append_empty]

/-- A method or a statement is printed child by child. -/
theorem body_suite
    (hform : b.form.isSuite = true) : body p i w = .ok (b.children.map .block) w := by
  unfold body
  rw [bind_of_ok (block_apply w i hb)]
  cases hsort : b.form with
  | method =>
    simp only [isClass, isMethod, hsort, beq_self_eq_true, Bool.false_eq_true, if_false, if_true]
    rw [bind_of_ok (hasHead_apply hconfig hb (.inr hsort)), bind_of_ok (block_apply w i hb)]
    simp
    rfl
  | statement keyword opening =>
    simp [isClass, isMethod, hsort]
    rfl
  | content =>
    simp [isClass, isMethod, hsort]
    rfl
  | _ => simp [hsort, Form.isSuite] at hform

/-- Before a type is printed, static expressions are moved out of it. -/
theorem body_type (hform : b.form = .plainClass) {w' : Workshop} {b' : Block}
    (hmove : moveStaticsOf p.texts i w = .ok () w') (hconfig' : w'.config = .standard)
    (hb' : w'.blocks[i]? = some b') (hform' : b'.form = .plainClass) :
    body p i w = .ok (spaced w' none b'.children) w' := by
  have hhandlers : handlers i "PostWalk" "Handlers" w = .ok [.handler .moveStatics] w :=
    handlers_standard hconfig hb (show (standardLayer.lookup
      (b.form.settingKey ++ "PostWalk" ++ "Handlers")).getD (.list []) = .list [.handler .moveStatics]
        by rw [hform]; rfl)
  have hcall : (Value.handler .moveStatics).call p.texts [.block i] w = .ok (.value .none) w' :=
    bind_of_ok hmove
  unfold body
  rw [bind_of_ok (block_apply w i hb)]
  simp only [isClass, hform, if_true]
  rw [bind_of_ok hhandlers]
  refine (bind_of_ok (show _ = EStateM.Result.ok PUnit.unit w' from ?_)).trans ?_
  · have hstep : (do let _ ← (Value.handler .moveStatics).call p.texts [.block i] : Build PUnit) w
        = .ok PUnit.unit w' := (bind_of_ok hcall).trans rfl
    exact (bind_of_ok hstep).trans rfl
  · rw [bind_of_ok (hasHead_apply hconfig' hb' (.inl hform')), bind_of_ok (block_apply w' i hb')]
    simp
    rfl

end Printer

end Transcriber
