import Transcriber.Proofs.Statement.Dumped
import Transcriber.Proofs.Statement.Headed

/-!
# Methods in print

A method is printed as decorators, a line that opens it, a line that describes it, and its body.  Some
methods may get other names on the way.

* `Drafted.dumped` — the lines of a method whose children stand for lines.
-/

namespace Transcriber

open Build Source Expression Handler List Printer

/-! ## Names of methods -/

/-- Methods have got other names and marks, and nothing else has happened. -/
structure Renamed (w w' : Workshop) : Prop where
  config : w'.config = w.config
  tokens : w'.trail.tokens = w.trail.tokens
  size : w'.blocks.size = w.blocks.size
  get : ∀ {j : Nat} {b : Block}, w.blocks[j]? = some b → ∃ b', w'.blocks[j]? = some b'
    ∧ b' = { b with name := b'.name, overloaded := b'.overloaded } ∧ (b.isMethod = false → b' = b)

namespace Renamed

variable {w w' w'' : Workshop}

theorem refl (w : Workshop) : Renamed w w := ⟨rfl, rfl, rfl, fun {_ b} hb => ⟨b, hb, rfl, fun _ => rfl⟩⟩

theorem trans (h : Renamed w w') (h' : Renamed w' w'') : Renamed w w'' where
  config := h'.config.trans h.config
  tokens := h'.tokens.trans h.tokens
  size := h'.size.trans h.size
  get hb := by
    obtain ⟨b', hb', heq, hsame⟩ := h.get hb
    obtain ⟨b'', hb'', heq', hsame'⟩ := h'.get hb'
    refine ⟨b'', hb'', ?_, fun hmethod => ?_⟩
    · rw [heq', heq]
    · have hb := hsame hmethod
      subst hb
      exact hsame' hmethod

/-- A method gets another name, or another mark. -/
theorem edit {j : Nat} {b : Block} (hb : w.blocks[j]? = some b) (hmethod : b.isMethod = true)
    {f : Block → Block} (hf : ∀ b, f b = { b with name := (f b).name, overloaded := (f b).overloaded }) :
    Renamed w (w.edit j f) where
  config := rfl
  tokens := rfl
  size := Workshop.edit_size ..
  get {k c} hc := by
    by_cases hk : k = j
    · subst hk
      cases hb.symm.trans hc
      refine ⟨f b, by rw [Workshop.edit_get_self, hb]; rfl, hf b, fun hno => ?_⟩
      rw [hmethod] at hno
      cases hno
    · exact ⟨c, by rw [Workshop.edit_get_of_ne _ _ _ hk, hc], rfl, fun _ => rfl⟩

theorem calm (h : Renamed w w') (hw : Calm w) : Calm w' :=
  ⟨h.config.trans hw.config, h.tokens.trans hw.tokens⟩

theorem formed (h : Renamed w w') (P : Nat → Prop) : Formed P w w' := by
  intro j b _ hb _
  obtain ⟨b', hb', heq, hsame⟩ := h.get hb
  exact ⟨b', hb', by rw [heq], fun hmethod _ => hsame hmethod⟩

end Renamed

variable {w : Workshop}

theorem Renamed.isMethod {w' : Workshop} (h : Renamed w w') {j : Nat}
    (hj : ∃ c, w.blocks[j]? = some c ∧ c.isMethod = true) :
    ∃ c, w'.blocks[j]? = some c ∧ c.isMethod = true := by
  obtain ⟨c, hc, hmethod⟩ := hj
  obtain ⟨c', hc', heq, -⟩ := h.get hc
  refine ⟨c', hc', ?_⟩
  rw [heq]
  exact hmethod

theorem oneLine_number (n : Nat) : OneLine (toString n) := by
  intro hmem
  have hdigit : Char.isDigit '\n' = true :=
    Nat.isDigit_of_mem_toDigits (b := 10) (n := n) (by decide) (by decide) (by simpa using hmem)
  exact absurd hdigit (by decide)

/-- The other methods of a name get names of their own. -/
theorem renameOverloads_apply {id : Nat} {others : List Nat} {b : Block} (count : Nat)
    (hb : w.blocks[id]? = some b) (hname : OneLine (nameText b.name))
    (hothers : ∀ other ∈ others, ∃ c, w.blocks[other]? = some c ∧ c.isMethod = true) :
    ∃ w' b', renameOverloads id count others w = .ok () w' ∧ Renamed w w'
      ∧ w'.blocks[id]? = some b' ∧ OneLine (nameText b'.name) := by
  induction others generalizing count w b with
  | nil => exact ⟨w, b, rfl, .refl w, hb, hname⟩
  | cons other others ih =>
    obtain ⟨c, hc, hmethod⟩ := hothers other (.head _)
    have hedited : ∀ {w : Workshop} {b : Block} (f : Block → Block), w.blocks[id]? = some b →
        (w.edit other f).blocks[id]? = some (if other = id then f b else b) := by
      intro w b f hb
      rw [Workshop.edit_get, hb]
      split <;> rfl
    -- The mark comes first; then the name that is shared is read anew.
    obtain ⟨mark, hmark⟩ : ∃ mark : String, mark = "@" ++ nameText b.name ++ ".register("
        ++ ", ".intercalate (c.parameters.map (·.type)) ++ ")" := ⟨_, rfl⟩
    have hmarked : Renamed w (w.edit other fun b => { b with overloaded := some mark }) :=
      .edit hc hmethod fun _ => rfl
    obtain ⟨b1, hb1, hsame⟩ : ∃ b1,
        (w.edit other fun b => { b with overloaded := some mark }).blocks[id]? = some b1
          ∧ b1.name = b.name := by
      refine ⟨_, hedited _ hb, ?_⟩
      split <;> rfl
    obtain ⟨c1, hc1, hmethod1⟩ := hmarked.isMethod ⟨c, hc, hmethod⟩
    obtain ⟨name, hnew⟩ : ∃ name : String, name = nameText b1.name ++ "_" ++ toString count := ⟨_, rfl⟩
    have hnamed := hmarked.trans (.edit hc1 hmethod1 (f := fun b => { b with name := some name })
      fun _ => rfl)
    have hfits : OneLine name := by
      rw [hnew, hsame]
      exact (hname.append (by decide)).append (oneLine_number count)
    obtain ⟨w', b', hrun, hrenamed, hb', hname'⟩ := ih (count + 1)
      (hedited (fun b => { b with name := some name }) hb1) (by
        split
        · exact hfits
        · rw [hsame]
          exact hname) fun o ho => hnamed.isMethod (hothers o (.tail _ ho))
    refine ⟨w', b', ?_, hnamed.trans hrenamed, hb', hname'⟩
    rw [renameOverloads, bind_of_ok (block_apply w other hc),
      bind_of_ok (block_apply w id hb), ← hmark, bind_of_ok (change_apply w other _),
      bind_of_ok (block_apply _ id hb1), ← hnew, bind_of_ok (change_apply _ other _)]
    exact hrun

/-! ## Methods that can be printed -/

/-- A method whose texts fit on lines. -/
structure Titled (b : Block) : Prop where
  form : b.form = .method
  name : OneLine (nameText b.name)
  decorators : ∀ d ∈ b.decorators, ∃ text, d = .text text ∧ Worded text
  parameters : ∀ p ∈ b.parameters, p.default = none ∧ Neat p.name

/-- A method that can be printed: its texts fit on lines, and so do the marks of the methods beside it.
-/
structure Drafted (w : Workshop) (id : Nat) (b : Block) : Prop where
  calm : Calm w
  get : w.blocks[id]? = some b
  titled : Titled b
  owned : ∃ owner o, b.parent = some owner ∧ w.blocks[owner]? = some o
    ∧ ∀ c ∈ o.children, ∀ d, w.blocks[c]? = some d → ∀ mark ∈ d.overloaded, Neat mark

def Block.openingLine (b : Block) : String :=
  "def " ++ nameText b.name ++ "(" ++ ", ".intercalate (b.parameters.map (·.name)) ++ "):"

def Block.describingLine (b : Block) : String :=
  "\"\"\" generated source for method " ++ nameText b.name ++ " \"\"\""

def flush (texts : List String) : List Line := texts.map fun text => (0, text)

/-- A sequence of texts is written before the sequences that follow. -/
theorem writeAll_lines {p : Printer} {level : Nat} {called : Called} {rest : List Called}
    (texts : List String) {lines : List Line} {w2 : Workshop} (w1 : Workshop)
    (hitems : called.items w = .ok (Handler.lines texts) w1)
    (hrest : writeAll p (indentation level) rest w1 = .ok (written level lines) w2) :
    writeAll p (indentation level) (called :: rest) w = .ok (written level (flush texts ++ lines)) w2 := by
  refine (writeAll_cons (g := Value.display) w1 hitems ?_ ?_ hrest).trans ?_
  · intro item hitem
    obtain ⟨text, -, rfl⟩ := mem_map.1 hitem
    exact Value.noConfusion
  · intro item hitem
    obtain ⟨text, -, rfl⟩ := mem_map.1 hitem
    rfl
  · rw [written_append]
    unfold written flush Handler.lines
    rw [map_map, map_map]
    rfl

namespace Titled

variable {b : Block}

theorem isMethod (h : Titled b) : b.isMethod = true := by simp [Block.isMethod, h.form]

theorem worded_openingLine (h : Titled b) : Worded b.openingLine := by
  have hparams : Neat (", ".intercalate (b.parameters.map (·.name))) :=
    neat_intercalate (by decide) (by decide) fun text htext => by
      obtain ⟨q, hq, rfl⟩ := mem_map.1 htext
      exact (h.parameters q hq).2
  unfold Block.openingLine
  exact ((((by decide : Worded "def ").behind h.name).behind (by decide)).behind hparams.oneLine).behind
    (by decide)

theorem worded_describingLine (h : Titled b) : Worded b.describingLine := by
  unfold Block.describingLine
  exact ((by decide : Worded "\"\"\" generated source for method ").behind h.name).behind (by decide)

theorem decoratorTexts (h : Titled b) : ∃ texts, b.decorators.map Value.ofOperand = Handler.lines texts
    ∧ ∀ text ∈ texts, Worded text := by
  have hall := h.decorators
  generalize b.decorators = ds at hall ⊢
  induction ds with
  | nil => exact ⟨[], rfl, by simp⟩
  | cons d ds ih =>
    obtain ⟨text, rfl, hworded⟩ := hall d (.head _)
    obtain ⟨texts, hmap, hrest⟩ := ih fun e he => hall e (.tail _ he)
    exact ⟨text :: texts, by rw [map_cons, hmap]; rfl, forall_mem_cons.2 ⟨hworded, hrest⟩⟩

variable {id : Nat}

theorem renamed (h : Titled b) {w' : Workshop} {b' : Block} (hw : Renamed w w')
    (hb : w.blocks[id]? = some b) (hb' : w'.blocks[id]? = some b')
    (hname : OneLine (nameText b'.name)) : Titled b' ∧ b'.children = b.children := by
  obtain ⟨c, hc, heq, -⟩ := hw.get hb
  cases hb'.symm.trans hc
  have hfields : b'.form = b.form ∧ b'.decorators = b.decorators ∧ b'.parameters = b.parameters
      ∧ b'.children = b.children := by
    rw [heq]
    exact ⟨rfl, rfl, rfl, rfl⟩
  obtain ⟨hform, hdecorators, hparameters, hchildren⟩ := hfields
  exact ⟨⟨hform.trans h.form, hname, by rw [hdecorators]; exact h.decorators,
    by rw [hparameters]; exact h.parameters⟩, hchildren⟩

theorem methodLine (h : Titled b) (hw : Calm w) (hb : w.blocks[id]? = some b)
    (p : Printer) : Printer.methodLine p id w = .ok (Handler.lines [b.openingLine]) w := by
  have hcalled : callAll p id "Param" w = .ok [.value (.list (b.parameters.map .ofParameter))] w := by
    refine hw.callAll p hb [.params] (by rw [h.form]; rfl) (.cons ?_ .nil)
    change (block id >>= _) w = _
    rw [bind_of_ok (block_apply w id hb)]
    rfl
  have hitems : itemsOf p id "Param" w = .ok (b.parameters.map .ofParameter) w := by
    unfold itemsOf
    rw [bind_of_ok hcalled]
    change EStateM.Result.ok ([b.parameters.map Value.ofParameter] : List (List Value)).flatten w = _
    rw [flatten_cons, flatten_nil, append_nil]
  have hparams : (b.parameters.map Value.ofParameter).mapM (paramText p) w
      = .ok (b.parameters.map (·.name)) w := by
    rw [mapM_map]
    refine mapM_apply_of_ok fun q hq => ?_
    obtain ⟨name, type, default⟩ := q
    obtain rfl : default = none := (h.parameters _ hq).1
    rfl
  unfold Printer.methodLine
  rw [bind_of_ok hitems, bind_of_ok hparams, bind_of_ok (block_apply w id hb)]
  rfl

theorem prologue (h : Titled b) (hb : w.blocks[id]? = some b) {p : Printer}
    {called : List Called} (hcall : callAll p id "Prologue" w = .ok called w) :
    Printer.prologue p id w = .ok (called ++ [Printer.decorators id, .sequence (Printer.methodLine p id)]) w := by
  have hclass : b.isClass = false := by simp [Block.isClass, h.form]
  unfold Printer.prologue
  rw [bind_of_ok (block_apply w id hb), h.form, hclass, h.isMethod]
  exact bind_of_ok hcall

end Titled

namespace Drafted

variable {w' : Workshop} {id : Nat} {b b' : Block}

/-- The methods of the same name may get other names. -/
theorem overloads (h : Drafted w id b) : ∃ w' b' texts,
    overloadsOf id w = .ok (Handler.lines texts) w' ∧ (∀ text ∈ texts, Worded text)
      ∧ Renamed w w' ∧ w'.blocks[id]? = some b' ∧ OneLine (nameText b'.name) := by
  obtain ⟨owner, o, hparent, ho, hmarks⟩ := h.owned
  obtain ⟨methods, hmethods⟩ : ∃ methods, methods = o.children.filter fun c =>
      w.blocks[c]?.any fun d => d.isMethod && d.name == b.name := ⟨_, rfl⟩
  have hfound : ∀ c ∈ methods, c ∈ o.children ∧ ∃ d, w.blocks[c]? = some d ∧ d.isMethod = true := by
    intro c hc
    rw [hmethods] at hc
    obtain ⟨hmem, htest⟩ := mem_filter.1 hc
    obtain ⟨d, hd, hboth⟩ := (Option.any_eq_true ..).1 htest
    exact ⟨hmem, d, hd, (Bool.and_eq_true_iff.1 hboth).1⟩
  have hnamed : methodsNamed owner b.name w = .ok methods w := by
    unfold methodsNamed
    rw [bind_of_ok (get_apply w), bind_of_ok (block_apply w owner ho), hmethods]
    rfl
  unfold overloadsOf
  rw [bind_of_ok (block_apply w id h.get), hparent]
  change ∃ w' b' texts, (methodsNamed owner b.name >>= _) w = _ ∧ _
  rw [bind_of_ok hnamed]
  split
  case h_1 only =>
    obtain ⟨hmem, d, hd, -⟩ := hfound only (mem_singleton_self only)
    have hneat := hmarks only hmem d hd
    rw [bind_of_ok (block_apply w only hd)]
    cases hmark : d.overloaded with
    | none => exact ⟨w, b, [], rfl, by simp, .refl w, h.get, h.titled.name⟩
    | some mark =>
      by_cases hempty : mark.isEmpty = true
      · exact ⟨w, b, [], by simp [hempty]; rfl, by simp, .refl w, h.get, h.titled.name⟩
      · refine ⟨w, b, [mark], by simp [hempty]; rfl, ?_, .refl w, h.get, h.titled.name⟩
        intro text htext
        cases mem_singleton.1 htext
        exact ⟨hneat mark hmark, by simpa using hempty⟩
  case h_2 =>
    obtain ⟨w', b', hrun, hrenamed, hb', hname⟩ := renameOverloads_apply 0 h.get h.titled.name
      fun other hother => (hfound other (mem_of_mem_drop hother)).2
    refine ⟨w', b', ["@overloaded"], ?_, by decide, hrenamed, hb', hname⟩
    rw [bind_of_ok hrun]
    rfl

/-- What is printed before the body of a method: decorators, and the line that opens it. -/
theorem opened (h : Drafted w id b) (p : Printer) (level : Nat) : ∃ called w' b' marks,
    Printer.prologue p id w = .ok called w ∧ writeAll p (indentation level) called w
        = .ok (written level (flush (marks ++ [b'.openingLine]))) w'
      ∧ (∀ mark ∈ marks, Worded mark) ∧ Renamed w w' ∧ w'.blocks[id]? = some b' ∧ Titled b'
      ∧ b'.children = b.children := by
  obtain ⟨owner, o, hparent, ho, -⟩ := h.owned
  obtain ⟨w', b', overloads, hoverloads, hworded, hrenamed, hb', hname⟩ := h.overloads
  obtain ⟨htitled, hchildren⟩ := h.titled.renamed hrenamed h.get hb' hname
  obtain ⟨decorators, hdecorators, hdecorated⟩ := htitled.decoratorTexts
  have hblock := block_apply w id h.get
  have hblock' := block_apply w' id hb'
  have hcall := (h.calm.callAll p h.get
    [.abstractMethod, .classMethod, .overloads, .synchronizedMethod] (by rw [h.titled.form]; rfl)
    (.cons rfl (.cons rfl (.cons rfl (.cons rfl .nil)))) : callAll p id "Prologue" w = .ok _ w)
  have hflush : ∀ texts texts' : List String, flush (texts ++ texts') = flush texts ++ flush texts' :=
    fun _ _ => map_append
  refine ⟨_, w', b', (if o.isInterface then ["@abstractmethod"] else []) ++
    ((if b.isStatic && !b.decorators.contains (.text "classmethod") then ["@classmethod"] else [])
      ++ (overloads ++ ((if b'.modifiers.contains "synchronized" then ["@synchronized"] else [])
        ++ decorators))), h.titled.prologue h.get hcall, ?_, ?_, hrenamed, hb', htitled, hchildren⟩
  · simp only [append_assoc, hflush]
    refine writeAll_lines _ w (about_items ?_) (writeAll_lines _ w (about_items ?_)
      (writeAll_lines overloads w' (about_items hoverloads) (writeAll_lines _ w' (about_items ?_)
        (writeAll_lines decorators w' (rethrow_eq_ok.2 ?_) ?_))))
    · rw [bind_of_ok hblock, hparent]
      change (block owner >>= _) w = _
      rw [bind_of_ok (block_apply w owner ho)]
      cases o.isInterface <;> rfl
    · rw [bind_of_ok hblock]
      split <;> rfl
    · rw [bind_of_ok hblock']
      split <;> rfl
    · rw [bind_of_ok hblock', hdecorators]
      rfl
    · rw [← append_nil (flush [b'.openingLine])]
      exact writeAll_lines _ w' (rethrow_eq_ok.2 (htitled.methodLine (hrenamed.calm h.calm) hb' p)) rfl
  · simp only [forall_mem_append]
    refine ⟨?_, ?_, hworded, ?_, hdecorated⟩ <;> split <;> decide

/-- A method whose children stand for lines is printed as decorators, the line that opens it, the line
that describes it, and these lines. -/
theorem dumped (h : Drafted w id b) {low : Nat} {lines : List Line} (hl : Laid w low b.children lines)
    (level : Nat) : ∃ w' b' marks, dump level id w = .ok (written level (flush (marks ++ [b'.openingLine])
        ++ deeper ((0, b'.describingLine) :: lines))) w'
      ∧ (∀ mark ∈ marks, Worded mark) ∧ Titled b' := by
  obtain ⟨n, hn⟩ : ∃ n, n = 2 * w.blocks.size + 7 := ⟨_, rfl⟩
  have hdump : dump level id w = dumpBlock (forLevels n) level id w := by
    rw [hn]
    rfl
  obtain ⟨called, w', b', marks, hprologue, hopening, hmarks, hrenamed, hb', htitled, hchildren⟩ :=
    h.opened (forLevels n) level
  have hw' := hrenamed.calm h.calm
  have hblock' := block_apply w' id hb'
  obtain ⟨texts, htexts, hjoin⟩ := (hl.move (Nat.le_refl _) (hrenamed.formed _)).dumped hw' (n := n)
    (by rw [hrenamed.size]; omega) (level + 1)
  have hexpression : b.isExpression = false := by simp [Block.isExpression, h.titled.form, Form.expr?]
  have hmodule : b.isModule = false := by simp [Block.isModule, h.titled.form]
  have hclass : b'.isClass = false := by simp [Block.isClass, htitled.form]
  -- The line that describes the method is the only one in its head.
  have hdoc : (Handler.about docStringOf (.block id)).items w'
      = .ok (Handler.lines [b'.describingLine]) w' := by
    refine about_items ?_
    unfold docStringOf
    rw [bind_of_ok hblock', htitled.form]
    rfl
  have hheads : callAll (forLevels n) id "Head" w' = .ok [Handler.about docStringOf (.block id)] w' :=
    hw'.callAll _ hb' [.docString] (by rw [htitled.form]; rfl) (.cons rfl .nil)
  have hhead : writeHead (forLevels n) (level + 1) [Handler.about docStringOf (.block id)] w'
      = .ok (written (level + 1) [(0, b'.describingLine)]) w' := by
    rw [writeHead, bind_of_ok hdoc]
    refine (bind_of_ok (mapM_apply_of_ok
      (g := fun v => lineText (indentation (level + 1)) v.display) fun v hv => ?_)).trans ?_
    · cases mem_singleton.1 hv
      exact bind_of_ok (hw'.indentAt (level + 1))
    · change EStateM.Result.ok (String.join [_] ++ "") w' = _
      simp [written, Value.display]
  have hany : hasHead (forLevels n) id w' = .ok true w' := by
    unfold hasHead
    rw [bind_of_ok hheads, hasHead.any, bind_of_ok hdoc]
    rfl
  have hbody : Printer.body (forLevels n) id w' = .ok (b'.children.map .block) w' := by
    unfold Printer.body
    rw [bind_of_ok hblock', hclass, htitled.isMethod]
    refine (bind_of_ok hany).trans ((bind_of_ok hblock').trans ?_)
    rw [Bool.not_true, Bool.and_false]
    rfl
  have hitems : (b'.children.map Printer.BodyItem.block).mapM
      (writeItem (forLevels n) (level + 1)) w' = .ok texts w' := by
    rw [mapM_map, hchildren]
    exact htexts
  have hepilogue : callAll (forLevels n) id "Epilogue" w' = .ok [] w' :=
    hw'.callAll _ hb' [] (by rw [htitled.form]; rfl) .nil
  refine ⟨w', b', marks, ?_, hmarks, htitled⟩
  rw [hdump, dumpBlock_apply h.calm h.get hexpression hmodule hprologue hopening hheads hhead hbody
    hitems hepilogue, hjoin, String.append_assoc, ← written_append, ← written_deeper, ← written_append]
  rfl

end Drafted

end Transcriber
