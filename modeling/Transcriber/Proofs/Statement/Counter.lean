import Transcriber.Proofs.Statement.Fills

/-!
# The start of a counting loop

A counting loop declares a variable before it begins.  The declaration becomes a line of its own: the
name, and the initial value, which may be an expression, the elements of an array, or a value that
depends on the type.  The nodes of the declaration are visited once more after that, to no effect.

* `Site.announce`, `unless_assign` — the two parts of a declaration.
-/

namespace Transcriber

open Build Source Expression Workshop

/-! ## Trees that are passed over -/

section

variable {descend : Visit} {w : Workshop} {id : Nat} {t : Tree} {above : List Tree}

theorem accept_idle {c : Cursor} (hkind : c.kind ∉ busyKinds) (descend : Visit) (id : BlockId) :
    Statement.accept descend id c = unhandled id c := by
  unfold Statement.accept
  split <;> first
    | next hbusy => exact absurd (by rw [hbusy]; decide) hkind
    | rfl

theorem accept_expr_idle {c : Cursor} (hkind : c.kind = .expr)
    (hparent : c.parentKind?.any Statement.expressionParents.contains = false) (descend : Visit)
    (id : BlockId) : Statement.accept descend id c = pure none := by
  unfold Statement.accept
  rw [hkind]
  dsimp only
  rw [hparent, if_neg Bool.false_ne_true]

theorem signatureKinds_busy : ∀ kind ∈ signatureKinds, kind ∈ busyKinds := by
  decide

/-- Below a node that is passed over, an expression is no statement. -/
theorem any_parentKind_of_idle {u : Tree} (hkind : t.kind ∉ busyKinds) :
    (Cursor.mk u (t :: above)).parentKind?.any Statement.expressionParents.contains = false := by
  change Statement.expressionParents.contains t.kind = false
  rw [List.contains_eq_mem, decide_eq_false_iff_not]
  exact fun hmem => hkind (List.mem_append_left _ hmem)

/-- Visits one after the other that bring no line. -/
theorem fills_idles {ts : List Tree} (hd : ∀ t ∈ ts, ∀ {w : Workshop}, Site w id →
      Fills False (descend id ⟨t, above⟩) w id (· = []))
    (hsite : Site w id) :
    Fills False ((ts.map fun t => Cursor.mk t above).forM fun child => do
        descend id child
        takeComments id id child.head.stop) w id (· = []) := by
  induction ts generalizing w with
  | nil => exact .nothing rfl
  | cons t ts ih =>
    have hfirst := (hd t (.head _) hsite).commented hsite id t.head.stop
    refine (Fills.append hsite hfirst (fun hsite' => ih (fun u hu => hd u (.tail _ hu))
      hsite') ?_).congr (or_self_iff)
    rintro _ _ rfl rfl
    rfl

/-- Trees that are passed over bring no line. -/
theorem Idle.fills (h : Idle t) {fuel : Nat} (hfuel : t.height ≤ fuel) (hparent : t.kind = .expr →
      (Cursor.mk t above).parentKind?.any Statement.expressionParents.contains = false)
    (hsite : Site w id) :
    Fills False (Declaration.walkUpTo fuel id ⟨t, above⟩) w id (· = []) := by
  induction h generalizing fuel above w with
  | @expr t hkind =>
    obtain ⟨n, rfl⟩ := Tree.exists_fuel hfuel
    refine fills_walk hsite (by rw [show (Cursor.mk t above).kind = .expr from hkind]; decide)
      fun _ hsite' => ?_
    rw [accept_expr_idle (c := ⟨t, above⟩) hkind (hparent hkind), pure_bind]
    exact .nothing rfl
  | @node t hkind hname hs ih =>
    obtain ⟨n, rfl⟩ := Tree.exists_fuel hfuel
    refine fills_walk hsite (fun hmem => hkind ?_) fun _ hsite' =>
      fills_through hsite' (accept_idle (c := ⟨t, above⟩) hkind _ id) hname fun _ hsite'' => ?_
    · exact signatureKinds_busy _ hmem
    · refine fills_idles (fun u hu => fun hsite => ih u hu ?_ (fun _ => ?_) hsite) hsite''
      · have hlt : u.height < t.height := Tree.height_child hu
        omega
      · exact any_parentKind_of_idle hkind

end

/-! ## The two parts of a declaration -/

def Block.declare (name : String) (b : Block) : Block := { b with declared := b.declared ++ [name] }

theorem around_declare (w : Workshop) (id : Nat) (name : String) :
    Around (· = id) w (w.edit id (Block.declare name)) := by
  refine ⟨rfl, rfl, Nat.le_of_eq (edit_size w id _).symm, fun j _ => ?_, fun j _ hj => ?_⟩
  · rw [edit_get]
    split
    · rw [Option.map_map]
      rfl
    · rfl
  · rw [edit_get_of_ne _ _ _ hj]

section

variable {w : Workshop} {id : Nat} {s : Scope}

theorem InScope.typeText (h : InScope w id s) {c type first : Cursor}
    (htype : c.child? .typeRef = some type) (hfirst : type.children.head? = some first) :
    ∃ text, typeText id c w = .ok text w
      ∧ (first.kind ≠ .qualifiedTypeIdent → text = s.rename first.text) := by
  obtain ⟨others, hchildren⟩ : ∃ others, type.children = first :: others := by
    cases hcs : type.children with
    | nil => rw [hcs] at hfirst; cases hfirst
    | cons d others => rw [hcs] at hfirst; cases hfirst; exact ⟨others, rfl⟩
  unfold Build.typeText
  rw [htype, bind_of_ok (show demand (some type) w = .ok type w from rfl), hchildren]
  dsimp only
  cases hkind : first.kind == .qualifiedTypeIdent with
  | true =>
    have hnames : (first.childrenOf .ident).mapM (fun n => Build.qualify id n.text) w
        = .ok ((first.childrenOf .ident).map fun n => s.rename n.text) w :=
      mapM_apply_of_ok fun n _ => h.qualify n.text
    rw [if_pos rfl, bind_of_ok hnames]
    exact ⟨_, h.qualify _, fun hne => absurd (beq_iff_eq.1 hkind) hne⟩
  | false =>
    rw [if_neg Bool.false_ne_true]
    exact ⟨_, h.qualify first.text, fun _ => rfl⟩

/-- A new expression stands for a variable that is declared in the block. -/
theorem Site.announced (h : Site w id) {b : Block} {name : String}
    (hform : b.form = .expression { left := .text name }) (hp : b.parent = some id)
    (hchildless : b.children = []) :
    Begun w id b w.blocks.size ((w.edit id (Block.declare name)).adjoin b)
      ∧ ∃ s, Fits s false ∧ Holds ((w.edit id (Block.declare name)).adjoin b) w.blocks.size s
        { left := .text name } := by
  have hdeclare := around_declare w id name
  have hclass : b.isClass = false := by simp [Block.isClass, hform]
  have hbegun := (h.frame hdeclare).begun hp hchildless hclass
  rw [edit_size] at hbegun
  have hchildren : (w.edit id (Block.declare name)).childrenOf id = w.childrenOf id := by
    unfold childrenOf
    rw [edit_get_self, Option.map_map]
    rfl
  obtain ⟨s, hs, hfits⟩ := hbegun.housed.inScope
  refine ⟨⟨hdeclare.again hbegun.around, Nat.le_refl _, hbegun.get, hchildless, ?_, hbegun.housed⟩,
    s, hfits, (hdeclare.again hbegun.around).calm h.calm, hs, ⟨b, hbegun.get, hform⟩, rfl⟩
  rw [hbegun.children, hchildren]

theorem Site.announce (h : Site w id) {c declarator name type first : Cursor}
    (hname : declarator.child? .ident = some name) (htype : c.child? .typeRef = some type)
    (hfirst : type.children.head? = some first) :
    ∃ b text w' s s', Variable.announce id c declarator w = .ok (w.blocks.size, text) w'
      ∧ Begun w id b w.blocks.size w' ∧ Fits s false
      ∧ Holds w' w.blocks.size s { left := .text name.text }
      ∧ Fits s' false ∧ (first.kind ≠ .qualifiedTypeIdent → text = s'.rename first.text) := by
  have hsize : (w.edit id (Block.declare name.text)).blocks.size = w.blocks.size := edit_size w id _
  have hedit : ∀ (b : Block) (f : Block → Block), b.parent = some id → (f b).parent = b.parent →
      ((w.edit id (Block.declare name.text)).adjoin b).edit w.blocks.size f
        = (w.edit id (Block.declare name.text)).adjoin (f b) := by
    intro b f hp hf
    rw [← hsize]
    refine edit_adjoin_new _ _ _ ?_ hf
    rw [hp, hsize]
    exact fun heq => absurd (Option.some.inj heq) (Nat.ne_of_lt h.lt_size)
  obtain ⟨hbegun0, -⟩ := h.announced
    (b := { form := .expression { left := .text name.text }, parent := some id }) rfl rfl rfl
  obtain ⟨s', hs', hfits'⟩ := (h.frame hbegun0.around).housed.inScope
  obtain ⟨text, htext, hrename⟩ := hs'.typeText htype hfirst
  have hrun : ∀ k : BlockId → String → Build (BlockId × String), (do
      let name ← textOf (declarator.child? .ident)
      change id (Block.declare name)
      let declared ← Build.expr (some id) { left := .text name }
      let type ← typeText id c
      change declared fun b => { b with type := some type }
      k declared type) w
      = k w.blocks.size text ((w.edit id (Block.declare name.text)).adjoin
          { form := .expression { left := .text name.text }, parent := some id, type := some text }) := by
    intro k
    rw [hname, bind_of_ok (show textOf (some name) w = .ok name.text w from rfl),
      bind_of_ok (change_apply w id (Block.declare name.text)),
      bind_of_ok (expr_apply _ (some id) { left := .text name.text }), hsize,
      bind_of_ok htext, bind_of_ok (change_apply _ _ _), hedit _ _ rfl rfl]
  unfold Variable.announce
  cases c.child? .modifierList with
  | none =>
    obtain ⟨hbegun, s, hfits, hholds⟩ := h.announced
      (b := { form := .expression { left := .text name.text }, parent := some id, type := some text })
      rfl rfl rfl
    exact ⟨_, text, _, s, s', hrun fun declared type => pure (declared, type), hbegun, hfits, hholds,
      hfits', hrename⟩
  | some list =>
    obtain ⟨hbegun, s, hfits, hholds⟩ := h.announced
      (b := { form := .expression { left := .text name.text }, parent := some id, type := some text,
              modifiers := list.children.map (·.text) }) rfl rfl rfl
    refine ⟨_, text, _, s, s', (hrun fun declared type => do
      change declared fun b => { b with modifiers := list.children.map (·.text) }
      pure (declared, type)).trans ?_, hbegun, hfits, hholds, hfits', hrename⟩
    rw [bind_of_ok (change_apply _ _ _), hedit _ _ rfl rfl]
    rfl

end

/-! ## Initial values -/

theorem Slot.filled_marked (mark : String) (h : Braceless mark) (l r : String) :
    filled? (both ++ mark) l r = some (l ++ r ++ mark) := by
  simpa [both] using filled_framed "" "" mark ⟨by decide, by decide, h⟩ l r

theorem Slot.filled_brackets (l r : String) :
    filled? ("[" ++ both ++ "]") l r = some ("[" ++ (l ++ r) ++ "]") := by
  simpa [both, String.append_assoc] using filled_framed "[" "" "]" (by decide) l r

theorem writeRow_template (f : Writing) (slot : String) (s : Scope) (template : String) (cs : List Cursor) :
    writeRow f slot s template cs
      = writeRow f slot s Slot.both cs >>= fun sheet => .ok { sheet with template } := by
  cases cs with
  | nil => rfl
  | cons c cs =>
    simp only [writeRow, bind_assoc]
    refine bind_congr fun item => bind_congr fun next => ?_
    rfl

theorem meets_elements {s : Scope} (hs : Fits s false) {ts above : List Tree} (habove : above ≠ [])
    (h : ∀ t ∈ ts, Clause t) :
    Meets (∃ t ∈ ts, Stuck false t)
      (writeRow write Slot.both s Slot.both (ts.map fun t => ⟨t, above⟩)) fun sheet =>
        ∃ texts l r, List.Forall₂ Stated (ts.map fun t => ⟨t, above⟩) texts
          ∧ (∀ text ∈ texts, Worded text) ∧ sheet.template = Slot.both ∧ sheet.left.text? = some l
          ∧ sheet.right.text? = some r ∧ l ++ r = ", ".intercalate texts := by
  induction ts with
  | nil =>
    refine (meets_ok ?_).congr (by simp)
    exact ⟨[], "", "", .nil, by simp, rfl, rfl, rfl, by simp⟩
  | cons t ts ih =>
    obtain ⟨hstuck, hfree⟩ := (h t (.head _)).outcome hs habove
    have hmark : Braceless (if (ts.map fun t => Cursor.mk t above).isEmpty then "" else ", ") := by
      split <;> decide
    have hitem : Meets (Stuck false t) (write s ⟨t, above⟩
        { template := Slot.both ++ (if (ts.map fun t => Cursor.mk t above).isEmpty then "" else ", ") })
        fun item => ∃ text, Stated ⟨t, above⟩ text ∧ Worded text ∧ item.doc.text?
          = some (text ++ (if (ts.map fun t => Cursor.mk t above).isEmpty then "" else ", ")) := by
      refine ⟨fun ht => hstuck ht _, fun ht => ?_⟩
      obtain ⟨text, hsaid, hworded⟩ := hfree ht
      obtain ⟨doc, hdoc, htext⟩ := id hsaid
      refine ⟨_, hdoc _, text, ⟨s, hs, hsaid⟩, hworded, (Doc.text_node rfl htext).trans ?_⟩
      rw [Slot.filled_marked _ hmark, String.empty_append]
    rw [List.map_cons, writeRow]
    have hrest := ih fun u hu => h u (.tail _ hu)
    refine (hitem.bind fun item hitem => hrest.map ?_).congr (by simp)
    rintro next ⟨texts, l, r, hstated, hworded, htemplate, hl, hr, htexts⟩
    obtain ⟨text, htext, hword, hdoc⟩ := hitem
    have hnext : next.doc.text? = some (", ".intercalate texts) := by
      rw [Sheet.doc, htemplate, Doc.text_node hl hr, Slot.filled_both, htexts]
    refine ⟨text :: texts, _, _, .cons htext hstated, ?_, rfl, hdoc, hnext, ?_⟩
    · rintro other (_ | ⟨_, hother⟩)
      · exact hword
      · exact hworded other hother
    · cases ts with
      | nil =>
        cases hstated
        simp
      | cons u ts =>
        cases hstated
        simp [String.append_assoc]

section

variable {w : Workshop} {n : Nat} {s : Scope} {name : String} {c type first : Cursor} {d : Tree}
  {above : List Tree}

/-- What a variable without a value begins with, by its type. -/
def emptyText (type first : Cursor) (text : String) : String :=
  if (type.child? .arrayDeclaratorList).isSome then "[]"
  else if first.kind != .qualifiedTypeIdent then text ++ "()" else "None"

theorem emptyValue_apply (htype : c.child? .typeRef = some type)
    (hfirst : type.children.head? = some first) (text : String) :
    Variable.emptyValue text c w = .ok (emptyText type first text) w := by
  unfold Variable.emptyValue emptyText
  rw [htype, bind_of_ok (show demand (some type) w = .ok type w from rfl)]
  split
  · rfl
  · rw [hfirst, bind_of_ok (show demand (some first) w = .ok first w from rfl)]
    rfl

/-- A variable that has been announced says its name and its value. -/
def Assigned (w : Workshop) (n : Nat) (s : Scope) (name : String) (w' : Workshop) (value : String) :
    Prop :=
  OneLine value ∧ ∃ doc, doc.text? = some (" = " ++ value)
    ∧ Went w (fun _ => False) n s () w' ⟨Slot.both, .atom (.text name), doc⟩

variable {w1 : Workshop} {m : Nat}
  (hopened : Opened w (fun _ => False) n s ⟨Slot.both, .atom (.text name), .atom (.text "")⟩ m w1)

include hopened

/-- What stands behind the sign of an assignment says the value. -/
theorem Opened.assigned {u : Unit} {w' : Workshop} {doc : Doc} {value : String}
    (hwent : Went w1 (fun _ => False) m s u w' ⟨Slot.both, .atom (.text " = "), doc⟩)
    (hdoc : doc.text? = some value) (hone : OneLine value) : Assigned w n s name w' value := by
  refine ⟨hone, _, ?_, hopened.fill hwent⟩
  rw [Sheet.doc, Doc.text_node rfl hdoc, Slot.filled_both]

theorem unless_elements (hs : Fits s false) {ts : List Tree} (habove : above ≠ [])
    (hclauses : ∀ t ∈ ts, Clause t) (hplain : ∀ t ∈ ts, Cursor.Every Plain ⟨t, above⟩)
    (hm : Holds w1 m s { left := .text " = " }) :
    Unless (AnyStuck false (near ts)) (do
        let list ← Build.expr (some n) { template := "[" ++ Slot.both ++ "]" }
        setRight m (.block list)
        Expression.row Expression.walk Slot.both n list (ts.map fun t => ⟨t, above⟩)) w1
      fun _ w' => ∃ texts, List.Forall₂ Stated (ts.map fun t => ⟨t, above⟩) texts
        ∧ Assigned w n s name w' ("[" ++ ", ".intercalate texts ++ "]") := by
  have hold := hopened.old
  have hnew := hopened.new
  have hsize := hopened.within.size
  have hmlt := hm.lt_size
  obtain ⟨e, he, htemplate, hleft, hright⟩ := hopened.holds
  obtain ⟨w2, hrun2, hwithin2, hsize2, he2, hlist2⟩ := he.made { template := "[" ++ Slot.both ++ "]" } rfl
  have hm2 := hm.frame hwithin2 (by omega)
  obtain ⟨w3, hrun3, hwithin3, hsize3, hm3⟩ :=
    hm2.changed (fun e => { e with right := .block w1.blocks.size }) rfl
  have he3 := he2.frame hwithin3 (by omega)
  have hlist3 := hlist2.frame hwithin3 (by omega)
  have hplains : ∀ d ∈ ts.map fun t => Cursor.mk t above, d.Every Plain := by simpa using hplain
  have hrow := yields_row performs_walk Slot.both (fun d hd => (hplains d hd).below) he3 hlist3 (by omega)
  rw [writeRow_template] at hrow
  refine Unless.after hrun2 (Unless.after hrun3 (Unless.congr
    (hrow.unless ((meets_elements hs habove hclauses).map
      (f := fun sheet => { sheet with template := "[" ++ Slot.both ++ "]" })
      (R := fun sheet => ∃ texts : List String, List.Forall₂ Stated (ts.map fun t => ⟨t, above⟩) texts
        ∧ (∀ text ∈ texts, Worded text)
        ∧ sheet.doc.text? = some ("[" ++ ", ".intercalate texts ++ "]")) ?_) ?_)
    anyStuck_near.symm))
  · rintro sheet ⟨texts, l, r, hstated, hworded, -, hl, hr, htexts⟩
    refine ⟨texts, hstated, hworded, ?_⟩
    rw [Sheet.doc, Doc.text_node hl hr, Slot.filled_brackets, htexts]
  · rintro _ w4 sheet ⟨hwithin4, he4, hspells⟩ ⟨texts, hstated, hworded, htext⟩
    have hm4 := hm3.frame hwithin4 (by omega)
    have hsigned := (hm4.shows (P := fun j => w.blocks.size ≤ j ∧ j ≠ m) (by simp) (spells_text _)
      (hspells.mono ?_)).spells (Q := fun j => w.blocks.size ≤ j) (fun j hj => hj.1) hnew
    · refine ⟨texts, hstated, ?_, Sheet.doc ⟨Slot.both, .atom (.text " = "), sheet.doc⟩, ?_, ?_, ?_⟩
      · have hlist : Neat (", ".intercalate texts) :=
          neat_intercalate (by decide) (by decide) fun text h => (hworded text h).neat
        have hopening : OneLine "[" := by decide
        have hclosing : OneLine "]" := by decide
        exact (hopening.append hlist.oneLine).append hclosing
      · rw [Sheet.doc, Doc.text_node rfl htext, Slot.filled_both]
      · refine ((hopened.within.again hwithin2).beyond hwithin3 hnew).trans hwithin4 ?_
        omega
      · have hname := hwithin4.spells (hwithin3.spells (hwithin2.spells hleft
          fun j hj => hj.1.elim) fun j hj => hj.1.elim) fun j hj => hj.1.elim
        have hshows := he4.shows_new (P := fun _ => False) not_false hold hname
          (fun j hj => hj.1.elim) (hright ▸ hsigned) fun j hj => hj
        rwa [htemplate] at hshows
    · rintro j (rfl | ⟨hle, hlt⟩) <;> exact ⟨by omega, by omega⟩

theorem unless_emptyValue (htype : c.child? .typeRef = some type)
    (hfirst : type.children.head? = some first) (hneat : Neat first.text) {s' : Scope}
    (hs' : Fits s' false) {text : String}
    (htext : first.kind ≠ .qualifiedTypeIdent → text = s'.rename first.text)
    (hm : Holds w1 m s { left := .text " = " }) :
    Unless False (do
        let value ← Variable.emptyValue text c
        let _ ← openRight m (.text value)) w1
      fun _ w' => Assigned w n s name w' (emptyText type first (s'.rename first.text)) := by
  have hvalue := emptyValue_apply (w := w1) htype hfirst text
  have heq : emptyText type first text = emptyText type first (s'.rename first.text) := by
    unfold emptyText
    by_cases hkind : first.kind = .qualifiedTypeIdent
    · simp [hkind]
    · rw [htext hkind]
  rw [heq] at hvalue
  have hone : OneLine (emptyText type first (s'.rename first.text)) := by
    unfold emptyText
    split_ifs
    · decide
    · exact (hs'.neat hneat).oneLine.append (by decide)
    · decide
  generalize emptyText type first (s'.rename first.text) = value at hvalue hone ⊢
  obtain ⟨k, w2, hrun2, hopened2, hk⟩ := (hm.shows_texts (fun _ => False) not_false).openRight value
  have hshows := hk.shows_texts (fun _ => False) not_false
  refine unless_of_ok ((bind_of_ok hvalue).trans (bind_of_ok hrun2)) ?_
  refine hopened.assigned (hopened2.fill (hshows.went (.refl _ w2) hshows ())) ?_ hone
  exact (Doc.text_node rfl rfl).trans ((Slot.filled_both _ _).trans (by rw [String.append_empty]))

omit hopened

/-- The assignment of an initial value to a variable that has been announced. -/
theorem unless_assign (hplain : Cursor.Every Plain ⟨d, above⟩)
    (hvalues : ∀ value ∈ initialValues d, Clause value) (htype : c.child? .typeRef = some type)
    (hfirst : type.children.head? = some first) (hneat : Neat first.text) {s' : Scope}
    (hs' : Fits s' false) {text : String}
    (htext : first.kind ≠ .qualifiedTypeIdent → text = s'.rename first.text) (hs : Fits s false)
    (hholds : Holds w n s { left := .text name }) :
    Unless (AnyStuck false (near (initialValues d))) (Variable.assign n text c ⟨d, above⟩) w
      fun _ w' => ∃ value, InitialText c ⟨d, above⟩ value ∧ Assigned w n s name w' value := by
  obtain ⟨m, w1, hrun1, hopened, hm⟩ := (hholds.shows_texts (fun _ => False) not_false).openRight " = "
  have hexpr : (Cursor.mk d above).child? .expr
      = (d.children.find? fun child => child.kind == .expr).map fun u => ⟨u, d :: above⟩ :=
    child?_eq_map ..
  have harray : (Cursor.mk d above).child? .arrayInitializer
      = (d.children.find? fun child => child.kind == .arrayInitializer).map fun u => ⟨u, d :: above⟩ :=
    child?_eq_map ..
  unfold Variable.assign
  refine Unless.after hrun1 ?_
  unfold initialValues at hvalues ⊢
  cases hvalue : d.children.find? fun child => child.kind == .expr with
  | some value =>
    rw [hvalue] at hexpr hvalues
    rw [hexpr]
    have hclause := hvalues value (List.mem_singleton_self value)
    have hobstacle : AnyStuck false (near [value]) ↔ Stuck false value := by
      rw [anyStuck_near]
      simp
    refine Unless.congr ((hclause.walked (List.cons_ne_nil d above) (hplain.child? hexpr) hs hm).imp ?_)
      hobstacle.symm
    rintro _ w' ⟨said, doc, hsaid, hworded, hdoc, hwent⟩
    exact ⟨said, .expression hexpr ⟨s, hs, hsaid⟩, hopened.assigned hwent hdoc hworded.neat.oneLine⟩
  | none =>
    rw [hvalue] at hexpr hvalues
    rw [hexpr]
    cases hlist : d.children.find? fun child => child.kind == .arrayInitializer with
    | some array =>
      rw [hlist] at harray hvalues
      rw [harray]
      have hcursors : (Cursor.mk array (d :: above)).childrenOf .expr
          = (array.children.filter fun child => child.kind == .expr).map
              fun t => ⟨t, array :: d :: above⟩ := by
        unfold Cursor.childrenOf Cursor.children
        rw [List.filter_map]
        rfl
      have hplains : ∀ t ∈ array.children.filter fun child => child.kind == .expr,
          Cursor.Every Plain ⟨t, array :: d :: above⟩ := fun t ht =>
        (hplain.child? harray).inner (List.mem_of_mem_filter ht)
      refine Unless.imp (Unless.of_apply_eq (by dsimp only [Option.map]; rw [hcursors])
        (unless_elements hopened hs (List.cons_ne_nil _ _) hvalues hplains hm)) ?_
      rintro _ w' ⟨texts, hstated, hassigned⟩
      exact ⟨_, .array hexpr harray (hcursors ▸ hstated), hassigned⟩
    | none =>
      rw [hlist] at harray hvalues
      rw [harray]
      refine Unless.congr ((unless_emptyValue hopened htype hfirst hneat hs' htext hm).imp ?_)
        anyStuck_nil.symm
      exact fun _ w' hassigned => ⟨_, .nothing hexpr harray htype hfirst hs', hassigned⟩

end

/-! ## The line of the variable -/

namespace Counter

variable {init declaration type first list declarator name : Tree} {above : List Tree} {w : Workshop}
  {id : Nat}

variable (h : Counter init declaration type first list declarator name)
include h

theorem cursors (above : List Tree) :
    (Cursor.mk declaration above).child? .typeRef = some ⟨type, declaration :: above⟩
      ∧ (Cursor.mk type (declaration :: above)).children.head? = some ⟨first, type :: declaration :: above⟩
      ∧ (Cursor.mk declaration above).child? .varDeclaratorList = some ⟨list, declaration :: above⟩
      ∧ (Cursor.mk list (declaration :: above)).childrenOf .varDeclarator
        = [⟨declarator, list :: declaration :: above⟩]
      ∧ (Cursor.mk declarator (list :: declaration :: above)).child? .ident
        = some ⟨name, declarator :: list :: declaration :: above⟩ := by
  refine ⟨?_, ?_, ?_, ?_, ?_⟩
  · rw [child?_eq_map, h.typed]
    rfl
  · rw [head?_children, h.begins]
    rfl
  · rw [child?_eq_map, h.listed]
    rfl
  · unfold Cursor.childrenOf Cursor.children
    rw [List.filter_map]
    exact congrArg (List.map _) h.only
  · rw [child?_eq_map, h.named]
    rfl

theorem fills_declare
    (hplain : Cursor.Every Plain ⟨declaration, init :: above⟩) (hsite : Site w id) :
    Fills (AnyStuck false (near (initialValues declarator)))
      (Variable.declare id ⟨declaration, init :: above⟩) w id
      fun entries => ∃ line, CounterLine ⟨init, above⟩ line ∧ entries = [.leaf line] := by
  obtain ⟨htype, hfirst, hlist, honly, hname⟩ := h.cursors (init :: above)
  have hinit : (Cursor.mk init above).children = [⟨declaration, init :: above⟩] :=
    children_eq_map above h.children
  have hplainList := hplain.child? hlist
  have hplainDeclarator := hplainList.childrenOf (d := ⟨declarator, list :: declaration :: init :: above⟩)
    (by rw [honly]; exact List.mem_singleton_self _)
  obtain ⟨b, text, w1, s, s', hrun, hbegun, hs, hholds, hs', hrename⟩ := hsite.announce hname htype hfirst
  have hdeclare : Variable.declare id ⟨declaration, init :: above⟩ w
      = Variable.assign w.blocks.size text ⟨declaration, init :: above⟩
          ⟨declarator, list :: declaration :: init :: above⟩ w1 := by
    unfold Variable.declare
    rw [hlist, bind_of_ok (show demand (some _) w = .ok _ w from rfl), honly]
    have hone : [Cursor.mk declarator (list :: declaration :: init :: above)].forM
          (Variable.declareOne id ⟨declaration, init :: above⟩)
        = Variable.declareOne id ⟨declaration, init :: above⟩
          ⟨declarator, list :: declaration :: init :: above⟩ := bind_pure_unit
    rw [hone, Variable.declareOne, bind_of_ok hrun]
  refine Unless.of_apply_eq hdeclare (Unless.imp (unless_assign hplainDeclarator h.values htype hfirst
    h.typeText hs' hrename hs hholds) ?_)
  rintro _ w2 ⟨value, hvalue, hone, doc, hdoc, hwent⟩
  refine ⟨_, ⟨_, .mk hinit hlist honly hname hvalue, rfl⟩, ?_⟩
  rw [Entry.linesAll_leaf]
  refine hbegun.expression hwent.1.around hsite.lt_size (hwent.2.spells ?_ (Nat.le_refl _)) ?_ ?_
  · exact fun j hj => hj.elim False.elim (Nat.le_trans hbegun.around.size)
  · rw [Sheet.doc, Doc.text_node rfl hdoc, Slot.filled_both, String.append_assoc]
  · rw [String.append_assoc]
    exact h.worded.behind (OneLine.append (by decide) hone)

/-- The visit of a declaration.  The nodes below it are visited once more, to no effect. -/
theorem fills_declaration {fuel : Nat}
    (hfuel : declaration.height ≤ fuel) (hplain : Cursor.Every Plain ⟨declaration, init :: above⟩)
    (hsite : Site w id) :
    Fills (AnyStuck false (near (initialValues declarator)))
      (Declaration.walkUpTo fuel id ⟨declaration, init :: above⟩) w id
      fun entries => ∃ line, CounterLine ⟨init, above⟩ line ∧ entries = [.leaf line] := by
  obtain ⟨n, rfl⟩ := Tree.exists_fuel hfuel
  have hkind : (Cursor.mk declaration (init :: above)).kind = .varDeclaration := h.declares
  refine fills_walk hsite (by rw [hkind]; decide) fun {w'} _ hsite' => ?_
  have haccept : Statement.accept (Declaration.walkUpTo n) id ⟨declaration, init :: above⟩
        >>= goOn (Declaration.walkUpTo n) id ⟨declaration, init :: above⟩
      = Variable.declare id ⟨declaration, init :: above⟩ >>= fun _ =>
        goOn (Declaration.walkUpTo n) id ⟨declaration, init :: above⟩ (some id) := by
    unfold Statement.accept
    rw [hkind]
    dsimp only
    rw [bind_assoc]
    exact bind_congr fun _ => pure_bind _ _
  rw [haccept]
  refine (Fills.append hsite' (h.fills_declare hplain hsite') (fun hsite'' => fills_idles ?_ hsite'')
    ?_).congr (or_iff_left not_false)
  · intro t ht w'' hsite''
    refine (h.idle t ht).fills ?_ (fun _ => ?_) hsite''
    · have hlt : t.height < declaration.height := Tree.height_child ht
      omega
    · change Statement.expressionParents.contains declaration.kind = false
      rw [h.declares]
      decide
  · rintro entries _ ⟨line, hline, rfl⟩ rfl
    exact ⟨line, hline, rfl⟩

/-- The start of a counting loop brings the line of its variable. -/
theorem fills {fuel : Nat}
    (hfuel : init.height ≤ fuel) (hplain : Cursor.Every Plain ⟨init, above⟩) (hsite : Site w id) :
    Fills (AnyStuck false (near (initialValues declarator))) (Declaration.walkUpTo fuel id ⟨init, above⟩) w id
      fun entries => ∃ line, CounterLine ⟨init, above⟩ line ∧ entries = [.leaf line] := by
  obtain ⟨n, rfl⟩ := Tree.exists_fuel hfuel
  have hkind : (Cursor.mk init above).kind = .forInit := h.kind
  have hcursors : (Cursor.mk init above).children = [⟨declaration, init :: above⟩] :=
    children_eq_map above h.children
  have hmem : declaration ∈ init.children := by simp [h.children]
  have hlt : declaration.height < init.height := Tree.height_child hmem
  have hle : declaration.height ≤ n := by omega
  refine fills_walk hsite (by rw [hkind]; decide) fun _ hsite' =>
    fills_through hsite' (accept_idle (by rw [hkind]; decide) _ id) (by rw [hkind]; decide)
      fun {w'} _ hsite'' => ?_
  have hfirst := (h.fills_declaration hle (hplain.inner hmem) hsite'').commented hsite'' id
    declaration.head.stop
  unfold goOn
  rw [hcursors]
  exact Unless.of_apply_eq (congrFun (bind_pure_unit (m := Build)) w') hfirst

end Counter

end Transcriber
