import Transcriber.Proofs.Expression.Visit

/-!
# The walk of an expression

Every way to accept a node has the outcome that `Expression.writeAccept` says; so has the visit of a
node with its children, and so has the whole walk.
-/

namespace Transcriber

open Build Source

namespace Expression

section

variable {descend : Visit} {write : Writing} (hd : Performs descend write) {w : Workshop}
  {P : Nat → Prop} {id : Nat} {c : Cursor} {s : Scope} {sheet : Sheet}

include hd

section

variable (hc : c.EveryBelow Plain) (h : Shows w P id s sheet)
include hc h

theorem yields_template (template : String) :
    Yields (do setTemplate id template; operands descend id c; return none) w
      (do return .done (← writeOperands write s s c { sheet with template }))
      (Accepted w P id s) := by
  obtain ⟨w1, hrun1, hwithin1, h1⟩ := h.setTemplate template
  refine .after hrun1 (yields_done ((yields_operands hd hc h1).imp fun _ _ _ hwent => ?_))
  exact hwent.after hwithin1 h.lt_size h.apart

theorem yields_shift (template : String) : Yields (shift descend id c template) w
      (do return .done (← writeShift write s c template sheet)) (Accepted w P id s) := by
  obtain ⟨w1, hrun1, hwithin1, h1⟩ := h.setTemplate template
  unfold writeShift
  rw [bind_assoc]
  refine .after hrun1 ((yields_looseOperands hd hc h1).bind fun _ w2 filled hwent => ?_)
  have hwent := hwent.after hwithin1 h.lt_size h.apart
  obtain ⟨e, he, -⟩ := hwent.2.holds
  have hneed := he.needShift
  cases hhomed : s.homed with
  | false =>
    rw [hhomed] at hneed
    obtain ⟨w3, hrun3⟩ := hneed
    exact ⟨w3, bind_of_error hrun3⟩
  | true =>
    rw [hhomed] at hneed
    obtain ⟨w3, hrun3, hwithin3, -⟩ := hneed
    exact .after hrun3 (yields_pure ⟨rfl, hwent.1.idle hwithin3,
      hwent.2.frame hwithin3 not_false fun _ _ _ => not_false⟩)

theorem yields_construct :
    Yields (construct descend id c) w (writeConstruct write s c) (Accepted w P id s) := by
  refine (yields_call hd hc h).bind fun _ w1 called hwent => ?_
  dsimp only
  cases htype : c.child? .qualifiedTypeIdent with
  | none => exact yields_pure ⟨rfl, hwent⟩
  | some type =>
    dsimp only
    cases hempty : type.children.isEmpty with
    | true => exact yields_pure ⟨rfl, hwent⟩
    | false =>
      obtain ⟨e, he, -⟩ := hwent.2.holds
      obtain ⟨w2, hrun2, hwithin2, h2⟩ := hwent.2.setLeft fun w' => spells_text
        (".".intercalate (type.children.map fun n => s.rename n.text))
      have hnames : (type.children.mapM fun n => qualify id n.text) w1
          = .ok (type.children.map fun n => s.rename n.text) w1 :=
        mapM_apply_of_ok fun n _ => he.scope.qualify n.text
      exact .after hnames (.after hrun2 (yields_pure ⟨rfl, hwent.1.again hwithin2, h2⟩))

theorem yields_instanceOf :
    Yields (instanceOf descend id c) w (writeInstanceOf write s c) (Accepted w P id s) := by
  obtain ⟨e, he, -, -, -⟩ := h.holds
  have hid := he.lt_size
  obtain ⟨w1, hrun1, hwithin1, hsize1, he1⟩ := he.changed (fun e => { e with
    template := "isinstance(" ++ Slot.right ++ ", (" ++ Slot.left ++ ", ))" }) he.tail
  obtain ⟨w2, hrun2, hwithin2, hsize2, he2, hright2⟩ := he1.made {} rfl
  obtain ⟨w3, hrun3, hwithin3, hsize3, he3⟩ :=
    he2.changed (fun e => { e with right := .block w1.blocks.size }) he.tail
  refine .after hrun1 (.after hrun2 (.after hrun3 ?_))
  refine (yields_child hd (fun d hd' => hc.child? hd') (hright2.frame hwithin3 (by omega))).bind
    fun _ w4 right ⟨hwithin4, hright⟩ => ?_
  have hsize4 := hwithin4.size
  have he4 := he3.frame hwithin4 (by omega)
  obtain ⟨w5, hrun5, hwithin5, hsize5, he5, hleft5⟩ := he4.made {} rfl
  obtain ⟨w6, hrun6, hwithin6, hsize6, he6⟩ :=
    he5.changed (fun e => { e with left := .block w4.blocks.size }) he.tail
  refine .after hrun5 (.after hrun6 ?_)
  refine (yields_child hd (fun d hd' => hc.child? hd') (hleft5.frame hwithin6 (by omega))).bind
    fun _ w7 left ⟨hwithin7, hleft⟩ => ?_
  have he7 := he6.frame hwithin7 (by omega)
  have hright7 : Spells w7 (Own w1.blocks.size w3 w4) (.block w1.blocks.size) right.doc := by
    refine hwithin7.spells (hwithin6.spells (hwithin5.spells hright ?_) ?_) ?_
    all_goals
      rintro j (rfl | ⟨hle, hlt⟩) -
      · omega
      · omega
  refine yields_pure ⟨rfl, ?_, ?_⟩
  · exact ((((((hwithin1.again hwithin2).again hwithin3).beyond hwithin4 (by omega)).again
      hwithin5).again hwithin6).beyond hwithin7 (by omega))
  · exact he7.shows_new h.apart hid hleft (fun j hj => hj.le (by omega) (by omega)) hright7
      fun j hj => hj.le (by omega) (by omega)

theorem yields_newArray :
    Yields (newArray descend id c) w (writeArray write c sheet) (Accepted w P id s) := by
  obtain ⟨n, w1, w2, hrun1, hrun2, hopened, hn2⟩ := h.looseRight { template := "[None] * " ++ Slot.left } rfl
  have hnlt := hn2.lt_size
  have hnew := hopened.new
  have hsize := hopened.within.size
  obtain ⟨w3, hrun3, hwithin3, hsize3, hm3⟩ := hn2.calm.made {} rfl
  have hn3 := hn2.frame hwithin3 not_false
  obtain ⟨w4, hrun4, hwithin4, hsize4, hn4⟩ :=
    hn3.changed (fun e => { e with left := .block w2.blocks.size }) rfl
  have hm4 := hm3.frame hwithin4 (by omega)
  refine .after hrun1 (.after hrun2 (.after hrun3 (.after hrun4 ?_)))
  refine (yields_child hd (fun d hd' => hc.child? hd') hm4).bind fun _ w5 size ⟨hwithin5, hm5⟩ => ?_
  have hn5 := hn4.frame hwithin5 (by omega)
  have hopened5 := ((hopened.frame hwithin3 fun j hj => hj.elim).frame hwithin4
    fun j hj => by omega).frame hwithin5 fun j hj => by omega
  have harray := (hn5.shows (P := fun j => w.blocks.size ≤ j ∧ j ≠ n) (by omega) (hm5.mono ?_)
    (spells_text "")).spells (Q := fun j => w.blocks.size ≤ j) (fun j hj => hj.1) hnew
  · exact yields_pure ⟨rfl, hopened5.went harray (fun j hj => hj) ()⟩
  · rintro j (rfl | ⟨hle, hlt⟩)
    · exact ⟨by omega, by omega⟩
    · exact ⟨by omega, by omega⟩

theorem yields_selfCall :
    Yields (selfCall descend id c) w (writeSelfCall write s c) (Accepted w P id s) := by
  refine (yields_call hd hc h).bind fun _ w1 called hwent => ?_
  obtain ⟨w2, hrun2, hwithin2, h2⟩ := hwent.2.setLeft fun w' => spells_text "self.__init__"
  exact .after hrun2 (yields_pure ⟨rfl, hwent.1.again hwithin2, h2⟩)

end

omit hd in
theorem yields_owner (hs : InScope w id s) {α β : Type} {k : Block → Build α}
    {g : Option String → Except Failure β} {R : α → Workshop → β → Prop}
    (hk : ∀ owner, Yields (k owner) w (g owner.name) R) :
    Yields (do let owner ← block (← enclosing id (·.isClass)); k owner) w (ownerOf s >>= g) R := by
  have hclass := hs.enclosing_class
  unfold ownerOf
  cases howner : s.owner with
  | none =>
    rw [howner] at hclass
    exact ⟨w, bind_of_error hclass⟩
  | some name =>
    rw [howner] at hclass
    obtain ⟨owner, b, henclosing, hb, rfl⟩ := hclass
    exact .after henclosing (.after (block_apply w owner hb) (hk b))

omit hd in
theorem yields_superObject (h : Shows w P id s sheet) :
    Yields (superObject id) w (writeSuper s sheet) (Accepted w P id s) := by
  obtain ⟨e, he, -⟩ := h.holds
  refine yields_owner he.scope fun owner => ?_
  obtain ⟨n, w1, w2, hrun1, hrun2, hopened, hn⟩ :=
    h.looseRight { template := "super(" ++ Handler.nameText owner.name ++ ", self)" } rfl
  have hbase := (hn.shows_texts (fun _ => False) not_false).spells
    (Q := fun j => w.blocks.size ≤ j) (fun j hj => hj.elim) hopened.new
  exact .after hrun1 (.after hrun2 (yields_pure ⟨rfl, hopened.went hbase (fun j hj => hj) ()⟩))

omit hd in
theorem yields_superCall (h : Shows w P id s sheet) :
    Yields (superCall id) w (writeSuperCall s sheet) (Accepted w P id s) := by
  obtain ⟨e, he, -⟩ := h.holds
  refine yields_owner he.scope fun owner => ?_
  dsimp only
  cases owner.name with
  | some name =>
    obtain ⟨n, w1, w2, hrun1, hrun2, hopened, hn⟩ := h.looseRight {
      template := "super(" ++ Slot.left ++ ", self).__init__(" ++ Slot.right ++ ")"
      left := .text name } rfl
    refine .after hrun1 (.after hrun2 (yields_pure ⟨n, rfl, hopened, ?_⟩))
    exact hn.shows_texts (fun _ => False) not_false
  | none =>
    obtain ⟨n, w1, w2, hrun1, hrun2, hopened, hn⟩ := h.looseRight {
      template := "super(" ++ Slot.left ++ ", self).__init__(" ++ Slot.right ++ ")"
      left := .nothing } rfl
    refine .after hrun1 (.after hrun2 (yields_pure ⟨n, rfl, hopened, ?_⟩))
    exact hn.shows not_false (.atom fun _ h => by cases h) (spells_text _)

omit hd in
theorem yields_open (h : Shows w P id s sheet) :
    Yields (do return some (← openRight id (.text ""))) w (.ok (.inside sheet s {})) (Accepted w P id s) := by
  obtain ⟨n, w', hrun, hopened, hn⟩ := h.openRight ""
  exact .after hrun (yields_pure ⟨n, rfl, hopened, hn.shows_texts (fun _ => False) not_false⟩)

omit hd in
theorem yields_parentheses (h : Shows w P id s sheet) :
    Yields (parentheses id c) w (writeParentheses s c sheet) (Accepted w P id s) := by
  unfold parentheses writeParentheses
  cases hparent : c.parentKind? with
  | none => exact ⟨w, rfl⟩
  | some parent =>
    refine .after (show demand (some parent) w = .ok parent w from rfl) ?_
    dsimp only
    split
    · exact yields_pure ⟨rfl, h.went (.refl _ w) h ()⟩
    · obtain ⟨n, w1, hrun1, hopened, hn⟩ := h.openRight ""
      have hnew := hopened.new
      obtain ⟨w2, hrun2, hwithin2, -, hn2⟩ :=
        hn.changed (fun e => { e with template := "(" ++ Slot.both ++ ")" }) rfl
      refine .after hrun1 (.after hrun2 (yields_pure ⟨n, rfl, ?_, ?_⟩))
      · exact hopened.frame hwithin2 fun j hj => by omega
      · exact hn2.shows_texts (fun _ => False) not_false

theorem yields_accept (hc : c.EveryBelow Plain) (h : Shows w P id s sheet) :
    Yields (accept descend id c) w (writeAccept write s c sheet) (Accepted w P id s) := by
  unfold accept writeAccept
  cases htemplate : template? c.kind c.text with
  | some template => exact yields_template hd hc h template
  | none =>
  dsimp only
  cases hstep : stepKind? c.kind with
  | some step =>
    obtain ⟨step, before⟩ := step
    have hnested : ¬ c.head.nested = true := by
      rw [hc.head (hstep ▸ rfl)]
      exact Bool.false_ne_true
    dsimp only
    unfold increment
    rw [if_neg hnested]
    exact yields_template hd hc h (Slot.left ++ step)
  | none =>
  dsimp only
  cases hliteral : literals.contains c.kind with
  | true => exact yields_left h c.text
  | false =>
    have hunhandled := yields_unhandled (c := c) h
    rw [if_neg Bool.false_ne_true, if_neg Bool.false_ne_true]
    generalize c.kind = kind at hunhandled ⊢
    cases kind with
    | castExpr => exact yields_done (yields_cast hd hc h)
    | bitShiftRight => exact yields_shift hd hc h _
    | bitShiftRightAssign => exact yields_shift hd hc h _
    | classConstructorCall => exact yields_construct hd hc h
    | dot =>
      obtain ⟨w1, hrun1, hwithin1, h1⟩ := h.setTemplate (Slot.left ++ "." ++ Slot.right)
      refine .after hrun1 (yields_done ((yields_looseOperands hd hc h1).imp fun _ _ _ hwent => ?_))
      exact hwent.after hwithin1 h.lt_size h.apart
    | expr => exact yields_open h
    | ident =>
      obtain ⟨e, he, -⟩ := h.holds
      exact .after (he.scope.qualify c.text) (yields_left h (s.rename c.text))
    | instanceOf => exact yields_instanceOf hd hc h
    | methodCall => exact yields_done (yields_call hd hc h)
    | parenthesizedExpr => exact yields_parentheses h
    | thisConstructorCall => exact yields_selfCall hd hc h
    | staticArrayCreator => exact yields_newArray hd hc h
    | superWord => exact yields_superObject h
    | superConstructorCall => exact yields_superCall h
    | thisWord => exact yields_word h "self"
    | question => exact yields_done (yields_choice hd hc h)
    | voidType => exact yields_word h "None"
    | classWord => exact yields_word h "__class__"
    | _ => exact hunhandled

omit hd in
/-- Work that changes no block takes nothing away from what was said. -/
theorem went_idle {w1 w2 : Workshop} (hwent : Went w P id s () w1 sheet)
    (hwithin : Within (fun _ => False) w1 w2) : Went w P id s () w2 sheet :=
  ⟨hwent.1.idle hwithin, hwent.2.frame hwithin not_false fun _ _ _ => not_false⟩

theorem yields_children (hc : c.EveryBelow Plain) (owner : Nat) (h : Shows w P id s sheet) :
    Yields (c.children.forM fun child => do
        descend id child
        takeComments owner id child.head.stop) w
      (c.children.foldlM (fun sheet child => write s child sheet) sheet) (Went w P id s) := by
  refine Yields.forM (I := Went w P id s ()) (fun child hchild w1 sheet1 hwent => ?_)
    (h.went (.refl _ w) h ())
  refine (hd (hc.child hchild) hwent.2).andThen fun _ w2 sheet2 hwent2 => ?_
  obtain ⟨w3, hrun3, hwithin3, -⟩ := hwent2.2.calm.takeComments owner id child.head.stop
  exact ⟨(), w3, hrun3, went_idle (hwent.trans hwent2) hwithin3⟩

theorem yields_visit (hc : c.EveryBelow Plain) (h : Shows w P id s sheet) :
    Yields (visit (accept descend) descend id c) w (writeVisit write s c sheet) (Went w P id s) := by
  have hid := h.lt_size
  obtain ⟨w1, hrun1, hwithin1, hsize1⟩ := h.calm.takeComments id id c.head.start
  have h1 := h.frame hwithin1 not_false fun _ _ _ => not_false
  have hback : ∀ {w' : Workshop} {sheet' : Sheet}, Went w1 P id s () w' sheet' →
      ∃ u w'', finish id c w' = .ok u w'' ∧ Went w P id s u w'' sheet' := by
    intro w' sheet' hwent
    obtain ⟨w'', hrun, hwithin⟩ := hwent.2.calm.finish c hwent.2.lt_size
    refine ⟨(), w'', hrun, (went_idle hwent hwithin).after ?_ hid h.apart⟩
    exact hwithin1.mono fun _ hj => hj.elim
  refine .after hrun1 ((yields_accept hd hc h1).bind fun visitor w2 next haccepted => ?_)
  cases next with
  | done sheet2 =>
    obtain ⟨rfl, hwent⟩ := haccepted
    exact hback hwent
  | here sheet2 =>
    obtain ⟨rfl, hwent⟩ := haccepted
    refine (yields_children hd hc id hwent.2).andThen fun _ w3 sheet3 hwent3 => ?_
    exact hback (hwent.trans hwent3)
  | inside sheet2 t inner =>
    obtain ⟨n, rfl, hopened, hinner⟩ := haccepted
    have hnew : w1.blocks.size ≤ n := hopened.new
    have hsize2 := hopened.within.size
    refine (yields_children hd hc id hinner).bind fun _ w3 inner3 hwent3 => ?_
    have hopened3 := hopened.frame hwent3.1 fun j hj => hj ▸ hnew
    have hright := hwent3.2.spells (Q := fun j => w1.blocks.size ≤ j) (fun j hj => ?_) hnew
    · exact hback (hopened3.went hright (fun j hj => hj) ())
    · rcases hj with hfalse | hle
      · exact hfalse.elim
      · omega

end

/-- The walk of an expression has known outcomes, as deep as it may go. -/
theorem performs_walkUpTo (fuel : Nat) : Performs (walkUpTo fuel) (writeUpTo fuel) := by
  induction fuel with
  | zero => exact fun _ _ => ⟨_, rfl⟩
  | succ fuel ih => exact fun hc h => yields_visit ih hc h

theorem performs_walk : Performs walk Expression.write := fun hc h => performs_walkUpTo _ hc h

end Expression

end Transcriber
