import Transcriber.Proofs.Expression.Depth
import Transcriber.Proofs.Expression.Neat
import Transcriber.Proofs.Outcome

/-!
# Expressions that nothing encloses

Some operands are visited by expressions that belong to no block.  What asks for an enclosing type or
module then finds none, and the visit fails.  All other expressions are written on one line.

* `Expression.Writes` — a way to visit gives a text on one line, unless the tree is stuck.
-/

namespace Transcriber

open Source

namespace Expression

/-! ## What is visited -/

/-- Nodes that the expression visits itself, or with expressions inside it. -/
def near (ts : List Tree) : List (Bool × Tree) := ts.map fun t => (false, t)

/-- Nodes that are visited by expressions that nothing encloses. -/
def far (ts : List Tree) : List (Bool × Tree) := ts.map fun t => (true, t)

def argumentsOf (t : Tree) : List Tree :=
  match t.children.find? fun child => child.kind == .argumentList with
  | some list => list.children
  | none => []

/-- What is visited when an expression accepts a node, and whether by expressions that nothing
encloses. -/
def visited (t : Tree) : List (Bool × Tree) :=
  let first := t.children[0]?.toList
  let second := t.children[1]?.toList
  match template? t.kind t.text with
  | some _ => near first ++ near second
  | none =>
  match stepKind? t.kind with
  | some _ => near first ++ near second
  | none =>
  if literals.contains t.kind then []
  else
  match t.kind with
  | .castExpr => near first ++ near second
  | .bitShiftRight => near first ++ far second
  | .bitShiftRightAssign => near first ++ far second
  | .classConstructorCall => near first ++ near (argumentsOf t)
  | .dot => near first ++ far second
  | .ident => []
  | .instanceOf => near (t.children.find? fun child => child.kind == .ident).toList
      ++ near (t.children.find? fun child => child.kind == .typeRef).toList
  | .methodCall => near first ++ near (argumentsOf t)
  | .thisConstructorCall => near first ++ near (argumentsOf t)
  | .staticArrayCreator => far (t.children.find? fun child => child.kind == .expr).toList
  | .superWord => []
  | .superConstructorCall => far t.children
  | .thisWord => []
  | .question => near first ++ (near second ++ near t.children[2]?.toList)
  | .voidType => []
  | .classWord => []
  | _ => near t.children

/-- The kinds of nodes that ask for an enclosing type or module. -/
def askingKinds : List Kind := [.bitShiftRight, .bitShiftRightAssign, .superWord, .superConstructorCall]

/-- In the course of a visit, a node asks an expression that nothing encloses for what encloses it.
-/
inductive Stuck : Bool → Tree → Prop
  | here {t : Tree} (h : t.kind ∈ askingKinds) : Stuck true t
  | inside {loose : Bool} {t : Tree} {p : Bool × Tree} (hp : p ∈ visited t)
      (h : Stuck (loose || p.1) p.2) : Stuck loose t

/-- One of some visits is stuck. -/
def AnyStuck (loose : Bool) (ps : List (Bool × Tree)) : Prop := ∃ p ∈ ps, Stuck (loose || p.1) p.2

variable {loose : Bool}

theorem stuck_iff {t : Tree} :
    Stuck loose t ↔ loose = true ∧ t.kind ∈ askingKinds ∨ AnyStuck loose (visited t) := by
  constructor
  · rintro (h | ⟨hp, h⟩)
    · exact .inl ⟨rfl, h⟩
    · exact .inr ⟨_, hp, h⟩
  · rintro (⟨rfl, h⟩ | ⟨p, hp, h⟩)
    · exact .here h
    · exact .inside hp h

theorem stuck_of_not_asking {t : Tree} (h : t.kind ∉ askingKinds) :
    Stuck loose t ↔ AnyStuck loose (visited t) := by
  rw [stuck_iff]
  exact or_iff_right fun hasking => h hasking.2

theorem anyStuck_nil : AnyStuck loose [] ↔ False := by simp [AnyStuck]

theorem anyStuck_cons {p : Bool × Tree} {ps : List (Bool × Tree)} :
    AnyStuck loose (p :: ps) ↔ Stuck (loose || p.1) p.2 ∨ AnyStuck loose ps := by
  simp [AnyStuck]

theorem anyStuck_append {ps qs : List (Bool × Tree)} :
    AnyStuck loose (ps ++ qs) ↔ AnyStuck loose ps ∨ AnyStuck loose qs := by
  simp only [AnyStuck, List.mem_append, or_and_right, exists_or]

theorem anyStuck_concat {p : Bool × Tree} {ps : List (Bool × Tree)} :
    AnyStuck loose (ps ++ [p]) ↔ AnyStuck loose ps ∨ Stuck (loose || p.1) p.2 := by
  rw [anyStuck_append, anyStuck_cons, anyStuck_nil, or_false]

theorem anyStuck_near {ts : List Tree} : AnyStuck loose (near ts) ↔ ∃ t ∈ ts, Stuck loose t := by
  simp [AnyStuck, near]

theorem anyStuck_far {ts : List Tree} : AnyStuck loose (far ts) ↔ ∃ t ∈ ts, Stuck true t := by
  simp [AnyStuck, far]

/-! ## Sound trees -/

def betweenOperators : List Kind :=
  plainOperators ++ ([.div, .logicalAnd, .logicalOr, .minus, .plus, .star] : List Kind)

/-- The kinds of nodes that always leave some words, and casts, which leave those of their operand.
-/
def speakingKinds : List Kind :=
  betweenOperators ++ literals ++ ([.arrayElementAccess, .logicalNot, .bitNot, .unaryMinus, .unaryPlus,
    .castExpr, .bitShiftRight, .bitShiftRightAssign, .classConstructorCall, .dot, .ident, .instanceOf,
    .methodCall, .parenthesizedExpr, .thisConstructorCall, .staticArrayCreator, .superWord,
    .thisWord, .question, .voidType, .classWord] : List Kind)

/-- A node has a child at a position that leaves some words. -/
def Speaks (t : Tree) (position : Nat) : Prop :=
  ∃ child, t.children[position]? = some child ∧ child.kind ∈ speakingKinds

/-- A node at which nothing goes wrong but that something may not be found. -/
structure SoundNode (t : Tree) : Prop where
  known : t.kind.name? ≠ none
  noStep : stepKind? t.kind = none
  text : Neat t.text
  word : t.kind = .ident ∨ t.kind ∈ literals → t.text ≠ ""
  operator : t.kind ∈ plainOperators → Braceless t.text
  between : t.kind ∈ betweenOperators → Speaks t 0
  assignedShift : t.kind = .bitShiftRightAssign → Speaks t 0
  cast : t.kind = .castExpr → Speaks t 1 ∧ ∃ type named,
    (t.children.find? fun child => child.kind == .typeRef) = some type ∧ type.children.head? = some named
      ∧ (named.kind = .qualifiedTypeIdent → named.children.head? ≠ none)
  arguments : t.kind ∈ [Kind.classConstructorCall, .methodCall, .thisConstructorCall] →
    (t.children.find? fun child => child.kind == .argumentList) ≠ none
  constructed : t.kind = .classConstructorCall → ∀ type,
    (t.children.find? fun child => child.kind == .qualifiedTypeIdent) = some type →
      ∀ name ∈ type.children, Neat name.text
  parenthesized : t.kind = .parenthesizedExpr → ∃ u, t.children = [u] ∧ u.kind = .expr
  choice : t.kind = .question → Speaks t 0 ∧ Speaks t 1

/-- A tree in which nothing goes wrong for an expression but that something may not be found: calls
have arguments, casts have types, operators have operands, no text has a line end, and there are no
increments and decrements. -/
inductive Sound : Tree → Prop
  | node {t : Tree} (h : SoundNode t) (hs : ∀ p ∈ visited t, Sound p.2) : Sound t

/-! ## Children of a cursor -/

section

variable (t : Tree) (above : List Tree)

theorem children_eq_map {t : Tree} {ts : List Tree} (h : t.children = ts) :
    (Cursor.mk t above).children = ts.map fun u => ⟨u, t :: above⟩ :=
  congrArg (List.map _) h

theorem getElem?_children (i : Nat) : (Cursor.mk t above).children[i]?
    = t.children[i]?.map fun u => ⟨u, t :: above⟩ :=
  List.getElem?_map

theorem head?_children : (Cursor.mk t above).children.head? = t.children.head?.map fun u => ⟨u, t :: above⟩ :=
  List.head?_map

theorem child?_eq_map (kind : Kind) : (Cursor.mk t above).child? kind
    = (t.children.find? fun child => child.kind == kind).map fun u => ⟨u, t :: above⟩ :=
  List.find?_map

end

/-! ## Scopes -/

/-- A scope inside a type and a module, or the scope of what nothing encloses. -/
structure Fits (s : Scope) (loose : Bool) : Prop where
  homed : s.homed = !loose
  ownerless : loose = true → s.owner = none
  owner : loose = false → ∃ name, s.owner = some name ∧ Braceless (Handler.nameText name)
    ∧ Neat (Handler.nameText name)
  rename : ∀ name, s.rename name ∈ [name, "self." ++ name, "cls." ++ name]

theorem fits_loose : Fits .loose true := ⟨rfl, fun _ => rfl, fun h => (by cases h), fun _ => .head _⟩

theorem Fits.neat {s : Scope} (h : Fits s loose) {name : String} (hname : Neat name) :
    Neat (s.rename name) := by
  have hreceiver : ∀ receiver : String, Neat receiver → receiver ≠ "" → Neat (receiver ++ name) :=
    fun receiver hneat hne => hneat.append hname.oneLine fun hempty => absurd hempty hne
  have hmem := h.rename name
  simp only [List.mem_cons, List.not_mem_nil, or_false] at hmem
  rcases hmem with heq | heq | heq <;> rw [heq]
  · exact hname
  · exact hreceiver _ (by decide) (by decide)
  · exact hreceiver _ (by decide) (by decide)

theorem Fits.rename_ne {s : Scope} (h : Fits s loose) {name : String}
    (hname : name ≠ "") : s.rename name ≠ "" := by
  have hmem := h.rename name
  simp only [List.mem_cons, List.not_mem_nil, or_false] at hmem
  rcases hmem with heq | heq | heq <;> rw [heq]
  · exact hname
  · simp
  · simp

/-- Whether parentheses are written where a node stands. -/
def Shown (above : List Tree) : Prop := ∀ u ∈ above.head?, parenthesesLeftOut.contains u.kind = false

/-- What the visit of a tree makes of a tidy expression. -/
structure Written (t : Tree) (above : List Tree) (sheet sheet' : Sheet) : Prop where
  tidy : sheet'.Tidy
  voiced : sheet = {} → t.kind ∈ speakingKinds → Shown above → sheet'.doc.Voiced
  template : t.kind = .expr → sheet'.template = sheet.template

/-- A way to write gives a neat text of a tree, unless the tree is stuck. -/
def Writes (f : Writing) (t : Tree) : Prop :=
  ∀ {s : Scope} {loose : Bool} {above : List Tree} {sheet : Sheet}, Fits s loose →
    (t.kind = .parenthesizedExpr → above ≠ []) → sheet.Tidy →
    Meets (Stuck loose t) (f s ⟨t, above⟩ sheet) (Written t above sheet)

theorem tidy_both : Slot.Tidy false Slot.both :=
  ⟨[("", true), ("", false)], "", rfl, by decide, by decide, by decide⟩

theorem tidy_empty : Sheet.Tidy {} := ⟨Doc.neat_empty, Doc.neat_empty, .inl tidy_both⟩

section

variable {f : Writing} {t : Tree} {above : List Tree} {s s' : Scope} {loose' : Bool}

variable {sheet : Sheet} {c : Cursor}

theorem meets_maybe {d : Option Tree} (h : ∀ u ∈ d.toList, Writes f u) (hs : Fits s loose)
    (hsheet : sheet.Tidy) :
    Meets (∃ u ∈ d.toList, Stuck loose u)
      (writeMaybe f s (d.map fun u => ⟨u, t :: above⟩) sheet) fun sheet' => sheet'.Tidy
        ∧ (sheet = {} → ∀ u, d = some u → u.kind ∈ speakingKinds →
          parenthesesLeftOut.contains t.kind = false → sheet'.doc.Voiced) := by
  cases d with
  | none =>
    exact (meets_ok ⟨hsheet, fun _ u hu => by cases hu⟩).congr (by simp)
  | some u =>
    refine ((h u (by simp) hs (fun _ => List.cons_ne_nil _ _) hsheet).imp ?_).congr (by simp)
    rintro sheet' ⟨htidy, hvoiced, -⟩
    refine ⟨htidy, fun hempty v hv hkind hshown => ?_⟩
    cases hv
    refine hvoiced hempty hkind fun w hw => ?_
    cases hw
    exact hshown

/-- The visits of the first two children, in scopes of their own. -/
theorem meets_both (hfirst : ∀ u ∈ t.children[0]?.toList, Writes f u)
    (hsecond : ∀ u ∈ t.children[1]?.toList, Writes f u) (hs : Fits s loose) (hs' : Fits s' loose') :
    Meets ((∃ u ∈ t.children[0]?.toList, Stuck loose u) ∨ ∃ u ∈ t.children[1]?.toList, Stuck loose' u)
      (writeBoth f s s' ⟨t, above⟩) fun both => both.1.Tidy ∧ both.2.Tidy
        ∧ (parenthesesLeftOut.contains t.kind = false →
          (Speaks t 0 → both.1.doc.Voiced) ∧ (Speaks t 1 → both.2.doc.Voiced)) := by
  unfold writeBoth
  rw [getElem?_children, getElem?_children]
  refine (meets_maybe hfirst hs tidy_empty).bind fun left hleft => ?_
  refine (meets_maybe hsecond hs' tidy_empty).map fun right hright => ?_
  refine ⟨hleft.1, hright.1, fun hshown => ⟨?_, ?_⟩⟩
  · rintro ⟨child, hchild, hkind⟩
    exact hleft.2 rfl child hchild hkind hshown
  · rintro ⟨child, hchild, hkind⟩
    exact hright.2 rfl child hchild hkind hshown

theorem meets_arguments {list : Tree} {ts : List Tree} (h : ∀ u ∈ ts, Writes f u) (hs : Fits s loose) :
    Meets (∃ u ∈ ts, Stuck loose u) (writeRow f Slot.right s Slot.both (ts.map fun u => ⟨u, list :: above⟩))
      fun sheet => sheet.Tidy := by
  induction ts with
  | nil => exact (meets_ok tidy_empty).congr (by simp)
  | cons u ts ih =>
    have hsheet : Sheet.Tidy
        { template := Slot.right ++ (if (ts.map fun u => Cursor.mk u (list :: above)).isEmpty then ""
          else ", ") } := by
      refine ⟨Doc.neat_empty, Doc.neat_empty, .inl ?_⟩
      split
      · exact ⟨[("", false)], "", rfl, by decide, by decide, by decide⟩
      · exact ⟨[("", false)], ", ", rfl, by decide, by decide, by decide⟩
    rw [List.map_cons, writeRow]
    have hrest := ih fun v hv => h v (.tail _ hv)
    have hnext : ∀ argument : Sheet, argument.Tidy → Meets (∃ v ∈ ts, Stuck loose v)
        (writeRow f Slot.right s Slot.both (ts.map fun u => ⟨u, list :: above⟩) >>= fun next =>
          .ok ({ left := argument.doc, right := next.doc } : Sheet)) fun sheet => sheet.Tidy :=
      fun argument hargument => hrest.map fun next hnext => ⟨hargument.neat, hnext.neat, .inl tidy_both⟩
    have hbind := (h u (.head _) hs (fun _ => List.cons_ne_nil list above) hsheet).bind
      fun argument hargument => hnext argument hargument.1
    exact hbind.congr (by simp)

theorem meets_operands {template : String} (hfirst : ∀ u ∈ t.children[0]?.toList, Writes f u)
    (hsecond : ∀ u ∈ t.children[1]?.toList, Writes f u) (hs : Fits s loose) (hs' : Fits s' loose')
    (hshown : parenthesesLeftOut.contains t.kind = false)
    (htemplate : Slot.Tidy false template ∨ Slot.Tidy true template ∧ Speaks t 0) :
    Meets ((∃ u ∈ t.children[0]?.toList, Stuck loose u) ∨ ∃ u ∈ t.children[1]?.toList, Stuck loose' u)
      (writeOperands f s s' ⟨t, above⟩ { sheet with template }) fun sheet' => sheet'.Tidy
        ∧ sheet'.template = template ∧ (Speaks t 1 → sheet'.right.Voiced) := by
  refine (meets_both hfirst hsecond hs hs').map fun both hboth => ?_
  obtain ⟨hleft, hright, hvoiced⟩ := hboth
  exact ⟨⟨hleft.neat, hright.neat, htemplate.imp_right fun h => ⟨h.1, (hvoiced hshown).1 h.2⟩⟩, rfl,
    (hvoiced hshown).2⟩

theorem meets_call (hfirst : ∀ u ∈ t.children[0]?.toList, Writes f u)
    (harguments : ∀ u ∈ argumentsOf t, Writes f u) (hs : Fits s loose)
    (hlist : (t.children.find? fun child => child.kind == .argumentList) ≠ none) :
    Meets ((∃ u ∈ t.children[0]?.toList, Stuck loose u) ∨ ∃ u ∈ argumentsOf t, Stuck loose u)
      (writeCall f s ⟨t, above⟩) fun sheet => sheet.Tidy ∧ Slot.Loud sheet.template
        ∧ ∀ left : Doc, left.Neat → Sheet.Tidy { sheet with left } := by
  obtain ⟨list, hlist⟩ := Option.ne_none_iff_exists'.1 hlist
  have harglist : argumentsOf t = list.children := by rw [argumentsOf, hlist]
  obtain ⟨htidy, hloud⟩ : Slot.Tidy false (Slot.left ++ "(" ++ Slot.right ++ ")")
      ∧ Slot.Loud (Slot.left ++ "(" ++ Slot.right ++ ")") :=
    Slot.tidy_loud [("", true), ("(", false)] ")" (by decide)
  rw [harglist] at harguments ⊢
  unfold writeCall
  rw [head?_children, child?_eq_map, hlist, List.head?_eq_getElem?]
  refine (meets_maybe hfirst hs tidy_empty).bind fun callee hcallee => ?_
  refine (meets_arguments harguments hs).map fun arguments harguments => ?_
  exact ⟨⟨hcallee.1.neat, harguments.neat, .inl htidy⟩, hloud,
    fun left hleft => ⟨hleft, harguments.neat, .inl htidy⟩⟩

theorem meets_children {ts : List Tree} (h : ∀ u ∈ ts, Writes f u) (hs : Fits s loose) (hsheet : sheet.Tidy) :
    Meets (∃ u ∈ ts, Stuck loose u)
      ((ts.map fun u => Cursor.mk u (t :: above)).foldlM (fun sheet child => f s child sheet) sheet)
      fun sheet' => sheet'.Tidy := by
  induction ts generalizing sheet with
  | nil => exact (meets_ok hsheet).congr (by simp)
  | cons u ts ih =>
    rw [List.map_cons, List.foldlM_cons]
    have hbind := (h u (.head _) hs (fun _ => List.cons_ne_nil t above) hsheet).bind
      fun sheet' hsheet' => ih (fun v hv => h v (.tail _ hv)) hsheet'.1
    exact hbind.congr (by simp)

/-! ## Ways to go on -/

theorem writeVisit_of_done {x : Except Failure Sheet}
    (h : writeAccept f s c sheet = x >>= fun sheet => .ok (.done sheet)) :
    writeVisit f s c sheet = x := by
  unfold writeVisit
  rw [h]
  cases x <;> rfl

theorem writeVisit_of_here {sheet' : Sheet} (h : writeAccept f s c sheet = .ok (.here sheet')) :
    writeVisit f s c sheet = c.children.foldlM (fun sheet child => f s child sheet) sheet' := by
  unfold writeVisit
  rw [h]
  rfl

theorem writeVisit_of_inside {sheet' inner : Sheet}
    (h : writeAccept f s c sheet = .ok (.inside sheet' s' inner)) :
    writeVisit f s c sheet = c.children.foldlM (fun inner child => f s' child inner) inner >>= fun inner =>
        .ok { sheet' with right := inner.doc } := by
  unfold writeVisit
  rw [h]
  rfl

end

end Expression

end Transcriber
