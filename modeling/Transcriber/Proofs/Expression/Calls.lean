import Transcriber.Proofs.Expression.Grouping
import Transcriber.Proofs.Statement.Body

/-!
# Calls

A call says what is called and then, in parentheses, its arguments one behind the other.

* `worded_call` — what a call says.
* `Compound.said` — calls inside calls.
-/

namespace Transcriber

open Build Source Expression

section

variable {s : Scope} {c d l r list : Cursor} {text left right callee : String}

theorem write_dot (h : c.kind = .dot) (sheet : Sheet) : write s c sheet
    = writeOperands write s .loose c { sheet with template := Slot.left ++ "." ++ Slot.right } := by
  rw [write_eq]
  refine writeVisit_of_done ?_
  unfold writeAccept
  rw [h]
  rfl

theorem write_call (h : c.kind = .methodCall) (sheet : Sheet) : write s c sheet = writeCall write s c := by
  rw [write_eq]
  refine writeVisit_of_done ?_
  unfold writeAccept
  rw [h]
  rfl

theorem worded_dot (hkind : c.kind = .dot) (hchildren : c.children = [l, r]) (hl : WrittenAs s l left)
    (hr : WrittenAs .loose r right) : WrittenAs s c (left ++ "." ++ right) := by
  obtain ⟨leftSheet, hwriteLeft, hleft⟩ := hl
  obtain ⟨rightSheet, hwriteRight, hright⟩ := hr
  refine ⟨⟨Slot.left ++ "." ++ Slot.right, leftSheet.doc, rightSheet.doc⟩, ?_, ?_⟩
  · rw [write_dot hkind]
    exact writeOperands_eq hchildren hwriteLeft hwriteRight
  · exact (Doc.text_node hleft hright).trans (Slot.filled_between "." (by decide) _ _)

/-- Arguments are said one behind the other, with commas between them. -/
theorem writeRow_arguments {cs : List Cursor} {texts : List String} (h : List.Forall₂ (WrittenWhole s) cs texts) :
    ∃ l r left right, (∀ template, writeRow write Slot.right s template cs = .ok ⟨template, l, r⟩)
      ∧ l.text? = some left ∧ r.text? = some right ∧ left ++ right = ", ".intercalate texts := by
  induction h with
  | nil => exact ⟨_, _, _, _, fun _ => rfl, rfl, rfl, by decide⟩
  | @cons c text cs texts hc hcs ih =>
    obtain ⟨l, r, left, right, hnext, hl, hr, hrest⟩ := ih
    -- The comma is part of the item before it, and the last item has none.
    obtain ⟨inner, hwrite, htext⟩ := hc { template := Slot.right ++ (if cs.isEmpty then "" else ", ") }
    have hmark : Braceless (if cs.isEmpty then "" else ", ") := by split <;> decide
    have hitem : (Doc.node (Slot.right ++ (if cs.isEmpty then "" else ", ")) (.atom (.text "")) inner.doc).text?
        = some (text ++ (if cs.isEmpty then "" else ", ")) := by
      have hfilled := Slot.filled_single "" _ false ⟨by decide, hmark⟩ "" text
      simpa using (Doc.text_node rfl htext).trans hfilled
    refine ⟨_, _, _, _, fun template => by rw [writeRow, hwrite, hnext]; rfl, hitem,
      (Doc.text_node hl hr).trans (Slot.filled_both left right), ?_⟩
    rw [hrest]
    cases hcs with
    | nil => simp
    | cons => simp [String.intercalate_cons_cons, String.append_assoc]

theorem worded_call (hkind : c.kind = .methodCall) (hcallee : c.children.head? = some d)
    (hlist : c.child? .argumentList = some list) (hd : WrittenAs s d callee) {texts : List String}
    (harguments : List.Forall₂ (WrittenWhole s) list.children texts) :
    WrittenAs s c (callee ++ "(" ++ ", ".intercalate texts ++ ")") := by
  obtain ⟨called, hwrite, htext⟩ := hd
  obtain ⟨l, r, left, right, hrow, hl, hr, hjoined⟩ := writeRow_arguments harguments
  have hrowText := (Doc.text_node hl hr).trans (Slot.filled_both left right)
  have hcall : writeCall write s c
      = .ok ⟨Slot.left ++ "(" ++ Slot.right ++ ")", called.doc, .node Slot.both l r⟩ := by
    unfold writeCall
    rw [hcallee, hlist]
    change (write s d {} >>= _) = _
    rw [hwrite]
    change (writeRow write Slot.right s Slot.both list.children >>= _) = _
    rw [hrow]
    rfl
  refine ⟨_, (write_call hkind _).trans hcall, (Doc.text_node htext hrowText).trans ?_⟩
  rw [← hjoined]
  simpa using Slot.filled_framed "" "(" ")" (by decide) callee (left ++ right)

end

/-! ## Calls inside calls -/

def argumentsTree (arguments : List Tree) : Tree := .node { kind := .argumentList } arguments

/-- A name, or names with dots between them. -/
inductive Dotted : Tree → Prop
  | name {head : Head} (hkind : head.kind = .ident) : Dotted (.node head [])
  | dot {head : Head} {l r : Tree} (hkind : head.kind = .dot) (hl : Dotted l) (hr : Dotted r) :
      Dotted (.node head [l, r])

/-- A call with what is called and the list of its arguments.  What else stands there, such as type arguments, has
no steps in larger expressions. -/
structure IsCall (t callee list : Tree) : Prop where
  isCall : t.kind = .methodCall
  first : t.children.head? = some callee
  listed : (t.children.find? fun u => u.kind == .argumentList) = some list
  whole : ∀ a ∈ list.children, a.kind = .expr
  others : ∀ u ∈ t.children, u = callee ∨ u = list ∨ u.Every Plain

/-- Calls of names, and what their arguments are made of. -/
inductive Compound : Tree → Prop
  | dotted {t : Tree} (h : Dotted t) : Compound t
  | literal {head : Head} (hkind : head.kind ∈ literals) : Compound (.node head [])
  | expression {head : Head} {t : Tree} (hkind : head.kind = .expr) (h : Compound t) : Compound (.node head [t])
  | parenthesized {head : Head} {t : Tree} (hkind : head.kind = .parenthesizedExpr) (hexpr : t.kind = .expr)
      (h : Compound t) : Compound (.node head [t])
  | unary (op : Unary) {head : Head} {t : Tree} (hkind : head.kind = op.kind) (h : Compound t) :
      Compound (.node head [t])
  | binary (op : Binary) {head : Head} {l r : Tree} (hkind : head.kind = op.kind) (htext : head.text = op.text)
      (hl : Compound l) (hr : Compound r) : Compound (.node head [l, r])
  | call {t callee list : Tree} (hcall : IsCall t callee list) (hcallee : Dotted callee)
      (h : ∀ a ∈ list.children, Compound a) : Compound t

theorem SaidAs.dot {head : Head} {l r : Tree} {left right : String} (hkind : head.kind = .dot)
    (hl : SaidAs l left) (hr : SaidAs r right) : SaidAs (.node head [l, r]) (left ++ "." ++ right) := by
  refine .of_written hkind (by decide) ?_ fun _ _ =>
    worded_dot hkind rfl (hl.child hkind rfl) (hr.child hkind rfl)
  simpa [Tree.children] using ⟨hl.plain, hr.plain⟩

theorem Dotted.said {t : Tree} (h : Dotted t) : ∃ text, SaidAs t text := by
  induction h with
  | name hkind => exact ⟨_, .name hkind⟩
  | dot hkind _ _ ihl ihr =>
    obtain ⟨left, hleft⟩ := ihl
    obtain ⟨right, hright⟩ := ihr
    exact ⟨_, .dot hkind hleft hright⟩

theorem IsCall.said {t callee list : Tree} {called : String} {texts : List String}
    (h : IsCall t callee list) (hcalled : SaidAs callee called)
    (hsaid : List.Forall₂ SaidAs list.children texts) :
    SaidAs t (called ++ "(" ++ ", ".intercalate texts ++ ")") := by
  have harguments : ∀ a ∈ list.children, a.Every Plain :=
    ((List.forall₂_and_left _ _).1 (hsaid.imp fun _ _ h => ⟨h.plain, h⟩)).1
  have hlist : list.kind = .argumentList := eq_of_beq (List.find?_some h.listed :)
  refine .of_written h.isCall (by decide) (fun u hu => ?_) fun above _ => ?_
  · obtain rfl | rfl | hother := h.others u hu
    · exact hcalled.plain
    · exact every_plain hlist rfl harguments
    · exact hother
  · have hfirst : (Cursor.mk t above).children.head? = some ⟨callee, t :: above⟩ := by
      rw [head?_children, h.first]
      rfl
    have hlisted : (Cursor.mk t above).child? .argumentList = some ⟨list, t :: above⟩ := by
      rw [child?_eq_map, h.listed]
      rfl
    refine worded_call (c := ⟨t, above⟩) h.isCall hfirst hlisted (hcalled.child h.isCall rfl) ?_
    exact List.forall₂_map_left_iff.2
      (((List.forall₂_and_left _ _).2 ⟨h.whole, hsaid⟩).imp fun _ _ ha => ha.2.whole ha.1 _)

/-- Where each of some trees says something, they have texts. -/
theorem exists_texts {ts : List Tree} (h : ∀ t ∈ ts, ∃ text, SaidAs t text) :
    ∃ texts, List.Forall₂ SaidAs ts texts := by
  induction ts with
  | nil => exact ⟨[], .nil⟩
  | cons t ts ih =>
    obtain ⟨text, htext⟩ := h t (.head _)
    obtain ⟨texts, htexts⟩ := ih fun u hu => h u (.tail _ hu)
    exact ⟨text :: texts, .cons htext htexts⟩

theorem Compound.said {t : Tree} (h : Compound t) : ∃ text, SaidAs t text := by
  induction h with
  | dotted h => exact h.said
  | literal hkind => exact ⟨_, .literal (List.contains_iff_mem.2 hkind)⟩
  | expression hkind _ ih =>
    obtain ⟨text, hsaid⟩ := ih
    exact ⟨text, hsaid.expression hkind⟩
  | parenthesized hkind hexpr _ ih =>
    obtain ⟨text, hsaid⟩ := ih
    exact ⟨_, hsaid.parenthesized hkind hexpr⟩
  | unary op hkind _ ih =>
    obtain ⟨text, hsaid⟩ := ih
    exact ⟨_, hsaid.unary hkind⟩
  | binary op hkind htext _ _ ihl ihr =>
    obtain ⟨left, hleft⟩ := ihl
    obtain ⟨right, hright⟩ := ihr
    exact ⟨_, hleft.binary hkind htext hright⟩
  | call hcall hcallee _ ih =>
    obtain ⟨called, hcalled⟩ := hcallee.said
    obtain ⟨texts, hsaid⟩ := exists_texts ih
    exact ⟨_, hcall.said hcalled hsaid⟩

/-- With the standard settings, a new expression that visits a tree says a text. -/
def Utters (t : Tree) (text : String) : Prop :=
  ∀ w : Workshop, w.config = .standard → ∃ w', wording t w = .ok text w'

theorem SaidAs.utters {t : Tree} {text : String} (h : SaidAs t text) (hroot : t.kind ≠ .parenthesizedExpr) :
    Utters t text :=
  fun _ hconfig => h.wording hroot hconfig

/-- A call says what is called and then, in parentheses, its arguments with commas between them, each as it says by
itself. -/
theorem call_utters_arguments {t callee list : Tree} (hcall : IsCall t callee list) (hcallee : Dotted callee)
    (harguments : ∀ a ∈ list.children, Compound a) :
    ∃ called texts, Utters callee called ∧ List.Forall₂ Utters list.children texts
      ∧ Utters t (called ++ "(" ++ ", ".intercalate texts ++ ")") := by
  obtain ⟨called, hcalled⟩ := hcallee.said
  obtain ⟨texts, htexts⟩ := exists_texts fun a ha => (harguments a ha).said
  have hroot : callee.kind ≠ .parenthesizedExpr := by
    cases hcallee <;> simp_all [Tree.kind, Tree.head]
  refine ⟨called, texts, hcalled.utters hroot, ?_, (hcall.said hcalled htexts).utters (by simp [hcall.isCall])⟩
  exact ((List.forall₂_and_left _ _).2 ⟨hcall.whole, htexts⟩).imp fun a _ ha => ha.2.utters (by simp [ha.1])

theorem isCall_node {callee : Tree} {arguments : List Tree} (hcallee : callee.kind ≠ .argumentList)
    (h : ∀ a ∈ arguments, a.kind = .expr) :
    IsCall (.node { kind := .methodCall } [callee, argumentsTree arguments]) callee
      (argumentsTree arguments) where
  isCall := rfl
  first := rfl
  listed := by
    rw [Tree.children, List.find?_cons_of_neg (by simpa using hcallee)]
    rfl
  whole := h
  others := by simp [Tree.children]

/-- The call `o.f(-a, g(2))`. -/
theorem call_utters_nested :
    let callee : Tree := .node { kind := .dot, text := "." } [nameTree "o", nameTree "f"]
    let two := exprTree (.node { kind := .decimalLiteral, text := "2" } [])
    let arguments := [exprTree (.node { kind := .unaryMinus, text := "-" } [nameTree "a"]),
      exprTree (.node { kind := .methodCall } [nameTree "g", argumentsTree [two]])]
    ∃ called texts, Utters callee called ∧ List.Forall₂ Utters arguments texts
      ∧ Utters (.node { kind := .methodCall } [callee, argumentsTree arguments])
        (called ++ "(" ++ ", ".intercalate texts ++ ")") := by
  intro callee two arguments
  have hname (text : String) : Dotted (nameTree text) := .name rfl
  refine call_utters_arguments (isCall_node (by decide) (by simp [exprTree, Tree.kind, Tree.head]))
    (.dot rfl (hname _) (hname _)) ?_
  rintro a (_ | ⟨_, _ | ⟨_, ⟨⟩⟩⟩)
  · exact .expression rfl (.unary .minus rfl (.dotted (hname _)))
  · have hcall : IsCall (.node { kind := .methodCall } [nameTree "g", argumentsTree [two]]) (nameTree "g")
        (argumentsTree [two]) :=
      isCall_node (by simp [nameTree, Tree.kind, Tree.head]) (by simp [two, exprTree, Tree.kind, Tree.head])
    refine .expression rfl (.call hcall (hname _) ?_)
    rintro b (_ | ⟨_, ⟨⟩⟩)
    exact .expression rfl (.literal (by decide))

end Transcriber
