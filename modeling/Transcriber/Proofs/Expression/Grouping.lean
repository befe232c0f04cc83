import Transcriber.Proofs.Expression.Depth
import Transcriber.Proofs.Expression.Derivable
import Transcriber.Proofs.Expression.Walk
import Transcriber.Proofs.Expression.Wording
import Transcriber.Walk.Declaration

/-!
# Operators keep their operands

An expression writes no parentheses of its own, so the output language has to group its text as the
tree is grouped.

* `Build.read_wording_of_derivable` — the text of a tree is read as the tree is grouped.
-/

namespace Transcriber

open Source Build Reading Expression String

/-! ## The texts of trees -/

theorem filled_binary (op : Binary) (left right : String) :
    ∃ template, Expression.template? op.kind op.text = some template
      ∧ Slot.filled? template left right = some (left ++ " " ++ sign op ++ " " ++ right) := by
  have hbraceless : Braceless (" " ++ sign op ++ " ") := by cases op <;> decide
  refine ⟨Slot.left ++ (" " ++ sign op ++ " ") ++ Slot.right, by cases op <;> rfl, ?_⟩
  simpa [append_assoc] using Slot.filled_between _ hbraceless left right

/-- What stands before the operand of an operator. -/
def unarySign : Unary → String
  | .not => "not "
  | .plus => "+"
  | .minus => "-"
  | .invert => "~"

theorem filled_unary (op : Unary) (text left right : String) :
    ∃ template, Expression.template? op.kind text = some template
      ∧ Slot.filled? template left right = some (unarySign op ++ left) := by
  have hbraceless : Braceless (unarySign op) := by cases op <;> decide
  refine ⟨unarySign op ++ Slot.left, by cases op <;> rfl, ?_⟩
  simpa using Slot.filled_single (unarySign op) "" true ⟨hbraceless, by decide⟩ left right

/-- The text of an expression that said nothing, after it has visited a node in a scope. -/
def WrittenAs (s : Scope) (c : Cursor) (text : String) : Prop :=
  ∃ sheet, Expression.write s c {} = .ok sheet ∧ sheet.doc.text? = some text

section

variable {s : Scope} {c d l r : Cursor} {text left right : String}

theorem worded_word (hwrite : Expression.write s c {} = .ok { left := .atom (.text text) }) :
    WrittenAs s c text :=
  ⟨_, hwrite, (Doc.text_node rfl rfl).trans (by rw [Slot.filled_both, append_empty])⟩

theorem worded_unary {op : Unary} (hkind : c.kind = op.kind) (hd : c.children = [d])
    (h : WrittenAs s d text) : WrittenAs s c (unarySign op ++ text) := by
  obtain ⟨inner, hwrite, htext⟩ := h
  obtain ⟨template, htemplate, hfilled⟩ := filled_unary op c.text text ""
  have hboth : writeBoth Expression.write s s c = .ok (inner, {}) := by
    unfold writeBoth
    rw [hd]
    change (Expression.write s d {} >>= _) = _
    rw [hwrite]
    rfl
  refine ⟨⟨template, inner.doc, Sheet.doc {}⟩, ?_, ?_⟩
  · rw [write_template (hkind ▸ htemplate)]
    unfold writeOperands
    rw [hboth]
    rfl
  · have hempty : (Sheet.doc {}).text? = some "" := by decide
    exact (Doc.text_node htext hempty).trans hfilled

theorem writeOperands_eq {t : Scope} {sheet leftSheet rightSheet : Sheet} (hchildren : c.children = [l, r])
    (hl : Expression.write s l {} = .ok leftSheet) (hr : Expression.write t r {} = .ok rightSheet) :
    writeOperands Expression.write s t c sheet
      = .ok { sheet with left := leftSheet.doc, right := rightSheet.doc } := by
  unfold writeOperands writeBoth
  rw [hchildren]
  change ((Expression.write s l {} >>= fun left => Expression.write t r {} >>= _) >>= _) = _
  rw [hl, hr]
  rfl

theorem worded_between {template whole : String} (htemplate : template? c.kind c.text = some template)
    (hfilled : Slot.filled? template left right = some whole) (hchildren : c.children = [l, r])
    (hl : WrittenAs s l left) (hr : WrittenAs s r right) : WrittenAs s c whole := by
  obtain ⟨leftSheet, hwriteLeft, hleft⟩ := hl
  obtain ⟨rightSheet, hwriteRight, hright⟩ := hr
  refine ⟨⟨template, leftSheet.doc, rightSheet.doc⟩, ?_, (Doc.text_node hleft hright).trans hfilled⟩
  rw [write_template htemplate]
  exact writeOperands_eq hchildren hwriteLeft hwriteRight

theorem worded_binary {op : Binary} (hkind : c.kind = op.kind) (htext : c.text = op.text)
    (hchildren : c.children = [l, r]) (hl : WrittenAs s l left) (hr : WrittenAs s r right) :
    WrittenAs s c (left ++ " " ++ sign op ++ " " ++ right) := by
  obtain ⟨template, htemplate, hfilled⟩ := filled_binary op left right
  exact worded_between (hkind ▸ htext ▸ htemplate) hfilled hchildren hl hr

/-- The text of a whole expression that becomes a right operand. -/
def WrittenWhole (s : Scope) (c : Cursor) (text : String) : Prop :=
  ∀ sheet : Sheet, ∃ inner : Sheet, Expression.write s c sheet = .ok { sheet with right := inner.doc }
      ∧ inner.doc.text? = some text

theorem worded_expr (hkind : c.kind = .expr) (hd : c.children = [d]) (h : WrittenAs s d text) :
    WrittenWhole s c text := by
  obtain ⟨inner, hwrite, htext⟩ := h
  refine fun sheet => ⟨inner, ?_, htext⟩
  rw [write_expr hkind hd, hwrite]
  rfl

theorem WrittenWhole.worded (h : WrittenWhole s c text) : WrittenAs s c text := by
  obtain ⟨inner, hwrite, htext⟩ := h {}
  refine ⟨_, hwrite, (Doc.text_node rfl htext).trans ?_⟩
  rw [Slot.filled_both, empty_append]

theorem worded_parentheses {parent : Kind} (hkind : c.kind = .parenthesizedExpr)
    (hparent : c.parentKind? = some parent) (hshown : parenthesesLeftOut.contains parent = false)
    (hd : c.children = [d]) (h : WrittenWhole s d text) : WrittenAs s c ("(" ++ text ++ ")") := by
  obtain ⟨inner, hwrite, htext⟩ := h { template := "(" ++ Slot.both ++ ")" }
  have hparentheses := write_parentheses (s := s) hkind hparent hshown hd {}
  rw [hwrite] at hparentheses
  have hinner : (Sheet.doc ⟨"(" ++ Slot.both ++ ")", .atom (.text ""), inner.doc⟩).text?
      = some ("(" ++ text ++ ")") := by
    refine (Doc.text_node rfl htext).trans ?_
    rw [Slot.filled_parentheses, empty_append]
  refine ⟨_, hparentheses, (Doc.text_node rfl hinner).trans ?_⟩
  rw [Slot.filled_both, empty_append]

end

variable {text : String} {t : Tree} {g : Grouping}

/-- The text that a new expression has after it has visited a tree. -/
def Build.wording (tree : Tree) : Build String := do
  let id ← looseExpr {}
  walkTree id tree []
  source id

/-- The text of a new expression is what visiting a tree makes it say. -/
theorem WrittenAs.wording {tree : Tree} (h : WrittenAs .loose (.ofTree tree) text)
    (hplain : tree.Every Plain) {w : Workshop} (hconfig : w.config = .standard) :
    ∃ w', wording tree w = .ok text w' := by
  obtain ⟨sheet, hwrite, htext⟩ := h
  have hnew := Workshop.adjoin_get_new w { form := .expression {}, parent := none } (by simp)
  -- The workshop in which the walk begins.
  let start : Workshop :=
    { w.adjoin { form := .expression {}, parent := none } with trail := { tokens := [] } }
  have hholds : Holds start w.blocks.size .loose {} :=
    ⟨⟨hconfig, rfl⟩, InScope.of_loose (w := start) hnew rfl rfl, ⟨_, hnew, rfl⟩, rfl⟩
  have hshows := hholds.shows_texts (fun _ => False) not_false
  have hyields := performs_walk (c := .ofTree tree) hplain hshows
  rw [hwrite] at hyields
  obtain ⟨_, w', hrun, -, hshows'⟩ := hyields
  have hwalk : walkTree w.blocks.size tree [] (w.adjoin { form := .expression {}, parent := none })
      = .ok () w' := by
    obtain ⟨n, hn⟩ : ∃ n, tree.height = n + 1 := by
      cases tree with
      | node head children => exact ⟨_, rfl⟩
    change Declaration.walkUpTo tree.height w.blocks.size (.ofTree tree) start = _
    rw [hn]
    exact (bind_of_ok (block_apply start _ hnew)).trans hrun
  have hprinted := (hshows'.spells (Q := fun _ => True) (fun _ _ => trivial) trivial).printed htext
  refine ⟨w', ?_⟩
  exact (bind_of_ok (expr_apply w none {})).trans ((bind_of_ok hwalk).trans hprinted)

/-! ## Trees and their texts -/

/-- A node stands where its parentheses are kept. -/
def Enclosed (c : Cursor) : Prop :=
  c.kind = .parenthesizedExpr →
    ∃ parent, c.parentKind? = some parent ∧ parenthesesLeftOut.contains parent = false

/-- A child stands where its parentheses are kept, if it is an operand. -/
theorem enclosed_child {c : Cursor}
    (h : parenthesesLeftOut.contains c.kind = false) : Enclosed ⟨t, c.tree :: c.above⟩ :=
  fun _ => ⟨c.kind, rfl, h⟩

/-- What a tree says where nothing encloses it, wherever it stands. -/
structure SaidAs (t : Tree) (text : String) : Prop where
  plain : t.Every Plain
  written : ∀ above, Enclosed ⟨t, above⟩ → WrittenAs .loose ⟨t, above⟩ text
  whole : t.kind = .expr → ∀ above, WrittenWhole .loose ⟨t, above⟩ text

theorem every_plain {kind : Kind} (hkind : t.kind = kind) (hstep : stepKind? kind = none)
    (h : ∀ u ∈ t.children, u.Every Plain) : t.Every Plain := by
  subst hkind
  obtain ⟨head, children⟩ := t
  exact .node (fun hsome => by cases hstep.symm.trans (Option.eq_some_of_isSome hsome)) h

namespace SaidAs

variable {head : Head} {l r : Tree} {left right : String}

theorem wording (h : SaidAs t text) (hroot : t.kind ≠ .parenthesizedExpr) {w : Workshop}
    (hconfig : w.config = .standard) : ∃ w', Build.wording t w = .ok text w' :=
  (h.written [] fun hparenthesized => absurd hparenthesized hroot).wording h.plain hconfig

/-- A node of a kind that is neither a step nor a whole expression. -/
theorem of_written {kind : Kind} (hkind : t.kind = kind) (hother : stepKind? kind = none ∧ kind ≠ .expr)
    (hplain : ∀ u ∈ t.children, u.Every Plain)
    (h : ∀ above, Enclosed ⟨t, above⟩ → WrittenAs .loose ⟨t, above⟩ text) : SaidAs t text :=
  ⟨every_plain hkind hother.1 hplain, h, fun hexpr => absurd (hkind.symm.trans hexpr) hother.2⟩

/-- What an operand says. -/
theorem child (h : SaidAs t text) {u : Tree} {above : List Tree} {kind : Kind} (hkind : u.kind = kind)
    (hshown : parenthesesLeftOut.contains kind = false) : WrittenAs .loose ⟨t, u :: above⟩ text := by
  subst hkind
  exact h.written _ (enclosed_child (c := ⟨u, above⟩) hshown)

theorem name (hkind : head.kind = .ident) : SaidAs (.node head []) head.text :=
  .of_written hkind (by decide) (List.forall_mem_nil _) fun _ _ => worded_word (write_ident hkind)

theorem literal (hkind : literals.contains head.kind = true) : SaidAs (.node head []) head.text := by
  have hother : ∀ kind ∈ literals, stepKind? kind = none ∧ kind ≠ .expr := by decide
  exact .of_written rfl (hother _ (List.contains_iff_mem.1 hkind)) (List.forall_mem_nil _) fun _ _ =>
    worded_word (write_literal hkind)

theorem expression (hkind : head.kind = .expr) (h : SaidAs t text) : SaidAs (.node head [t]) text := by
  have hwhole above : WrittenWhole .loose ⟨.node head [t], above⟩ text :=
    worded_expr hkind rfl (h.child (u := .node head [t]) hkind rfl)
  exact ⟨every_plain hkind rfl (List.forall_mem_singleton.2 h.plain), fun above _ => (hwhole above).worded,
    fun _ => hwhole⟩

theorem parenthesized (hkind : head.kind = .parenthesizedExpr) (hexpr : t.kind = .expr)
    (h : SaidAs t text) : SaidAs (.node head [t]) ("(" ++ text ++ ")") := by
  refine .of_written hkind (by decide) (List.forall_mem_singleton.2 h.plain) fun above henclosed => ?_
  obtain ⟨parent, hparent, hshown⟩ := henclosed hkind
  exact worded_parentheses hkind hparent hshown rfl (h.whole hexpr _)

theorem unary {op : Unary} (hkind : head.kind = op.kind) (h : SaidAs t text) :
    SaidAs (.node head [t]) (unarySign op ++ text) :=
  .of_written hkind (by cases op <;> decide) (List.forall_mem_singleton.2 h.plain) fun _ _ =>
    worded_unary hkind rfl (h.child (u := .node head [t]) hkind (by cases op <;> rfl))

theorem binary {op : Binary} (hkind : head.kind = op.kind) (htext : head.text = op.text)
    (hl : SaidAs l left) (hr : SaidAs r right) :
    SaidAs (.node head [l, r]) (left ++ " " ++ sign op ++ " " ++ right) := by
  have hshown : parenthesesLeftOut.contains op.kind = false := by cases op <;> rfl
  refine .of_written hkind (by cases op <;> decide) ?_ fun _ _ =>
    worded_binary hkind htext rfl (hl.child hkind hshown) (hr.child hkind hshown)
  simpa [Tree.children] using ⟨hl.plain, hr.plain⟩

end SaidAs

/-! ## Texts that are read -/

theorem phrase_unary (op : Unary) (h : Phrase unaryRule text.toList g) :
    Phrase (unaryLevel op) (unarySign op ++ text).toList (.unary op g) := by
  rw [toList_append]
  cases op with
  | not => exact (h.mono (by decide)).negated
  | plus => exact Phrase.marked .plus '+' (by decide) rfl h
  | minus => exact Phrase.marked .minus '-' (by decide) rfl h
  | invert => exact Phrase.marked .invert '~' (by decide) rfl h

/-- How tightly a tree binds that follows from a rule. -/
def Rule.level (kind : Kind) : Rule → Nat
  | .expression => 0
  | .operation n => treeLevel n kind

theorem Derivable.kind_eq (h : Derivable .expression t g) : t.kind = .expr := by
  cases h with
  | expression hkind _ => exact hkind

/-- A tree that follows from the rules is said as it is grouped. -/
theorem Derivable.said {rule : Rule} (h : Derivable rule t g) : ∃ text, SaidAs t text ∧ (Moderate t →
    (t.Every fun head => head.kind ∈ [Kind.ident, .decimalLiteral] → IsOperand head.text) →
    Phrase (rule.level t.kind) text.toList g) := by
  induction h with
  | @expression head t g hkind h ih =>
    obtain ⟨text, hsaid, hphrase⟩ := ih
    refine ⟨text, hsaid.expression hkind, fun hm hwords => ?_⟩
    exact (hphrase (hm.child (.head _)) (hwords.child (.head _))).mono (Nat.zero_le _)
  | @name head hkind hword =>
    exact ⟨_, .name hkind, fun _ hwords => .word (hwords.head (List.mem_cons.2 (.inl hkind)))⟩
  | @number head hkind hnumber =>
    refine ⟨_, .literal (hkind ▸ rfl), fun _ hwords => .word (hwords.head ?_)⟩
    exact List.mem_cons_of_mem _ (List.mem_singleton.2 hkind)
  | @parenthesized head t g hkind h ih =>
    obtain ⟨text, hsaid, hphrase⟩ := ih
    refine ⟨_, hsaid.parenthesized hkind h.kind_eq, fun hm hwords => ?_⟩
    have hinner : Phrase 0 text.toList g := hphrase (hm.child (.head _)) (hwords.child (.head _))
    simpa using hinner.parentheses
  | @unary op head t g hkind h ih =>
    obtain ⟨text, hsaid, hphrase⟩ := ih
    refine ⟨_, hsaid.unary hkind, fun hm hwords => ?_⟩
    have hinner := (hphrase (hm.child (.head _)) (hwords.child (.head _))).mono (hm.unary_level hkind h)
    have hlevel : treeLevel unaryRule head.kind = unaryLevel op := by
      rw [hkind]
      cases op <;> rfl
    change Phrase (treeLevel unaryRule head.kind) _ _
    rw [hlevel]
    exact phrase_unary op hinner
  | @binary op head l r a b hkind htext hl hr ihl ihr =>
    obtain ⟨left, hleft, hphraseLeft⟩ := ihl
    obtain ⟨right, hright, hphraseRight⟩ := ihr
    refine ⟨_, hleft.binary hkind htext hright, fun hm hwords => ?_⟩
    have hmeml : l ∈ [l, r] := by simp
    have hmemr : r ∈ [l, r] := by simp
    have ha := (hphraseLeft (hm.child hmeml) (hwords.child hmeml)).mono (hm.left_level hkind hl)
    have hb := (hphraseRight (hm.child hmemr) (hwords.child hmemr)).mono (hm.right_level hkind hr)
    change Phrase (treeLevel op.rule head.kind) _ _
    rw [hkind, treeLevel_binary]
    simpa using ha.binary hb
  | @tighter n t g h ih =>
    obtain ⟨text, hsaid, hphrase⟩ := ih
    exact ⟨text, hsaid, fun hm hwords => (hphrase hm hwords).mono (treeLevel_le n t.kind)⟩

namespace Build

/-- The text of a tree is grouped as the tree is, as long as its names and numbers are operands of the
output language too and the tree is more than something in parentheses. -/
theorem read_wording_of_derivable {rule : Rule} {tree : Tree} {g : Grouping}
    (h : Derivable rule tree g) (hm : Moderate tree)
    (hwords : tree.Every fun head => head.kind ∈ [Kind.ident, .decimalLiteral] → IsOperand head.text)
    (hroot : tree.kind ≠ .parenthesizedExpr) {w : Workshop} (hconfig : w.config = .standard) :
    ∃ text w', wording tree w = .ok text w' ∧ read text = some g := by
  obtain ⟨text, hsaid, hphrase⟩ := h.said
  obtain ⟨w', hwording⟩ := hsaid.wording hroot hconfig
  exact ⟨text, w', hwording, (hphrase hm hwords).read_eq⟩

/-- The tree of `-a + b * (c | 1) < d << 2 && !e`. -/
def mixedTree : Tree :=
  let name := fun text => Source.Tree.node { kind := .ident, text } []
  let number := fun text => Source.Tree.node { kind := .decimalLiteral, text } []
  .node { kind := .expr } [.node { kind := .logicalAnd, text := "&&" } [
      .node { kind := .lessThan, text := "<" } [.node { kind := .plus, text := "+" } [
          .node { kind := .unaryMinus, text := "UNARY_MINUS" } [name "a"],
          .node { kind := .star, text := "*" } [name "b", .node { kind := .parenthesizedExpr } [
              .node { kind := .expr } [.node { kind := .bitOr, text := "|" } [name "c", number "1"]]]]],
        .node { kind := .shiftLeft, text := "<<" } [name "d", number "2"]],
      .node { kind := .logicalNot, text := "!" } [name "e"]]]

def mixedGrouping : Grouping :=
  .binary .and (.binary .less (.binary .plus (.unary .minus (.operand "a"))
        (.binary .times (.operand "b") (.binary .bitOr (.operand "c") (.operand "1"))))
      (.binary .shiftLeft (.operand "d") (.operand "2")))
    (.unary .not (.operand "e"))

theorem derivable_mixed : Derivable .expression mixedTree mixedGrouping := by
  have hname : ∀ text, IsWord text →
      Derivable (.operation primaryRule) (.node { kind := .ident, text } []) (.operand text) :=
    fun text h => .name rfl h
  have hnumber : ∀ text, IsDecimalLiteral text →
      Derivable (.operation primaryRule) (.node { kind := .decimalLiteral, text } []) (.operand text) :=
    fun text h => .number rfl h
  refine .expression rfl (.tighter (.binary .and rfl rfl ?_ ?_))
  · refine Derivable.looser (m := 6) (by decide) (.binary .less rfl rfl ?_ ?_)
    · refine Derivable.looser (m := 8) (by decide) (.binary .plus rfl rfl ?_ ?_)
      · exact Derivable.looser (m := unaryRule) (by decide)
          (.unary .minus rfl (.tighter (hname "a" (by decide))))
      · refine .binary .times rfl rfl (.looser (by decide) (hname "b" (by decide))) ?_
        refine .tighter (.parenthesized rfl (.expression rfl ?_))
        exact Derivable.looser (m := 2) (by decide) (.binary .bitOr rfl rfl
          (.looser (by decide) (hname "c" (by decide))) (.looser (by decide) (hnumber "1" (by decide))))
    · exact .binary .shiftLeft rfl rfl (.looser (by decide) (hname "d" (by decide)))
        (.looser (by decide) (hnumber "2" (by decide)))
  · exact Derivable.looser (m := unaryRule) (by decide) (.unary .not rfl (.tighter (hname "e" (by decide))))

/-- The text of a tree with operators of many levels is grouped as the tree is. -/
theorem read_wording_mixed :
    (Derivable .expression mixedTree mixedGrouping ∧ Moderate mixedTree
      ∧ (mixedTree.Every fun head => head.kind ∈ [Kind.ident, .decimalLiteral] → IsOperand head.text)
      ∧ mixedTree.kind ≠ .parenthesizedExpr)
    ∧ ∃ text w', wording mixedTree { config := .standard } = .ok text w'
      ∧ read text = some mixedGrouping := by
  have hm : Moderate mixedTree := by
    simp [mixedTree, comparisons, compares, anyCompares, Tree.kind, Tree.head]
  have hwords : mixedTree.Every fun head => head.kind ∈ [Kind.ident, .decimalLiteral] → IsOperand head.text := by
    have hoperands : ∀ text ∈ ["a", "b", "c", "d", "e", "1", "2"], IsOperand text := by decide
    simp [mixedTree, hoperands]
  have hroot : mixedTree.kind ≠ .parenthesizedExpr := by decide
  exact ⟨⟨derivable_mixed, hm, hwords, hroot⟩,
    read_wording_of_derivable derivable_mixed hm hwords hroot rfl⟩

/-- The tree of `not - b`, where `not` is a name. -/
def reservedNameTree : Tree :=
  .node { kind := .expr } [.node { kind := .minus, text := "-" } [
      .node { kind := .ident, text := "not" } [], .node { kind := .ident, text := "b" } []]]

/-- The tree of `(a)`, with nothing around the parentheses. -/
def bareParenthesesTree : Tree :=
  .node { kind := .parenthesizedExpr } [.node { kind := .expr } [.node { kind := .ident, text := "a" } []]]

/-- The tree of `10L - b`, with a mark that the output language does not have. -/
def longNumberTree : Tree :=
  .node { kind := .expr } [.node { kind := .minus, text := "-" } [
      .node { kind := .decimalLiteral, text := "10L" } [], .node { kind := .ident, text := "b" } []]]

/-- A name that is a reserved word is read as that word, a number of the input language may be no
number of the output language, and parentheses with nothing around them cannot be visited. -/
theorem misread_reserved_name :
    (Derivable .expression reservedNameTree (.binary .minus (.operand "not") (.operand "b"))
      ∧ Moderate reservedNameTree
      ∧ (∃ w', wording reservedNameTree { config := .standard } = .ok "not - b" w')
      ∧ read "not - b" = some (.unary .not (.unary .minus (.operand "b"))))
    ∧ (Derivable .expression longNumberTree (.binary .minus (.operand "10L") (.operand "b"))
      ∧ Moderate longNumberTree
      ∧ (∃ w', wording longNumberTree { config := .standard } = .ok "10L - b" w')
      ∧ read "10L - b" = none)
    ∧ Derivable (.operation primaryRule) bareParenthesesTree (.operand "a")
      ∧ Moderate bareParenthesesTree
      ∧ ∃ w', wording bareParenthesesTree { config := .standard } = .error .absent w' := by
  refine ⟨⟨?_, ?_, ?_, by decide⟩, ⟨?_, ?_, ?_, by decide⟩, ?_, ?_, ?_⟩
  · exact .expression rfl (.looser (m := 8) (by decide) (.binary .minus rfl rfl
      (.looser (m := primaryRule) (by decide) (.name rfl (by decide)))
      (.looser (m := primaryRule) (by decide) (.name rfl (by decide)))))
  · simp [reservedNameTree, comparisons, compares, anyCompares, Tree.kind, Tree.head]
  · exact ⟨_, rfl⟩
  · exact .expression rfl (.looser (m := 8) (by decide) (.binary .minus rfl rfl
      (.looser (m := primaryRule) (by decide) (.number rfl (by decide)))
      (.looser (m := primaryRule) (by decide) (.name rfl (by decide)))))
  · simp [longNumberTree, comparisons, compares, anyCompares, Tree.kind, Tree.head]
  · exact ⟨_, rfl⟩
  · exact .parenthesized rfl (.expression rfl (.looser (m := primaryRule) (by decide)
      (.name rfl (by decide))))
  · simp [bareParenthesesTree, comparisons, compares, anyCompares, Tree.kind, Tree.head]
  · exact ⟨_, rfl⟩

end Build

end Transcriber
