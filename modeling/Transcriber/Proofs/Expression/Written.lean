import Transcriber.Proofs.Expression.Detached

/-!
# Sound trees are written

One lemma for each kind of node: its visit gives a text on one line if the visits of what it visits
do, and fails just where it, or one of those, asks in vain for what encloses it.

* `Expression.Sound.writes` — sound trees are written, unless they are stuck.
-/

namespace Transcriber

open Source Handler List

namespace Expression

/-! ## Nodes of single kinds -/

theorem template?_eq_none {kind : Kind} (h : kind ∈ parenthesesLeftOut ++ askingKinds ++ literals)
    (text : String) : template? kind text = none := by
  fin_cases h <;> rfl

variable {t : Tree}

/-- The templates of operators make neat texts from neat operands. -/
theorem SoundNode.tidy_template (h : SoundNode t) {template : String}
    (htemplate : template? t.kind t.text = some template) :
    (Slot.Tidy false template ∨ Slot.Tidy true template ∧ Speaks t 0) ∧ Slot.Loud template := by
  have hbetween : ∀ {sign : String}, Braceless sign → OneLine sign → sign ≠ "" →
      t.kind ∈ betweenOperators → template = Slot.left ++ sign ++ Slot.right →
      (Slot.Tidy false template ∨ Slot.Tidy true template ∧ Speaks t 0) ∧ Slot.Loud template := by
    rintro sign hbraceless hone hne hmem rfl
    obtain ⟨htidy, hloud⟩ := Slot.tidy_between hbraceless hone hne
    exact ⟨.inr ⟨htidy, h.between hmem⟩, hloud⟩
  have halone : ∀ (parts : List (String × Bool)) (last : String),
      Slot.Tidy false (Slot.render parts last) ∧ Slot.Loud (Slot.render parts last) →
      template = Slot.render parts last →
      (Slot.Tidy false template ∨ Slot.Tidy true template ∧ Speaks t 0) ∧ Slot.Loud template := by
    rintro parts last ⟨htidy, hloud⟩ rfl
    exact ⟨.inl htidy, hloud⟩
  unfold template? at htemplate
  split at htemplate
  case isTrue hplain =>
    have hmem : t.kind ∈ plainOperators := contains_iff_mem.1 hplain
    refine hbetween (?_ : Braceless (" " ++ t.text ++ " ")) ?_ ?_ (mem_append_left _ hmem) ?_
    · exact ((by decide : Braceless " ").append (h.operator hmem)).append (by decide)
    · exact ((by decide : OneLine " ").append h.text.oneLine).append (by decide)
    · simp
    · rw [← Option.some.inj htemplate]
      simp [String.append_assoc]
  case isFalse =>
    unfold fixedTemplate? at htemplate
    split at htemplate
    case h_12 => cases htemplate
    all_goals
      rename_i hkind
      cases htemplate
    · exact halone _ _ (Slot.tidy_loud [("", true), ("[", false)] "]" (by decide)) rfl
    · exact hbetween (by decide) (by decide) (by decide) (by rw [hkind]; decide) rfl
    · exact hbetween (by decide) (by decide) (by decide) (by rw [hkind]; decide) rfl
    · exact halone _ _ (Slot.tidy_loud [("not ", true)] "" (by decide)) rfl
    · exact hbetween (by decide) (by decide) (by decide) (by rw [hkind]; decide) rfl
    · exact hbetween (by decide) (by decide) (by decide) (by rw [hkind]; decide) rfl
    · exact halone _ _ (Slot.tidy_loud [("~", true)] "" (by decide)) rfl
    · exact hbetween (by decide) (by decide) (by decide) (by rw [hkind]; decide) rfl
    · exact hbetween (by decide) (by decide) (by decide) (by rw [hkind]; decide) rfl
    · exact halone _ _ (Slot.tidy_loud [("-", true)] "" (by decide)) rfl
    · exact halone _ _ (Slot.tidy_loud [("+", true)] "" (by decide)) rfl

theorem SoundNode.castType_ok (h : SoundNode t) (hkind : t.kind = .castExpr)
    (above : List Tree) : ∃ name, castType ⟨t, above⟩ = .ok name := by
  obtain ⟨-, type, named, htype, hnamed, hfirst⟩ := h.cast hkind
  unfold castType
  rw [child?_eq_map, htype, Option.map_some, Option.bind_some, head?_children, hnamed]
  dsimp only [Option.map_some]
  split
  case isTrue hqualified =>
    obtain ⟨first, hfirst⟩ := Option.ne_none_iff_exists'.1 (hfirst (eq_of_beq hqualified))
    rw [head?_children, hfirst]
    exact ⟨_, rfl⟩
  case isFalse => exact ⟨_, rfl⟩

def castTemplate (name : String) : String :=
  if constructorTypes.contains name then name ++ "(" ++ Slot.right ++ ")" else Slot.right

theorem tidy_castTemplate (name : String) : Slot.Tidy false (castTemplate name)
    ∧ (castTemplate name = Slot.right ∨ Slot.Loud (castTemplate name)) := by
  have hnames : ∀ name ∈ constructorTypes, Slot.Tidy false (name ++ "(" ++ Slot.right ++ ")")
      ∧ Slot.Loud (name ++ "(" ++ Slot.right ++ ")") := by
    intro name hname
    fin_cases hname
    · exact Slot.tidy_loud [("bool(", false)] ")" (by decide)
    · exact Slot.tidy_loud [("str(", false)] ")" (by decide)
    · exact Slot.tidy_loud [("int(", false)] ")" (by decide)
    · exact Slot.tidy_loud [("long(", false)] ")" (by decide)
    · exact Slot.tidy_loud [("float(", false)] ")" (by decide)
  unfold castTemplate
  split
  case isTrue hcontains =>
    obtain ⟨htidy, hloud⟩ := hnames name (contains_iff_mem.1 hcontains)
    exact ⟨htidy, .inr hloud⟩
  case isFalse => exact ⟨⟨[("", false)], "", rfl, by decide, by decide, by decide⟩, .inl rfl⟩

namespace Written

variable {above : List Tree} {sheet sheet' : Sheet}

/-- A template with words of its own leaves some. -/
theorem of_loud (hexpr : t.kind ≠ .expr) (htidy : sheet'.Tidy) (hloud : Slot.Loud sheet'.template) :
    Written t above sheet sheet' :=
  ⟨htidy, fun _ _ _ => htidy.voiced hloud, fun hkind => absurd hkind hexpr⟩

theorem of_operand (htidy : sheet'.Tidy) (htemplate : sheet'.template = sheet.template)
    (hvoiced : sheet'.left.Voiced ∨ sheet'.right.Voiced) : Written t above sheet sheet' :=
  ⟨htidy, fun hempty _ _ => htidy.voiced_of_operand (by rw [htemplate, hempty]) hvoiced, fun _ => htemplate⟩

end Written

/-! Where the kind of a node is known, what is visited and what accepting does compute.  So the lemmas
on single kinds put the kind in first. -/

section

variable {f : Writing} {s s' : Scope} {loose loose' : Bool} {above : List Tree}

theorem forall_beside {b : Bool} {ts : List Tree} (h : ∀ p ∈ ts.map (b, ·), Writes f p.2) :
    ∀ u ∈ ts, Writes f u :=
  fun u hu => h (b, u) (mem_map_of_mem hu)

/-- A visit that ends with what accepting the node gives. -/
theorem meets_done {c : Cursor} {sheet : Sheet} {x : Except Failure Sheet} {p : Prop}
    {Q : Sheet → Prop} (haccept : writeAccept f s c sheet = x >>= fun sheet => .ok (.done sheet))
    (hx : Meets p x Q) : Meets p (writeVisit f s c sheet) Q := by
  rwa [writeVisit_of_done haccept]

/-- Operands for the first two children; nothing may enclose the second one. -/
theorem meets_two {far : Bool} {template : String} {sheet : Sheet}
    (hd : ∀ p ∈ near t.children[0]?.toList ++ t.children[1]?.toList.map (far, ·), Writes f p.2)
    (hs : Fits s loose) (hs' : Fits s' loose') (hfar : (loose || far) = loose')
    (hshown : parenthesesLeftOut.contains t.kind = false)
    (htidy : Slot.Tidy false template ∨ Slot.Tidy true template ∧ Speaks t 0) :
    Meets (AnyStuck loose (near t.children[0]?.toList ++ t.children[1]?.toList.map (far, ·)))
      (writeOperands f s s' ⟨t, above⟩ { sheet with template }) fun sheet' => sheet'.Tidy
        ∧ sheet'.template = template ∧ (Speaks t 1 → sheet'.right.Voiced) := by
  obtain ⟨hfirst, hsecond⟩ := forall_mem_append.1 hd
  refine (meets_operands (forall_beside hfirst) (forall_beside hsecond) hs hs' hshown htidy).congr ?_
  rw [anyStuck_append, anyStuck_near, ← hfar]
  simp [AnyStuck]

variable (h : SoundNode t) (hd : ∀ p ∈ visited t, Writes f p.2)

include h hd

theorem writes_template {template : String} (htemplate : template? t.kind t.text = some template) :
    Writes (writeVisit f) t := by
  intro s loose above sheet hs _ _
  have hnone : ∀ kinds : List Kind, (∀ kind ∈ kinds, ∀ text, template? kind text = none) →
      t.kind ∉ kinds := by
    intro kinds hkinds hmem
    rw [hkinds _ hmem] at htemplate
    cases htemplate
  have hasking : t.kind ∉ askingKinds := hnone _ fun kind hkind text =>
    template?_eq_none (mem_append_left _ (mem_append_right _ hkind)) text
  have hshown : parenthesesLeftOut.contains t.kind = false := by
    refine Bool.eq_false_iff.2 fun hcontains => hnone _ (fun kind hkind text => ?_)
      (contains_iff_mem.1 hcontains)
    exact template?_eq_none (mem_append_left _ (mem_append_left _ hkind)) text
  have hvisited : visited t = near t.children[0]?.toList ++ near t.children[1]?.toList := by
    unfold visited
    rw [htemplate]
  have hvisit : writeVisit f s ⟨t, above⟩ sheet = writeOperands f s s ⟨t, above⟩ { sheet with template } := by
    refine writeVisit_of_done ?_
    unfold writeAccept
    rw [show template? (Cursor.mk t above).kind (Cursor.mk t above).text = _ from htemplate]
    rfl
  obtain ⟨htidy, hloud⟩ := h.tidy_template htemplate
  rw [hvisited] at hd
  rw [hvisit, stuck_of_not_asking hasking, hvisited]
  refine (meets_two hd hs hs (Bool.or_false _) hshown htidy).imp ?_
  rintro sheet' ⟨htidy', rfl, -⟩
  refine .of_loud (fun hexpr => ?_) htidy' hloud
  rw [hexpr] at htemplate
  cases htemplate

omit hd in
theorem writes_literal (hliteral : t.kind ∈ literals) : Writes (writeVisit f) t := by
  intro s loose above sheet hs _ hsheet
  have hfacts : ∀ kind ∈ literals, stepKind? kind = none ∧ kind ∉ askingKinds := by decide
  obtain ⟨hstep, hasking⟩ := hfacts _ hliteral
  have htemplate : template? t.kind t.text = none := template?_eq_none (mem_append_right _ hliteral) t.text
  have hcontains : literals.contains t.kind = true := contains_iff_mem.2 hliteral
  have hvisited : visited t = [] := by
    unfold visited
    rw [htemplate, hstep]
    exact if_pos hcontains
  have hvisit : writeVisit f s ⟨t, above⟩ sheet = .ok { sheet with left := .atom (.text t.text) } := by
    refine writeVisit_of_done ?_
    unfold writeAccept
    rw [show template? (Cursor.mk t above).kind (Cursor.mk t above).text = _ from htemplate,
      show stepKind? (Cursor.mk t above).kind = _ from hstep]
    exact if_pos hcontains
  have hvoiced : (Doc.atom (.text t.text)).Voiced := ⟨t.text, rfl, h.text, h.word (.inr hliteral)⟩
  rw [hvisit, stuck_of_not_asking hasking, hvisited]
  exact (meets_ok (.of_operand (hsheet.setLeft hvoiced) rfl (.inl hvoiced))).congr anyStuck_nil.symm

omit hd in
theorem writes_ident (hkind : t.kind = .ident) : Writes (writeVisit f) t := by
  obtain ⟨⟨⟩, children⟩ := t
  cases hkind
  intro s loose above sheet hs _ hsheet
  have hvoiced : (Doc.atom (.text (s.rename _))).Voiced :=
    ⟨_, rfl, hs.neat h.text, hs.rename_ne (h.word (.inl rfl))⟩
  rw [stuck_of_not_asking (of_decide_eq_true rfl)]
  exact (meets_ok (.of_operand (hsheet.setLeft hvoiced) rfl (.inl hvoiced))).congr anyStuck_nil.symm

theorem writes_cast (hkind : t.kind = .castExpr) : Writes (writeVisit f) t := by
  obtain ⟨⟨⟩, children⟩ := t
  cases hkind
  intro s loose above sheet hs _ _
  obtain ⟨name, hname⟩ := h.castType_ok rfl above
  obtain ⟨htidy, hloud⟩ := tidy_castTemplate name
  rw [stuck_of_not_asking (of_decide_eq_true rfl)]
  refine meets_done (x := writeCast f s _ sheet) rfl ?_
  unfold writeCast
  rw [hname]
  refine (meets_two hd hs hs (Bool.or_false _) rfl (.inl htidy)).imp ?_
  rintro sheet' ⟨htidy', htemplate, hvoiced⟩
  rcases hloud with hright | hloud
  · exact ⟨htidy', fun _ _ _ => htidy'.voiced_of_right (htemplate.trans hright) (hvoiced (h.cast rfl).1),
      nofun⟩
  · exact .of_loud nofun htidy' (htemplate ▸ hloud)

end

section

variable {f : Writing} (h : SoundNode t) (hd : ∀ p ∈ visited t, Writes f p.2)

/-- A search for a module succeeds where one encloses. -/
theorem meets_homed {s : Scope} {loose : Bool} (hs : Fits s loose) {sheet : Sheet}
    {Q : Sheet → Prop} (hQ : Q sheet) :
    Meets (loose = true) (if s.homed then .ok sheet else .error .notFound) Q := by
  rw [hs.homed]
  cases loose with
  | false => exact (meets_ok hQ).congr (by simp)
  | true => exact ⟨fun _ => rfl, fun hn => absurd rfl hn⟩

include hd in
theorem writes_shift {template : String}
    (hvisited : visited t = near t.children[0]?.toList ++ far t.children[1]?.toList)
    (hasking : t.kind ∈ askingKinds) (hexpr : t.kind ≠ .expr)
    (hshown : parenthesesLeftOut.contains t.kind = false)
    (htidy : Slot.Tidy false template ∨ Slot.Tidy true template ∧ Speaks t 0)
    (hloud : Slot.Loud template)
    (hvisit : ∀ s above sheet, writeVisit f s ⟨t, above⟩ sheet = writeShift f s ⟨t, above⟩ template sheet) :
    Writes (writeVisit f) t := by
  intro s loose above sheet hs _ _
  rw [hvisited] at hd
  rw [hvisit, stuck_iff, hvisited]
  unfold writeShift
  refine ((meets_two hd hs fits_loose (Bool.or_true _) hshown htidy).bind fun sheet' hsheet' =>
    meets_homed hs (.of_loud hexpr hsheet'.1 (hsheet'.2.1 ▸ hloud))).congr ?_
  exact ⟨fun hor => hor.elim .inr fun hloose => .inl ⟨hloose, hasking⟩,
    fun hor => hor.elim (fun hloose => .inr hloose.1) .inl⟩

include hd in
theorem writes_bitShiftRight (hkind : t.kind = .bitShiftRight) : Writes (writeVisit f) t := by
  obtain ⟨htidy, hloud⟩ : Slot.Tidy false ("bsr(" ++ Slot.left ++ ", " ++ Slot.right ++ ")")
      ∧ Slot.Loud ("bsr(" ++ Slot.left ++ ", " ++ Slot.right ++ ")") :=
    Slot.tidy_loud [("bsr(", true), (", ", false)] ")" (by decide)
  obtain ⟨⟨⟩, children⟩ := t
  cases hkind
  exact writes_shift hd rfl (of_decide_eq_true rfl) nofun rfl (.inl htidy) hloud
    fun _ _ _ => writeVisit_of_done rfl

include h hd in
theorem writes_bitShiftRightAssign (hkind : t.kind = .bitShiftRightAssign) : Writes (writeVisit f) t := by
  obtain ⟨htidy, hloud⟩ : Slot.Tidy true (Slot.left ++ " = bsr(" ++ Slot.left ++ ", " ++ Slot.right ++ ")")
        ∧ Slot.Loud (Slot.left ++ " = bsr(" ++ Slot.left ++ ", " ++ Slot.right ++ ")") :=
    Slot.tidy_loud [("", true), (" = bsr(", true), (", ", false)] ")" (by decide)
  obtain ⟨⟨⟩, children⟩ := t
  cases hkind
  exact writes_shift hd rfl (of_decide_eq_true rfl) nofun rfl (.inr ⟨htidy, h.assignedShift rfl⟩) hloud
    fun _ _ _ => writeVisit_of_done rfl

include hd in
theorem writes_dot (hkind : t.kind = .dot) : Writes (writeVisit f) t := by
  obtain ⟨htidy, hloud⟩ : Slot.Tidy false (Slot.left ++ "." ++ Slot.right)
      ∧ Slot.Loud (Slot.left ++ "." ++ Slot.right) :=
    Slot.tidy_loud [("", true), (".", false)] "" (by decide)
  obtain ⟨⟨⟩, children⟩ := t
  cases hkind
  intro s loose above sheet hs _ _
  rw [stuck_of_not_asking (of_decide_eq_true rfl)]
  refine meets_done rfl ((meets_two hd hs fits_loose (Bool.or_true _) rfl (.inl htidy)).imp ?_)
  rintro sheet' ⟨htidy', htemplate, -⟩
  exact .of_loud nofun htidy' (htemplate ▸ hloud)

include h hd in
/-- A call whose name may be put in afterwards. -/
theorem writes_calling (hkind : t.kind ∈ [Kind.classConstructorCall, .methodCall, .thisConstructorCall])
    (finish : Scope → Sheet → Sheet)
    (hfinish : ∀ s sheet, finish s sheet = sheet ∨ ∃ left : Doc, finish s sheet = { sheet with left }
      ∧ ((∀ name, Neat name → Neat (s.rename name)) → left.Neat))
    (hvisit : ∀ s above sheet, writeVisit f s ⟨t, above⟩ sheet
      = writeCall f s ⟨t, above⟩ >>= fun called => .ok (finish s called)) :
    Writes (writeVisit f) t := by
  intro s loose above sheet hs _ _
  have hvisited : visited t = near t.children[0]?.toList ++ near (argumentsOf t) := by
    unfold visited
    simp only [mem_cons, not_mem_nil, or_false] at hkind
    rcases hkind with hkind | hkind | hkind <;> rw [hkind] <;> rfl
  have hfacts : ∀ kind ∈ [Kind.classConstructorCall, .methodCall, .thisConstructorCall],
      kind ∉ askingKinds ∧ kind ≠ .expr := by decide
  obtain ⟨hasking, hexpr⟩ := hfacts _ hkind
  rw [hvisited] at hd
  obtain ⟨hfirst, harguments⟩ := forall_mem_append.1 hd
  rw [hvisit, stuck_of_not_asking hasking, hvisited, anyStuck_append, anyStuck_near, anyStuck_near]
  refine (meets_call (forall_beside hfirst) (forall_beside harguments) hs (h.arguments hkind)).map ?_
  rintro called ⟨htidy, hloud, hleft⟩
  rcases hfinish s called with heq | ⟨left, heq, hneat⟩
  · rw [heq]
    exact .of_loud hexpr htidy hloud
  · rw [heq]
    exact .of_loud hexpr (hleft left (hneat fun _ => hs.neat)) hloud

include h hd in
theorem writes_methodCall (hkind : t.kind = .methodCall) : Writes (writeVisit f) t := by
  refine writes_calling h hd (by rw [hkind]; decide) (fun _ sheet => sheet) (fun s sheet => .inl rfl)
    fun s above sheet => writeVisit_of_done ?_
  obtain ⟨⟨⟩, children⟩ := t
  cases hkind
  change (writeCall f s ⟨_, above⟩ >>= fun called => _) = _
  cases writeCall f s ⟨_, above⟩ <;> rfl

include h hd in
theorem writes_thisConstructorCall (hkind : t.kind = .thisConstructorCall) : Writes (writeVisit f) t := by
  refine writes_calling h hd (by rw [hkind]; decide)
    (fun _ sheet => { sheet with left := .atom (.text "self.__init__") })
    (fun s sheet => .inr ⟨_, rfl, fun _ => Doc.neat_text (by decide)⟩)
    fun s above sheet => writeVisit_of_done ?_
  obtain ⟨⟨⟩, children⟩ := t
  cases hkind
  change (writeCall f s ⟨_, above⟩ >>= fun called => _) = _
  cases writeCall f s ⟨_, above⟩ <;> rfl

/-- The name of a type that is called, if it is known. -/
def constructorName? (t : Tree) (s : Scope) : Option String :=
  match t.children.find? fun child => child.kind == .qualifiedTypeIdent with
  | some type =>
    if type.children.isEmpty then none
    else some (".".intercalate (type.children.map fun name => s.rename name.text))
  | none => none

include h hd in
theorem writes_classConstructorCall (hkind : t.kind = .classConstructorCall) : Writes (writeVisit f) t := by
  refine writes_calling h hd (by rw [hkind]; decide)
    (fun s sheet => (constructorName? t s).elim sheet fun name =>
      { sheet with left := .atom (.text name) }) (fun s sheet => ?_) fun s above sheet => ?_
  · cases hname : constructorName? t s with
    | none => exact .inl rfl
    | some name =>
      refine .inr ⟨_, rfl, fun hrename => Doc.neat_text ?_⟩
      unfold constructorName? at hname
      split at hname
      case h_2 => cases hname
      case h_1 type htype =>
        split at hname
        case isTrue => cases hname
        case isFalse =>
          cases hname
          refine neat_intercalate (by decide) (by decide) fun text htext => ?_
          obtain ⟨node, hnode, rfl⟩ := mem_map.1 htext
          exact hrename _ (h.constructed hkind type htype node hnode)
  · refine writeVisit_of_done ?_
    unfold writeAccept writeConstruct constructorName?
    rw [show (Cursor.mk t above).kind = .classConstructorCall from hkind]
    dsimp only
    rw [child?_eq_map]
    cases writeCall f s ⟨t, above⟩ with
    | error failure => rfl
    | ok called =>
      cases t.children.find? fun child => child.kind == .qualifiedTypeIdent with
      | none => rfl
      | some type =>
        obtain ⟨head, children⟩ := type
        cases children with
        | nil => rfl
        | cons first rest =>
          change Except.ok (Next.done _) = Except.ok (Next.done _)
          refine congrArg (fun names => Except.ok (Next.done { called with
            left := .atom (.text (".".intercalate names)) })) ?_
          exact map_map

end

section

variable {f : Writing} (h : SoundNode t) (hd : ∀ p ∈ visited t, Writes f p.2)

/-- A new right operand visits the children. -/
theorem meets_inside {s : Scope} {loose : Bool} {above : List Tree} {sheet inner : Sheet}
    (hchildren : ∀ u ∈ t.children, Writes f u) (hs : Fits s loose) (hsheet : sheet.Tidy)
    (hinner : inner.Tidy) :
    Meets (∃ u ∈ t.children, Stuck loose u)
      ((Cursor.mk t above).children.foldlM (fun inner child => f s child inner) inner >>= fun inner =>
        .ok { sheet with right := inner.doc }) fun sheet' => sheet'.Tidy
          ∧ ∃ inner' : Sheet, inner'.Tidy ∧ sheet' = { sheet with right := inner'.doc } :=
  (meets_children hchildren hs hinner).map fun inner' hinner' =>
    ⟨hsheet.setRight hinner'.neat, inner', hinner', rfl⟩

include hd in
theorem writes_expr (hkind : t.kind = .expr) : Writes (writeVisit f) t := by
  obtain ⟨⟨⟩, children⟩ := t
  cases hkind
  intro s loose above sheet hs _ hsheet
  rw [stuck_of_not_asking (of_decide_eq_true rfl)]
  refine ((meets_inside (forall_beside hd) hs hsheet tidy_empty).imp ?_).congr anyStuck_near.symm
  rintro sheet' ⟨htidy, inner, -, rfl⟩
  exact ⟨htidy, fun _ hspeaking => absurd hspeaking (of_decide_eq_true rfl), fun _ => rfl⟩

include hd in
theorem writes_instanceOf (hkind : t.kind = .instanceOf) : Writes (writeVisit f) t := by
  obtain ⟨htidy, hloud⟩ : Slot.Tidy false ("isinstance(" ++ Slot.right ++ ", (" ++ Slot.left ++ ", ))")
      ∧ Slot.Loud ("isinstance(" ++ Slot.right ++ ", (" ++ Slot.left ++ ", ))") :=
    Slot.tidy_loud [("isinstance(", false), (", (", true)] ", ))" (by decide)
  obtain ⟨⟨⟩, children⟩ := t
  cases hkind
  intro s loose above sheet hs _ _
  obtain ⟨hright, hleft⟩ := forall_mem_append.1 hd
  rw [stuck_of_not_asking (of_decide_eq_true rfl)]
  refine meets_done (x := do
    let right ← writeMaybe f s (Cursor.child? _ .ident) {}
    let left ← writeMaybe f s (Cursor.child? _ .typeRef) {}
    .ok ⟨"isinstance(" ++ Slot.right ++ ", (" ++ Slot.left ++ ", ))", left.doc, right.doc⟩)
    (by simp only [bind_assoc]; rfl) ?_
  rw [child?_eq_map, child?_eq_map]
  refine ((meets_maybe (forall_beside hright) hs tidy_empty).bind fun right hright =>
    (meets_maybe (forall_beside hleft) hs tidy_empty).map fun left hleft => ?_).congr
    (by rw [← anyStuck_near, ← anyStuck_near, ← anyStuck_append]; rfl)
  exact .of_loud nofun ⟨hleft.1.neat, hright.1.neat, .inl htidy⟩ hloud

include h hd in
theorem writes_parentheses (hkind : t.kind = .parenthesizedExpr) : Writes (writeVisit f) t := by
  obtain ⟨u, hu, hukind⟩ := h.parenthesized hkind
  obtain ⟨⟨_, text, line, index, channel, start, stop, nested⟩, children⟩ := t
  cases hkind
  cases hu
  intro s loose above sheet hs hne hsheet
  obtain ⟨parent, rest, rfl⟩ := exists_cons_of_ne_nil (hne rfl)
  have haccept : writeAccept f s
      ⟨.node ⟨.parenthesizedExpr, text, line, index, channel, start, stop, nested⟩ [u], parent :: rest⟩ sheet
      = if parenthesesLeftOut.contains parent.kind then .ok (.here sheet)
        else .ok (.inside sheet s { template := "(" ++ Slot.both ++ ")" }) := rfl
  have hwrites := forall_beside hd
  rw [stuck_of_not_asking (of_decide_eq_true rfl)]
  refine Meets.congr ?_ anyStuck_near.symm
  cases hleftOut : parenthesesLeftOut.contains parent.kind with
  | true =>
    rw [hleftOut] at haccept
    rw [writeVisit_of_here haccept]
    refine (meets_children hwrites hs hsheet).imp fun sheet' htidy => ?_
    refine ⟨htidy, fun _ _ hshown => ?_, nofun⟩
    exact absurd (hleftOut.symm.trans (hshown parent rfl)) (by decide)
  | false =>
    obtain ⟨htemplate, hloud⟩ : Slot.Tidy false ("(" ++ Slot.both ++ ")")
        ∧ Slot.Loud ("(" ++ Slot.both ++ ")") :=
      Slot.tidy_loud [("(", true), ("", false)] ")" (by decide)
    have hinner : Sheet.Tidy { template := "(" ++ Slot.both ++ ")" } :=
      ⟨Doc.neat_empty, Doc.neat_empty, .inl htemplate⟩
    rw [hleftOut] at haccept
    rw [writeVisit_of_inside haccept]
    simp only [Cursor.children, Tree.children, map_cons, map_nil, foldlM_cons, foldlM_nil, bind_pure]
    -- The only child gives the parentheses a new right operand, so that they stay.
    refine (((hwrites u (mem_singleton_self u) hs (fun _ => cons_ne_nil _ _) hinner).imp
      fun inner' hinner' => hinner'.tidy.voiced (hinner'.template hukind ▸ hloud)).map
      fun inner' hvoiced => ?_).congr (by simp)
    exact .of_operand (hsheet.setRight hvoiced.neat) rfl (.inr hvoiced)

end

section

variable {f : Writing} (h : SoundNode t) (hd : ∀ p ∈ visited t, Writes f p.2)

include hd in
theorem writes_staticArrayCreator (hkind : t.kind = .staticArrayCreator) : Writes (writeVisit f) t := by
  obtain ⟨htemplate, hloud⟩ : Slot.Tidy false ("[None] * " ++ Slot.left)
      ∧ Slot.Loud ("[None] * " ++ Slot.left) :=
    Slot.tidy_loud [("[None] * ", true)] "" (by decide)
  obtain ⟨⟨⟩, children⟩ := t
  cases hkind
  intro s loose above sheet _ _ hsheet
  rw [stuck_of_not_asking (of_decide_eq_true rfl)]
  refine meets_done (x := do
    let size ← writeMaybe f .loose (Cursor.child? _ .expr) {}
    .ok { sheet with
      right := Sheet.doc { template := "[None] * " ++ Slot.left, left := size.doc } })
    (by simp only [bind_assoc]; rfl) ?_
  rw [child?_eq_map]
  refine ((meets_maybe (forall_beside hd) fits_loose tidy_empty).map fun size hsize =>
    ?_).congr anyStuck_far.symm
  have harray : Sheet.Tidy { template := "[None] * " ++ Slot.left, left := size.doc } :=
    ⟨hsize.1.neat, Doc.neat_empty, .inl htemplate⟩
  exact .of_operand (hsheet.setRight harray.neat) rfl (.inr (harray.voiced hloud))

/-- A search for the enclosing type succeeds where there is one. -/
theorem meets_owner {s : Scope} {loose : Bool} (hs : Fits s loose) :
    Meets (loose = true) (ownerOf s) fun name => Braceless (nameText name) ∧ Neat (nameText name) := by
  unfold ownerOf
  cases loose with
  | true =>
    rw [hs.ownerless rfl]
    exact ⟨fun _ => rfl, fun hn => absurd rfl hn⟩
  | false =>
    obtain ⟨name, howner, hname⟩ := hs.owner rfl
    rw [howner]
    refine Meets.congr (meets_ok ?_) ⟨False.elim, Bool.false_ne_true⟩
    exact hname

theorem writes_superWord (hkind : t.kind = .superWord) : Writes (writeVisit f) t := by
  obtain ⟨⟨⟩, children⟩ := t
  cases hkind
  intro s loose above sheet hs _ hsheet
  rw [stuck_iff]
  refine meets_done (x := do
    let owner ← ownerOf s
    .ok { sheet with
      right := Sheet.doc { template := "super(" ++ nameText owner ++ ", self)" } })
    (by simp only [bind_assoc]; rfl) ?_
  refine ((meets_owner hs).map fun name hname => ?_).congr ?_
  · obtain ⟨htemplate, hloud⟩ : Slot.Tidy false ("super(" ++ nameText name ++ ", self)")
        ∧ Slot.Loud ("super(" ++ nameText name ++ ", self)") := by
      have hbraceless : Braceless ("super(" ++ nameText name ++ ", self)") :=
        ((by decide : Braceless "super(").append hname.1).append (by decide)
      have hone : OneLine ("super(" ++ nameText name ++ ", self)") :=
        ((by decide : OneLine "super(").append hname.2.oneLine).append (by decide)
      have hunblank : Unblank ("super(" ++ nameText name ++ ", self)") := by
        rw [String.append_assoc]
        exact Unblank.append (by decide) fun hempty => absurd hempty (by decide)
      exact Slot.tidy_loud [] ("super(" ++ nameText name ++ ", self)")
        ⟨by simp, ⟨hbraceless, hone⟩, decide_eq_true hunblank, by simp⟩
    have hbase : Sheet.Tidy { template := "super(" ++ nameText name ++ ", self)" } :=
      ⟨Doc.neat_empty, Doc.neat_empty, .inl htemplate⟩
    exact .of_operand (hsheet.setRight hbase.neat) rfl (.inr (hbase.voiced hloud))
  · exact (or_iff_left anyStuck_nil.1).trans (and_iff_left (of_decide_eq_true rfl)) |>.symm

include hd in
theorem writes_superConstructorCall (hkind : t.kind = .superConstructorCall) : Writes (writeVisit f) t := by
  obtain ⟨htemplate, -⟩ : Slot.Tidy false ("super(" ++ Slot.left ++ ", self).__init__(" ++ Slot.right ++ ")")
        ∧ Slot.Loud ("super(" ++ Slot.left ++ ", self).__init__(" ++ Slot.right ++ ")") :=
    Slot.tidy_loud [("super(", true), (", self).__init__(", false)] ")" (by decide)
  intro s loose above sheet hs _ hsheet
  have hvisit : writeVisit f s ⟨t, above⟩ sheet = (do
      let owner ← ownerOf s
      let inner ← (Cursor.mk t above).children.foldlM (fun inner child => f .loose child inner) {
        template := "super(" ++ Slot.left ++ ", self).__init__(" ++ Slot.right ++ ")"
        left := owner.elim (.atom .nothing) fun name => .atom (.text name) }
      .ok { sheet with right := inner.doc }) := by
    unfold writeVisit writeAccept
    rw [show (Cursor.mk t above).kind = .superConstructorCall from hkind]
    change ((ownerOf s >>= fun owner => _) >>= _) = _
    cases ownerOf s with
    | error failure => rfl
    | ok owner => cases owner <;> rfl
  have hinner : ∀ name : Option String, Neat (nameText name) → Sheet.Tidy {
      template := "super(" ++ Slot.left ++ ", self).__init__(" ++ Slot.right ++ ")"
      left := name.elim (.atom .nothing) fun name => .atom (.text name) } := by
    intro name hname
    refine ⟨?_, Doc.neat_empty, .inl htemplate⟩
    cases name with
    | none => exact ⟨_, rfl, hname⟩
    | some name => exact ⟨_, rfl, hname⟩
  rw [hvisit, stuck_iff]
  obtain ⟨⟨⟩, children⟩ := t
  cases hkind
  refine ((meets_owner hs).bind (R := Written _ above sheet) (q := ∃ u ∈ children, Stuck true u)
    fun name hname => ?_).congr (or_congr (and_iff_left (of_decide_eq_true rfl)).symm anyStuck_far.symm)
  refine (meets_inside (forall_beside hd) fits_loose hsheet (hinner name hname.2)).imp ?_
  rintro sheet' ⟨htidy, -⟩
  exact ⟨htidy, fun _ hspeaking => absurd hspeaking (of_decide_eq_true rfl), nofun⟩

theorem writes_word {word : String} (hneat : Neat word) (hne : word ≠ "")
    (hasking : t.kind ∉ askingKinds) (hvisited : visited t = [])
    (hvisit : ∀ s above sheet, writeVisit f s ⟨t, above⟩ sheet
      = .ok { sheet with right := Sheet.doc { left := .atom (.text word) } }) :
    Writes (writeVisit f) t := by
  intro s loose above sheet _ _ hsheet
  have hword : Sheet.Tidy { left := .atom (.text word) } :=
    ⟨Doc.neat_text hneat, Doc.neat_empty, .inl tidy_both⟩
  have hvoiced : (Sheet.doc { left := .atom (.text word) }).Voiced :=
    hword.voiced_of_operand rfl (.inl ⟨word, rfl, hneat, hne⟩)
  rw [hvisit, stuck_of_not_asking hasking, hvisited]
  exact (meets_ok (.of_operand (hsheet.setRight hvoiced.neat) rfl (.inr hvoiced))).congr anyStuck_nil.symm

theorem writes_thisWord (hkind : t.kind = .thisWord) : Writes (writeVisit f) t := by
  obtain ⟨⟨⟩, children⟩ := t
  cases hkind
  exact writes_word (by decide : Neat "self") (by decide) (of_decide_eq_true rfl) rfl
    fun _ _ _ => writeVisit_of_done rfl

theorem writes_voidType (hkind : t.kind = .voidType) : Writes (writeVisit f) t := by
  obtain ⟨⟨⟩, children⟩ := t
  cases hkind
  exact writes_word (by decide : Neat "None") (by decide) (of_decide_eq_true rfl) rfl
    fun _ _ _ => writeVisit_of_done rfl

theorem writes_classWord (hkind : t.kind = .classWord) : Writes (writeVisit f) t := by
  obtain ⟨⟨⟩, children⟩ := t
  cases hkind
  exact writes_word (by decide : Neat "__class__") (by decide) (of_decide_eq_true rfl) rfl
    fun _ _ _ => writeVisit_of_done rfl

include h hd in
theorem writes_question (hkind : t.kind = .question) : Writes (writeVisit f) t := by
  obtain ⟨hif, hloud⟩ : Slot.Tidy true (Slot.left ++ " if " ++ Slot.right)
      ∧ Slot.Loud (Slot.left ++ " if " ++ Slot.right) :=
    Slot.tidy_between (by decide) (by decide) (by decide)
  obtain ⟨helse, -⟩ : Slot.Tidy true (Slot.left ++ " else " ++ Slot.right)
      ∧ Slot.Loud (Slot.left ++ " else " ++ Slot.right) :=
    Slot.tidy_between (by decide) (by decide) (by decide)
  obtain ⟨⟨first, hfirst, hfirstKind⟩, second, hsecond, hsecondKind⟩ := h.choice hkind
  obtain ⟨⟨⟩, children⟩ := t
  cases hkind
  intro s loose above sheet hs _ _
  obtain ⟨htest, hd⟩ := forall_mem_append.1 hd
  obtain ⟨hyes, hno⟩ := forall_mem_append.1 hd
  rw [stuck_of_not_asking (of_decide_eq_true rfl)]
  refine meets_done (x := writeChoice f s _) rfl ?_
  unfold writeChoice
  rw [getElem?_children, getElem?_children, getElem?_children]
  refine ((meets_maybe (forall_beside htest) hs tidy_empty).bind fun condition hcondition =>
    (meets_maybe (forall_beside hyes) hs tidy_empty).bind fun left hleft =>
    (meets_maybe (forall_beside hno) hs tidy_empty).map fun other hother => ?_).congr
    (by rw [← anyStuck_near, ← anyStuck_near, ← anyStuck_near, ← anyStuck_append, ← anyStuck_append]; rfl)
  have hchoice : Sheet.Tidy ⟨Slot.left ++ " else " ++ Slot.right, condition.doc, other.doc⟩ :=
    ⟨hcondition.1.neat, hother.1.neat, .inr ⟨helse, hcondition.2 rfl first hfirst hfirstKind rfl⟩⟩
  exact .of_loud nofun
    ⟨hleft.1.neat, hchoice.neat, .inr ⟨hif, hleft.2 rfl second hsecond hsecondKind rfl⟩⟩ hloud

/-- The kinds of nodes with rules of their own. -/
def ruledKinds : List Kind :=
  [.castExpr, .bitShiftRight, .bitShiftRightAssign, .classConstructorCall, .dot, .expr, .ident,
    .instanceOf, .methodCall, .parenthesizedExpr, .thisConstructorCall, .staticArrayCreator, .superWord,
    .superConstructorCall, .thisWord, .question, .voidType, .classWord]

include h hd in
/-- All other nodes say nothing themselves. -/
theorem writes_unruled (htemplate : template? t.kind t.text = none) (hliteral : t.kind ∉ literals)
    (hkind : t.kind ∉ ruledKinds) : Writes (writeVisit f) t := by
  intro s loose above sheet hs _ hsheet
  have hcontains : literals.contains t.kind = false := by simpa using hliteral
  have hvisited : visited t = near t.children := by
    unfold visited
    rw [htemplate, h.noStep, hcontains]
    dsimp only
    rw [if_neg Bool.false_ne_true]
    split <;> first
      | next hruled => exact absurd (by rw [hruled]; decide) hkind
      | simp_all
  have haccept : writeAccept f s ⟨t, above⟩ sheet = .ok (.here sheet) := by
    obtain ⟨name, hname⟩ := Option.ne_none_iff_exists'.1 h.known
    have hstep : stepKind? (Cursor.mk t above).kind = none := h.noStep
    have hkinds : (Cursor.mk t above).kind = t.kind := rfl
    have htemplate' : template? (Cursor.mk t above).kind (Cursor.mk t above).text = none := htemplate
    unfold writeAccept
    rw [htemplate', hstep, hkinds, hcontains]
    dsimp only
    rw [if_neg Bool.false_ne_true]
    split <;> first
      | next hruled => exact absurd (by rw [hruled]; decide) hkind
      | simp_all
  have hasking : t.kind ∉ askingKinds := fun hmem => hkind
    ((by decide : ∀ kind ∈ askingKinds, kind ∈ ruledKinds) _ hmem)
  have hsilent : t.kind ∉ speakingKinds := by
    intro hspeaking
    have hfacts : ∀ kind ∈ speakingKinds, kind ∈ plainOperators ∨ (fixedTemplate? kind).isSome
        ∨ kind ∈ literals ∨ kind ∈ ruledKinds := by decide
    unfold template? at htemplate
    split at htemplate
    case isTrue => cases htemplate
    case isFalse hplain =>
      rcases hfacts _ hspeaking with hmem | hsome | hmem | hmem
      · exact hplain (contains_iff_mem.2 hmem)
      · rw [htemplate] at hsome
        cases hsome
      · exact hliteral hmem
      · exact hkind hmem
  rw [writeVisit_of_here haccept, stuck_of_not_asking hasking, hvisited, anyStuck_near]
  refine (meets_children (forall_beside (b := false) (by rwa [hvisited] at hd)) hs hsheet).imp fun sheet' htidy => ?_
  exact ⟨htidy, fun _ hspeaking => absurd hspeaking hsilent,
    fun hexpr => absurd (by rw [hexpr]; decide) hkind⟩

include h hd in
/-- The visit of a sound node writes it, if the visits of what it visits do. -/
theorem writes_visit : Writes (writeVisit f) t := by
  cases htemplate : template? t.kind t.text with
  | some template => exact writes_template h hd htemplate
  | none =>
  by_cases hliteral : t.kind ∈ literals
  · exact writes_literal h hliteral
  by_cases hkind : t.kind ∈ ruledKinds
  · simp only [ruledKinds, mem_cons, not_mem_nil, or_false] at hkind
    rcases hkind with hkind | hkind | hkind | hkind | hkind | hkind | hkind | hkind | hkind | hkind
      | hkind | hkind | hkind | hkind | hkind | hkind | hkind | hkind
    · exact writes_cast h hd hkind
    · exact writes_bitShiftRight hd hkind
    · exact writes_bitShiftRightAssign h hd hkind
    · exact writes_classConstructorCall h hd hkind
    · exact writes_dot hd hkind
    · exact writes_expr hd hkind
    · exact writes_ident h hkind
    · exact writes_instanceOf hd hkind
    · exact writes_methodCall h hd hkind
    · exact writes_parentheses h hd hkind
    · exact writes_thisConstructorCall h hd hkind
    · exact writes_staticArrayCreator hd hkind
    · exact writes_superWord hkind
    · exact writes_superConstructorCall hd hkind
    · exact writes_thisWord hkind
    · exact writes_question h hd hkind
    · exact writes_voidType hkind
    · exact writes_classWord hkind
  · exact writes_unruled h hd htemplate hliteral hkind

end

/-- Sound trees are written, unless they are stuck. -/
theorem Sound.writes (h : Sound t) : Writes write t := by
  induction h with
  | node h _ ih =>
    intro s loose above sheet hs habove hsheet
    rw [write_eq]
    exact writes_visit h ih hs habove hsheet

end Expression

end Transcriber
