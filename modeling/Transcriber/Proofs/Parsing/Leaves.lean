import Transcriber.Language

/-!
# A parser neither loses nor repeats tokens

Whatever a parser does, be it reading, dropping, making up or giving up, the leaves that it has put into the
tree are the tokens that it has passed, each once and in order.  Made-up leaves and the end of the text do not
count.  A parse has no tree only where the tokens break off before the end of the text, which they do where
scanning was interrupted.

* `Kept` — what a parsing step leaves behind, shown for each step and then by induction on the depth of a parse.
* `SourceLanguage.parse_leaves` — the main statement.
-/

namespace Transcriber.Grammar

open Transcriber.Lexical Transcriber.Grammar.Parser

/-- A leaf that stands for a token of the text before its end. -/
def Leaf.isRead (leaf : Leaf) : Bool := leaf.position.isSome && leaf.kind != Kind.endOfText

/-- The tokens of the text below a tree, from left to right. -/
def Tree.read (tree : Tree) : List Leaf := tree.leaves.filter Leaf.isRead

/-- Tokens as leaves at their positions. -/
def leavesOf (terminals : List Terminal) : List Leaf :=
  terminals.mapIdx fun position token => ⟨token.kind, token.text, some position⟩

/-- The tokens before a position. -/
def Reader.before (r : Reader) (position : Nat) : List Leaf := (leavesOf r.terminals.toList).take position

/-- The tokens of the text in the node being built. -/
def Session.read (s : Session) : List Leaf := s.children.reverse.flatMap Tree.read

/-- The tokens passed are the leaves added. -/
def Grown (r : Reader) (s s' : Session) : Prop :=
  ∃ more, s'.read = s.read ++ more ∧ r.before s'.position = r.before s.position ++ more

/-- The tokens break off before the end of the text. -/
def Reader.BreaksOff (r : Reader) : Prop := ∃ position, r.terminalAt? position = none

/-- A failure of a parsing step: the tokens break off, or the step may be `faulty` and the tokens passed are the
leaves added. -/
def Failed (r : Reader) (faulty : Prop) (s : Session) (fault : Fault) (s' : Session) : Prop :=
  if fault = .unreadable then r.BreaksOff else faulty ∧ Grown r s s'

/-- A result of a parsing step: the tokens passed are the leaves added, unless it is a failure. -/
def Kept {α : Type} (r : Reader) (faulty : Prop) (s : Session) : Except Fault α × Session → Prop
  | (.ok _, s') => Grown r s s'
  | (.error fault, s') => Failed r faulty s fault s'

/-- A parsing step with such results only. -/
def Keeps {α : Type} (r : Reader) (faulty : Prop) (x : Parser α) : Prop := ∀ s, Kept r faulty s (x r s)

/-- What a use of a rule may do: the tokens passed are those of its tree, unless it is a failure. -/
def Yields (r : Reader) (faulty : Prop) (x : Parser Tree) : Prop :=
  ∀ s, match x r s with
    | (.ok tree, s') => s'.children = s.children ∧ r.before s'.position = r.before s.position ++ tree.read
    | (.error fault, s') => Failed r faulty s fault s'

theorem leavesOfAll_eq (trees : List Tree) : Tree.leavesOfAll trees = trees.flatMap Tree.leaves := by
  induction trees with
  | nil => rfl
  | cons t ts ih => rw [Tree.leavesOfAll, ih, List.flatMap_cons]

theorem Tree.read_node (head : Head) (children : List Tree) :
    (Tree.node head children).read = children.flatMap Tree.read := by
  simp only [Tree.read, Tree.leaves, leavesOfAll_eq, List.filter_flatMap]
  rfl

variable {r : Reader} {s s' : Session}

theorem Grown.of_same (hc : s'.children = s.children) (hp : s'.position = s.position) : Grown r s s' :=
  ⟨[], by simp [Session.read, hc], by simp [hp]⟩

theorem Grown.trans {s'' : Session} (h : Grown r s s') (h' : Grown r s' s'') : Grown r s s'' := by
  obtain ⟨more, hread, hbefore⟩ := h
  obtain ⟨more', hread', hbefore'⟩ := h'
  exact ⟨more ++ more', by rw [hread', hread, List.append_assoc], by rw [hbefore', hbefore, List.append_assoc]⟩

/-- A tree is put last, and the position moves over its tokens. -/
theorem Grown.of_push {tree : Tree} (hc : s'.children = tree :: s.children)
    (hp : r.before s'.position = r.before s.position ++ tree.read) : Grown r s s' :=
  ⟨tree.read, by simp [Session.read, hc], hp⟩

section Steps

variable {α β : Type} {faulty : Prop}

theorem run_bind (x : Parser α) (f : α → Parser β) (s : Session) : (x >>= f) r s = match x r s with
      | (.ok a, s') => f a r s'
      | (.error fault, s') => (.error fault, s') := by
  simp only [bind, ReaderT.bind, ExceptT.bind, ExceptT.mk, StateT.bind]
  rcases x r s with ⟨_ | _, s'⟩ <;> rfl

theorem run_tryCatch (x : Parser α) (handle : Fault → Parser α) (s : Session) :
    (tryCatch x handle) r s = match x r s with
      | (.ok a, s') => (.ok a, s')
      | (.error fault, s') => handle fault r s' := by
  simp only [tryCatch, tryCatchThe, MonadExceptOf.tryCatch, ExceptT.tryCatch, ExceptT.mk, bind, StateT.bind]
  rcases x r s with ⟨_ | _, s'⟩ <;> rfl

theorem keeps_pure (a : α) : Keeps r faulty (pure a) := fun _ => .of_same rfl rfl

theorem failed_iff {s s' : Session} {fault : Fault} (h : fault ≠ .unreadable) :
    Failed r faulty s fault s' ↔ faulty ∧ Grown r s s' := by
  rw [Failed, if_neg h]

theorem keeps_throw {fault : Fault} (h : fault ≠ .unreadable) : Keeps r True (throw fault : Parser α) :=
  fun _ => (failed_iff h).2 ⟨trivial, .of_same rfl rfl⟩

theorem keeps_tooDeep : Keeps r True (throw .tooDeep : Parser α) := keeps_throw (by simp)

theorem keeps_unreadable (h : r.BreaksOff) : Keeps r faulty (throw .unreadable : Parser α) := fun _ => h

theorem keeps_get : Keeps r faulty (get : Parser Session) := fun _ => .of_same rfl rfl

theorem keeps_read : Keeps r faulty (read : Parser Reader) := fun _ => .of_same rfl rfl

theorem keeps_modify {f : Session → Session} (hc : ∀ s, (f s).children = s.children)
    (hp : ∀ s, (f s).position = s.position) : Keeps r faulty (modify f : Parser Unit) :=
  fun s => .of_same (hc s) (hp s)

theorem Failed.unreadable {s s' : Session} {fault : Fault} (h : Failed r False s fault s') :
    fault = .unreadable ∧ r.BreaksOff := by
  by_cases hfault : fault = .unreadable
  · rw [Failed, if_pos hfault] at h
    exact ⟨hfault, h⟩
  · exact ((failed_iff hfault).1 h).1.elim

theorem Failed.of_grown {s s' s'' : Session} {fault : Fault} (h : Grown r s s') (hs' : Failed r faulty s' fault s'') :
    Failed r faulty s fault s'' := by
  by_cases hfault : fault = .unreadable
  · rw [Failed, if_pos hfault] at hs' ⊢
    exact hs'
  · rw [failed_iff hfault] at hs' ⊢
    exact hs'.imp_right h.trans

theorem Kept.of_grown {s s' : Session} {result : Except Fault α × Session} (h : Grown r s s')
    (hs' : Kept r faulty s' result) : Kept r faulty s result := by
  rcases result with ⟨fault | a, s''⟩
  · exact Failed.of_grown h hs'
  · exact h.trans hs'

theorem keeps_bind {x : Parser α} {f : α → Parser β} (hx : Keeps r faulty x) (hf : ∀ a, Keeps r faulty (f a)) :
    Keeps r faulty (x >>= f) := by
  intro s
  rw [run_bind]
  have hs := hx s
  generalize x r s = result at hs ⊢
  rcases result with ⟨fault | a, s'⟩
  · exact hs
  · exact .of_grown hs (hf a s')

theorem keeps_ite {c : Prop} [Decidable c] {x y : Parser α} (hx : Keeps r faulty x) (hy : Keeps r faulty y) :
    Keeps r faulty (if c then x else y) := by
  split
  · exact hx
  · exact hy

theorem keeps_bind_read {f : Reader → Parser α} (h : Keeps r faulty (f r)) : Keeps r faulty (read >>= f) := by
  intro s
  rw [run_bind]
  exact h s

theorem keeps_terminalAt (position : Nat) : Keeps r faulty (terminalAt position) := by
  refine keeps_bind_read (keeps_bind (keeps_modify (fun _ => rfl) fun _ => rfl) fun _ => ?_)
  split
  · exact keeps_pure _
  · exact keeps_unreadable ⟨position, ‹_›⟩

theorem keeps_current : Keeps r faulty current := keeps_bind keeps_get fun _ => keeps_terminalAt _

theorem keeps_here : Keeps r faulty here := keeps_bind keeps_get fun _ => keeps_pure _

theorem keeps_previous : Keeps r faulty previous := keeps_bind keeps_get fun _ => keeps_pure _

/-- A token before the end stands at its position. -/
theorem getElem?_of_terminalAt? {position : Nat} {token : Terminal} (h : r.terminalAt? position = some token)
    (hend : token.kind ≠ Kind.endOfText) : r.terminals[position]? = some token := by
  unfold Reader.terminalAt? at h
  split at h
  · rwa [‹r.terminals[position]? = _›]
  · exact absurd (eq_of_beq (Option.filter_eq_some_iff.1 h).2) hend

theorem Grown.of_take {s : Session} {token : Terminal} (h : r.terminalAt? s.position = some token) :
    Grown r s (s.take token) := by
  refine .of_push rfl ?_
  have hread : (if s.recovering then Tree.error ⟨token.kind, token.text, some s.position⟩
      else Tree.leaf ⟨token.kind, token.text, some s.position⟩).read
        = if token.kind == Kind.endOfText then [] else [⟨token.kind, token.text, some s.position⟩] := by
    cases s.recovering <;> by_cases hend : token.kind = Kind.endOfText <;>
      simp [Tree.read, Tree.leaves, Leaf.isRead, hend]
  rw [hread, Session.take]
  by_cases hend : token.kind = Kind.endOfText
  · simp [hend]
  · simp only [beq_iff_eq, hend, if_false, Reader.before, leavesOf]
    rw [List.take_add_one, List.getElem?_mapIdx, Array.getElem?_toList, getElem?_of_terminalAt? h hend]
    rfl

theorem run_terminalAt (position : Nat) (s : Session) : terminalAt position r s =
    ((r.terminalAt? position).elim (.error .unreadable) .ok,
      { s with furthest := max s.furthest position }) := by
  have hread : (read : Parser Reader) r s = (.ok r, s) := rfl
  rw [terminalAt, run_bind, hread]
  dsimp only
  rw [run_bind]
  cases h : r.terminalAt? position <;> rfl

theorem keeps_consume : Keeps r faulty consume := by
  intro s
  have hrun : consume r s = (terminalAt s.position >>= fun token => do
      modify fun s => s.take token
      let _ ← current) r s := rfl
  rw [hrun, run_bind, run_terminalAt]
  cases h : r.terminalAt? s.position with
  | none => exact (⟨_, h⟩ : r.BreaksOff)
  | some token =>
    have htake : Grown r s (Session.take { s with furthest := max s.furthest s.position } token) :=
      .trans (.of_same rfl rfl) (.of_take h)
    exact .of_grown htake (keeps_bind keeps_current (fun _ => keeps_pure ()) _)

theorem keeps_reportMatch : Keeps r faulty reportMatch := keeps_modify (fun _ => rfl) fun _ => rfl

theorem keeps_next (site : State) : Keeps r faulty (next site) := by
  refine keeps_bind keeps_read fun _ => keeps_bind keeps_get fun _ => ?_
  split <;> exact keeps_pure _

theorem keeps_expectedAfter (callers : List State) (look : Look) : Keeps r faulty (expectedAfter callers look) := by
  induction callers generalizing look with
  | nil => exact keeps_pure _
  | cons caller callers ih => exact keeps_ite (keeps_bind (keeps_next _) fun _ => ih _) (keeps_pure _)

theorem keeps_expected (site : State) (callers : List State) : Keeps r faulty (expected site callers) :=
  keeps_bind (keeps_next _) fun _ => keeps_expectedAfter _ _

theorem keeps_recoverySet (callers : List State) : Keeps r faulty (recoverySet callers) := by
  induction callers with
  | nil => exact keeps_pure _
  | cons caller callers ih => exact keeps_bind (keeps_next _) fun _ => keeps_bind ih fun _ => keeps_pure _

theorem keeps_complain (position : Nat) (wording : Wording) : Keeps r faulty (complain position wording) :=
  keeps_modify (fun _ => rfl) fun _ => rfl

theorem keeps_reportFault (callers : List State) (fault : Fault) : Keeps r faulty (reportFault callers fault) := by
  refine keeps_bind keeps_get fun _ => keeps_ite (keeps_pure _) ?_
  cases fault with
  | unreadable => exact keeps_pure _
  | tooDeep => exact keeps_bind keeps_here fun _ => keeps_complain _ _
  | mismatch site =>
    exact keeps_bind keeps_current fun _ => keeps_bind (keeps_expected _ _) fun _ =>
      keeps_bind keeps_here fun _ => keeps_bind keeps_read fun _ => keeps_complain _ _
  | noAlternative site start offending =>
    refine keeps_bind (keeps_terminalAt _) fun _ => keeps_bind (keeps_terminalAt _) fun _ => ?_
    exact keeps_ite (keeps_complain _ _) (keeps_bind keeps_read fun _ =>
      keeps_bind (keeps_terminalAt _) fun _ => keeps_complain _ _)

theorem keeps_skipUntil (kinds : TokenSet) (fuel : Nat) : Keeps r faulty (skipUntil kinds fuel) := by
  induction fuel with
  | zero => exact keeps_pure _
  | succ fuel ih =>
    exact keeps_bind keeps_current fun _ => keeps_ite (keeps_pure _) (keeps_bind keeps_consume fun _ => ih)

theorem keeps_left : Keeps r faulty left := keeps_bind keeps_read fun _ => keeps_pure _

section

variable (callers : List State) (site : State)

theorem keeps_recover : Keeps r faulty (recover callers site) := by
  have hrest : Keeps r faulty (do
      modify fun s => { s with lastFault := some s.position, faultSites := site :: s.faultSites }
      skipUntil (← recoverySet callers) (← left)) :=
    keeps_bind (keeps_modify (fun _ => rfl) fun _ => rfl) fun _ =>
      keeps_bind (keeps_recoverySet _) fun _ => keeps_bind keeps_left fun _ => keeps_skipUntil _ _
  exact keeps_bind keeps_get fun _ => keeps_ite (keeps_bind keeps_consume fun _ => hrest) hrest

theorem keeps_reportUnwanted : Keeps r faulty (reportUnwanted callers site) :=
  keeps_bind keeps_get fun _ => keeps_ite (keeps_pure _) <|
    keeps_bind keeps_current fun _ => keeps_bind (keeps_expected _ _) fun _ =>
      keeps_bind keeps_here fun _ => keeps_bind keeps_read fun _ => keeps_complain _ _

theorem keeps_dropOne : Keeps r faulty (dropOne callers site) :=
  keeps_bind keeps_get fun _ => keeps_bind (keeps_terminalAt _) fun _ => keeps_bind (keeps_expected _ _) fun _ =>
    keeps_ite (keeps_bind (keeps_reportUnwanted _ _) fun _ => keeps_bind keeps_consume fun _ =>
      keeps_bind keeps_reportMatch fun _ => keeps_pure _) (keeps_pure _)

theorem keeps_syncStart : Keeps r True (syncStart callers site) :=
  keeps_bind keeps_get fun _ => keeps_bind keeps_read fun _ => keeps_ite (keeps_pure _) <|
    keeps_bind (keeps_next _) fun _ => keeps_bind keeps_current fun _ => keeps_ite (keeps_pure _) <|
      keeps_bind (keeps_dropOne _ _) fun _ => keeps_ite (keeps_pure _) (keeps_throw (by simp))

theorem keeps_syncBack : Keeps r faulty (syncBack callers site) :=
  keeps_bind keeps_get fun _ => keeps_bind keeps_read fun _ => keeps_ite (keeps_pure _) <|
    keeps_bind (keeps_next _) fun _ => keeps_bind keeps_current fun _ => keeps_ite (keeps_pure _) <|
      keeps_bind (keeps_reportUnwanted _ _) fun _ => keeps_bind (keeps_expected _ _) fun _ =>
        keeps_bind (keeps_recoverySet _) fun _ => keeps_bind (keeps_modify (fun _ => rfl) fun _ => rfl) fun _ =>
          keeps_bind keeps_left fun _ => keeps_skipUntil _ _

theorem keeps_recoverToken : Keeps r True (recoverToken callers site) := by
  refine keeps_bind keeps_read fun _ => keeps_ite (keeps_throw (by simp)) ?_
  refine keeps_bind (keeps_dropOne _ _) fun _ => keeps_ite ?_ ?_
  · exact keeps_bind keeps_current fun _ => keeps_bind keeps_here fun _ => keeps_bind keeps_consume fun _ =>
      keeps_pure _
  · refine keeps_bind keeps_read fun _ => keeps_bind keeps_current fun _ => keeps_ite ?_ (keeps_throw (by simp))
    refine keeps_bind (keeps_expected _ _) fun _ => keeps_bind keeps_get fun _ => ?_
    exact keeps_ite (keeps_bind keeps_here fun _ => keeps_bind (keeps_complain _ _) fun _ => keeps_pure _)
      (keeps_pure _)

end

theorem keeps_setLabel (label : Option String) (mark : Mark) : Keeps r faulty (setLabel label mark) := by
  cases label with
  | none => exact keeps_pure _
  | some name => exact keeps_modify (fun _ => rfl) fun _ => rfl

theorem keeps_madeUp {leaf : Leaf} (h : leaf.position.isNone) :
    Keeps r faulty (modify fun s => { s with children := .error leaf :: s.children } : Parser Unit) := by
  refine fun s => .of_push rfl ?_
  simp [Tree.read, Tree.leaves, Leaf.isRead, Option.isNone_iff_eq_none.1 h]

theorem keeps_takeToken (callers : List State) (site : State) (kind : Kind) (label : Option String) :
    Keeps r True (takeToken callers site kind label) := by
  refine keeps_bind keeps_current fun _ => keeps_ite ?_ ?_
  · exact keeps_bind keeps_reportMatch fun _ => keeps_bind keeps_consume fun _ => keeps_setLabel _ _
  · refine keeps_bind (keeps_recoverToken _ _) fun leaf => ?_
    split
    · exact keeps_bind (keeps_madeUp ‹_›) fun _ => keeps_setLabel _ _
    · exact keeps_setLabel _ _

theorem keeps_takeOneOf (callers : List State) (site : State) (kinds : TokenSet) (label : Option String) :
    Keeps r True (takeOneOf callers site kinds label) := by
  refine keeps_bind keeps_current fun _ => keeps_bind (keeps_setLabel _ _) fun _ => keeps_ite ?_ ?_
  · exact keeps_bind keeps_reportMatch fun _ => keeps_consume
  · exact keeps_bind (keeps_recoverToken _ _) fun _ => keeps_setLabel _ _

theorem exists_of_predictFully {q : Question} {input : Ahead} {bound ahead : Nat} {set : List Path}
    (h : (predictFully q input bound ahead set).1 = .unreadable) : ∃ ahead, input ahead = none := by
  fun_induction predictFully q input bound ahead set with
  | case2 bound ahead set hnone => exact ⟨ahead, hnone⟩
  | case6 bound ahead set kind hkind reached hreached hundecided next ih => exact ih h
  | case1 | case3 | case4 | case5 => cases h

theorem exists_of_predictLocally {q : Question} {input : Ahead} {bound fuel ahead : Nat} {set : List Path}
    (h : (predictLocally q input bound fuel ahead set).1 = .unreadable) : ∃ ahead, input ahead = none := by
  fun_induction predictLocally q input bound fuel ahead set with
  | case2 fuel ahead set hnone => exact ⟨ahead, hnone⟩
  | case8 => exact exists_of_predictFully h
  | case9 fuel ahead set kind hkind reached hreached hseveral hgoes next ih => exact ih h
  | case1 | case3 | case4 | case5 | case6 | case7 => cases h

theorem keeps_predictAt (callers : List State) (level : Nat) (site : State) :
    Keeps r True (predictAt callers level site) := by
  refine keeps_bind_read (keeps_bind keeps_get fun s => ?_)
  dsimp only
  generalize hpredict : predict _ _ _ = result
  obtain ⟨prediction, furthest⟩ := result
  refine keeps_bind (keeps_modify (fun _ => rfl) fun _ => rfl) fun _ => ?_
  cases prediction with
  | alt number => exact keeps_pure _
  | noneLeft ahead => exact keeps_throw (by simp)
  | unreadable =>
    obtain ⟨ahead, hahead⟩ := exists_of_predictLocally (congrArg Prod.fst hpredict)
    exact keeps_unreadable ⟨s.position + ahead, Option.map_eq_none_iff.1 hahead⟩

theorem keeps_chooseByToken (sets : List TokenSet) : Keeps r faulty (chooseByToken sets) := by
  refine keeps_bind keeps_current fun _ => ?_
  split <;> exact keeps_pure _

theorem keeps_visit (entering : Bool) (rule start : Nat) : Keeps r faulty (visit entering rule start) :=
  keeps_modify (fun _ => rfl) fun _ => rfl

theorem keeps_tryCatch {body : Parser α} {handle : Fault → Parser α} (hbody : Keeps r True body)
    (hunreadable : ∀ s, handle .unreadable r s = (.error .unreadable, s))
    (hhandle : ∀ fault, fault ≠ .unreadable → Keeps r faulty (handle fault)) :
    Keeps r faulty (tryCatch body handle) := by
  intro s
  rw [run_tryCatch]
  have hs := hbody s
  generalize body r s = result at hs ⊢
  rcases result with ⟨fault | a, s'⟩
  · by_cases hfault : fault = .unreadable
    · subst hfault
      dsimp only
      rw [hunreadable]
      exact hs
    · exact .of_grown ((failed_iff hfault).1 hs).2 (hhandle fault hfault s')
  · exact hs

/-- Putting the tree of a rule into the node. -/
theorem keeps_bind_tree {x : Parser Tree} {f : Tree → Parser α} (hx : Yields r faulty x)
    (hf : ∀ tree s, ∃ s', Kept r faulty s' (f tree r s) ∧ s'.children = tree :: s.children ∧ s'.position = s.position) :
    Keeps r faulty (x >>= f) := by
  intro s
  rw [run_bind]
  have hs := hx s
  generalize x r s = result at hs ⊢
  rcases result with ⟨fault | tree, s'⟩
  · exact hs
  · obtain ⟨s'', hkept, hchildren, hposition⟩ := hf tree s'
    exact .of_grown (.of_push (hchildren.trans (by rw [hs.1])) (by rw [hposition, hs.2])) hkept

theorem keeps_orRecover {body : Parser Unit} (hr : r.strict = false) (hbody : Keeps r True body)
    (callers : List State) : Keeps r faulty (orRecover callers body) := by
  refine keeps_tryCatch hbody (fun s => ?_) fun fault hfault => keeps_bind_read ?_
  · rw [run_bind]
    change (if r.strict then _ else _ : Parser Unit) r s = _
    rw [hr]
    rfl
  · rw [hr]
    cases fault with
    | unreadable => exact absurd rfl hfault
    | tooDeep =>
      exact keeps_bind (keeps_reportFault _ _) fun _ => keeps_bind (keeps_recoverySet _) fun _ =>
        keeps_bind keeps_left fun _ => keeps_skipUntil _ _
    | mismatch site => exact keeps_bind (keeps_reportFault _ _) fun _ => keeps_recover _ _
    | noAlternative site start offending => exact keeps_bind (keeps_reportFault _ _) fun _ => keeps_recover _ _

/-- The content of a node is taken into a session of its own, which has no children yet. -/
theorem run_buildNode (rule : Nat) (content : Nat → Parser Unit) (s : Session) :
    buildNode rule content r s = (content s.position >>= fun _ => do
      let stop ← previous
      visit false rule s.position
      let inside ← get
      set { inside with children := s.children, labels := s.labels }
      return .node ⟨rule, s.position, stop, inside.labels.reverse⟩ inside.children.reverse) r
        { s with children := [], labels := [], visits := ⟨true, rule, s.position⟩ :: s.visits } := rfl

theorem yields_buildNode {rule : Nat} {content : Nat → Parser Unit}
    (h : ∀ start, Keeps r False (content start)) : Yields r faulty (buildNode rule content) := by
  intro s
  rw [run_buildNode, run_bind]
  have hs := h s.position { s with
    children := [], labels := [], visits := ⟨true, rule, s.position⟩ :: s.visits }
  generalize content s.position r _ = result at hs ⊢
  rcases result with ⟨fault | _, s'⟩
  · obtain ⟨rfl, hbreaks⟩ := hs.unreadable
    exact hbreaks
  · obtain ⟨more, hread, hbefore⟩ := hs
    refine ⟨rfl, ?_⟩
    rw [Tree.read_node]
    exact hbefore.trans (congrArg _ hread.symm)

end Steps

/-- What the parsing functions do within some depth. -/
structure Careful (r : Reader) (depth : Nat) : Prop where
  rule : ∀ rule level callers, Yields r True (parseRule depth rule level callers)
  operators : ∀ rule start callers level entry inner back alternatives,
    Keeps r True (parseOperators depth rule start callers level entry inner back alternatives)
  steps : ∀ callers level steps, Keeps r True (parseSteps depth callers level steps)
  step : ∀ callers level step, Keeps r True (parseStep depth callers level step)
  choice : ∀ callers level site alternatives, Keeps r True (parseChoice depth callers level site alternatives)
  round : ∀ callers level inner alternatives, Keeps r True (parseRound depth callers level inner alternatives)
  rounds : ∀ callers level site inner back alternatives,
    Keeps r True (parseRounds depth callers level site inner back alternatives)

namespace Careful

variable {depth : Nat}

theorem zero : Careful r 0 where
  rule _ _ _ s := by
    rw [parseRule]
    exact (failed_iff (by simp)).2 ⟨trivial, .of_same rfl rfl⟩
  operators _ _ _ _ _ _ _ _ := by
    rw [parseOperators]
    exact keeps_tooDeep
  steps _ _ _ := by
    rw [parseSteps]
    exact keeps_tooDeep
  step _ _ _ := by
    rw [parseStep]
    exact keeps_tooDeep
  choice _ _ _ _ := by
    rw [parseChoice]
    exact keeps_tooDeep
  round _ _ _ _ := by
    rw [parseRound]
    exact keeps_tooDeep
  rounds _ _ _ _ _ _ := by
    rw [parseRounds]
    exact keeps_tooDeep

theorem operators_succ (h : Careful r depth) (rule start : Nat) (callers : List State) (level : Nat)
    (entry inner back : State) (alternatives : List (List Step)) :
    Keeps r True (parseOperators (depth + 1) rule start callers level entry inner back alternatives) := by
  rw [parseOperators]
  refine keeps_bind (keeps_predictAt _ _ _) fun _ => keeps_ite ?_ (keeps_pure _)
  refine keeps_bind (keeps_visit _ _ _) fun _ => keeps_bind (keeps_syncStart _ _) fun _ => ?_
  refine keeps_bind (keeps_predictAt _ _ _) fun _ => keeps_bind keeps_previous fun _ => ?_
  refine keeps_bind ?_ fun _ => keeps_bind (keeps_visit _ _ _) fun _ => keeps_bind (h.steps _ _ _) fun _ =>
    keeps_bind (keeps_syncBack _ _) fun _ => h.operators _ _ _ _ _ _ _ _
  -- Wrapping the children into a node leaves their leaves as they are.
  intro s
  exact ⟨[], by simp [Session.read, Tree.read_node], by simp⟩

section

variable (h : Careful r depth) (callers : List State) (level : Nat)
include h

theorem steps_succ (steps : List Step) :
    Keeps r True (parseSteps (depth + 1) callers level steps) := by
  cases steps with
  | nil =>
    rw [parseSteps]
    exact keeps_pure _
  | cons step steps =>
    rw [parseSteps]
    exact keeps_bind (h.step _ _ _) fun _ => h.steps _ _ _

theorem choice_succ (site : State) (alternatives : List (List Step)) :
    Keeps r True (parseChoice (depth + 1) callers level site alternatives) := by
  rw [parseChoice]
  refine keeps_bind keeps_read fun _ => ?_
  split
  · exact keeps_bind (keeps_chooseByToken _) fun _ =>
      keeps_ite (keeps_bind keeps_get fun _ => keeps_bind (keeps_throw (by simp)) fun _ => h.steps _ _ _)
        (h.steps _ _ _)
  · exact keeps_bind (keeps_predictAt _ _ _) fun _ => h.steps _ _ _

theorem round_succ (inner : State) (alternatives : List (List Step)) :
    Keeps r True (parseRound (depth + 1) callers level inner alternatives) := by
  unfold parseRound
  split
  · exact h.steps _ _ _
  · exact keeps_bind (keeps_syncStart _ _) fun _ => h.choice _ _ _ _

theorem rounds_succ (site inner back : State) (alternatives : List (List Step)) :
    Keeps r True (parseRounds (depth + 1) callers level site inner back alternatives) := by
  have hrest (number : Nat) : Keeps r True (do
      if number == 1 then
        parseRound depth callers level inner alternatives
        syncBack callers back
        parseRounds depth callers level site inner back alternatives) :=
    keeps_ite (keeps_bind (h.round _ _ _ _) fun _ => keeps_bind (keeps_syncBack _ _) fun _ =>
      h.rounds _ _ _ _ _ _) (keeps_pure _)
  rw [parseRounds]
  refine keeps_bind keeps_read fun _ => ?_
  split
  · exact keeps_bind (keeps_chooseByToken _) hrest
  · exact keeps_bind (keeps_predictAt _ _ _) hrest

theorem step_succ (step : Step) : Keeps r True (parseStep (depth + 1) callers level step) := by
  cases step with
  | token site kind label =>
    rw [parseStep]
    exact keeps_takeToken _ _ _ _
  | oneOf site kinds label =>
    rw [parseStep]
    exact keeps_takeOneOf _ _ _ _
  | guard site bound =>
    rw [parseStep]
    exact keeps_pure _
  | call site follow rule level' label =>
    rw [parseStep]
    refine keeps_bind_tree (h.rule _ _ _) fun tree s => ?_
    exact ⟨{ s with children := tree :: s.children }, keeps_setLabel _ _ _, rfl, rfl⟩
  | choice site alternatives =>
    rw [parseStep]
    exact keeps_bind (keeps_syncStart _ _) fun _ => h.choice _ _ _ _
  | optional site alternatives =>
    rw [parseStep]
    refine keeps_bind (keeps_syncStart _ _) fun _ => keeps_bind keeps_read fun _ => ?_
    split
    · exact keeps_bind (keeps_chooseByToken _) fun _ => keeps_ite (h.steps _ _ _) (keeps_pure _)
    · exact keeps_bind (keeps_predictAt _ _ _) fun _ => h.steps _ _ _
  | star entry inner back alternatives =>
    rw [parseStep]
    exact keeps_bind (keeps_syncStart _ _) fun _ => h.rounds _ _ _ _ _ _
  | plus inner back alternatives =>
    rw [parseStep]
    exact keeps_bind (keeps_syncStart _ _) fun _ => keeps_bind (h.round _ _ _ _) fun _ =>
      keeps_bind (keeps_syncBack _ _) fun _ => h.rounds _ _ _ _ _ _

end

/-- Within a rule, every failure but one of reading is recovered from. -/
theorem rule_succ (h : Careful r depth) (hr : r.strict = false) (faulty : Prop) (rule level : Nat)
    (callers : List State) :
    Yields r faulty (parseRule (depth + 1) rule level callers) := by
  rw [parseRule]
  refine yields_buildNode fun start => keeps_orRecover hr ?_ callers
  refine keeps_bind keeps_read fun _ => ?_
  split
  · exact keeps_pure _
  · refine keeps_bind (h.steps _ _ _) fun _ => ?_
    split
    · exact keeps_pure _
    · exact keeps_bind (keeps_syncStart _ _) fun _ => h.operators _ _ _ _ _ _ _ _

end Careful

theorem careful (hr : r.strict = false) (depth : Nat) : Careful r depth := by
  induction depth with
  | zero => exact .zero
  | succ depth ih =>
    exact {
      rule := ih.rule_succ hr True
      operators := ih.operators_succ
      steps := ih.steps_succ
      step := ih.step_succ
      choice := ih.choice_succ
      round := ih.round_succ
      rounds := ih.rounds_succ }

theorem yields_parseWithin (depth : Nat) (table : Table) (terminals : List Terminal) (rule : Nat) :
    let outcome := parseWithin depth table false terminals rule
    match outcome.tree with
    | .ok tree => tree.read = (leavesOf terminals).take outcome.position
    | .error fault => fault = .unreadable ∧ Reader.BreaksOff ⟨table, terminals.toArray, false⟩ := by
  let r : Reader := ⟨table, terminals.toArray, false⟩
  have hrun : parseWithin depth table false terminals rule =
      let result := (current >>= fun _ => parseRule (depth + 1) rule 0 []) r .begin
      ⟨result.1, result.2.complaints.reverse, result.2.visits.reverse, result.2.position, result.2.furthest⟩ := rfl
  have hlook : current r .begin = terminalAt 0 r .begin := rfl
  rw [hrun, run_bind, hlook, run_terminalAt]
  cases hfirst : r.terminalAt? 0 with
  | none => exact ⟨rfl, 0, hfirst⟩
  | some token =>
    have hyields := (careful (r := r) rfl depth).rule_succ rfl False rule 0 []
      { Session.begin with furthest := max Session.begin.furthest 0 }
    dsimp only [Option.elim_some]
    generalize parseRule (depth + 1) rule 0 [] r _ = result at hyields ⊢
    rcases result with ⟨fault | tree, s'⟩
    · exact hyields.unreadable
    · exact hyields.2.symm

end Transcriber.Grammar

namespace Transcriber

open Transcriber.Lexical Transcriber.Grammar

/-- A scan that is not interrupted comes to the end of the text. -/
theorem Lexical.exists_end_of_scanFrom {rules : List TokenRule} {probing : Bool} {fuel found : Nat} {place : Place}
    {text : List Char} (h : (scanFrom rules probing fuel place found text).interrupted = false) :
    ∃ tokens last, (scanFrom rules probing fuel place found text).tokens = tokens ++ [endToken last] := by
  fun_induction scanFrom rules probing fuel place found text with
  | case1 place => exact ⟨[], place, rfl⟩
  | case2 fuel place => exact ⟨[], place, rfl⟩
  | case3 => cases h
  | case4 fuel place found c cs kind length hlongest taken token rest ih =>
    obtain ⟨tokens, last, htokens⟩ := ih h
    exact ⟨token :: tokens, last, congrArg (token :: ·) htokens⟩
  | case5 fuel place found c cs length hlongest taken rest ih => exact ih h

/-- Where tokens break off, scanning was interrupted. -/
theorem SourceLanguage.interrupted_of_breaksOff {l : SourceLanguage} {probing : Bool} {text : String} {table : Table}
    {strict : Bool} (h : Reader.BreaksOff ⟨table, (terminals (l.scan probing text).tokens).toArray, strict⟩) :
    (l.scan probing text).interrupted = true := by
  refine Bool.of_not_eq_false fun hwhole => ?_
  obtain ⟨tokens, last, htokens⟩ := exists_end_of_scanFrom hwhole
  obtain ⟨position, hnone⟩ := h
  have hend : (terminals (l.scan probing text).tokens).getLast? = some ⟨Kind.endOfText, "<EOF>"⟩ := by
    rw [scan, Lexical.scan, htokens]
    simp [terminals, endToken]
  unfold Reader.terminalAt? at hnone
  split at hnone
  · cases hnone
  · simp [hend] at hnone

/-- The tree of a parse has the visible tokens before the current position as its leaves, each once and in order,
but for made-up leaves and the end of the text.  There is a tree unless scanning was interrupted. -/
def Grammar.Outcome.Reads (outcome : Outcome) (found : Scan) : Prop :=
  match outcome.tree with
  | .ok tree => tree.read = (leavesOf (SourceLanguage.terminals found.tokens)).take outcome.position
  | .error fault => fault = .unreadable ∧ found.interrupted = true

theorem SourceLanguage.parseWithin_reads (l : SourceLanguage) (probing : Bool) (rule : Nat) (text : String)
    (depth : Nat) :
    (parseWithin depth l.table false (terminals (l.scan probing text).tokens) rule).Reads (l.scan probing text) := by
  have hyields := yields_parseWithin depth l.table (terminals (l.scan probing text).tokens) rule
  unfold Outcome.Reads
  generalize parseWithin depth l.table false (terminals (l.scan probing text).tokens) rule = outcome at hyields ⊢
  rcases outcome with ⟨fault | tree, complaints, visits, position, furthest⟩
  · exact hyields.imp_right interrupted_of_breaksOff
  · exact hyields

theorem SourceLanguage.parse_reads (l : SourceLanguage) (probing : Bool) (rule : Nat) (text : String) :
    (l.parse false probing rule text).outcome.Reads (l.scan probing text) :=
  l.parseWithin_reads probing rule text _

/-- Every parse that goes on after problems reads its tokens so, however often they do not fit, and however deep it
goes. -/
theorem SourceLanguage.parse_leaves (l : SourceLanguage) (probing : Bool) (rule : Nat) (text : String) :
    (l.parse false probing rule text).outcome.Reads (l.scan probing text)
      ∧ ∀ depth, (parseWithin depth l.table false (terminals (l.scan probing text).tokens) rule).Reads
          (l.scan probing text) :=
  ⟨l.parse_reads probing rule text, l.parseWithin_reads probing rule text⟩

example : (java.parse false false ((java.table.network.ruleIndex? "primitiveType").getD 0)
    "int /* wide */ x").outcome.tree.toOption.map Tree.read
      = some [⟨java.grammar.vocabulary.kindOf "INT", "int", some 0⟩] := by decide +kernel

end Transcriber
