import Transcriber.Proofs.Parsing.Balance
import Transcriber.Proofs.Parsing.Leaves

/-!
# Steps of a strict parser

A strict parser ends with the first fault.  A step is described by what holds if it succeeds and by the reason
why it may fail, so that a description of the steps of a rule is one of the rule.

* `Ends` — such a description.
* `ends_parseRounds`, `ends_choice`, `ends_call` — repetitions, choices and calls.
-/

namespace Transcriber.Grammar

open Transcriber.Lexical Transcriber.Grammar.Parser

/-- What a strict parser of documentation comments reads. -/
structure Reads (r : Reader) (kinds : List Kind) : Prop where
  strict : r.strict = true
  table : r.table = javadoc.table
  terminal : ∀ p, ∃ token, r.terminalAt? p = some token ∧ token.kind = kindAt kinds p

theorem Reads.network {r : Reader} {kinds : List Kind} (hr : Reads r kinds) : r.table.network = braceNet := by
  rw [hr.table, braceNet]

/-- How a parsing step ends: with a result as it is wanted, or with a fault for a reason. -/
def Ends {α : Type} (r : Reader) (x : Parser α) (s : Session) (good : α → Session → Prop) (why : Prop) : Prop :=
  match x r s with
  | (.ok a, s') => good a s'
  | (.error _, _) => why

section Ends

variable {α β : Type} {r : Reader} {kinds : List Kind} {s : Session} {x : Parser α} {f : α → Parser β}
  {good : α → Session → Prop} {why : Prop}

theorem Ends.bind {P : α → Session → Prop} {good : β → Session → Prop} (hx : Ends r x s P why)
    (hf : ∀ a s', P a s' → Ends r (f a) s' good why) : Ends r (x >>= f) s good why := by
  rw [Ends, run_bind]
  rw [Ends] at hx
  generalize x r s = result at hx ⊢
  obtain ⟨fault | a, s'⟩ := result
  · exact hx
  · exact hf a s' hx

theorem Ends.imp {good' : α → Session → Prop} {why' : Prop} (hx : Ends r x s good why)
    (hgood : ∀ a s', good a s' → good' a s') (hwhy : why → why') : Ends r x s good' why' := by
  rw [Ends] at hx ⊢
  generalize x r s = result at hx ⊢
  obtain ⟨fault | a, s'⟩ := result
  · exact hwhy hx
  · exact hgood a s' hx

/-- A step that fails for a reason of its own, and what follows it. -/
theorem Ends.next {P : α → Session → Prop} {good : β → Session → Prop} {why' : Prop} (hx : Ends r x s P why')
    (hwhy : why' → why) (hf : ∀ a s', P a s' → Ends r (f a) s' good why) : Ends r (x >>= f) s good why :=
  (hx.imp (fun _ _ => id) hwhy).bind hf

theorem Ends.of_run {a : α} {s' : Session} {good : β → Session → Prop} (h : x r s = (.ok a, s'))
    (hf : Ends r (f a) s' good why) : Ends r (x >>= f) s good why := by
  rwa [Ends, run_bind, h]

theorem ends_read {f : Reader → Parser α} (h : Ends r (f r) s good why) : Ends r (read >>= f) s good why :=
  .of_run rfl h

theorem ends_get {f : Session → Parser α} (h : Ends r (f s) s good why) : Ends r (get >>= f) s good why :=
  .of_run rfl h

/-- The first and the last token of each node of a rule, a node before those below it. -/
def Tree.spans (rule : Nat) (tree : Tree) : List (Nat × Option Nat) :=
  (tree.nodes.filter fun node => node.1.rule == rule).map fun node => (node.1.start, node.1.stop)

/-- The braces in the node being built. -/
def Session.braces (s : Session) : List (Nat × Option Nat) := s.children.reverse.flatMap (Tree.spans 19)

theorem nodesOfAll_eq (trees : List Tree) : Tree.nodesOfAll trees = trees.flatMap Tree.nodes := by
  induction trees with
  | nil => rfl
  | cons t ts ih => rw [Tree.nodesOfAll, ih, List.flatMap_cons]

theorem Tree.spans_node (rule : Nat) (head : Head) (children : List Tree) : (Tree.node head children).spans rule =
    (if head.rule = rule then [(head.start, head.stop)] else []) ++ children.flatMap (Tree.spans rule) := by
  rw [spans, nodes, nodesOfAll_eq, List.filter_cons]
  split <;> simp_all [List.filter_flatMap, List.map_flatMap] <;> rfl

/-- The position and the node being built are the same. -/
def Session.Still (s s' : Session) : Prop := s'.position = s.position ∧ s'.children = s.children

theorem ends_current (hr : Reads r kinds) : Ends r current s
    (fun token s' => s.Still s' ∧ token.kind = kindAt kinds s.position) why := by
  obtain ⟨token, htoken, hkind⟩ := hr.terminal s.position
  have hrun : current r s = terminalAt s.position r s := rfl
  rw [Ends, hrun, run_terminalAt, htoken]
  exact ⟨⟨rfl, rfl⟩, hkind⟩

theorem ends_modify (f : Session → Session) : Ends r (modify f) s (fun _ s' => s' = f s) why := rfl

/-- The token at the position is put last into the node, which has no braces in it. -/
def Session.Took (s s' : Session) : Prop := s'.position = s.position + 1 ∧ s'.braces = s.braces

theorem Session.Still.took {s₁ s' : Session} (h : s.Still s₁) (h' : s₁.Took s') : s.Took s' :=
  ⟨h'.1.trans (congrArg (· + 1) h.1), h'.2.trans (congrArg (·.reverse.flatMap (Tree.spans 19)) h.2)⟩

section

variable (hr : Reads r kinds)
include hr

theorem ends_consume (hkind : kindAt kinds s.position ≠ Kind.endOfText) :
    Ends r consume s (fun _ s' => s.Took s') why := by
  refine (ends_current hr).bind ?_
  rintro token s₁ ⟨hstill, htoken⟩
  refine (ends_modify _).bind fun _ s₂ hs₂ => (ends_current hr).bind ?_
  rintro _ s₃ ⟨hstill', -⟩
  have hnode : ∀ leaf, (if s₁.recovering then Tree.error leaf else Tree.leaf leaf).spans 19 = [] := by
    intro leaf
    cases s₁.recovering <;> rfl
  have hposition : s₃.position = s.position + 1 := by
    rw [hstill'.1, hs₂, Session.take, htoken, if_neg (by simpa using hkind), hstill.1]
  refine ⟨hposition, ?_⟩
  rw [Session.braces, hstill'.2, hs₂, Session.take, List.reverse_cons, List.flatMap_append, List.flatMap_singleton,
    hnode, List.append_nil, hstill.2]
  rfl

theorem run_recoverToken (callers : List State) (site : State) (s : Session) :
    recoverToken callers site r s = (.error (.mismatch site), s) := by
  rw [recoverToken, run_bind]
  change (if r.strict then throw _ else _ : Parser Leaf) r s = _
  rw [hr.strict]
  rfl

/-- Taking the current token once it is known to fit. -/
theorem ends_fitting {s₁ : Session} (hstill : s.Still s₁)
    (hkind : kindAt kinds s.position ≠ Kind.endOfText) :
    Ends r (reportMatch >>= fun _ => consume) s₁ (fun _ s' => s.Took s') why := by
  refine (ends_modify _).bind fun _ s₂ hs₂ => ?_
  have hkind' : kindAt kinds s₂.position ≠ Kind.endOfText := by rwa [hs₂, ← hstill.1] at *
  refine (ends_consume hr hkind').imp (fun _ s' h => ?_) id
  rw [hs₂] at h
  exact hstill.took h

theorem ends_takeToken (kind : Kind) (hkind : kind ≠ Kind.endOfText)
    (callers : List State) (site : State) : Ends r (takeToken callers site kind none) s
      (fun _ s' => kindAt kinds s.position = kind ∧ s.Took s') (kindAt kinds s.position ≠ kind) := by
  refine (ends_current hr).bind ?_
  rintro token s₁ ⟨hstill, htoken⟩
  split
  case isTrue h =>
    have h : kindAt kinds s.position = kind := htoken.symm.trans (eq_of_beq h)
    rw [← bind_assoc]
    exact (ends_fitting hr hstill (h ▸ hkind)).bind fun _ _ htook => ⟨h, htook⟩
  case isFalse h =>
    rw [Ends, run_bind, run_recoverToken hr]
    rw [htoken] at h
    simpa using h

theorem ends_takeOneOf (set : TokenSet) (hset : set.mem Kind.endOfText = false)
    (callers : List State) (site : State) : Ends r (takeOneOf callers site set none) s
      (fun _ s' => set.mem (kindAt kinds s.position) = true ∧ s.Took s')
      (set.mem (kindAt kinds s.position) = false) := by
  refine (ends_current hr).bind ?_
  rintro token s₁ ⟨hstill, htoken⟩
  change Ends r (if set.mem token.kind then reportMatch >>= fun _ => consume else _) s₁ _ _
  rw [htoken]
  split
  case isTrue h =>
    exact (ends_fitting hr hstill fun h' => by rw [h', hset] at h; cases h).imp (fun _ _ => .intro h) id
  case isFalse h =>
    rw [Ends, run_bind, run_recoverToken hr]
    simpa using h

/-- No tokens are left out before a repetition or after a round of it. -/
theorem run_sync (callers : List State) (site : State) (s : Session) :
    syncStart callers site r s = (.ok (), s) ∧ syncBack callers site r s = (.ok (), s) := by
  rw [syncStart, syncBack, run_bind, run_bind]
  change (if s.recovering || r.strict then pure () else _ : Parser Unit) r s = _ ∧
    (if s.recovering || r.strict then pure () else _ : Parser Unit) r s = _
  rw [hr.strict, Bool.or_true]
  exact ⟨rfl, rfl⟩

/-- A decision by prediction. -/
theorem ends_predictAt (site : State) (callers : List State) {known : Prop} {alt : Nat}
    (h : ∀ input bound, (∀ ahead, input ahead = some (kindAt kinds (s.position + ahead))) → known →
      (predict (braceQuestion site callers) input bound).1 = .alt alt) :
    Ends r (predictAt callers 0 site) s (fun number s' => s.Still s' ∧ (known → number = alt)) ¬known := by
  have hinput (ahead : Nat) : ((r.terminalAt? (s.position + ahead)).map Terminal.kind) =
      some (kindAt kinds (s.position + ahead)) := by
    obtain ⟨token, htoken, hkind⟩ := hr.terminal (s.position + ahead)
    rw [htoken, Option.map_some, hkind]
  have h := h _ (r.terminals.size - s.position + 1) hinput
  have hloop : r.table.network.loops.find? (fun l => l.entry == site) = none := by
    rw [hr.network, loops_braceNet, List.find?_nil]
  have hquestion : (⟨r.table.network, site, none, callers, 0⟩ : Question) = braceQuestion site callers := by
    rw [hr.network, braceQuestion]
  refine ends_read (ends_get ?_)
  simp only [hloop, hquestion]
  generalize predict (braceQuestion site callers) _ _ = result at h ⊢
  obtain ⟨prediction, furthest⟩ := result
  cases prediction with
  | alt number => exact ⟨⟨rfl, rfl⟩, fun hk => Prediction.alt.inj (h hk)⟩
  | noneLeft ahead =>
    intro hk
    cases h hk
  | unreadable =>
    intro hk
    cases h hk

theorem ends_chooseByToken (sets : List TokenSet) : Ends r (chooseByToken sets) s
    (fun number s' => s.Still s' ∧
      number = (sets.findIdx? fun set => set.mem (kindAt kinds s.position)).elim 0 (· + 1)) why := by
  refine (ends_current hr).bind ?_
  rintro token s₁ ⟨hstill, htoken⟩
  rw [htoken]
  cases sets.findIdx? fun set => set.mem (kindAt kinds s.position) <;> exact ⟨hstill, rfl⟩

/-- Rounds of a repetition. -/
theorem ends_parseRounds {callers : List State} {site inner back : State}
    {alternatives : List (List Step)} {depth : Nat} {chosen : Nat → Session → Prop} {P good : Session → Prop}
    (hchoose : Ends r (match r.table.choiceAt site with
      | some sets => chooseByToken (sets.take 1)
      | none => predictAt callers 0 site) s chosen why)
    (hround : ∀ s₁, chosen 1 s₁ → Ends r (parseRound depth callers 0 inner alternatives) s₁ (fun _ => P) why)
    (hmore : ∀ s₂, P s₂ →
      Ends r (parseRounds depth callers 0 site inner back alternatives) s₂ (fun _ => good) why)
    (hstop : ∀ number s₁, number ≠ 1 → chosen number s₁ → good s₁) :
    Ends r (parseRounds (depth + 1) callers 0 site inner back alternatives) s (fun _ => good) why := by
  have hrest (number : Nat) (s₁ : Session) (hnumber : chosen number s₁) : Ends r (do
      if number == 1 then
        parseRound depth callers 0 inner alternatives
        syncBack callers back
        parseRounds depth callers 0 site inner back alternatives) s₁ (fun _ => good) why := by
    split
    case isTrue h =>
      obtain rfl := eq_of_beq h
      exact (hround s₁ hnumber).bind fun _ s₂ hmid => .of_run (run_sync hr callers back s₂).2 (hmore s₂ hmid)
    case isFalse h => exact hstop number s₁ (by simpa using h) hnumber
  rw [parseRounds]
  refine ends_read ?_
  cases hsets : r.table.choiceAt site <;> rw [hsets] at hchoose <;> exact hchoose.bind hrest

/-- One of several alternatives, chosen by the current token. -/
theorem ends_choice {callers : List State} {site : State} {alternatives : List (List Step)}
    {depth : Nat} {sets : List TokenSet} {steps : List Step} {good : Unit → Session → Prop} (index : Nat)
    (hsets : r.table.choiceAt site = some sets)
    (hindex : (sets.findIdx? fun set => set.mem (kindAt kinds s.position)) = some index)
    (hsteps : alternatives[index]? = some steps)
    (h : ∀ s₁, s.Still s₁ → Ends r (parseSteps depth callers 0 steps) s₁ good why) :
    Ends r (parseStep (depth + 2) callers 0 (.choice site alternatives)) s good why := by
  rw [parseStep]
  refine .of_run (run_sync hr callers site s).1 ?_
  rw [parseChoice]
  refine ends_read ?_
  simp only [hsets]
  refine (ends_chooseByToken hr sets).bind ?_
  rintro number s₁ ⟨hstill, hnumber⟩
  rw [hindex] at hnumber
  subst hnumber
  simpa [List.getD_eq_getElem?_getD, hsteps] using h s₁ hstill

end

theorem brace_layout {i : Nat} {body : List Step} (h : braceBodies[i]? = some body) :
    ∃ layout, braceNet.rules[19 + i]? = some layout ∧ layout.body = body ∧ layout.loop = none := by
  obtain ⟨⟨hbodies, hloops, -⟩, -⟩ := braceNet_facts
  rw [← eq_braceBodies hbodies, List.getElem?_map] at h
  obtain ⟨layout, hlayout, rfl⟩ := Option.map_eq_some_iff.1 h
  have hloop := List.all_eq_true.1 hloops layout (List.mem_of_getElem? hlayout)
  rw [List.getElem?_drop, Array.getElem?_toList] at hlayout
  exact ⟨layout, hlayout, rfl, Option.isNone_iff_eq_none.1 hloop⟩

theorem ends_orRecover (hr : Reads r kinds) {body : Parser Unit} {callers : List State}
    {good : Unit → Session → Prop} (h : Ends r body s good why) :
    Ends r (orRecover callers body) s good why := by
  rw [Ends, orRecover, run_tryCatch]
  rw [Ends] at h
  generalize body r s = result at h ⊢
  obtain ⟨fault | a, s'⟩ := result
  · exact ends_read (by rw [hr.strict]; exact h)
  · exact h

variable {callers : List State} {P : Nat → List (Nat × Option Nat) → Prop}

/-- How a step ends in a node that has just been begun. -/
def EndsInNode (r : Reader) (x : Parser Unit) (s : Session) (P : Nat → List (Nat × Option Nat) → Prop)
    (why : Prop) : Prop := ∀ inner : Session, inner.position = s.position → inner.braces = [] →
  Ends r x inner (fun _ s' => P s'.position s'.braces) why

/-- The braces in a node of a rule: the node itself, if it is one of braces, and those in it. -/
def SpansInNode (s s' : Session) (rule : Nat) (P : Nat → List (Nat × Option Nat) → Prop)
    (spans : List (Nat × Option Nat)) : Prop := ∃ braces, P s'.position braces ∧
  spans = (if rule = 19 then [(s.position, s'.previous)] else []) ++ braces

theorem ends_buildNode {rule : Nat} {content : Nat → Parser Unit} (h : EndsInNode r (content s.position) s P why) :
    Ends r (buildNode rule content) s
      (fun tree s' => s'.children = s.children ∧ SpansInNode s s' rule P (tree.spans 19)) why := by
  rw [Ends, run_buildNode]
  refine Ends.bind (s := { s with children := [], labels := [], visits := ⟨true, rule, s.position⟩ :: s.visits })
    (h _ rfl rfl) fun _ s₁ hmid => ?_
  exact ⟨rfl, s₁.braces, hmid, Tree.spans_node ..⟩

variable (hr : Reads r kinds) (i depth : Nat) {body : List Step} (hbody : braceBodies[i]? = some body)
include hr hbody

/-- A use of one of the rules for braces: what its body does, in a node of its own. -/
theorem ends_parseRule (h : EndsInNode r (parseSteps depth callers 0 body) s P why) :
    Ends r (parseRule (depth + 1) (19 + i) 0 callers) s
      (fun tree s' => s'.children = s.children ∧ SpansInNode s s' (19 + i) P (tree.spans 19)) why := by
  obtain ⟨layout, hlayout, rfl, hloop⟩ := brace_layout hbody
  rw [← hr.network] at hlayout
  rw [parseRule]
  refine ends_buildNode fun inner hposition hbraces => ends_orRecover hr (ends_read ?_)
  simp only [hlayout, hloop]
  exact (h inner hposition hbraces).bind fun _ _ => id

theorem ends_call {at_ follow : State} (h : EndsInNode r (parseSteps depth (follow :: callers) 0 body) s P why) :
    Ends r (parseStep (depth + 2) callers 0 (.call at_ follow (19 + i) 0 none)) s (fun _ s' => ∃ spans,
      SpansInNode s s' (19 + i) P spans ∧ s'.braces = s.braces ++ spans) why := by
  rw [parseStep]
  refine (ends_parseRule hr i depth hbody h).bind ?_
  rintro tree s₁ ⟨hchildren, hspans⟩
  refine ⟨_, hspans, ?_⟩
  change (tree :: s₁.children).reverse.flatMap (Tree.spans 19) = _
  rw [hchildren, List.reverse_cons, List.flatMap_append, List.flatMap_singleton]
  rfl

end Ends

end Transcriber.Grammar
