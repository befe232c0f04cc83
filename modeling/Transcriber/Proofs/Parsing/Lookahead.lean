import Transcriber.Language

/-!
# Where a text between braces goes on

Between braces two decisions depend on more than the next token: whether another text follows in the
same content, and whether a line break is followed by a text or is one itself.  Without the callers,
prediction may find that it cannot tell; with them, both alternatives lead to the same places and the
first one is taken.

* `braceNet_facts` — the part of the network of documentation comments that deals with braces.
-/

namespace Transcriber.Grammar

open Transcriber.Lexical

/-! ## Silent moves with known callers -/

/-- The places that silent moves lead to from a state, with the states to come back to that lie above the
callers; `none` if a move leads past them or the moves are of another kind. -/
def reach (net : Network) : Nat → State → List State → Option (List (State × List State))
  | 0, _, _ => none
  | fuel + 1, s, pushed =>
      match net.endOf? s, pushed, net.edgesAt s with
      | some _, top :: below, _ => reach net fuel top below
      | none, _, [.read ..] => some [(s, pushed)]
      | none, _, [.silent target] => reach net fuel target pushed
      | none, _, [.silent one, .silent other] =>
          (reach net fuel one pushed).bind fun found => (reach net fuel other pushed).map (found ++ ·)
      | none, _, [.call _ target follow] => reach net fuel target (follow :: pushed)
      | _, _, _ => none

/-- States to come back to on top of some stacks. -/
def Stacks.under (ρ : Stacks) (pushed : List State) : Stacks :=
  pushed.foldr (fun s below => .push s below .none) ρ

/-- An alternative followed to a place above some stacks. -/
def Path.from (alt : Nat) (ρ : Stacks) (place : State × List State) : Path :=
  ⟨place.1, alt, ρ.under place.2, none, false, false⟩

def addPaths (added paths : List Path) : List Path :=
  added.foldl (fun paths p => addPath false p paths) paths

theorem Stacks.merge_self (wild : Bool) (ρ : Stacks) : ρ.merge wild ρ = ρ := by
  induction ρ with
  | none => rw [merge]
  | bottom => rw [merge]
  | push top below others hbelow hothers => rw [merge, if_pos rfl, hbelow, hothers]

/-- With known callers, a closure adds the places that are reached, in order. -/
theorem close_of_reach {q : Question} (hloops : q.network.loops = []) {fewer fuel : Nat} {s : State}
    {pushed : List State} {found : List (State × List State)}
    (h : reach q.network fewer s pushed = some found) (hfuel : fewer ≤ fuel) (alt : Nat) (ρ : Stacks)
    (guards : Bool) (depth : Int) (c : Closure) :
    close q ⟨true, false⟩ fuel guards depth (.from alt ρ (s, pushed)) c =
      { c with reached := addPaths (found.map (.from alt ρ)) c.reached } := by
  have hstay (p : Path) : q.network.mayLeaveLoop p = false := by
    simp [Network.mayLeaveLoop, hloops]
  fun_induction reach q.network fewer s pushed generalizing found fuel depth c with
  | case1 => cases h
  | case2 fewer s rule top below hend ih =>
    obtain ⟨fuel, rfl⟩ := Nat.exists_eq_add_of_lt hfuel
    simp [close, Path.from, Stacks.under, hend, Stacks.tops, Stacks.hasBottom]
    exact ih h (by omega) _ _
  | case3 fewer s pushed _ _ hedges hend =>
    obtain ⟨fuel, rfl⟩ := Nat.exists_eq_add_of_lt hfuel
    cases h
    simp [close, Path.from, hend, hedges, Network.reads, hstay, Closure.insert, addPaths]
  | case4 fewer s pushed target hedges hend ih =>
    obtain ⟨fuel, rfl⟩ := Nat.exists_eq_add_of_lt hfuel
    simp [close, Path.from, hend, hedges, Network.reads, hstay]
    exact ih h (by omega) _ _
  | case5 fewer s pushed one other hedges hend ihone ihother =>
    obtain ⟨fuel, rfl⟩ := Nat.exists_eq_add_of_lt hfuel
    obtain ⟨found, hfound, h⟩ := Option.bind_eq_some_iff.1 h
    obtain ⟨more, hmore, rfl⟩ := Option.map_eq_some_iff.1 h
    have hone := ihone hfound (by omega : fewer ≤ fewer + fuel) depth c
    have hother := ihother hmore (by omega : fewer ≤ fewer + fuel) depth
      { c with reached := addPaths (found.map (.from alt ρ)) c.reached }
    simp [close, Path.from, hend, hedges, Network.reads, hstay] at hone hother ⊢
    rw [hone, hother]
    simp [addPaths]
  | case6 fewer s pushed rule target follow hedges hend ih =>
    obtain ⟨fuel, rfl⟩ := Nat.exists_eq_add_of_lt hfuel
    simp [close, Path.from, hend, hedges, Network.reads, hstay]
    exact ih h (by omega) _ _
  | case7 => cases h

/-! ## Prediction without the callers -/

section

variable (q : Question) (callers : List State)

theorem close_callers (manner : Manner) (fuel : Nat) :
    close { q with callers := callers } manner fuel = close q manner fuel := by
  induction fuel with
  | zero => rfl
  | succ fuel ih =>
    funext guards depth p c
    simp only [close, ih]

theorem begin_callers : ({ q with callers := callers } : Question).begin false = q.begin false := by
  simp only [Question.begin, Question.fuel, close_callers, Bool.false_eq_true, if_false]

theorem advance_callers (set : List Path) (kind : Kind) :
    advance { q with callers := callers } false set kind = advance q false set kind := by
  simp only [advance, Question.fuel, close_callers, Bool.false_eq_true, if_false]

end

/-- One token of a prediction without the callers, where no guard is in play. -/
theorem predictLocally_succ {q : Question} {input : Ahead} {bound fuel ahead : Nat}
    {set reached : List Path} {kind : Kind} (hin : input ahead = some kind)
    (hkind : kind ≠ Kind.endOfText) (hadvance : advance q false set kind = some reached)
    (hplain : (reached.all fun p => p.guard.isNone) = true) :
    (predictLocally q input bound (fuel + 1) ahead set).1 = match uniqueAlt? reached with
      | some alt => .alt alt
      | none => if stuckLocally q.network reached then (predictFully q input bound 0 (q.begin true)).1
          else (predictLocally q input bound fuel (ahead + 1) reached).1 := by
  rw [predictLocally, hin]
  simp only [hadvance, guarded?, hplain, if_true]
  cases uniqueAlt? reached with
  | some alt => rfl
  | none =>
    simp only [beq_iff_eq, hkind, if_false]
    split <;> rfl

/-! ## The network around braces -/

@[irreducible]
def braceNet : Network := javadoc.table.network

def kindNamed (name : String) : Kind := DocComment.grammar.vocabulary.kindOf name

/-- The kinds of tokens that a text between braces may be. -/
def textKinds : List Kind :=
  ["NAME", "NEWLINE", "SPACE", "TEXT_CONTENT", "STAR", "SLASH"].map kindNamed

def braceKinds : List Kind := ["BRACE_OPEN", "BRACE_CLOSE"].map kindNamed

theorem textKinds_eq : textKinds = [1, 2, 3, 4, 6, 7] := by decide

theorem braceKinds_eq : braceKinds = [11, 12] := by decide

theorem ne_endOfText : ∀ kind ∈ textKinds ++ braceKinds, kind ≠ Kind.endOfText := by
  rw [textKinds_eq, braceKinds_eq]
  decide

theorem mem_braceKinds {kind : Kind} (h : kind ∈ textKinds ++ braceKinds) (htext : kind ∉ textKinds) :
    kind ∈ braceKinds := (List.mem_append.1 h).resolve_left htext

@[match_pattern]
def lineBreaks : Step := .star 253 254 255 [[.token 258 2 none]]

@[match_pattern]
def moreTexts : Step := .star 246 247 248 [[lineBreaks, .call 251 252 21 0 none]]

/-- The right-hand sides of the rules for braces, their content and a text in them. -/
@[match_pattern]
def braceBodies : List (List Step) := [
  [.token 241 11 none, .star 234 235 236 [[.call 239 240 20 0 none]], .token 233 12 none],
  [.choice 242 [[.call 244 245 19 0 none], [.call 259 260 21 0 none, moreTexts]]],
  [.oneOf 261 ⟨222⟩ none]]

def areBraceBodies : List (List Step) → Bool
  | braceBodies => true
  | _ => false

theorem eq_braceBodies {bodies : List (List Step)} (h : areBraceBodies bodies = true) :
    bodies = braceBodies := by
  unfold areBraceBodies at h
  split at h
  · rfl
  · cases h

def braceQuestion (site : State) (callers : List State) : Question := ⟨braceNet, site, none, callers, 0⟩

/-- The paths after some tokens, without the callers. -/
def follow (site : State) (callers : List State) (kinds : List Kind) : Option (List Path) :=
  kinds.foldlM (advance (braceQuestion site callers) false) ((braceQuestion site callers).begin false)

/-- What is known then: the only alternative, or whether the alternatives cannot be told apart any more. -/
def foreseen (site : State) (callers : List State) (kinds : List Kind) : Option (Option Nat × Bool) :=
  (follow site callers kinds).bind fun paths => if paths.all fun p => p.guard.isNone then
    some (uniqueAlt? paths, (uniqueAlt? paths).isNone && stuckLocally braceNet paths) else none

/-- Where a text can go on in the content that it belongs to, and where after it. -/
def textFront : List (State × List State) := [(258, [240]), (261, [252, 240])]

def textRear : List (State × List State) := [(241, [245, 240]), (261, [260, 240]), (233, [])]

set_option maxRecDepth 100000 in
set_option synthInstance.maxSize 1000 in
set_option synthInstance.maxHeartbeats 400000 in
theorem braceNet_facts :
    (areBraceBodies ((braceNet.rules.toList.drop 19).map RuleLayout.body) = true ∧
      ((braceNet.rules.toList.drop 19).all fun layout => layout.loop.isNone) = true ∧
      braceNet.loops.isEmpty = true ∧ 50 ≤ braceNet.size) ∧
    (javadoc.table.choiceAt 234 = some [⟨2270⟩, ⟨4096⟩] ∧
      javadoc.table.choiceAt 242 = some [⟨2048⟩, ⟨222⟩] ∧
      javadoc.table.choiceAt 246 = none ∧ javadoc.table.choiceAt 253 = none) ∧
    (∀ move ∈ [(246, [Edge.silent 247, .silent 249]), (253, [.silent 254, .silent 256]),
        (258, [.read ⟨4⟩ 257]), (261, [.read ⟨222⟩ 43]), (241, [.read ⟨2048⟩ 234]),
        (233, [.read ⟨4096⟩ 39])], braceNet.edgesAt move.1 = move.2 ∧ braceNet.endOf? move.1 = none) ∧
    braceNet.endOf? 43 = some 21 ∧
    (∀ s ∈ [247, 257], reach braceNet 40 s [240] = some textFront) ∧
    (∀ start ∈ [(43, [252, 240]), (43, [260, 240]), (252, [240]), (260, [240])],
      reach braceNet 40 start.1 start.2 = some (textFront ++ textRear)) ∧
    reach braceNet 40 249 [240] = some textRear ∧
    (reach braceNet 40 254 [240] = some [(258, [240])] ∧
      reach braceNet 40 256 [240] = some [(261, [252, 240])]) ∧
    ((∀ kind ∈ textKinds, foreseen 246 [] [kind] = some (none, true)) ∧
      ∀ kind ∈ braceKinds, foreseen 246 [] [kind] = some (some 2, false)) ∧
    (∀ kind ∈ textKinds,
      foreseen 253 [] [kind] = some (if kind = 2 then none else some 2, false)) ∧
    (∀ kind ∈ textKinds, foreseen 253 [] [2, kind] = some (none, true)) ∧
    ∀ kind ∈ braceKinds, foreseen 253 [] [2, kind] = some (some 2, false) := by
  decide +kernel

theorem foreseen_moreTexts : (∀ kind ∈ textKinds, foreseen 246 [] [kind] = some (none, true)) ∧
    ∀ kind ∈ braceKinds, foreseen 246 [] [kind] = some (some 2, false) := by
  obtain ⟨-, -, -, -, -, -, -, -, h, -⟩ := braceNet_facts
  exact h

theorem foreseen_lineBreaks : ∀ kind ∈ textKinds,
    foreseen 253 [] [kind] = some (if kind = 2 then none else some 2, false) := by
  obtain ⟨-, -, -, -, -, -, -, -, -, h, -⟩ := braceNet_facts
  exact h

theorem foreseen_behindBreak : (∀ kind ∈ textKinds, foreseen 253 [] [2, kind] = some (none, true)) ∧
    ∀ kind ∈ braceKinds, foreseen 253 [] [2, kind] = some (some 2, false) := by
  obtain ⟨-, -, -, -, -, -, -, -, -, -, h⟩ := braceNet_facts
  exact h

/-! ## Prediction with the callers -/

section Fully

variable {site : State} {σ : List State}

theorem le_fuel_brace : 50 ≤ (braceQuestion site σ).fuel true := by
  obtain ⟨⟨-, -, -, hsize⟩, -⟩ := braceNet_facts
  exact Nat.le_trans (by omega : 50 ≤ braceNet.size + 1) (Nat.le_mul_of_pos_right _ (by omega))

theorem loops_braceNet : braceNet.loops = [] := List.isEmpty_iff.1 braceNet_facts.1.2.2.1

theorem close_brace (site : State) (σ : List State) {s : State} {pushed : List State}
    {found : List (State × List State)} (h : reach braceNet 40 s pushed = some found) (alt : Nat) (ρ : Stacks)
    (guards : Bool) (c : Closure) :
    close (braceQuestion site σ) ⟨true, false⟩ ((braceQuestion site σ).fuel true) guards 0
        (.from alt ρ (s, pushed)) c =
      { c with reached := addPaths (found.map (.from alt ρ)) c.reached } :=
  close_of_reach loops_braceNet h (Nat.le_trans (by decide) le_fuel_brace) alt ρ guards 0 c

/-- A text may have been read in two ways, which lead to the same places. -/
theorem close_twice (σ : List State) (alt : Nat) (c : Closure) :
    close (braceQuestion 253 (240 :: σ)) ⟨true, false⟩ ((braceQuestion 253 (240 :: σ)).fuel true) false 0
        ⟨43, alt, .push 252 (.ofList (240 :: σ)) (.ofList (260 :: 240 :: σ)), none, false, false⟩ c =
      let places := (textFront ++ textRear).map (.from alt (.ofList σ))
      { c with reached := addPaths places (addPaths places c.reached) } := by
  obtain ⟨-, -, -, hend, -, hround, -⟩ := braceNet_facts
  have hle : 50 ≤ (braceQuestion 253 (240 :: σ)).fuel true := le_fuel_brace
  obtain ⟨fuel, hfuel⟩ : ∃ fuel, (braceQuestion 253 (240 :: σ)).fuel true = fuel + 1 :=
    Nat.exists_eq_add_of_le' (by omega)
  have hback (s : State) (h : reach braceNet 40 s [240] = some (textFront ++ textRear)) (c : Closure) :=
    close_of_reach (q := braceQuestion 253 (240 :: σ)) loops_braceNet h (by omega : 40 ≤ fuel) alt
      (.ofList σ) false (-1) c
  rw [hfuel, close]
  have hend : (braceQuestion 253 (240 :: σ)).network.endOf? 43 = some 21 := hend
  simp only [hend, Stacks.ofList, Stacks.tops, Stacks.hasBottom, List.foldl_cons, List.foldl_nil, reduceCtorEq,
    if_false, Bool.false_eq_true]
  exact (congrArg _ (hback 252 (hround (252, [240]) (by decide)) c)).trans
    (hback 260 (hround (260, [240]) (by decide)) _)

theorem begin_fork {one two : State} {first second : List (State × List State)}
    (hsite : braceNet.edgesAt site = [.silent one, .silent two])
    (hone : reach braceNet 40 one [240] = some first) (htwo : reach braceNet 40 two [240] = some second) :
    (braceQuestion site (240 :: σ)).begin true =
      addPaths (second.map (.from 2 (.ofList σ))) (addPaths (first.map (.from 1 (.ofList σ))) []) := by
  have hclose := close_brace site (240 :: σ) hone 1 (.ofList σ) true ⟨[], []⟩
  have hclose' := close_brace site (240 :: σ) htwo 2 (.ofList σ) true
    ⟨addPaths (first.map (.from 1 (.ofList σ))) [], []⟩
  have hsite : (braceQuestion site (240 :: σ)).network.edgesAt (braceQuestion site (240 :: σ)).site = _ := hsite
  rw [Question.begin, hsite]
  exact (congrArg (fun c => (close _ _ _ true 0 _ ⟨c.reached, []⟩).reached) hclose).trans
    (congrArg Closure.reached hclose')

/-- Where the alternatives are after a text. -/
def textAhead (σ : List State) : List Path :=
  addPaths ((textFront ++ textRear).map (.from 2 (.ofList σ)))
    (addPaths ((textFront ++ textRear).map (.from 1 (.ofList σ))) [])

/-- Where they are after a line break. -/
def breakAhead (σ : List State) : List Path :=
  addPaths ((textFront ++ textRear).map (.from 2 (.ofList σ)))
    (addPaths (textFront.map (.from 1 (.ofList σ))) [])

attribute [local simp] textFront textRear textAhead breakAhead Path.from Path.key Stacks.under Stacks.merge addPath
  uniqueAlt? braceQuestion

theorem settled_textAhead : (uniqueAlt? (textAhead σ) <|> settled? (textAhead σ)) = some 1 := by
  simp [addPaths, settled?, conflicts, alternativesAt, List.eraseDups_cons, least?]

theorem unsettled_breakAhead : (uniqueAlt? (breakAhead σ) <|> settled? (breakAhead σ)) = none := by
  simp [addPaths, settled?, conflicts, alternativesAt, List.eraseDups_cons, least?]

theorem mem_of_textKinds {kind : Kind} (h : kind ∈ textKinds) :
    (kind == Kind.endOfText) = false ∧ (⟨222⟩ : TokenSet).mem kind = true ∧
      (⟨2048⟩ : TokenSet).mem kind = false ∧ (⟨4096⟩ : TokenSet).mem kind = false := by
  rw [textKinds_eq] at h
  revert kind
  decide

theorem advance_moreTexts {kind : Kind} (hkind : kind ∈ textKinds) :
    advance (braceQuestion 246 (240 :: σ)) true ((braceQuestion 246 (240 :: σ)).begin true) kind =
      some (textAhead σ) := by
  obtain ⟨-, -, hmoves, -, hfront, hround, hrear, -⟩ := braceNet_facts
  obtain ⟨hgoes, hmem, hopen, hclose⟩ := mem_of_textKinds hkind
  have hafter := close_brace 246 (240 :: σ) (hfront 257 (by decide)) 1 (.ofList σ) false
  have hone := close_brace 246 (240 :: σ) (hround (43, [252, 240]) (by decide)) 1 (.ofList σ) false
  have htwo := close_brace 246 (240 :: σ) (hround (43, [260, 240]) (by decide)) 2 (.ofList σ) false
  simp only [List.forall_mem_cons] at hmoves
  simp at hafter hone htwo
  rw [begin_fork hmoves.1.1 (hfront 247 (by decide)) hrear]
  cases hbreak : (⟨4⟩ : TokenSet).mem kind <;>
  simp [advance, Network.ended, hmoves, hgoes, hmem, hopen, hclose, hbreak, hafter, hone, htwo, addPaths,
    Stacks.merge_self, -beq_iff_eq]

theorem advance_lineBreaks {kind : Kind} (hkind : kind ∈ textKinds) (hbreak : (⟨4⟩ : TokenSet).mem kind = true) :
    advance (braceQuestion 253 (240 :: σ)) true ((braceQuestion 253 (240 :: σ)).begin true) kind =
      some (breakAhead σ) := by
  obtain ⟨-, -, hmoves, -, hfront, hround, -, ⟨hone, htwo⟩, -⟩ := braceNet_facts
  obtain ⟨hgoes, hmem, hopen, hclose⟩ := mem_of_textKinds hkind
  have hafter := close_brace 253 (240 :: σ) (hfront 257 (by decide)) 1 (.ofList σ) false
  have htext := close_brace 253 (240 :: σ) (hround (43, [252, 240]) (by decide)) 2 (.ofList σ) false
  simp only [List.forall_mem_cons] at hmoves
  simp at hafter htext
  rw [begin_fork hmoves.2.1.1 hone htwo]
  simp [advance, Network.ended, hmoves, hgoes, hmem, hbreak, hafter, htext, addPaths, -beq_iff_eq]

theorem advance_breakAhead {kind : Kind} (hkind : kind ∈ textKinds) :
    advance (braceQuestion 253 (240 :: σ)) true (breakAhead σ) kind = some (textAhead σ) := by
  obtain ⟨-, -, hmoves, -, hfront, hround, -⟩ := braceNet_facts
  obtain ⟨hgoes, hmem, hopen, hclose⟩ := mem_of_textKinds hkind
  have hafter (alt : Nat) := close_brace 253 (240 :: σ) (hfront 257 (by decide)) alt (.ofList σ) false
  have hone := close_brace 253 (240 :: σ) (hround (43, [252, 240]) (by decide)) 1 (.ofList σ) false
  have htwo := close_twice σ 2
  simp only [List.forall_mem_cons] at hmoves
  simp [Stacks.ofList] at hafter hone htwo
  cases hbreak : (⟨4⟩ : TokenSet).mem kind <;>
  simp [advance, Network.ended, hmoves, hgoes, hmem, hopen, hclose, hbreak, hafter, hone, htwo, addPaths,
    Stacks.merge_self, -beq_iff_eq]

theorem predictFully_moreTexts {input : Ahead} {fuel : Nat} {kind : Kind} (hin : input 0 = some kind)
    (hkind : kind ∈ textKinds) :
    (predictFully (braceQuestion 246 (240 :: σ)) input (fuel + 1) 0
      ((braceQuestion 246 (240 :: σ)).begin true)).1 = .alt 1 := by
  simp only [predictFully, hin, advance_moreTexts hkind, settled_textAhead]

theorem predictFully_lineBreaks {input : Ahead} {fuel : Nat} {kind : Kind} (hin : input 0 = some 2)
    (hnext : input 1 = some kind) (hkind : kind ∈ textKinds) :
    (predictFully (braceQuestion 253 (240 :: σ)) input (fuel + 2) 0
      ((braceQuestion 253 (240 :: σ)).begin true)).1 = .alt 1 := by
  rw [predictFully, hin]
  simp only [advance_lineBreaks (textKinds_eq ▸ by decide : 2 ∈ textKinds) (by decide), unsettled_breakAhead]
  rw [if_neg (by decide), predictFully, hnext]
  simp only [advance_breakAhead hkind, settled_textAhead]

end Fully

/-! ## The two decisions -/

section Decisions

variable {site : State} {σ : List State} {input : Ahead} {bound fuel ahead : Nat} {kind : Kind}

theorem foreseen_callers (site : State) (callers : List State) (kinds : List Kind) :
    foreseen site callers kinds = foreseen site [] kinds := by
  have hbegin := begin_callers (braceQuestion site []) callers
  have hadvance := advance_callers (braceQuestion site []) callers
  have hq : { braceQuestion site [] with callers := callers } = braceQuestion site callers := rfl
  rw [hq] at hbegin hadvance
  rw [foreseen, foreseen, follow, follow, hbegin, funext fun set => funext (hadvance set)]

/-- One token, when it is known what prediction without the callers makes of it. -/
theorem predictLocally_foreseen (kinds : List Kind) {set : List Path} {alt : Option Nat} {stuck : Bool}
    (hset : follow site σ kinds = some set) (hin : input ahead = some kind)
    (hkind : kind ∈ textKinds ++ braceKinds)
    (h : foreseen site [] (kinds ++ [kind]) = some (alt, stuck)) :
    ∃ reached, follow site σ (kinds ++ [kind]) = some reached ∧
      (predictLocally (braceQuestion site σ) input bound (fuel + 1) ahead set).1 = alt.elim
        (if stuck
          then (predictFully (braceQuestion site σ) input bound 0 ((braceQuestion site σ).begin true)).1
          else (predictLocally (braceQuestion site σ) input bound fuel (ahead + 1) reached).1) .alt := by
  rw [← foreseen_callers site σ] at h
  obtain ⟨reached, hreached, hknown⟩ := Option.bind_eq_some_iff.1 h
  have hadvance : advance (braceQuestion site σ) false set kind = some reached := by
    rw [follow] at hset
    simpa [follow, List.foldlM_append, hset] using hreached
  refine ⟨reached, hreached, ?_⟩
  split at hknown
  case isFalse => cases hknown
  case isTrue hplain =>
    cases hknown
    rw [predictLocally_succ hin (ne_endOfText kind hkind) hadvance hplain]
    cases uniqueAlt? reached <;> rfl

theorem predict_moreTexts (hin : input 0 = some kind) (hkind : kind ∈ textKinds ++ braceKinds) :
    (predict (braceQuestion 246 (240 :: σ)) input bound).1 = .alt (if kind ∈ textKinds then 1 else 2) := by
  split
  case isTrue hyes =>
    obtain ⟨_, -, hstep⟩ := predictLocally_foreseen [] rfl hin hkind (foreseen_moreTexts.1 kind hyes)
    exact hstep.trans (predictFully_moreTexts hin hyes)
  case isFalse hno =>
    obtain ⟨_, -, hstep⟩ :=
      predictLocally_foreseen [] rfl hin hkind (foreseen_moreTexts.2 kind (mem_braceKinds hkind hno))
    exact hstep

theorem predict_lineBreaks {next : Kind} (hin : input 0 = some kind) (hkind : kind ∈ textKinds)
    (hnext : kind = 2 → input 1 = some next ∧ next ∈ textKinds ++ braceKinds) :
    (predict (braceQuestion 253 (240 :: σ)) input bound).1 =
      .alt (if kind = 2 ∧ next ∈ textKinds then 1 else 2) := by
  have hfirst := foreseen_lineBreaks kind hkind
  by_cases hbreak : kind = 2
  · subst hbreak
    obtain ⟨hin', hnext⟩ := hnext rfl
    rw [if_pos rfl] at hfirst
    obtain ⟨reached, hreached, hstep⟩ :=
      predictLocally_foreseen [] rfl hin (List.mem_append_left _ hkind) hfirst
    by_cases hyes : next ∈ textKinds
    · rw [if_pos ⟨rfl, hyes⟩]
      obtain ⟨_, -, hstep'⟩ := predictLocally_foreseen [2] hreached hin' hnext (foreseen_behindBreak.1 next hyes)
      exact hstep.trans (hstep'.trans (predictFully_lineBreaks hin hin' hyes))
    · rw [if_neg fun h => hyes h.2]
      obtain ⟨_, -, hstep'⟩ :=
        predictLocally_foreseen [2] hreached hin' hnext (foreseen_behindBreak.2 next (mem_braceKinds hnext hyes))
      exact hstep.trans hstep'
  · rw [if_neg hbreak] at hfirst
    obtain ⟨_, -, hstep⟩ := predictLocally_foreseen [] rfl hin (List.mem_append_left _ hkind) hfirst
    rw [if_neg fun h => hbreak h.1]
    exact hstep

end Decisions

end Transcriber.Grammar
