import Transcriber.Proofs.Lexical.Stars
import Transcriber.Proofs.Parsing.Strict

/-!
# What stands between braces

The rules for braces read what is balanced and nothing else.  At each position before the closing brace both
decisions about texts and line breaks go the way that reads on, whatever the callers are.

* `ends_braces` — a call of the rule for braces at an opening brace.
* `braceExpression_balanced` — the main statement.
-/

namespace Transcriber.Grammar

open Transcriber.Lexical Transcriber.Grammar.Parser

theorem TokenSet.mem_iff {set : TokenSet} (members : List Kind) (hset : set.bits < 2 ^ 13)
    (h : ∀ kind < 13, set.mem kind = true ↔ kind ∈ members) (hmembers : ∀ kind ∈ members, kind < 13) {kind : Kind} :
    set.mem kind = true ↔ kind ∈ members := by
  by_cases hkind : kind < 13
  · exact h kind hkind
  · have hfalse : set.mem kind = false :=
      Nat.testBit_lt_two_pow (Nat.lt_of_lt_of_le hset (Nat.pow_le_pow_right (by decide) (Nat.le_of_not_lt hkind)))
    simp only [hfalse, Bool.false_eq_true, false_iff]
    exact fun hmem => hkind (hmembers kind hmem)

theorem mem_textSet {kind : Kind} : (⟨222⟩ : TokenSet).mem kind = true ↔ kind ∈ textKinds := by
  rw [textKinds_eq]
  exact TokenSet.mem_iff _ (by decide) (by decide) (by decide)

theorem mem_openSet {kind : Kind} : (⟨2048⟩ : TokenSet).mem kind = true ↔ kind = 11 :=
  (TokenSet.mem_iff [11] (by decide) (by decide) (by decide)).trans List.mem_singleton

theorem mem_contentSet {kind : Kind} : (⟨2270⟩ : TokenSet).mem kind = true ↔ kind = 11 ∨ kind ∈ textKinds := by
  rw [textKinds_eq, ← List.mem_cons]
  exact TokenSet.mem_iff _ (by decide) (by decide) (by decide)

/-- What lies before a closing brace is balanced. -/
def Closable (kinds : List Kind) (p : Nat) : Prop := ∃ m, Level kinds p m ∧ kindAt kinds m = 12

section Braces

variable {r : Reader} {kinds : List Kind} {p q : Nat} {s s' s'' : Session}

theorem Level.closable (h : Level kinds p q) (hp : Closable kinds p) : Closable kinds q := by
  obtain ⟨m, hlevel, hclose⟩ := hp
  exact ⟨m, h.rest hlevel hclose, hclose⟩

theorem Closable.known (h : Closable kinds p) : kindAt kinds p ∈ textKinds ++ braceKinds := by
  obtain ⟨m, hlevel, hclose⟩ := h
  by_cases hm : p = m
  · rw [hm, hclose, List.mem_append, braceKinds_eq]
    exact .inr (by decide)
  · exact hlevel.known p (Nat.le_refl p) (Nat.lt_of_le_of_ne hlevel.le hm)

theorem lt_length (h : kindAt kinds p ∈ textKinds ++ braceKinds) : p < kinds.length :=
  (List.getElem?_eq_some_iff.1 (getElem?_known h)).1

theorem lt_length_of_open (h : kindAt kinds p = 11) : p < kinds.length :=
  lt_length (by rw [h, textKinds_eq, braceKinds_eq]; decide)

/-- The braces from the position on are balanced, and those in them are in the node being built. -/
structure Inside (kinds : List Kind) (s s' : Session) : Prop where
  level : Level kinds s.position s'.position
  braces : s'.braces = s.braces ++ bracesBetween kinds s.position s'.position

theorem Inside.of_still (h : s.Still s') : Inside kinds s s' := by
  obtain ⟨hposition, hchildren⟩ := h
  refine ⟨hposition ▸ .refl .., ?_⟩
  rw [hposition, bracesBetween_self, List.append_nil, Session.braces, hchildren]
  rfl

theorem Inside.trans (h : Inside kinds s s') (h' : Inside kinds s' s'') : Inside kinds s s'' where
  level := h.level.trans h'.level
  braces := by rw [h'.braces, h.braces, List.append_assoc, bracesBetween_append h.level.le h'.level.le]

theorem ne_open {kind : Kind} (h : kind ∈ textKinds) : kind ≠ 11 := by
  rw [textKinds_eq] at h
  revert kind
  decide

theorem Inside.of_took (h : s.Took s') (hkind : kindAt kinds s.position ∈ textKinds) : Inside kinds s s' where
  level := h.1 ▸ .of_text hkind
  braces := by rw [h.1, h.2, bracesBetween_one (ne_open hkind), List.append_nil]

theorem ends_text (hr : Reads r kinds) (depth : Nat) (callers : List State) (at_ follow : State) :
    Ends r (parseStep (depth + 4) callers 0 (.call at_ follow 21 0 none)) s
      (fun _ s' => kindAt kinds s.position ∈ textKinds ∧ s.Took s') (kindAt kinds s.position ∉ textKinds) := by
  refine (ends_call hr 2 (depth + 2) rfl
    (P := fun q braces => kindAt kinds s.position ∈ textKinds ∧ q = s.position + 1 ∧ braces = [])
    fun inner hposition hbraces => ?_).imp ?_ id
  · rw [parseSteps, parseStep]
    have htake := ends_takeOneOf (s := inner) hr ⟨222⟩ (by decide) (follow :: callers) 261
    rw [hposition, Bool.eq_false_iff, Ne, mem_textSet] at htake
    refine htake.bind fun _ s₁ htaken => ?_
    rw [parseSteps]
    exact ⟨htaken.1, hposition ▸ htaken.2.1, hbraces ▸ htaken.2.2⟩
  · rintro _ s' ⟨_, ⟨_, ⟨hkind, hq, hnone⟩, hspans⟩, hall⟩
    exact ⟨hkind, hq, by rw [hall, hspans, hnone]; simp⟩

theorem of_one_eq_ite {c : Prop} [Decidable c] (h : 1 = if c then 1 else 2) : c := by
  split at h
  case isTrue hc => exact hc
  case isFalse => cases h

/-- Whether a text stands at a position before the end of the braces. -/
def TextAt (kinds : List Kind) (p : Nat) : Prop := Closable kinds p ∧ kindAt kinds p ∈ textKinds

/-- Line breaks before a text. -/
theorem ends_lineBreaks (hr : Reads r kinds) (depth : Nat) (σ : List State)
    (hdepth : kinds.length - s.position + 4 ≤ depth) :
    Ends r (parseRounds depth (240 :: σ) 0 253 254 255 [[.token 258 2 none]]) s
      (fun _ s' => Inside kinds s s' ∧ (TextAt kinds s.position → TextAt kinds s'.position))
      ¬TextAt kinds s.position := by
  induction hn : kinds.length - s.position using Nat.strongRecOn generalizing s depth with | _ n ih => ?_
  obtain ⟨depth, rfl⟩ : ∃ k, depth = k + 4 := ⟨depth - 4, by omega⟩
  have hnext (h : TextAt kinds s.position) : Closable kinds (s.position + 1) := (Level.of_text h.2).closable h.1
  have hpredict := ends_predictAt (s := s) hr 253 (240 :: σ)
    fun input bound hinput (h : TextAt kinds s.position) =>
      predict_lineBreaks (hinput 0) h.2 fun _ => ⟨hinput 1, (hnext h).known⟩
  refine ends_parseRounds hr (P := fun s' => s.Took s' ∧ kindAt kinds s.position = 2 ∧
      (TextAt kinds s.position → TextAt kinds (s.position + 1)))
    (by rw [hr.table, braceNet_facts.2.1.2.2.2]; exact hpredict) ?_ ?_ ?_
  · rintro s₁ ⟨hstill, hnumber⟩
    have halt (h : TextAt kinds s.position) := of_one_eq_ite (hnumber h)
    have htake := ends_takeToken (s := s₁) hr 2 (by decide) (240 :: σ) 258
    rw [hstill.1] at htake
    rw [parseRound, parseSteps, parseStep]
    refine htake.next (fun hne h => hne (halt h).1) fun _ s₂ htaken => ?_
    rw [parseSteps]
    exact ⟨hstill.took htaken.2, htaken.1, fun h => ⟨hnext h, (halt h).2⟩⟩
  · rintro s₂ ⟨htook, hbreak, htext⟩
    have h2 : kindAt kinds s.position ∈ textKinds := by rw [hbreak, textKinds_eq]; decide
    have hlt := lt_length (List.mem_append_left _ h2)
    have hinside := Inside.of_took htook h2
    have hmore := ih _ (by rw [htook.1]; omega) (s := s₂) (depth + 3) (by rw [htook.1]; omega) rfl
    rw [htook.1] at hmore
    exact hmore.imp (fun _ s' h => ⟨hinside.trans h.1, fun h' => h.2 (htext h')⟩) fun h h' => h (htext h')
  · rintro number s₁ - ⟨hstill, -⟩
    exact ⟨.of_still hstill, fun h => hstill.1 ▸ h⟩

/-- Further texts of the same content. -/
theorem ends_moreTexts (hr : Reads r kinds) (depth : Nat) (σ : List State)
    (hdepth : kinds.length - s.position + 12 ≤ depth) :
    Ends r (parseRounds depth (240 :: σ) 0 246 247 248 [[lineBreaks, .call 251 252 21 0 none]]) s
      (fun _ s' => Inside kinds s s') ¬Closable kinds s.position := by
  induction hn : kinds.length - s.position using Nat.strongRecOn generalizing s depth with | _ n ih => ?_
  obtain ⟨depth, rfl⟩ : ∃ k, depth = k + 12 := ⟨depth - 12, by omega⟩
  have hpredict := ends_predictAt (s := s) hr 246 (240 :: σ)
    fun input bound hinput (h : Closable kinds s.position) => predict_moreTexts (hinput 0) h.known
  refine ends_parseRounds hr (P := fun s' => Inside kinds s s' ∧ s.position < s'.position ∧ s.position < kinds.length)
    (by rw [hr.table, braceNet_facts.2.1.2.2.1]; exact hpredict) ?_ ?_ ?_
  · rintro s₁ ⟨hstill, hnumber⟩
    have htext (h : Closable kinds s.position) : TextAt kinds s₁.position := by
      rw [hstill.1]
      exact ⟨h, of_one_eq_ite (hnumber h)⟩
    rw [parseRound, parseSteps, lineBreaks, parseStep]
    refine Ends.bind (P := fun _ s₂ => Inside kinds s s₂ ∧ (Closable kinds s.position → TextAt kinds s₂.position)) ?_ ?_
    · refine Ends.of_run (run_sync hr _ _ s₁).1 ((ends_lineBreaks hr _ σ ?_).imp (fun _ s₂ h => ?_) ?_)
      · rw [hstill.1]
        omega
      · exact ⟨.trans (.of_still hstill) h.1, fun h' => h.2 (htext h')⟩
      · exact fun h h' => h (htext h')
    · rintro _ s₂ ⟨hinside, htext⟩
      rw [parseSteps]
      refine (ends_text hr (depth + 4) (240 :: σ) 251 252).next (fun h h' => h (htext h').2) ?_
      rintro _ s₃ ⟨hkind, htook⟩
      rw [parseSteps]
      have := lt_length (List.mem_append_left _ hkind)
      have := hinside.level.le
      exact ⟨hinside.trans (.of_took htook hkind), by rw [htook.1]; omega, by omega⟩
  · rintro s₂ ⟨hinside, hlt, hlen⟩
    refine (ih _ (by omega) (s := s₂) (depth + 11) (by omega) rfl).imp (fun _ s' h => hinside.trans h)
      fun h h' => h (hinside.level.closable h')
  · rintro number s₁ - ⟨hstill, -⟩
    exact .of_still hstill

/-- What a call of the rule for braces does at an opening brace. -/
def EndsBraces (r : Reader) (kinds : List Kind) (depth : Nat) (s : Session) : Prop :=
  kindAt kinds s.position = 11 → ∀ callers at_ follow, Ends r (parseStep depth callers 0 (.call at_ follow 19 0 none)) s
    (fun _ s' => Inside kinds s s' ∧ s.position < s'.position) ¬∃ m, Closes kinds s.position m

theorem Closable.exists_closes (h : Closable kinds p) (hopen : kindAt kinds p = 11) :
    ∃ m, Closes kinds p m := by
  obtain ⟨m, hlevel, hclose⟩ := h
  have hne : p ≠ m := fun h => by rw [h, hclose] at hopen; cases hopen
  obtain ⟨m', -, hm'⟩ :=
    Grammar.exists_closes hopen (Nat.lt_of_le_of_ne hlevel.le hne) hlevel.level hlevel.known
  exact ⟨m', hm'⟩

section

variable (hr : Reads r kinds) (depth : Nat) (σ : List State)
include hr

theorem ends_texts (hdepth : kinds.length - s.position + 9 ≤ depth) (htext : kindAt kinds s.position ∈ textKinds) :
    Ends r (parseSteps (depth + 5) (240 :: σ) 0 [.call 259 260 21 0 none, moreTexts]) s
      (fun _ s' => Inside kinds s s' ∧ s.position < s'.position) ¬Closable kinds s.position := by
  rw [parseSteps]
  refine (ends_text hr depth (240 :: σ) 259 260).next (absurd htext) ?_
  rintro _ s₁ ⟨-, htook⟩
  have hinside := Inside.of_took htook htext
  have hlt := lt_length (List.mem_append_left _ htext)
  have hstart := htook.1
  rw [parseSteps, moreTexts, parseStep]
  refine Ends.bind (.of_run (run_sync hr _ _ s₁).1 ((ends_moreTexts hr (depth + 2) σ (by omega)).imp
    (fun _ _ => id) fun h h' => h (hinside.level.closable h'))) fun _ s₂ hmore => ?_
  rw [parseSteps]
  have := hmore.level.le
  exact ⟨hinside.trans hmore, by omega⟩

/-- A content: braces, or texts. -/
theorem ends_content (hdepth : kinds.length - s.position + 13 ≤ depth)
    (hkind : kindAt kinds s.position = 11 ∨ kindAt kinds s.position ∈ textKinds)
    (hbraces : ∀ s', s'.position = s.position → EndsBraces r kinds depth s') :
    Ends r (parseStep (depth + 6) σ 0 (.call 239 240 20 0 none)) s
      (fun _ s' => Inside kinds s s' ∧ s.position < s'.position) ¬Closable kinds s.position := by
  obtain ⟨depth, rfl⟩ : ∃ k, depth = k + 4 := ⟨depth - 4, by omega⟩
  refine (ends_call hr 1 (depth + 8) rfl
    (P := fun q braces => Level kinds s.position q ∧ braces = bracesBetween kinds s.position q ∧ s.position < q)
    fun inner hposition hnone => ?_).imp ?_ id
  · rw [parseSteps]
    have hsets : r.table.choiceAt 242 = some [⟨2048⟩, ⟨222⟩] := hr.table ▸ braceNet_facts.2.1.2.1
    refine Ends.bind (P := fun _ s' => Inside kinds inner s' ∧ s.position < s'.position) ?_ ?_
    · rw [← hposition] at hkind hbraces hdepth ⊢
      obtain hopen | htext := hkind
      · refine ends_choice hr 0 hsets (by simp [List.findIdx?_cons, mem_openSet.2 hopen]) rfl fun s₁ hstill => ?_
        rw [parseSteps]
        refine (hbraces s₁ hstill.1 (hstill.1 ▸ hopen) _ _ _).next ?_ ?_
        · rw [hstill.1]
          exact fun hnever h => hnever (h.exists_closes hopen)
        · rintro _ s₂ ⟨hinside, hlt⟩
          rw [parseSteps]
          exact ⟨.trans (.of_still hstill) hinside, hstill.1 ▸ hlt⟩
      · have hno : (⟨2048⟩ : TokenSet).mem (kindAt kinds inner.position) = false :=
          Bool.eq_false_iff.2 fun h => ne_open htext (mem_openSet.1 h)
        refine ends_choice hr 1 hsets (by simp [List.findIdx?_cons, hno, mem_textSet.2 htext]) rfl fun s₁ hstill => ?_
        rw [← hstill.1] at htext hdepth ⊢
        exact (ends_texts hr depth σ (by omega) htext).imp
          (fun _ _ h => ⟨.trans (.of_still hstill) h.1, h.2⟩) id
    · rintro _ s' ⟨hinside, hlt⟩
      rw [parseSteps]
      have hlevel := hinside.level
      have hall := hinside.braces
      rw [hposition] at hlevel hall
      rw [hnone, List.nil_append] at hall
      exact ⟨hlevel, hall, hlt⟩
  · rintro _ s' ⟨_, ⟨_, ⟨hlevel, hbetween, hlt⟩, hspans⟩, hall⟩
    exact ⟨⟨hlevel, by rw [hall, hspans, hbetween]; simp⟩, hlt⟩

/-- All that stands between braces. -/
theorem ends_contents (hdepth : 20 * (kinds.length - s.position) + 20 ≤ depth)
    (hbraces : ∀ (s' : Session) (depth : Nat), s.position ≤ s'.position →
      20 * (kinds.length - s'.position) + 6 ≤ depth → EndsBraces r kinds depth s') :
    Ends r (parseRounds depth σ 0 234 235 236 [[.call 239 240 20 0 none]]) s
      (fun _ s' => Inside kinds s s' ∧ ¬(kindAt kinds s'.position = 11 ∨ kindAt kinds s'.position ∈ textKinds))
      ¬Closable kinds s.position := by
  induction hn : kinds.length - s.position using Nat.strongRecOn generalizing s depth with | _ n ih => ?_
  obtain ⟨depth, rfl⟩ : ∃ k, depth = k + 9 := ⟨depth - 9, by omega⟩
  have hsets : r.table.choiceAt 234 = some [⟨2270⟩, ⟨4096⟩] := hr.table ▸ braceNet_facts.2.1.1
  have hgoes {number : Nat}
      (h : number = ([⟨2270⟩].findIdx? fun set : TokenSet => set.mem (kindAt kinds s.position)).elim 0 (· + 1)) :
      number = 1 ↔ kindAt kinds s.position = 11 ∨ kindAt kinds s.position ∈ textKinds := by
    rw [h, ← mem_contentSet]
    cases hmem : (⟨2270⟩ : TokenSet).mem (kindAt kinds s.position) <;> simp [List.findIdx?_cons, hmem]
  refine ends_parseRounds hr (P := fun s' => Inside kinds s s' ∧ s.position < s'.position ∧ s.position < kinds.length)
    (by rw [hsets]; exact ends_chooseByToken hr [⟨2270⟩]) ?_ ?_ ?_
  · rintro s₁ ⟨hstill, hnumber⟩
    have hkind := (hgoes hnumber).1 rfl
    have hlt : s.position < kinds.length :=
      hkind.elim lt_length_of_open fun h => lt_length (List.mem_append_left _ h)
    rw [← hstill.1] at hkind hlt
    have hstart := hstill.1
    rw [parseRound, parseSteps]
    refine (ends_content hr depth σ (by omega) hkind fun s' hs' => hbraces s' depth (by omega) (by omega)).next
      (fun h h' => h (hstart ▸ h')) ?_
    rintro _ s₂ ⟨hinside, hmore⟩
    rw [parseSteps]
    exact ⟨.trans (.of_still hstill) hinside, by omega, by omega⟩
  · rintro s₂ ⟨hinside, hlt, hlen⟩
    refine (ih _ (by omega) (s := s₂) (depth + 8) (by omega) (fun s' f h => hbraces s' f (by omega)) rfl).imp
      (fun _ s' h => ⟨hinside.trans h.1, h.2⟩) fun h h' => h (hinside.level.closable h')
  · rintro number s₁ hnumber ⟨hstill, h⟩
    rw [hstill.1]
    exact ⟨.of_still hstill, fun h' => hnumber ((hgoes h).2 h')⟩

/-- What the body of braces does. -/
theorem ends_body (hopen : kindAt kinds s.position = 11)
    (hdepth : 20 * (kinds.length - s.position) + 4 ≤ depth) (hnone : s.braces = [])
    (hbraces : ∀ (s' : Session) (depth : Nat), s.position < s'.position →
      20 * (kinds.length - s'.position) + 6 ≤ depth → EndsBraces r kinds depth s') :
    Ends r (parseSteps depth σ 0
        [.token 241 11 none, .star 234 235 236 [[.call 239 240 20 0 none]], .token 233 12 none]) s
      (fun _ s' => ∃ m, Closes kinds s.position m ∧ s'.position = m + 1 ∧
        s'.braces = bracesBetween kinds (s.position + 1) m)
      ¬∃ m, Closes kinds s.position m := by
  have hlt := lt_length_of_open hopen
  obtain ⟨depth, rfl⟩ : ∃ k, depth = k + 4 := ⟨depth - 4, by omega⟩
  rw [parseSteps, parseStep]
  refine (ends_takeToken hr 11 (by decide) σ 241).next (absurd hopen) ?_
  rintro _ s₁ ⟨-, hone⟩
  have hfirst := hone.1
  rw [parseSteps, parseStep]
  have hcontents := ends_contents (s := s₁) hr (depth + 1) σ (by omega) fun s' f h => hbraces s' f (by omega)
  have hopened (h : ∃ m, Closes kinds s.position m) : Closable kinds s₁.position := by
    obtain ⟨m, hm⟩ := h
    exact ⟨m, hfirst ▸ hm.inside, hm.closes⟩
  refine Ends.bind (.of_run (run_sync hr σ 234 s₁).1 (hcontents.imp (fun _ _ => id) (mt hopened))) ?_
  rintro _ s₂ ⟨hinside, hstop⟩
  have hlevel := hinside.level
  have hall := hinside.braces
  rw [hone.2, hnone, List.nil_append] at hall
  rw [hfirst] at hlevel hall
  rw [parseSteps, parseStep]
  refine (ends_takeToken hr 12 (by decide) σ 233).next ?_ ?_
  · rintro hno ⟨m, hm⟩
    have hrest := (hlevel.rest hm.inside hm.closes)
    obtain htext | hbrace := List.mem_append.1 (Closable.known ⟨m, hrest, hm.closes⟩)
    · exact hstop (.inr htext)
    · rw [braceKinds_eq, List.mem_cons, List.mem_singleton] at hbrace
      exact hbrace.elim (fun h => hstop (.inl h)) hno
  · rintro _ s₃ ⟨hclose, hthree⟩
    rw [parseSteps]
    exact ⟨s₂.position, ⟨hopen, hlevel, hclose⟩, hthree.1, hthree.2.trans hall⟩

end

theorem previous_of_position {m : Nat} (h : s.position = m + 1) : s.previous = some m := by
  rw [Session.previous, h]

theorem ends_braces (hr : Reads r kinds) (depth : Nat) (hdepth : 20 * (kinds.length - s.position) + 6 ≤ depth) :
    EndsBraces r kinds depth s := by
  induction hn : kinds.length - s.position using Nat.strongRecOn generalizing s depth with | _ n ih => ?_
  intro hopen callers at_ follow
  have hlt := lt_length_of_open hopen
  obtain ⟨depth, rfl⟩ : ∃ k, depth = k + 2 := ⟨depth - 2, by omega⟩
  refine (ends_call hr 0 depth rfl (P := fun q braces => ∃ m, Closes kinds s.position m ∧ q = m + 1 ∧
      braces = bracesBetween kinds (s.position + 1) m)
    fun inner hposition hnone => ?_).imp ?_ id
  · have hbody := ends_body (s := inner) hr depth (follow :: callers) (hposition ▸ hopen) (by omega) hnone
      fun s' f h hf => ih _ (by omega) f hf rfl
    rwa [hposition] at hbody
  · rintro _ s' ⟨_, ⟨_, ⟨m, hcloses, hq, hbetween⟩, hspans⟩, hall⟩
    have := hcloses.inside.le
    refine ⟨⟨hq ▸ hcloses.level, ?_⟩, by omega⟩
    rw [hall, hspans, hbetween, hq, hcloses.braces, previous_of_position hq]
    rfl

end Braces

/-! ## A whole parse -/

theorem reads_terminals {terminals : List Terminal} {last : Terminal} (hlast : terminals.getLast? = some last)
    (hend : last.kind = Kind.endOfText) :
    Reads ⟨javadoc.table, terminals.toArray, true⟩ (terminals.map Terminal.kind) where
  strict := rfl
  table := rfl
  terminal p := by
    simp only [Reader.terminalAt?, kindAt, List.getElem?_toArray, List.getD_eq_getElem?_getD, List.getElem?_map,
      List.back?_toArray, hlast]
    cases terminals[p]? with
    | some token => exact ⟨token, rfl, rfl⟩
    | none => exact ⟨last, by simp [hend], hend⟩

theorem Ends.parse {table : Table} {strict : Bool} {terminals : List Terminal} {rule : Nat}
    {P : Tree → Nat → Prop} {why : Prop} (h : Ends ⟨table, terminals.toArray, strict⟩
      (current >>= fun _ => parseRule (4096 * (terminals.length + 2) + 1) rule 0 []) .begin
      (fun tree s => P tree s.position) why) :
    match (Grammar.parse table strict terminals rule).tree with
    | .ok tree => P tree (Grammar.parse table strict terminals rule).position
    | .error _ => why := by
  have hparse {ended : Except Fault Tree × Session} (hended : (current >>= fun _ =>
      parseRule (4096 * (terminals.length + 2) + 1) rule 0 [] : Parser Tree) ⟨table, terminals.toArray, strict⟩ .begin
        = ended) : Grammar.parse table strict terminals rule = ⟨ended.1, ended.2.complaints.reverse,
          ended.2.visits.reverse, ended.2.position, ended.2.furthest⟩ := by
    subst hended
    rfl
  rw [Ends] at h
  generalize hended : (current >>= _ : Parser Tree) _ _ = ended at h
  rw [hparse hended]
  obtain ⟨fault | tree, s⟩ := ended <;> exact h

/-- A strict parse of braces succeeds exactly if the first brace is closed, and ends behind the brace that does. -/
theorem parse_braces {terminals : List Terminal} {last : Terminal} (hlast : terminals.getLast? = some last)
    (hend : last.kind = Kind.endOfText) {kinds : List Kind} (hkinds : terminals.map Terminal.kind = kinds)
    (hopen : kindAt kinds 0 = 11) :
    match (parse javadoc.table true terminals 19).tree with
    | .ok tree => ∃ m, Closes kinds 0 m ∧ (parse javadoc.table true terminals 19).position = m + 1 ∧
        tree.spans 19 = bracesBetween kinds 0 (m + 1)
    | .error _ => ¬∃ m, Closes kinds 0 m := by
  have hlength : kinds.length = terminals.length := by rw [← hkinds, List.length_map]
  have hr : Reads ⟨javadoc.table, terminals.toArray, true⟩ kinds := hkinds ▸ reads_terminals hlast hend
  have hrun : Ends ⟨javadoc.table, terminals.toArray, true⟩
      (current >>= fun _ => parseRule (4096 * (terminals.length + 2) + 1) 19 0 []) .begin
      (fun tree s' => ∃ m, Closes kinds 0 m ∧ s'.position = m + 1 ∧ tree.spans 19 = bracesBetween kinds 0 (m + 1))
      (¬∃ m, Closes kinds 0 m) := by
    refine (ends_current hr).bind fun _ s hs => ?_
    have hstart : s.position = 0 := hs.1.1
    refine (ends_parseRule hr 0 _ rfl (P := fun q braces => ∃ m, Closes kinds 0 m ∧ q = m + 1 ∧
      braces = bracesBetween kinds 1 m) fun inner hposition hnone => ?_).imp ?_ id
    · have hzero := hposition.trans hstart
      have hbody := ends_body (s := inner) hr (4096 * (terminals.length + 2)) [] (hzero ▸ hopen) (by omega) hnone
        fun s' f _ hf => ends_braces hr f hf
      rwa [hzero] at hbody
    · rintro tree s' ⟨-, braces, ⟨m, hcloses, hq, hbetween⟩, hall⟩
      refine ⟨m, hcloses, hq, ?_⟩
      rw [hall, hbetween, hcloses.braces, previous_of_position hq, hstart]
      rfl
  exact Ends.parse (P := fun tree q => ∃ m, Closes kinds 0 m ∧ q = m + 1 ∧
    tree.spans 19 = bracesBetween kinds 0 (m + 1)) hrun

end Transcriber.Grammar

namespace Transcriber

open Transcriber.Lexical Transcriber.Grammar Transcriber.DocComment

/-- The kinds of the tokens of a documentation comment, the end of the text last. -/
def docKinds (text : String) : List Kind := (javadoc.scan true text).tokens.map Token.kind

/-- A text that begins with an opening brace is read as braces, without recovering from faults, exactly if some tokens
at its beginning are texts and as many closing as opening braces.  Just the shortest such beginning is read, and the
nodes for braces in the tree are the pairs of braces in it. -/
theorem braceExpression_balanced (text : String) (hopen : (docKinds text).head? = some (kindNamed "BRACE_OPEN")) :
    ∃ rule, javadoc.table.network.ruleIndex? "braceExpression" = some rule ∧
      let outcome := (javadoc.parse true true rule text).outcome
      ((∃ tree, outcome.tree = .ok tree) ↔ ∃ n, Balanced ((docKinds text).take n)) ∧
      ∀ tree, outcome.tree = .ok tree → shortest? (docKinds text) = some outcome.position ∧
        tree.spans rule = bracesBetween (docKinds text) 0 outcome.position := by
  refine ⟨19, by decide +kernel, ?_⟩
  have hzero : kindAt (docKinds text) 0 = 11 := by
    rw [kindAt, List.getD_eq_getElem?_getD, ← List.head?_eq_getElem?, hopen, kindNamed_open]
    rfl
  obtain ⟨⟨tokens, hscan, -, hseen⟩, -⟩ := scanFrom_spec .first 0 (Nat.lt_succ_self text.toList.length)
  have hscan : (javadoc.scan true text).tokens = tokens ++ [_] := congrArg Scan.tokens hscan
  have hterminals : SourceLanguage.terminals (javadoc.scan true text).tokens =
      (javadoc.scan true text).tokens.map fun token => ⟨token.kind, token.text⟩ := by
    rw [SourceLanguage.terminals, List.filter_eq_self.2]
    rw [hscan]
    exact fun token htoken => (List.mem_append.1 htoken).elim (fun h => by rw [hseen token h]; rfl)
      fun h => by rw [List.mem_singleton.1 h]; rfl
  have hlast : (SourceLanguage.terminals (javadoc.scan true text).tokens).getLast? =
      some ⟨Kind.endOfText, "<EOF>"⟩ := by
    rw [hterminals, hscan, List.map_append]
    exact List.getLast?_concat
  have hparse := parse_braces hlast rfl (by rw [hterminals, List.map_map]; rfl) hzero
  have houtcome : (javadoc.parse true true 19 text).outcome = Grammar.parse javadoc.table true
    (SourceLanguage.terminals (javadoc.scan true text).tokens) 19 := rfl
  dsimp only
  rw [exists_balanced_iff hzero, houtcome]
  generalize Grammar.parse _ _ _ _ = outcome at hparse ⊢
  cases htree : outcome.tree with
  | error fault =>
    rw [htree] at hparse
    exact ⟨⟨by simp, fun h => absurd h hparse⟩, by simp⟩
  | ok tree =>
    rw [htree] at hparse
    obtain ⟨m, hcloses, hposition, hbraces⟩ := hparse
    refine ⟨⟨fun _ => ⟨m, hcloses⟩, fun _ => ⟨tree, rfl⟩⟩, ?_⟩
    rintro _ ⟨⟩
    rw [hposition]
    exact ⟨(shortest?_eq_some_iff hzero).2 ⟨m, hcloses, rfl⟩, hbraces⟩

/-- Braces with a name, braces and a line break in them. -/
theorem braceExpression_balanced_nested : ∃ rule tree,
    (javadoc.parse true true rule "\x7ba\x7b\x7d\n\x7d\x7d").outcome.tree = .ok tree ∧
      tree.spans rule = [(0, some 5), (2, some 3)] := by
  obtain ⟨rule, -, hreads, hspans⟩ := braceExpression_balanced "\x7ba\x7b\x7d\n\x7d\x7d" (by decide +kernel)
  obtain ⟨tree, htree⟩ := hreads.2 ⟨6, by decide +kernel⟩
  obtain ⟨hshortest, hspans⟩ := hspans tree htree
  have hposition : shortest? (docKinds "\x7ba\x7b\x7d\n\x7d\x7d") = some 6 := by decide +kernel
  rw [← Option.some.inj (hposition.symm.trans hshortest)] at hspans
  exact ⟨rule, tree, htree, hspans.trans (by decide +kernel)⟩

end Transcriber
