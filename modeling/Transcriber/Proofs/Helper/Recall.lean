import Mathlib.Data.List.Induction
import Mathlib.Data.List.Nodup
import Transcriber.Helper.Dispatch

/-!
# Remembered functions are the ones a search would find

A dispatcher remembers where calls went, and forgets it at every registration.  Here registrations
and calls follow one another in any order and number.  The registrations alone say which functions
a dispatcher knows: each signature once, in the order of the first registrations, with the function
that was registered for it last.  Every call answers what a search among these functions finds, as
if nothing had ever been remembered.

* `Dispatcher.run_answers_searches` — the main statement.
-/

namespace Transcriber.Dispatcher

open List

variable {C F : Type} [DecidableEq C]

section Table

variable {key : List C} {f : F} {table : List (List C × F)}

theorem mem_of_lookup (h : table.lookup key = some f) : (key, f) ∈ table := by
  induction table with
  | nil => simp at h
  | cons entry rest ih =>
    obtain ⟨k, g⟩ := entry
    by_cases hk : key = k
    · subst hk
      simp_all
    · simp only [lookup_cons, beq_eq_false_iff_ne.2 hk] at h
      exact .tail _ (ih h)

theorem mem_put {entry : List C × F} (h : entry ∈ put key f table) : entry = (key, f) ∨ entry ∈ table := by
  induction table with
  | nil => exact .inl (mem_singleton.1 h)
  | cons first rest ih =>
    obtain ⟨k, g⟩ := first
    by_cases hk : k = key
    · subst hk
      simp only [put, if_true, mem_cons] at h
      exact h.imp_right (mem_cons_of_mem _)
    · simp only [put, hk, if_false, mem_cons] at h
      rcases h with h | h
      · exact .inr (h ▸ .head _)
      · exact (ih h).imp_right (mem_cons_of_mem _)

end Table

/-- The table with the given keys and the values that a function gives them. -/
def tabulate (keys : List (List C)) (value? : List C → Option F) : List (List C × F) :=
  keys.filterMap fun key => (value? key).map (key, ·)

section Tabulate

variable {key : List C} {keys : List (List C)} {value? value?' : List C → Option F} {f : F}

omit [DecidableEq C] in
theorem tabulate_congr (h : ∀ k ∈ keys, value? k = value?' k) :
    tabulate keys value? = tabulate keys value?' :=
  filterMap_congr fun k hk => by rw [h k hk]

theorem put_tabulate_new (h : key ∉ keys) :
    put key f (tabulate keys value?) = tabulate keys value? ++ [(key, f)] := by
  induction keys with
  | nil => rfl
  | cons k keys ih =>
    obtain ⟨hk, hkeys⟩ : key ≠ k ∧ key ∉ keys := by simpa using h
    rcases hv : value? k with _ | g
    · simpa [tabulate, hv] using ih hkeys
    · simpa [tabulate, hv, put, hk.symm] using ih hkeys

theorem put_tabulate_old (hmem : key ∈ keys) (hnodup : keys.Nodup) (hkey : (value? key).isSome)
    (hsome : value?' key = some f) (hother : ∀ k, k ≠ key → value?' k = value? k) :
    put key f (tabulate keys value?) = tabulate keys value?' := by
  induction keys with
  | nil => cases hmem
  | cons k keys ih =>
    obtain ⟨hk, hnodup⟩ := nodup_cons.1 hnodup
    by_cases heq : k = key
    · -- the entry is the first one, and the key does not occur again
      subst heq
      obtain ⟨g, hg⟩ := Option.isSome_iff_exists.1 hkey
      have hrest : tabulate keys value? = tabulate keys value?' :=
        tabulate_congr fun k' hk' => (hother k' fun h => hk (h ▸ hk')).symm
      simpa [tabulate, hg, hsome, put] using hrest
    · have hrest := ih (by simpa [Ne.symm heq] using hmem) hnodup
      have hv' := hother k heq
      rcases hv : value? k with _ | g
      · simpa [tabulate, hv, hv'] using hrest
      · simpa [tabulate, hv, hv', put, heq] using hrest

end Tabulate

/-- The functions that registrations leave, given in their order: each signature once, where it was
first registered, with the function that was registered for it last. -/
def knownAfter (registrations : List (List C × F)) : List (List C × F) :=
  tabulate (registrations.map (·.1)).eraseDups fun signature => registrations.reverse.lookup signature

section Known

theorem eraseDups_concat (keys : List (List C)) (key : List C) :
    (keys ++ [key]).eraseDups = if key ∈ keys then keys.eraseDups else keys.eraseDups ++ [key] := by
  by_cases h : key ∈ keys <;> simp [eraseDups_append, removeAll, h, eraseDups_cons]

theorem nodup_eraseDups (keys : List (List C)) : keys.eraseDups.Nodup := by
  induction keys using reverseRecOn with
  | nil => simp
  | append_singleton keys key ih =>
    rw [eraseDups_concat]
    split
    · exact ih
    · rename_i h
      exact nodup_append.2 ⟨ih, nodup_singleton _, by
        rintro a ha b hb rfl
        exact h (mem_singleton.1 hb ▸ mem_eraseDups.1 ha)⟩

theorem put_knownAfter (registrations : List (List C × F)) (signature : List C) (f : F) :
    put signature f (knownAfter registrations) = knownAfter (registrations ++ [(signature, f)]) := by
  have hother : ∀ k, k ≠ signature →
      (registrations ++ [(signature, f)]).reverse.lookup k = registrations.reverse.lookup k := by
    intro k hk
    simp [lookup_cons, beq_eq_false_iff_ne.2 hk]
  have hself : (registrations ++ [(signature, f)]).reverse.lookup signature = some f := by simp
  simp only [knownAfter, map_append, map_cons, map_nil, eraseDups_concat]
  by_cases hmem : signature ∈ registrations.map (·.1)
  · have hsome : (registrations.reverse.lookup signature).isSome := by
      rw [Option.isSome_iff_ne_none, Ne, lookup_eq_none_iff]
      obtain ⟨entry, hentry, rfl⟩ := mem_map.1 hmem
      intro h
      simpa using h entry (mem_reverse.2 hentry)
    rw [if_pos hmem]
    exact put_tabulate_old (mem_eraseDups.2 hmem) (nodup_eraseDups _) hsome hself hother
  · have hold : ∀ k ∈ (registrations.map (·.1)).eraseDups,
        (registrations ++ [(signature, f)]).reverse.lookup k = registrations.reverse.lookup k :=
      fun k hk => hother k fun h => hmem (h ▸ mem_eraseDups.1 hk)
    rw [if_neg hmem, put_tabulate_new fun h => hmem (mem_eraseDups.1 h), ← tabulate_congr hold]
    simp [tabulate]

end Known

/-- What can happen to a dispatcher. -/
inductive Act (C F : Type) where
  /-- A function is registered for a signature. -/
  | register (signature : List C) (f : F)
  /-- A call is made with arguments of the given types. -/
  | call (types : List C)
deriving DecidableEq, Repr

variable [DecidableEq F]

/-- The answers to the calls among some acts, and the dispatcher after all of them. -/
def run (order : C → List C) :
    Dispatcher C F → List (Act C F) → List (Except (List (List C)) F) × Dispatcher C F
  | d, [] => ([], d)
  | d, .register signature f :: acts => run order (d.register signature f) acts
  | d, .call types :: acts =>
    let (answer, d) := d.call order types
    let (answers, d) := run order d acts
    (answer :: answers, d)

def registrations : List (Act C F) → List (List C × F)
  | [] => []
  | .register signature f :: acts => (signature, f) :: registrations acts
  | .call _ :: acts => registrations acts

/-- A dispatcher that has called nothing yet. -/
def fresh (fallback : F) (registrations : List (List C × F)) : Dispatcher C F :=
  ⟨fallback, knownAfter registrations, []⟩

/-- The answers to the calls among some acts if each call makes a new search, among the functions
that the registrations before it have left. -/
def searches (order : C → List C) (fallback : F) :
    List (List C × F) → List (Act C F) → List (Except (List (List C)) F)
  | _, [] => []
  | before, .register signature f :: acts =>
    searches order fallback (before ++ [(signature, f)]) acts
  | before, .call types :: acts =>
    (fresh fallback before).find order types :: searches order fallback before acts

/-- What a dispatcher remembers is what a search finds. -/
structure UpToDate (order : C → List C) (fallback : F) (registrations : List (List C × F))
    (d : Dispatcher C F) : Prop where
  fallback_eq : d.fallback = fallback
  registry_eq : d.registry = knownAfter registrations
  cache_eq : ∀ entry ∈ d.cache, d.find order entry.1 = .ok entry.2

section Run

variable {order : C → List C} {fallback : F} {before : List (List C × F)} {d : Dispatcher C F}

theorem upToDate_ofDefault (order : C → List C) (fallback : F) :
    UpToDate order fallback [] (ofDefault fallback) where
  fallback_eq := rfl
  registry_eq := rfl
  cache_eq := nofun

variable (h : UpToDate order fallback before d)
include h

theorem UpToDate.find_eq (types : List C) :
    d.find order types = (fresh fallback before).find order types := by
  obtain ⟨fallback', registry, cache⟩ := d
  obtain ⟨rfl, rfl, -⟩ := h
  rfl

theorem UpToDate.register (signature : List C) (f : F) :
    UpToDate order fallback (before ++ [(signature, f)]) (d.register signature f) where
  fallback_eq := h.fallback_eq
  registry_eq := by
    rw [← put_knownAfter, ← h.registry_eq]
    rfl
  cache_eq := nofun

theorem UpToDate.call_cases (types : List C) :
    (∃ f, d.find order types = .ok f ∧ (d.call order types).1 = .ok f ∧ ((d.call order types).2 = d ∨
          (d.call order types).2 = { d with cache := put types f d.cache })) ∨
      ∃ several, d.find order types = .error several ∧ d.call order types = (.error several, d) := by
  unfold Dispatcher.call
  rcases hcache : d.cache.lookup types with _ | f
  · rcases hfind : d.find order types with several | f
    · exact .inr ⟨several, rfl, rfl⟩
    · exact .inl ⟨f, rfl, rfl, .inr rfl⟩
  · exact .inl ⟨f, h.cache_eq _ (mem_of_lookup hcache), rfl, .inl rfl⟩

theorem UpToDate.call_fst (types : List C) :
    (d.call order types).1 = (fresh fallback before).find order types := by
  rw [← h.find_eq]
  obtain ⟨f, hfind, hcall, -⟩ | ⟨several, hfind, hcall⟩ := h.call_cases types
  · rw [hfind, hcall]
  · rw [hfind, hcall]

theorem UpToDate.call_snd (types : List C) :
    UpToDate order fallback before (d.call order types).2 := by
  obtain ⟨f, hfind, -, hsame | hput⟩ | ⟨several, -, hcall⟩ := h.call_cases types
  · rwa [hsame]
  · rw [hput]
    refine ⟨h.fallback_eq, h.registry_eq, fun entry hentry => ?_⟩
    rcases mem_put hentry with rfl | hentry
    · exact hfind
    · exact h.cache_eq entry hentry
  · rwa [hcall]

/-- The invariant carries a whole run: the answers are those of new searches, and the dispatcher at
the end is up to date with all registrations. -/
theorem UpToDate.run (acts : List (Act C F)) :
    (run order d acts).1 = searches order fallback before acts ∧
      UpToDate order fallback (before ++ registrations acts) (Dispatcher.run order d acts).2 := by
  induction acts generalizing before d with
  | nil => simpa [Dispatcher.run, searches, registrations] using h
  | cons act acts ih =>
    cases act with
    | register signature f =>
      simpa [Dispatcher.run, searches, registrations] using ih (h.register signature f)
    | call types =>
      obtain ⟨hanswers, hlast⟩ := ih (h.call_snd types)
      exact ⟨congrArg₂ _ (h.call_fst types) hanswers, hlast⟩

end Run

/-- Whatever was registered and called before, each call has answered what a new search among the
functions known at that moment finds, be it a function or that there is no choice.  At the end the
dispatcher knows for each signature the function that was registered for it last, everything that it
remembers is what a search finds now, and a call without a choice changes nothing. -/
theorem run_answers_searches (order : C → List C) (fallback : F) (acts : List (Act C F)) :
    (run order (ofDefault fallback) acts).1 = searches order fallback [] acts ∧
      let d := (run order (ofDefault fallback) acts).2
      d.fallback = fallback ∧
        d.registry = knownAfter (registrations acts) ∧
        (∀ entry ∈ d.cache, d.find order entry.1 = .ok entry.2) ∧
        ∀ types,
          (d.call order types).1 = d.find order types ∧
            ∀ several, d.find order types = .error several →
              d.call order types = (.error several, d) := by
  obtain ⟨hanswers, hlast⟩ := (upToDate_ofDefault order fallback).run acts
  refine ⟨hanswers, hlast.fallback_eq, hlast.registry_eq, hlast.cache_eq, fun types => ⟨?_, ?_⟩⟩
  · rw [hlast.call_fst, hlast.find_eq]
  · intro several hfind
    obtain ⟨f, hf, -⟩ | ⟨several', hfind', hcall⟩ := hlast.call_cases types
    · simp [hfind] at hf
    · rw [hcall, Except.error.inj (hfind'.symm.trans hfind)]

/-- Class `0` is the base of class `1`.  A call for the base is remembered, then the class itself is
registered: the same call goes there.  Two signatures that fit equally well leave no choice. -/
theorem run_answers_after_registration :
    let order : Nat → List Nat := fun c => if c = 0 then [0] else [1, 0]
    let acts : List (Act Nat String) :=
      [.call [1], .register [0] "base", .call [1], .register [1] "own", .call [1],
        .register [0, 1] "left", .register [1, 0] "right", .call [1, 1], .call [1]]
    let d := (run order (ofDefault "any") acts).2
    (run order (ofDefault "any") acts).1
        = [.ok "any", .ok "base", .ok "own", .error [[0, 1], [1, 0]], .ok "own"] ∧
      (([1], "own") ∈ d.cache ∧ d.find order [1] = .ok "own") ∧
      d.find order [1, 1] = .error [[0, 1], [1, 0]] ∧
      d.call order [1, 1] = (.error [[0, 1], [1, 0]], d) := by
  intro order acts d
  obtain ⟨hanswers, -, -, hcache, hcall⟩ := run_answers_searches order "any" acts
  have hfind : d.find order [1, 1] = .error [[0, 1], [1, 0]] := by decide
  have hmem : ([1], "own") ∈ d.cache := by decide
  exact ⟨hanswers.trans (by decide), ⟨hmem, hcache _ hmem⟩, hfind, (hcall [1, 1]).2 _ hfind⟩

end Transcriber.Dispatcher
