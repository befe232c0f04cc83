import Mathlib.Order.Preorder.Finite
import Transcriber.Proofs.Helper.Recall

/-!
# The most specific signature is chosen

A call goes by the registered signatures that fit its arguments, and among them by those that no
other one comes before in the orders of all arguments.  They may be several, as long as they have one
function.  The search takes shorter ways where a signature is that of the call, or only one fits;
these ways lead to the same function.

The places of the types of a signature in the orders of the arguments make signatures that fit a
partial order: this is why one that no other comes before can be found at all.

* `Dispatcher.find_eq_ok_iff`, `Dispatcher.find_eq_error_iff` — the answers of a search.
* `Dispatcher.find_most_specific` — the main statement.
-/

namespace Transcriber

variable {C F : Type}

/-- Orders of types in which each type comes first in its own, and no type comes twice. -/
structure Linearized (order : C → List C) : Prop where
  head : ∀ c, (order c).head? = some c
  nodup : ∀ c, (order c).Nodup

namespace Signature

/-- A signature has as many types as there are arguments, each in the order of its argument. -/
def Fits (order : C → List C) (types signature : List C) : Prop :=
  signature.length = types.length ∧
    ∀ (i : Nat) (t argument : C), signature[i]? = some t → types[i]? = some argument → t ∈ order argument

/-- Position by position, the first signature comes no later in the order of the argument. -/
def Dominates (order : C → List C) (types first second : List C) : Prop :=
  ∀ (i : Nat) (argument s t : C), types[i]? = some argument → first[i]? = some s → second[i]? = some t →
    ∃ j k : Nat, j ≤ k ∧ (order argument)[j]? = some s ∧ (order argument)[k]? = some t

variable {order : C → List C} {types s t : List C}

/-- What stands at a position of a signature that fits. -/
theorem Fits.get (h : Fits order types s) {i : Nat} {argument : C}
    (ha : types[i]? = some argument) : ∃ c ∈ order argument, s[i]? = some c := by
  have hlt : i < s.length := h.1 ▸ (List.getElem?_eq_some_iff.1 ha).1
  exact ⟨s[i], h.2 i _ _ (List.getElem?_eq_getElem hlt) ha, List.getElem?_eq_getElem hlt⟩

theorem fits_self (horder : Linearized order) (types : List C) : Fits order types types := by
  refine ⟨rfl, fun i t argument ht ha => ?_⟩
  obtain rfl := Option.some.inj (ht.symm.trans ha)
  exact List.mem_of_head? (horder.head _)

variable [DecidableEq C]

/-- The places of the types of a signature in the orders of the arguments. -/
def places (order : C → List C) (types signature : List C) (i : Nat) : Nat :=
  match types[i]?, signature[i]? with
  | some argument, some t => (order argument).idxOf t
  | _, _ => 0

theorem places_eq {i : Nat} {argument c : C} (ha : types[i]? = some argument)
    (hc : s[i]? = some c) : places order types s i = (order argument).idxOf c := by
  simp only [places, ha, hc]

theorem fits_iff : fits order types s = true ↔ Fits order types s := by
  simp only [fits, Bool.and_eq_true, beq_iff_eq, List.all_eq_true, List.contains_iff_mem, Fits]
  refine and_congr_right fun _ => ⟨fun h i c argument hc ha => ?_, fun h p hp => ?_⟩
  · exact h (c, argument) (List.mem_of_getElem? (List.getElem?_zip_eq_some.2 ⟨hc, ha⟩))
  · obtain ⟨i, hi⟩ := List.mem_iff_getElem?.1 hp
    obtain ⟨hc, ha⟩ := List.getElem?_zip_eq_some.1 hi
    exact h i p.1 p.2 hc ha

theorem goesBefore_iff (hs : Fits order types s) (ht : Fits order types t) :
    goesBefore order types t s = true ↔ t ≠ s ∧ places order types t ≤ places order types s := by
  simp only [goesBefore, Bool.and_eq_true, bne_iff_ne, List.all_eq_true, decide_eq_true_eq]
  refine and_congr_right fun _ => ⟨fun h i => ?_, fun h p hp => ?_⟩
  · rcases ha : types[i]? with _ | argument
    · simp only [places, ha, le_refl]
    · obtain ⟨c, -, hc⟩ := ht.get ha
      obtain ⟨c', -, hc'⟩ := hs.get ha
      rw [places_eq ha hc, places_eq ha hc']
      exact h (argument, c, c') (List.mem_of_getElem? (List.getElem?_zip_eq_some.2
        ⟨ha, List.getElem?_zip_eq_some.2 ⟨hc, hc'⟩⟩))
  · obtain ⟨i, hi⟩ := List.mem_iff_getElem?.1 hp
    obtain ⟨ha, hi⟩ := List.getElem?_zip_eq_some.1 hi
    obtain ⟨hc, hc'⟩ := List.getElem?_zip_eq_some.1 hi
    have hle := h i
    rwa [places_eq ha hc, places_eq ha hc'] at hle

theorem places_injective (hs : Fits order types s) (ht : Fits order types t)
    (h : places order types s = places order types t) : s = t := by
  refine List.ext_getElem? fun i => ?_
  rcases ha : types[i]? with _ | argument
  · have hle := List.getElem?_eq_none_iff.1 ha
    rw [List.getElem?_eq_none (hs.1.trans_le hle), List.getElem?_eq_none (ht.1.trans_le hle)]
  · obtain ⟨c, hmem, hc⟩ := hs.get ha
    obtain ⟨c', hmem', hc'⟩ := ht.get ha
    have hplace := congrFun h i
    rw [places_eq ha hc, places_eq ha hc'] at hplace
    rw [hc, hc', (List.idxOf_inj hmem).1 hplace]

theorem dominates_iff (horder : Linearized order) (hs : Fits order types s) (ht : Fits order types t) :
    Dominates order types t s ↔ places order types t ≤ places order types s := by
  constructor
  · intro h i
    rcases ha : types[i]? with _ | argument
    · simp only [places, ha, le_refl]
    · obtain ⟨c, -, hc⟩ := ht.get ha
      obtain ⟨c', -, hc'⟩ := hs.get ha
      obtain ⟨j, k, hle, hj, hk⟩ := h i argument c c' ha hc hc'
      -- no type comes twice, so the places are the only ones
      obtain ⟨hlt, rfl⟩ := getElem?_eq_some_iff.1 hj
      obtain ⟨hlt', rfl⟩ := getElem?_eq_some_iff.1 hk
      rwa [places_eq ha hc, places_eq ha hc', (horder.nodup argument).idxOf_getElem,
        (horder.nodup argument).idxOf_getElem]
  · intro h i argument c c' ha hc hc'
    have hle := h i
    rw [places_eq ha hc, places_eq ha hc'] at hle
    exact ⟨_, _, hle, List.getElem?_idxOf (ht.2 i c argument hc ha),
      List.getElem?_idxOf (hs.2 i c' argument hc' ha)⟩

/-- The types of a call come first everywhere. -/
theorem places_self (horder : Linearized order) (types : List C) (i : Nat) :
    places order types types i = 0 := by
  rcases ha : types[i]? with _ | argument
  · simp only [places, ha]
  · obtain ⟨rest, hrest⟩ := List.head?_eq_some_iff.1 (horder.head argument)
    rw [places_eq ha ha, hrest, List.idxOf_cons_self]

end Signature

namespace Dispatcher

open Signature List

/-- The signatures with a function that fit a call. -/
def Fitting (order : C → List C) (known : List C → Option F) (types : List C) : Set (List C) :=
  {s | (∃ f, known s = some f) ∧ Fits order types s}

/-- Those among them that no other one dominates. -/
def Closest (order : C → List C) (known : List C → Option F) (types : List C) : Set (List C) :=
  {s ∈ Fitting order known types |
    ∀ t ∈ Fitting order known types, Dominates order types t s → t = s}

variable {order : C → List C} {known : List C → Option F} {types s : List C}

theorem closest_of_single (h : Fitting order known types = {s}) : Closest order known types = {s} := by
  ext t
  simp only [Closest, h, Set.mem_ofPred_eq, Set.mem_singleton_iff]
  exact ⟨fun ht => ht.1, fun ht => ⟨ht, fun u hu _ => hu.trans ht.symm⟩⟩

/-- What is made of the closest signatures: their function, if they have only one. -/
def settle [DecidableEq F] : List (List C × F) → Except (List (List C)) F
  | [] => .error []
  | entry :: rest =>
    if rest.all fun other => other.2 = entry.2 then .ok entry.2
    else .error ((entry :: rest).map (·.1))

theorem settle_cases [DecidableEq F] {M : Set (List C)} {found : List (List C × F)}
    (hfound : ∀ s f, (s, f) ∈ found ↔ known s = some f ∧ s ∈ M) (hM : ∀ s ∈ M, ∃ f, known s = some f)
    (hne : M.Nonempty) :
    (∃ f, settle found = .ok f ∧ ∀ s ∈ M, known s = some f) ∨
      (∃ several, settle found = .error several) ∧ ∃ s ∈ M, ∃ t ∈ M, known s ≠ known t := by
  have hentry : ∀ s ∈ M, ∃ f, known s = some f ∧ (s, f) ∈ found := fun s hs => by
    obtain ⟨f, hf⟩ := hM s hs
    exact ⟨f, hf, (hfound s f).2 ⟨hf, hs⟩⟩
  rcases found with _ | ⟨⟨s1, f1⟩, others⟩
  · obtain ⟨s, hs⟩ := hne
    obtain ⟨f, -, hmem⟩ := hentry s hs
    cases hmem
  · obtain ⟨hf1, hs1⟩ := (hfound s1 f1).1 (.head _)
    rw [settle]
    split
    next hall =>
      refine .inl ⟨f1, rfl, fun s hs => ?_⟩
      obtain ⟨f, hf, hmem⟩ := hentry s hs
      rcases mem_cons.1 hmem with heq | hmem
      · rw [hf, (Prod.mk.inj heq).2]
      · exact hf.trans (congrArg some (of_decide_eq_true (all_eq_true.1 hall _ hmem)))
    next hall =>
      simp only [all_eq_true, decide_eq_true_eq, not_forall] at hall
      obtain ⟨⟨s, f⟩, hmem, hdiffer⟩ := hall
      obtain ⟨hf, hs⟩ := (hfound s f).1 (.tail _ hmem)
      exact .inr ⟨⟨_, rfl⟩, s, hs, s1, hs1,
        fun heq => hdiffer (Option.some.inj (hf.symm.trans (heq.trans hf1)))⟩

variable [DecidableEq C]

/-- The function for each signature, after some registrations. -/
def knownFor (registrations : List (List C × F)) (signature : List C) : Option F :=
  registrations.reverse.lookup signature

theorem mem_knownAfter {registrations : List (List C × F)} {f : F} :
    (s, f) ∈ knownAfter registrations ↔ knownFor registrations s = some f := by
  simp only [knownAfter, tabulate, mem_filterMap, mem_eraseDups, Option.map_eq_some_iff,
    Prod.mk.injEq, knownFor]
  constructor
  · rintro ⟨_, -, _, hf, rfl, rfl⟩
    exact hf
  · intro hf
    refine ⟨s, mem_map.2 ⟨(s, f), ?_, rfl⟩, f, hf, rfl, rfl⟩
    exact mem_reverse.1 (mem_of_lookup hf)

section Closest

variable (horder : Linearized order)
include horder

theorem mem_closest_iff : s ∈ Closest order known types ↔ s ∈ Fitting order known types ∧
    ∀ t ∈ Fitting order known types, places order types t ≤ places order types s → t = s := by
  refine and_congr_right fun hs => forall₂_congr fun t ht => ?_
  rw [dominates_iff horder hs.2 ht.2]

/-- Among finitely many signatures that fit there is one that no other dominates. -/
theorem closest_nonempty (hfinite : (Fitting order known types).Finite)
    (h : (Fitting order known types).Nonempty) : (Closest order known types).Nonempty := by
  obtain ⟨s, hs⟩ := hfinite.exists_minimalFor (places order types) _ h
  refine ⟨s, (mem_closest_iff horder).2 ⟨hs.1, fun t ht hle => ?_⟩⟩
  exact places_injective ht.2 hs.1.2 (hle.antisymm (hs.2 ht hle))

theorem closest_of_direct {f : F} (h : known types = some f) : Closest order known types = {types} := by
  have hself : types ∈ Fitting order known types := ⟨⟨f, h⟩, fits_self horder types⟩
  have hfirst : ∀ t : List C, places order types types ≤ places order types t := fun t i => by
    rw [places_self horder]
    exact Nat.zero_le _
  ext s
  rw [mem_closest_iff horder, Set.mem_singleton_iff]
  constructor
  · exact fun hs => (hs.2 types hself (hfirst s)).symm
  · rintro rfl
    exact ⟨hself, fun t ht hle => places_injective ht.2 hself.2 (hle.antisymm (hfirst t))⟩

end Closest

section Search

variable {d : Dispatcher C F} (hknown : ∀ s f, (s, f) ∈ d.registry ↔ known s = some f)
include hknown

theorem mem_candidates {f : F} :
    (s, f) ∈ d.candidates order types ↔ known s = some f ∧ s ∈ Fitting order known types := by
  simp only [candidates, mem_filter, hknown, fits_iff, Fitting, Set.mem_ofPred_eq]
  exact and_congr_right fun hf => (and_iff_right ⟨f, hf⟩).symm

omit [DecidableEq C] in
theorem finite_fitting : (Fitting order known types).Finite := by
  refine (finite_toSet (d.registry.map (·.1))).subset fun s hs => ?_
  obtain ⟨⟨f, hf⟩, -⟩ := hs
  exact mem_map.2 ⟨(s, f), (hknown s f).2 hf, rfl⟩

theorem candidates_eq_nil_iff : d.candidates order types = [] ↔ Fitting order known types = ∅ := by
  rw [eq_nil_iff_forall_not_mem, Set.eq_empty_iff_forall_notMem]
  constructor
  · intro h s hs
    obtain ⟨f, hf⟩ := hs.1
    exact h (s, f) ((mem_candidates hknown).2 ⟨hf, hs⟩)
  · exact fun h entry hentry => h entry.1 ((mem_candidates hknown).1 hentry).2

theorem lookup_registry (s : List C) : d.registry.lookup s = known s := by
  rcases h : d.registry.lookup s with _ | f
  · rcases hf : known s with _ | f
    · rfl
    · have hno := lookup_eq_none_iff.1 h _ ((hknown s f).2 hf)
      simp at hno
  · exact ((hknown s f).1 (mem_of_lookup h)).symm

variable (horder : Linearized order)
include horder

variable (types) in
theorem mem_best {f : F} : (s, f) ∈ best order types (d.candidates order types)
    ↔ known s = some f ∧ s ∈ Closest order known types := by
  rw [best, mem_filter, mem_candidates hknown, mem_closest_iff horder, and_assoc]
  refine and_congr_right fun _ => and_congr_right fun hs => ?_
  rw [Bool.not_eq_true', any_eq_false]
  constructor
  · intro h t ht hle
    obtain ⟨g, hg⟩ := ht.1
    by_contra hne
    exact h (t, g) ((mem_candidates hknown).2 ⟨hg, ht⟩) ((goesBefore_iff hs.2 ht.2).2 ⟨hne, hle⟩)
  · rintro h ⟨t, g⟩ hentry hbefore
    have ht := ((mem_candidates hknown).1 hentry).2
    obtain ⟨hne, hle⟩ := (goesBefore_iff hs.2 ht.2).1 hbefore
    exact hne (h t ht hle)

variable [DecidableEq F]

/-- All ways of the search give what the closest signatures say. -/
theorem find_cases (h : (Fitting order known types).Nonempty) :
    (∃ f, d.find order types = .ok f ∧ ∀ s ∈ Closest order known types, known s = some f) ∨
      (∃ several, d.find order types = .error several)
        ∧ ∃ s ∈ Closest order known types, ∃ t ∈ Closest order known types, known s ≠ known t := by
  unfold find
  rw [lookup_registry hknown]
  rcases hdirect : known types with _ | f
  · rcases hcandidates : d.candidates order types with _ | ⟨entry, _ | ⟨entry', rest⟩⟩
    · exact absurd ((candidates_eq_nil_iff hknown).1 hcandidates) h.ne_empty
    · -- a single candidate
      refine .inl ⟨entry.2, rfl, fun s hs => ?_⟩
      obtain ⟨f, hf⟩ := hs.1.1
      have hmem := (mem_candidates hknown).2 ⟨hf, hs.1⟩
      rw [hcandidates, mem_singleton] at hmem
      rw [hf, ← hmem]
    · have hsettled := settle_cases (fun s f => mem_best types hknown horder)
        (fun s hs => hs.1.1) (closest_nonempty horder (finite_fitting hknown) h)
      rwa [hcandidates] at hsettled
  · -- the signature of the call itself
    refine .inl ⟨f, rfl, fun s hs => ?_⟩
    rw [closest_of_direct horder hdirect] at hs
    rw [Set.mem_singleton_iff.1 hs, hdirect]

theorem find_of_fitting_empty (h : Fitting order known types = ∅) : d.find order types = .ok d.fallback := by
  have hnone : known types = none := by
    by_contra hne
    exact h.subset ⟨Option.ne_none_iff_exists'.1 hne, fits_self horder types⟩
  rw [find, lookup_registry hknown, hnone, (candidates_eq_nil_iff hknown).2 h]

theorem find_eq_ok_iff (h : (Fitting order known types).Nonempty) (f : F) :
    d.find order types = .ok f ↔ ∀ s ∈ Closest order known types, known s = some f := by
  rcases find_cases hknown horder h with
    ⟨g, hfind, hall⟩ | ⟨⟨several, hfind⟩, s, hs, t, ht, hne⟩
  · obtain ⟨s, hs⟩ := closest_nonempty horder (finite_fitting hknown) h
    rw [hfind, Except.ok.injEq]
    constructor
    · rintro rfl
      exact hall
    · exact fun hf => Option.some.inj ((hall s hs).symm.trans (hf s hs))
  · rw [hfind]
    constructor
    · exact fun heq => nomatch heq
    · exact fun hf => absurd ((hf s hs).trans (hf t ht).symm) hne

theorem find_eq_error_iff (h : (Fitting order known types).Nonempty) :
    (∃ several, d.find order types = .error several)
      ↔ ∃ s ∈ Closest order known types, ∃ t ∈ Closest order known types, known s ≠ known t := by
  rcases find_cases hknown horder h with ⟨g, hfind, hall⟩ | hboth
  · refine iff_of_false ?_ ?_
    · rintro ⟨several, herror⟩
      exact nomatch hfind.symm.trans herror
    · rintro ⟨s, hs, t, ht, hne⟩
      exact hne ((hall s hs).trans (hall t ht).symm)
  · exact iff_of_true hboth.1 hboth.2

end Search

/-- The registered functions of a dispatcher, whatever has happened to it. -/
theorem mem_registry_run [DecidableEq F] (order : C → List C) (fallback : F)
    (acts : List (Act C F)) (s : List C) (f : F) :
    (s, f) ∈ (run order (ofDefault fallback) acts).2.registry ↔ knownFor (registrations acts) s = some f := by
  rw [((upToDate_ofDefault order fallback).run acts).2.registry_eq]
  exact mem_knownAfter

/-- A search finds the fallback if no signature fits.  Otherwise some signature is closest; the search
finds a function if and only if all closest signatures have it, and no choice if and only if two of
them have different ones.  The ways by the signature of the call itself and by the only signature
that fits follow the same rule.  What is found depends on the function for each signature alone, and
not on what else has happened to the dispatcher, or in which order. -/
theorem find_most_specific [DecidableEq F] {order : C → List C} (horder : Linearized order)
    (fallback : F) (acts : List (Act C F)) (types : List C) :
    let d := (run order (ofDefault fallback) acts).2
    let known := knownFor (registrations acts)
    let fitting := Fitting order known types
    let closest := Closest order known types
    (fitting = ∅ → d.find order types = .ok fallback) ∧
      (fitting.Nonempty → closest.Nonempty
        ∧ (∀ f, d.find order types = .ok f ↔ ∀ s ∈ closest, known s = some f)
        ∧ ((∃ several, d.find order types = .error several)
            ↔ ∃ s ∈ closest, ∃ t ∈ closest, known s ≠ known t)) ∧
      (∀ f, known types = some f → closest = {types} ∧ d.find order types = .ok f) ∧
      (∀ s, fitting = {s} → closest = {s} ∧ ∃ f, known s = some f ∧ d.find order types = .ok f) ∧
      ∀ acts', (∀ s, knownFor (registrations acts') s = known s) →
        ((run order (ofDefault fallback) acts').2.find order types).toOption
          = (d.find order types).toOption := by
  intro d known fitting closest
  have hknown : ∀ s f, (s, f) ∈ d.registry ↔ known s = some f :=
    mem_registry_run order fallback acts
  have hempty : ∀ acts', knownFor (registrations acts') = known → fitting = ∅ →
      (run order (ofDefault fallback) acts').2.find order types = .ok fallback := by
    intro acts' heq h
    rw [find_of_fitting_empty (mem_registry_run order fallback acts') horder (by rw [heq]; exact h),
      ((upToDate_ofDefault order fallback).run acts').2.fallback_eq]
  refine ⟨hempty acts rfl, fun h => ⟨closest_nonempty horder (finite_fitting hknown) h,
    find_eq_ok_iff hknown horder h, find_eq_error_iff hknown horder h⟩, fun f hf => ?_,
    fun s hs => ?_, fun acts' hsame => ?_⟩
  · have hclosest : closest = {types} := closest_of_direct horder hf
    have hfits : fitting.Nonempty := ⟨types, ⟨f, hf⟩, fits_self horder types⟩
    refine ⟨hclosest, (find_eq_ok_iff hknown horder hfits f).2 ?_⟩
    intro s hs
    rw [show s = types from hclosest.subset hs, hf]
  · have hclosest : closest = {s} := closest_of_single hs
    have hmem : s ∈ fitting := by rw [hs]; rfl
    obtain ⟨f, hf⟩ := hmem.1
    refine ⟨hclosest, f, hf, (find_eq_ok_iff hknown horder ⟨s, hmem⟩ f).2 ?_⟩
    intro t ht
    rw [show t = s from hclosest.subset ht, hf]
  · have hsame' : knownFor (registrations acts') = known := funext hsame
    rcases fitting.eq_empty_or_nonempty with h | h
    · rw [hempty acts' hsame' h, hempty acts rfl h]
    · have hknown' := mem_registry_run order fallback acts'
      rw [hsame'] at hknown'
      have hiff := fun f => (find_eq_ok_iff hknown' horder h f).trans
        (find_eq_ok_iff hknown horder h f).symm
      rcases find_cases hknown horder h with ⟨f, hfind, -⟩ | ⟨⟨several, hfind⟩, -⟩
      · rw [hfind, (hiff f).2 hfind]
      · rcases hfind' : (run order (ofDefault fallback) acts').2.find order types with e | f
        · rw [hfind]
          rfl
        · exact nomatch hfind.symm.trans ((hiff f).1 hfind')

/-- Classes `1` and `2` are below `0`, and `3` is below both.  Two signatures are closest to a call with
arguments of the class `3`: neither comes before the other, but they have the same function. -/
theorem find_most_specific_shared :
    let order : Fin 4 → List (Fin 4) := fun c => [[0], [1, 0], [2, 0], [3, 1, 2, 0]][c]
    let acts : List (Act (Fin 4) String) :=
      [.register [0, 0] "any", .register [1, 2] "other", .register [2, 1] "both", .call [3, 3],
        .register [1, 2] "both"]
    Linearized order ∧
      (run order (ofDefault "none") acts).2.find order [3, 3] = .ok "both" ∧
      ∀ s ∈ Closest order (knownFor (registrations acts)) [3, 3],
        knownFor (registrations acts) s = some "both" := by
  intro order acts
  have horder : Linearized order := ⟨by decide, by decide⟩
  have hfind : (run order (ofDefault "none") acts).2.find order [3, 3] = .ok "both" := by decide
  have hfits : (Fitting order (knownFor (registrations acts)) [3, 3]).Nonempty :=
    ⟨[0, 0], ⟨"any", by decide⟩, fits_iff.1 (by decide)⟩
  exact ⟨horder, hfind, (((find_most_specific horder "none" acts [3, 3]).2.1 hfits).2.1 _).1 hfind⟩

end Dispatcher

end Transcriber
