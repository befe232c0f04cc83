import Mathlib.Data.List.Forall2
import Mathlib.Data.Option.Basic

/-!
# Lists side by side

What stands at the same place of two lists belongs together.
-/

namespace Transcriber

variable {α β : Type} {R : α → β → Prop} {xs : List α} {ys : List β}

theorem forall₂_mem (h : List.Forall₂ R xs ys) : List.Forall₂ (fun a b => a ∈ xs ∧ b ∈ ys ∧ R a b) xs ys := by
  induction h with
  | nil => exact .nil
  | cons h _ ih =>
    refine .cons ⟨.head _, .head _, h⟩ (ih.imp fun a b hab => ?_)
    exact ⟨.tail _ hab.1, .tail _ hab.2.1, hab.2.2⟩

theorem forall₂_head? (h : List.Forall₂ R xs ys) : Option.Rel R xs.head? ys.head? := by
  cases h with
  | nil => exact .none
  | cons h _ => exact .some h

theorem forall₂_get? (h : List.Forall₂ R xs ys) (n : Nat) : Option.Rel R xs[n]? ys[n]? := by
  induction h generalizing n with
  | nil => exact .none
  | cons h _ ih =>
    cases n with
    | zero => exact .some h
    | succ n => exact ih n

theorem forall₂_filter {p : α → Bool} {q : β → Bool} (hp : ∀ a b, R a b → p a = q b)
    (h : List.Forall₂ R xs ys) : List.Forall₂ R (xs.filter p) (ys.filter q) := by
  induction h with
  | nil => exact .nil
  | cons h _ ih =>
    rw [List.filter_cons, List.filter_cons, hp _ _ h]
    split
    · exact .cons h ih
    · exact ih

theorem forall₂_find? {p : α → Bool} {q : β → Bool} (hp : ∀ a b, R a b → p a = q b)
    (h : List.Forall₂ R xs ys) : Option.Rel R (xs.find? p) (ys.find? q) := by
  induction h with
  | nil => exact .none
  | cons h _ ih =>
    rw [List.find?_cons, List.find?_cons, hp _ _ h]
    split
    · exact .some h
    · exact ih

theorem forall₂_isEmpty (h : List.Forall₂ R xs ys) : xs.isEmpty = ys.isEmpty := by
  cases h <;> rfl

theorem map_eq_of_forall₂ {γ : Type} {f : α → γ} {g : β → γ} (hf : ∀ a b, R a b → f a = g b)
    (h : List.Forall₂ R xs ys) : xs.map f = ys.map g := by
  induction h with
  | nil => rfl
  | cons h _ ih => rw [List.map_cons, List.map_cons, hf _ _ h, ih]

end Transcriber
