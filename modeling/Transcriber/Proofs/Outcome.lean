import Transcriber.Proofs.Work

/-!
# Work with a known outcome

Some work can be followed so closely that its outcome is known beforehand: the failure it ends with,
or a value that describes what it leaves behind.

* `Meets`, `Build.Unless` — results and work that fail for one reason only.
-/

namespace Transcriber.Build

variable {α β γ δ : Type}

/-- Work in a workshop has an outcome: it fails as the outcome does, or it succeeds and what it
leaves behind fits the value of the outcome. -/
def Yields (m : Build α) (w : Workshop) (outcome : Except Failure β)
    (Q : α → Workshop → β → Prop) : Prop :=
  match outcome with
  | .ok b => ∃ a w', m w = .ok a w' ∧ Q a w' b
  | .error failure => ∃ w', m w = .error failure w'

theorem yields_pure {a : α} {w : Workshop} {b : β} {Q : α → Workshop → β → Prop} (h : Q a w b) :
    Yields (pure a) w (.ok b) Q :=
  ⟨a, w, rfl, h⟩

namespace Yields

variable {m : Build α} {w : Workshop} {Q : α → Workshop → β → Prop}

variable {x : Except Failure β} {k : α → Build γ}

theorem imp {R : α → Workshop → β → Prop} (h : Yields m w x Q)
    (himp : ∀ a w' b, Q a w' b → R a w' b) : Yields m w x R := by
  cases x with
  | error failure => exact h
  | ok b =>
    obtain ⟨a, w', hrun, hQ⟩ := h
    exact ⟨a, w', hrun, himp a w' b hQ⟩

theorem bind {g : β → Except Failure δ} {R : γ → Workshop → δ → Prop} (h : Yields m w x Q)
    (hk : ∀ a w' b, Q a w' b → Yields (k a) w' (g b) R) : Yields (m >>= k) w (x >>= g) R := by
  cases x with
  | error failure =>
    obtain ⟨w', hrun⟩ := h
    exact ⟨w', bind_of_error hrun⟩
  | ok b =>
    obtain ⟨a, w', hrun, hQ⟩ := h
    have hrest := hk a w' b hQ
    change Yields (m >>= k) w (g b) R
    cases hg : g b with
    | error failure =>
      rw [hg] at hrest
      obtain ⟨w'', hrun'⟩ := hrest
      exact ⟨w'', (bind_of_ok hrun).trans hrun'⟩
    | ok d =>
      rw [hg] at hrest
      obtain ⟨c, w'', hrun', hR⟩ := hrest
      exact ⟨c, w'', (bind_of_ok hrun).trans hrun', hR⟩

theorem map {g : β → δ} {R : α → Workshop → δ → Prop} (h : Yields m w x Q)
    (hQ : ∀ a w' b, Q a w' b → R a w' (g b)) : Yields m w (x >>= fun b => pure (g b)) R := by
  cases x with
  | error failure => exact h
  | ok b =>
    obtain ⟨a, w', hrun, hb⟩ := h
    exact ⟨a, w', hrun, hQ a w' b hb⟩

/-- Work that is known to succeed has the outcome of what follows it. -/
theorem after {a : α} {w' : Workshop} {x : Except Failure δ}
    {R : γ → Workshop → δ → Prop} (hrun : m w = .ok a w') (h : Yields (k a) w' x R) :
    Yields (m >>= k) w x R := by
  cases x with
  | error failure =>
    obtain ⟨w'', hrun'⟩ := h
    exact ⟨w'', (bind_of_ok hrun).trans hrun'⟩
  | ok d =>
    obtain ⟨c, w'', hrun', hR⟩ := h
    exact ⟨c, w'', (bind_of_ok hrun).trans hrun', hR⟩

/-- Work that is followed by work that is known to succeed. -/
theorem andThen {R : γ → Workshop → β → Prop}
    (h : Yields m w x Q) (hk : ∀ a w' b, Q a w' b → ∃ c w'', k a w' = .ok c w'' ∧ R c w'' b) :
    Yields (m >>= k) w x R := by
  rw [← bind_pure x]
  exact h.bind hk

/-- A loop has the outcome of the loop over the outcomes. -/
theorem forM {I : Workshop → β → Prop} {xs : List α} {f : α → Build PUnit} {g : β → α → Except Failure β}
    (hf : ∀ x ∈ xs, ∀ w b, I w b → Yields (f x) w (g b x) fun _ w' b' => I w' b')
    {w : Workshop} {b : β} (h : I w b) :
    Yields (xs.forM f) w (xs.foldlM g b) fun _ w' b' => I w' b' := by
  induction xs generalizing w b with
  | nil => exact yields_pure h
  | cons x xs ih =>
    rw [List.foldlM_cons]
    refine (hf x (.head _) w b h).bind fun _ w' b' h' => ?_
    exact ih (fun y hy => hf y (.tail _ hy)) h'

end Yields

end Transcriber.Build

namespace Transcriber

/-! ## Results that fail for one reason -/

/-- A result is a value with a property; but if there is an obstacle, it fails as a search does that
finds nothing. -/
def Meets {α : Type} (obstacle : Prop) (result : Except Failure α) (Q : α → Prop) : Prop :=
  (obstacle → result = .error .notFound) ∧ (¬ obstacle → ∃ a, result = .ok a ∧ Q a)

section

variable {α β : Type} {p q : Prop} {x : Except Failure α} {Q : α → Prop}

theorem meets_ok {a : α} (h : Q a) : Meets False (.ok a) Q := ⟨False.elim, fun _ => ⟨a, rfl, h⟩⟩

theorem Meets.bind {R : β → Prop} {k : α → Except Failure β} (h : Meets p x Q)
    (hk : ∀ a, Q a → Meets q (k a) R) : Meets (p ∨ q) (x >>= k) R := by
  by_cases hp : p
  · refine ⟨fun _ => ?_, fun hn => absurd (.inl hp) hn⟩
    rw [h.1 hp]
    rfl
  · obtain ⟨a, rfl, hQ⟩ := h.2 hp
    exact ⟨fun hor => (hk a hQ).1 (hor.resolve_left hp), fun hn => (hk a hQ).2 fun hq => hn (.inr hq)⟩

theorem Meets.imp {R : α → Prop} (h : Meets p x Q) (himp : ∀ a, Q a → R a) : Meets p x R := by
  refine ⟨h.1, fun hn => ?_⟩
  obtain ⟨a, hx, hQ⟩ := h.2 hn
  exact ⟨a, hx, himp a hQ⟩

theorem Meets.congr (h : Meets p x Q) (hpq : p ↔ q) : Meets q x Q :=
  ⟨fun hq => h.1 (hpq.2 hq), fun hn => h.2 fun hp => hn (hpq.1 hp)⟩

theorem Meets.map {R : β → Prop} {f : α → β} (h : Meets p x Q) (hf : ∀ a, Q a → R (f a)) :
    Meets p (x >>= fun a => .ok (f a)) R :=
  (h.bind fun a hQ => meets_ok (hf a hQ)).congr (or_iff_left not_false)

end

namespace Build

variable {α β : Type} {p q : Prop} {m : Build α} {w : Workshop} {Q : α → Workshop → Prop}

/-- Work succeeds and leaves something behind; but if there is an obstacle, it fails as a search does
that finds nothing. -/
def Unless (obstacle : Prop) (m : Build α) (w : Workshop) (Q : α → Workshop → Prop) : Prop :=
  (obstacle → ∃ w', m w = .error .notFound w') ∧ (¬ obstacle → ∃ a w', m w = .ok a w' ∧ Q a w')

theorem Yields.unless {x : Except Failure β} {R : α → Workshop → β → Prop} {S : β → Prop}
    (h : Yields m w x R) (hx : Meets p x S) (hQ : ∀ a w' b, R a w' b → S b → Q a w') :
    Unless p m w Q := by
  refine ⟨fun hp => ?_, fun hp => ?_⟩
  · rw [hx.1 hp] at h
    exact h
  · obtain ⟨b, rfl, hS⟩ := hx.2 hp
    obtain ⟨a, w', hrun, hR⟩ := h
    exact ⟨a, w', hrun, hQ a w' b hR hS⟩

theorem unless_of_ok {a : α} {w' : Workshop} (hrun : m w = .ok a w') (hQ : Q a w') : Unless False m w Q :=
  ⟨False.elim, fun _ => ⟨a, w', hrun, hQ⟩⟩

namespace Unless

theorem congr (h : Unless p m w Q) (hpq : p ↔ q) : Unless q m w Q :=
  ⟨fun hq => h.1 (hpq.2 hq), fun hn => h.2 fun hp => hn (hpq.1 hp)⟩

theorem of_apply_eq {m' : Build α} {w' : Workshop} (heq : m' w' = m w) (h : Unless p m w Q) :
    Unless p m' w' Q := by
  unfold Unless at *
  rw [heq]
  exact h

theorem imp {R : α → Workshop → Prop} (h : Unless p m w Q) (himp : ∀ a w', Q a w' → R a w') :
    Unless p m w R := by
  refine ⟨h.1, fun hn => ?_⟩
  obtain ⟨a, w', hrun, hQ⟩ := h.2 hn
  exact ⟨a, w', hrun, himp a w' hQ⟩

variable {R : β → Workshop → Prop} {k : α → Build β}

/-- There is an obstacle to a sequence of work if there is one to its first or its second part. -/
theorem bind (h : Unless p m w Q)
    (hk : ∀ a w', Q a w' → Unless q (k a) w' R) : Unless (p ∨ q) (m >>= k) w R := by
  by_cases hp : p
  · obtain ⟨w', hrun⟩ := h.1 hp
    exact ⟨fun _ => ⟨w', bind_of_error hrun⟩, fun hn => absurd (.inl hp) hn⟩
  · obtain ⟨a, w', hrun, hQ⟩ := h.2 hp
    refine ⟨fun hor => ?_, fun hn => ?_⟩
    · obtain ⟨w'', hrun'⟩ := (hk a w' hQ).1 (hor.resolve_left hp)
      exact ⟨w'', (bind_of_ok hrun).trans hrun'⟩
    · obtain ⟨b, w'', hrun', hR⟩ := (hk a w' hQ).2 fun hq => hn (.inr hq)
      exact ⟨b, w'', (bind_of_ok hrun).trans hrun', hR⟩

/-- Work that is known to succeed brings no obstacle. -/
theorem after {a : α} {w' : Workshop}
    (hrun : m w = .ok a w') (h : Unless q (k a) w' R) : Unless q (m >>= k) w R :=
  ((unless_of_ok (Q := fun b w'' => b = a ∧ w'' = w') hrun ⟨rfl, rfl⟩).bind
    fun _ _ heq => by rw [heq.1, heq.2]; exact h).congr (or_iff_right not_false)

/-- Work that is followed by work that is known to succeed. -/
theorem andThen (h : Unless p m w Q)
    (hk : ∀ a w', Q a w' → ∃ b w'', k a w' = .ok b w'' ∧ R b w'') : Unless p (m >>= k) w R := by
  refine (h.bind (q := False) fun a w' hQ => ?_).congr (or_iff_left not_false)
  obtain ⟨b, w'', hrun, hR⟩ := hk a w' hQ
  exact unless_of_ok hrun hR

end Unless

end Build

end Transcriber
