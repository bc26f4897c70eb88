import Mathlib.Tactic

/-!
Runs of fallible steps that come to a result.

A computation in `Except` has a result only if every part of it has one:
`Except.exists_of_bind` and `Except.exists_of_map` take a computation apart,
`foldlM_ok_forall` says of a loop that every round of it has succeeded, and
`exists_foldlM_ok` that this is enough for a result.
`foldlM_filter_of_id` leaves out rounds that do nothing.
-/

variable {ε α β σ : Type}

/-- A computation with a result has got past its first part. -/
lemma Except.exists_of_bind {x : Except ε α} {f : α → Except ε β} {b : β} :
    (x >>= f) = .ok b → ∃ a, x = .ok a ∧ f a = .ok b := by
  intro h
  match x, h with
  | .ok a, h => exact ⟨a, rfl, h⟩

lemma Except.exists_of_map {x : Except ε α} {f : α → β} {b : β} :
    x.map f = .ok b → ∃ a, x = .ok a ∧ f a = b := by
  intro h
  match x, h with
  | .ok a, h => exact ⟨a, rfl, Except.ok.inj h⟩

/-- **What a round needs to succeed holds of every round of a loop with a
result.** -/
theorem foldlM_ok_forall {step : σ → α → Except ε σ} {P : α → Prop}
    (hstep : ∀ s a s', step s a = .ok s' → P a) {l : List α} {s s' : σ}
    (h : l.foldlM step s = .ok s') : ∀ a ∈ l, P a := by
  induction l generalizing s with
  | nil => simp
  | cons a l ih =>
      rw [List.foldlM_cons] at h
      obtain ⟨s₁, hs₁, hrest⟩ := Except.exists_of_bind h
      intro b hb
      rcases List.mem_cons.mp hb with rfl | hb
      · exact hstep s b s₁ hs₁
      · exact ih hrest b hb

/-- A loop has a result if all of its rounds have one. -/
theorem exists_foldlM_ok {step : σ → α → Except ε σ} {l : List α}
    (hstep : ∀ a ∈ l, ∀ s, ∃ s', step s a = .ok s') (s : σ) : ∃ s', l.foldlM step s = .ok s' := by
  induction l generalizing s with
  | nil => exact ⟨s, rfl⟩
  | cons a l ih =>
      obtain ⟨s₁, hs₁⟩ := hstep a (by simp) s
      obtain ⟨s', hs'⟩ := ih (fun b hb => hstep b (List.mem_cons_of_mem _ hb)) s₁
      refine ⟨s', ?_⟩
      rw [List.foldlM_cons, hs₁]
      exact hs'

/-- Rounds that leave the state as it is can be left out. -/
theorem foldlM_filter_of_id {step : σ → α → Except ε σ} {p : α → Bool} {l : List α}
    (hid : ∀ a ∈ l, p a = false → ∀ s, step s a = .ok s) (s : σ) :
    l.foldlM step s = (l.filter p).foldlM step s := by
  induction l generalizing s with
  | nil => rfl
  | cons a l ih =>
      have hrest : ∀ b ∈ l, p b = false → ∀ s, step s b = .ok s := fun b hb =>
        hid b (List.mem_cons_of_mem _ hb)
      rw [List.foldlM_cons]
      cases hp : p a with
      | true =>
          rw [List.filter_cons_of_pos hp, List.foldlM_cons]
          exact congrArg (step s a >>= ·) (funext (ih hrest))
      | false =>
          rw [List.filter_cons_of_neg (by simp [hp]), hid a (by simp) hp s]
          exact ih hrest s
