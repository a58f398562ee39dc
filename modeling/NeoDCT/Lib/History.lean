import Mathlib

/-!
# Histories: a store and its journal

`History step l₀ s₀ l s` says that, while the journal grew from `l₀` to `l`, the store went from
`s₀` to `s`, every new entry being a `step` that the journal before it permits.  What every step
keeps, a history keeps (`History.keeps`); an entry in the middle of a history is a step from the
state reached there (`History.split`).
-/

namespace Interactive

variable {σ ε : Type}

inductive History (step : σ → List ε → ε → σ → Prop) (l₀ : List ε) (s₀ : σ) : List ε → σ → Prop
  | start : History step l₀ s₀ l₀ s₀
  | snoc {l : List ε} {s s' : σ} {e : ε} :
      History step l₀ s₀ l s → step s l e s' → History step l₀ s₀ (l ++ [e]) s'

namespace History

variable {step : σ → List ε → ε → σ → Prop} {l₀ l : List ε} {s₀ s : σ}

theorem trans {l' : List ε} {s' : σ} (h : History step l₀ s₀ l s) (h' : History step l s l' s') :
    History step l₀ s₀ l' s' := by
  induction h' with
  | start => exact h
  | snoc _ hs ih => exact ih.snoc hs

theorem mono {step' : σ → List ε → ε → σ → Prop}
    (hstep : ∀ s l e s', step s l e s' → step' s l e s') (h : History step l₀ s₀ l s) :
    History step' l₀ s₀ l s := by
  induction h with
  | start => exact .start
  | snoc _ hs ih => exact ih.snoc (hstep _ _ _ _ hs)

/-- Entries that leave the store alone. -/
theorem idle {evs : List ε} (h : ∀ l, ∀ e ∈ evs, step s₀ l e s₀) :
    History step l₀ s₀ (l₀ ++ evs) s₀ := by
  induction evs using List.reverseRecOn with
  | nil => rw [List.append_nil]; exact .start
  | append_singleton evs e ih =>
    rw [← List.append_assoc]
    exact (ih fun l e he => h l e (List.mem_append_left _ he)).snoc
      (h _ e (List.mem_append_right _ (List.mem_singleton_self e)))

/-- **Invariants** of the store and the entries so far. -/
theorem invariant (P : List ε → σ → Prop)
    (hstep : ∀ s j e s', P j s → step s (l₀ ++ j) e s' → P (j ++ [e]) s')
    (h : History step l₀ s₀ l s) (h₀ : P [] s₀) : ∃ j, l = l₀ ++ j ∧ P j s := by
  induction h with
  | start => exact ⟨[], (List.append_nil _).symm, h₀⟩
  | @snoc l s s' e _ hs ih =>
    obtain ⟨j, rfl, hP⟩ := ih
    exact ⟨j ++ [e], List.append_assoc _ _ _, hstep _ _ _ _ hP hs⟩

/-- What every step keeps, as long as the journal is `Ok`, holds throughout. -/
theorem keeps (P : σ → Prop) (Ok : List ε → Prop) (hpre : ∀ l e, Ok (l ++ [e]) → Ok l)
    (hstep : ∀ s l e s', P s → step s l e s' → Ok (l ++ [e]) → P s')
    (h : History step l₀ s₀ l s) (h₀ : P s₀) (hok : Ok l) : P s := by
  induction h with
  | start => exact h₀
  | snoc _ hs ih => exact hstep _ _ _ _ (ih (hpre _ _ hok)) hs hok

/-- What an invariant says of every new entry. -/
theorem entries (P : σ → Prop) (R : ε → Prop)
    (hstep : ∀ s l e s', P s → step s l e s' → R e ∧ P s') (h : History step l₀ s₀ l s)
    (h₀ : P s₀) : (∃ evs, l = l₀ ++ evs ∧ ∀ e ∈ evs, R e) ∧ P s := by
  have hstep' : ∀ s evs e s', ((∀ e ∈ evs, R e) ∧ P s) → step s (l₀ ++ evs) e s' →
      (∀ e' ∈ evs ++ [e], R e') ∧ P s' := by
    rintro s evs e s' ⟨hevs, hP⟩ hs
    obtain ⟨hR, hP'⟩ := hstep _ _ _ _ hP hs
    refine ⟨fun e' he' => ?_, hP'⟩
    rcases List.mem_append.mp he' with he' | he'
    · exact hevs e' he'
    · rw [List.mem_singleton] at he'
      subst he'
      exact hR
  obtain ⟨evs, hl, hevs, hP⟩ :=
    h.invariant (fun evs s => (∀ e ∈ evs, R e) ∧ P s) hstep' ⟨by simp, h₀⟩
  exact ⟨⟨evs, hl, hevs⟩, hP⟩

/-- An entry after `l₀` is a step from the state reached before it. -/
theorem split (h : History step l₀ s₀ l s) {pre post : List ε} {e : ε}
    (hl : l = l₀ ++ pre ++ e :: post) :
    ∃ t t', History step l₀ s₀ (l₀ ++ pre) t ∧ step t (l₀ ++ pre) e t' ∧
      History step (l₀ ++ pre ++ [e]) t' l s := by
  induction h generalizing post with
  | start =>
    have := congrArg List.length hl
    simp only [List.length_append, List.length_cons] at this
    omega
  | @snoc l s s' e' h hs ih =>
    rcases List.eq_nil_or_concat post with rfl | ⟨post, b, rfl⟩
    · obtain ⟨rfl, he⟩ := List.append_inj' hl rfl
      obtain rfl : e' = e := by simpa using he
      exact ⟨s, s', h, hs, .start⟩
    · have hl' : l ++ [e'] = (l₀ ++ pre ++ e :: post) ++ [b] := by simpa using hl
      obtain ⟨rfl, he⟩ := List.append_inj' hl' rfl
      obtain ⟨t, t', h1, h2, h3⟩ := ih rfl
      exact ⟨t, t', h1, h2, h3.snoc hs⟩

/-- What an entry brings about and every step keeps says something of all the entries that follow. -/
theorem after (P : σ → Prop) (R : ε → Prop)
    (hstep : ∀ s l e s', P s → step s l e s' → R e ∧ P s') (h : History step l₀ s₀ l s)
    {pre post : List ε} {e : ε} (hl : l = l₀ ++ pre ++ e :: post)
    (hset : ∀ s l s', step s l e s' → P s') : ∀ e' ∈ post, R e' := by
  obtain ⟨t, t', -, he, hafter⟩ := h.split hl
  obtain ⟨⟨evs, heq, hevs⟩, -⟩ := hafter.entries P R hstep (hset _ _ _ he)
  rw [hl, ← List.append_cons] at heq
  obtain ⟨-, rfl⟩ := List.cons.inj (List.append_cancel_left heq)
  exact hevs

end History

end Interactive
