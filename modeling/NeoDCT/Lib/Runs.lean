import Mathlib

/-!
# Runs of a step function

A run folds a step function over a list of events.  `Always step P s es` says that `P` holds in every
state of the run, `EveryStep step C s es` that every event comes in a state where `C` holds.

If an invariant lasts as long as the steps meet `C`, and is lost for all to see with the first step
that does not, then

    P in every state of the run  ↔  C at every step of it       (always_iff)
-/

namespace Interactive

variable {σ ε : Type} {step : σ → ε → σ} {s : σ} {es : List ε}

/-- `P` holds in every state of the run. -/
def Always (step : σ → ε → σ) (P : σ → Prop) (s : σ) (es : List ε) : Prop :=
  ∀ pre, pre <+: es → P (pre.foldl step s)

/-- Every event of the run comes in a state where `C` holds. -/
def EveryStep (step : σ → ε → σ) (C : σ → ε → Prop) (s : σ) (es : List ε) : Prop :=
  ∀ pre e, pre ++ [e] <+: es → C (pre.foldl step s) e

theorem foldl_snoc (step : σ → ε → σ) (s : σ) (es : List ε) (e : ε) :
    (es ++ [e]).foldl step s = step (es.foldl step s) e := by
  rw [List.foldl_append]
  rfl

theorem everyStep_nil {C : σ → ε → Prop} : EveryStep step C s [] := by
  intro pre e hpre
  simp at hpre

/-- The first step, and the steps after it. -/
theorem everyStep_cons {C : σ → ε → Prop} {e : ε} :
    EveryStep step C s (e :: es) ↔ C s e ∧ EveryStep step C (step s e) es := by
  constructor
  · intro h
    refine ⟨h [] e (by simp), ?_⟩
    intro pre e' hpre
    exact h (e :: pre) e' (List.cons_prefix_cons.mpr ⟨rfl, hpre⟩)
  · rintro ⟨hfirst, hrest⟩ pre e' hpre
    cases pre with
    | nil =>
      obtain ⟨rfl, -⟩ := List.cons_prefix_cons.mp hpre
      exact hfirst
    | cons a pre =>
      obtain ⟨rfl, htail⟩ := List.cons_prefix_cons.mp hpre
      exact hrest pre e' htail

/-- What every step of this run keeps holds throughout. -/
theorem always_induct (I : σ → Prop) (h₀ : I s)
    (hstep : ∀ pre e, pre ++ [e] <+: es → I (pre.foldl step s) → I (step (pre.foldl step s) e)) :
    Always step I s es := by
  intro pre
  induction pre using List.reverseRecOn with
  | nil => exact fun _ => h₀
  | append_singleton pre e ih =>
    intro hpre
    rw [foldl_snoc]
    exact hstep pre e hpre (ih ((List.prefix_append pre [e]).trans hpre))

/-- What every step that meets `C` keeps holds throughout a run whose steps meet it. -/
theorem always_of_invariant {C : σ → ε → Prop} (I : σ → Prop)
    (hstep : ∀ s e, I s → C s e → I (step s e)) (h₀ : I s) (hC : EveryStep step C s es) :
    Always step I s es :=
  always_induct I h₀ fun pre e hpre hI => hstep _ e hI (hC pre e hpre)

theorem Always.mono {P Q : σ → Prop} (h : Always step P s es) (hPQ : ∀ s, P s → Q s) :
    Always step Q s es := by
  intro pre hpre
  exact hPQ _ (h pre hpre)

/-- What holds throughout holds before every step, and after it. -/
theorem Always.before {P : σ → Prop} (h : Always step P s es) {pre : List ε} {e : ε}
    (hpre : pre ++ [e] <+: es) : P (pre.foldl step s) :=
  h pre ((List.prefix_append pre [e]).trans hpre)

theorem Always.after {P : σ → Prop} (h : Always step P s es) {pre : List ε} {e : ε}
    (hpre : pre ++ [e] <+: es) : P (step (pre.foldl step s) e) := by
  have hP := h _ hpre
  rwa [foldl_snoc] at hP

/-- **When a property holds throughout.** -/
theorem always_iff {C : σ → ε → Prop} {P : σ → Prop} (I : σ → Prop)
    (hstep : ∀ s e, I s → C s e → I (step s e)) (hP : ∀ s, I s → P s)
    (hbreak : ∀ s e, I s → P (step s e) → C s e) (h₀ : I s) :
    Always step P s es ↔ EveryStep step C s es := by
  constructor
  · intro h
    have hI : Always step I s es := always_induct I h₀ fun pre e hpre hI =>
      hstep _ e hI (hbreak _ e hI (h.after hpre))
    intro pre e hpre
    exact hbreak _ e (hI.before hpre) (h.after hpre)
  · intro h
    exact (always_of_invariant I hstep h₀ h).mono hP

/-- Two conditions on steps that agree as long as they are met. -/
theorem everyStep_iff {C D : σ → ε → Prop} (I : σ → Prop)
    (hstep : ∀ s e, I s → D s e → I (step s e)) (hCD : ∀ s e, I s → (C s e ↔ D s e)) (h₀ : I s) :
    EveryStep step C s es ↔ EveryStep step D s es := by
  constructor
  · intro h
    have hI : Always step I s es := always_induct I h₀ fun pre e hpre hI =>
      hstep _ e hI ((hCD _ e hI).mp (h pre e hpre))
    intro pre e hpre
    exact (hCD _ e (hI.before hpre)).mp (h pre e hpre)
  · intro h pre e hpre
    exact (hCD _ e ((always_of_invariant I hstep h₀ h).before hpre)).mpr (h pre e hpre)

end Interactive
