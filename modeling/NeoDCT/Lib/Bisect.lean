import Mathlib

/-!
# Bisection with inclusive bounds

`bisect` looks for the last index up to `n` at which `P` holds, remembering the best one so far;
`scanDown` tries them all, from `n` down.  Where `P` holds below every index at which it holds, the two
find the same one:

    bisect P 0 n none = scanDown P n                                     (bisect_eq_scanDown)
    scanDown P n = some k  ↔  k is the greatest index up to n with P     (scanDown_eq_some)
-/

namespace Bisect

variable (P : ℕ → Prop) [DecidablePred P]

/-- `while lo <= hi`. -/
def bisect (lo hi : ℤ) (best : Option ℕ) : Option ℕ :=
  if lo ≤ hi then
    let mid := (lo + hi) / 2
    if P mid.toNat then bisect (mid + 1) hi (some mid.toNat) else bisect lo (mid - 1) best
  else best
termination_by (hi + 1 - lo).toNat
decreasing_by all_goals omega

/-- The indices from `n` down, one by one. -/
def scanDown : ℕ → Option ℕ
  | 0 => if P 0 then some 0 else none
  | n + 1 => if P (n + 1) then some (n + 1) else scanDown n

/-! ## Scanning -/

theorem scanDown_eq_some {n k : ℕ} : scanDown P n = some k ↔ IsGreatest {i | i ≤ n ∧ P i} k := by
  induction n with
  | zero =>
    rw [scanDown]
    constructor
    · intro h
      split at h
      · next hP =>
        obtain rfl := Option.some.inj h
        exact ⟨⟨le_rfl, hP⟩, fun i hi => hi.1⟩
      · cases h
    · rintro ⟨⟨hle, hP⟩, -⟩
      obtain rfl := Nat.le_zero.mp hle
      exact if_pos hP
  | succ n ih =>
    rw [scanDown]
    by_cases hP : P (n + 1)
    · rw [if_pos hP, Option.some.injEq]
      have htop : IsGreatest {i | i ≤ n + 1 ∧ P i} (n + 1) := ⟨⟨le_rfl, hP⟩, fun i hi => hi.1⟩
      exact ⟨fun h => h ▸ htop, fun h => htop.unique h⟩
    · rw [if_neg hP, ih]
      have hset : {i | i ≤ n + 1 ∧ P i} = {i | i ≤ n ∧ P i} := by
        ext i
        constructor
        · rintro ⟨hle, hi⟩
          have hne : i ≠ n + 1 := fun h => hP (h ▸ hi)
          exact ⟨by omega, hi⟩
        · exact fun ⟨hle, hi⟩ => ⟨Nat.le_succ_of_le hle, hi⟩
      rw [hset]

theorem scanDown_eq_none {n : ℕ} : scanDown P n = none ↔ ∀ i ≤ n, ¬ P i := by
  induction n with
  | zero => simp [scanDown]
  | succ n ih =>
    rw [scanDown]
    by_cases hP : P (n + 1)
    · rw [if_pos hP]
      constructor
      · intro h
        cases h
      · intro h
        exact absurd hP (h _ le_rfl)
    · rw [if_neg hP, ih]
      constructor
      · intro h i hi
        rcases Nat.le_or_eq_of_le_succ hi with hi | rfl
        · exact h i hi
        · exact hP
      · intro h i hi
        exact h i (Nat.le_succ_of_le hi)

/-! ## Bisection -/

/-- What the bounds have narrowed down: `P` holds below `lo` and fails above `hi`, and the best index so
far is the one below `lo`. -/
structure Bracket (n : ℕ) (lo hi : ℤ) (best : Option ℕ) : Prop where
  low : 0 ≤ lo
  high : hi ≤ n
  meet : lo ≤ hi + 1
  below : ∀ i : ℕ, (i : ℤ) < lo → P i
  above : ∀ i : ℕ, hi < i → i ≤ n → ¬ P i
  best : ∀ k : ℕ, best = some k ↔ (k : ℤ) + 1 = lo

variable {P}

omit [DecidablePred P] in
theorem Bracket.right {n : ℕ} {lo hi : ℤ} {best : Option ℕ} (h : Bracket P n lo hi best)
    (hanti : ∀ i j, i ≤ j → j ≤ n → P j → P i) (hle : lo ≤ hi) (hP : P ((lo + hi) / 2).toNat) :
    Bracket P n ((lo + hi) / 2 + 1) hi (some ((lo + hi) / 2).toNat) := by
  obtain ⟨hlow, hhigh, -, -, habove, -⟩ := h
  refine ⟨by omega, hhigh, by omega, ?_, habove, ?_⟩
  · intro i hi
    exact hanti i _ (by omega) (by omega) hP
  · intro k
    rw [Option.some.injEq]
    omega

omit [DecidablePred P] in
theorem Bracket.left {n : ℕ} {lo hi : ℤ} {best : Option ℕ} (h : Bracket P n lo hi best)
    (hanti : ∀ i j, i ≤ j → j ≤ n → P j → P i) (hle : lo ≤ hi) (hP : ¬ P ((lo + hi) / 2).toNat) :
    Bracket P n lo ((lo + hi) / 2 - 1) best := by
  obtain ⟨hlow, hhigh, -, hbelow, -, hbest⟩ := h
  refine ⟨hlow, by omega, by omega, hbelow, ?_, hbest⟩
  intro i hi hin hPi
  exact hP (hanti _ i (by omega) hin hPi)

/-- When the bounds have met, the best index is the last one. -/
theorem Bracket.done {n : ℕ} {lo hi : ℤ} {best : Option ℕ} (h : Bracket P n lo hi best)
    (hlt : ¬ lo ≤ hi) : best = scanDown P n := by
  obtain ⟨hlow, hhigh, hmeet, hbelow, habove, hbest⟩ := h
  symm
  cases best with
  | none =>
    rw [scanDown_eq_none]
    intro i hi
    have hlo : lo = 0 := by
      by_contra hne
      have := (hbest (lo - 1).toNat).mpr (by omega)
      cases this
    exact habove i (by omega) hi
  | some k =>
    have hk := (hbest k).mp rfl
    rw [scanDown_eq_some]
    refine ⟨⟨by omega, hbelow k (by omega)⟩, ?_⟩
    rintro i ⟨hin, hPi⟩
    by_contra hki
    exact habove i (by omega) hin hPi

theorem bisect_of_bracket {n : ℕ} (hanti : ∀ i j, i ≤ j → j ≤ n → P j → P i) {lo hi : ℤ}
    {best : Option ℕ} (h : Bracket P n lo hi best) : bisect P lo hi best = scanDown P n := by
  fun_induction bisect P lo hi best with
  | case1 lo hi best hle mid hP ih => exact ih (h.right hanti hle hP)
  | case2 lo hi best hle mid hP ih => exact ih (h.left hanti hle hP)
  | case3 lo hi best hlt => exact h.done hlt

/-- **Bisection is a linear scan** where `P` is closed downwards. -/
theorem bisect_eq_scanDown {n : ℕ} (hanti : ∀ i j, i ≤ j → j ≤ n → P j → P i) :
    bisect P 0 n none = scanDown P n := by
  apply bisect_of_bracket hanti
  refine ⟨le_rfl, le_rfl, by omega, fun i hi => by omega, fun i hi hin => by omega, fun k => ?_⟩
  constructor
  · intro h
    cases h
  · intro h
    omega

end Bisect
