import Mathlib

/-!
# Programs with random draws

`random` of Python: a number compared with a probability, an index, and the order that a list is left in,
each from a state of the generator.  A program is a `StateM`, and what it yields is said for every
generator and every state of it (`Yields`), by what its parts yield (`Yields.bind`).
-/

namespace PyRandom

/-- What `random` draws. -/
structure Generator (σ : Type) where
  /-- `random.random() < p`. -/
  lessThan : ℚ → StateM σ Bool
  /-- An index of a list with `n` elements. -/
  below : (n : ℕ) → 0 < n → StateM σ (Fin n)
  shuffle : {α : Type} → List α → StateM σ (List α)
  shuffle_perm : ∀ {α : Type} (xs : List α) (s : σ), ((shuffle xs).run s).1.Perm xs

/-- What `random.choice` is given. -/
abbrev Choices (α : Type) := { xs : List α // 0 < xs.length }

namespace Generator

variable {σ α : Type} (r : Generator σ)

/-- `random.choice(xs)`. -/
def choice (xs : Choices α) : StateM σ α := do
  let i ← r.below xs.val.length xs.property
  pure (xs.val.get i)

/-- `random.randint(a, b)`, for `a ≤ b`. -/
def randint (a b : ℕ) : StateM σ ℕ := do
  let k ← r.below (b - a + 1) (b - a).succ_pos
  pure (a + k)

end Generator

/-! ## What a program yields -/

variable {σ α β : Type}

/-- Whatever the state, the value is one of these. -/
def Yields (P : α → Prop) (m : StateM σ α) : Prop := ∀ s, P (m.run s).1

variable {P Q : α → Prop}

theorem Yields.mono {m : StateM σ α} (h : Yields P m) (hPQ : ∀ a, P a → Q a) : Yields Q m :=
  fun s => hPQ _ (h s)

theorem Yields.pure {a : α} (h : P a) : Yields P (pure a : StateM σ α) := fun _ => h

theorem Yields.bind {R : β → Prop} {m : StateM σ α} {f : α → StateM σ β} (h : Yields P m)
    (hf : ∀ a, P a → Yields R (f a)) : Yields R (m >>= f) :=
  fun s => hf _ (h s) (m.run s).2

/-- A draw of which nothing is known. -/
theorem Yields.bind_any {R : β → Prop} {m : StateM σ α} {f : α → StateM σ β}
    (hf : ∀ a, Yields R (f a)) : Yields R (m >>= f) :=
  fun s => hf _ (m.run s).2

theorem yields_choice (r : Generator σ) {xs : Choices α} (h : ∀ x ∈ xs.val, P x) :
    Yields P (r.choice xs) :=
  .bind_any fun i => .pure (h _ (List.get_mem xs.val i))

theorem yields_randint (r : Generator σ) {a b : ℕ} (h : a ≤ b) :
    Yields (fun k => a ≤ k ∧ k ≤ b) (r.randint a b) :=
  .bind_any fun k => .pure (by omega)

theorem yields_shuffle (r : Generator σ) (xs : List α) : Yields (·.Perm xs) (r.shuffle xs) :=
  r.shuffle_perm xs

end PyRandom
