import Mathlib

/-!
# Computations that do not raise

`Works e` says that `e` has a value.  The simp set takes it through binds, branches and loops.
-/

namespace Interactive

variable {ε α β : Type}

def Works (e : Except ε α) : Prop := ∃ a, e = .ok a

@[simp] theorem works_pure (a : α) : Works (pure a : Except ε α) ↔ True := iff_true_intro ⟨a, rfl⟩

@[simp] theorem works_throw (e : ε) : Works (throw e : Except ε α) ↔ False := by
  refine iff_false_intro ?_
  rintro ⟨_, h⟩
  cases h

@[simp] theorem works_ite (c : Prop) [Decidable c] (e e' : Except ε α) :
    Works (if c then e else e') ↔ if c then Works e else Works e' := by
  split <;> rfl

@[simp] theorem works_bind (e : Except ε α) (f : α → Except ε β) :
    Works (e >>= f) ↔ ∃ a, e = .ok a ∧ Works (f a) := by
  cases e with
  | error err =>
    constructor
    · rintro ⟨_, h⟩
      cases h
    · rintro ⟨_, h, -⟩
      cases h
  | ok a =>
    constructor
    · exact fun h => ⟨a, rfl, h⟩
    · rintro ⟨b, hb, h⟩
      obtain rfl := Except.ok.inj hb
      exact h

/-- A loop works when every round does. -/
@[simp] theorem works_mapM (f : α → Except ε β) (xs : List α) :
    Works (xs.mapM f) ↔ ∀ x ∈ xs, Works (f x) := by
  induction xs with
  | nil => exact ⟨fun _ x hx => (by cases hx), fun _ => ⟨[], rfl⟩⟩
  | cons x xs ih =>
    rw [List.mapM_cons, works_bind, List.forall_mem_cons, ← ih]
    constructor
    · rintro ⟨b, hb, h⟩
      obtain ⟨bs, hbs, -⟩ := (works_bind _ _).mp h
      exact ⟨⟨b, hb⟩, bs, hbs⟩
    · rintro ⟨⟨b, hb⟩, bs, hbs⟩
      exact ⟨b, hb, (works_bind _ _).mpr ⟨bs, hbs, _, rfl⟩⟩

/-- What a loop has collected. -/
theorem mem_of_mapM_eq {f : α → Except ε β} {xs : List α} {bs : List β} (h : xs.mapM f = .ok bs) :
    ∀ x ∈ xs, ∃ b ∈ bs, f x = .ok b := by
  induction xs generalizing bs with
  | nil => simp
  | cons x xs ih =>
    rw [List.mapM_cons] at h
    cases hx : f x with
    | error e =>
      rw [hx] at h
      cases h
    | ok b =>
      cases hxs : xs.mapM f with
      | error e =>
        rw [hx, hxs] at h
        cases h
      | ok rest =>
        rw [hx, hxs] at h
        obtain rfl : b :: rest = bs := Except.ok.inj h
        rw [List.forall_mem_cons]
        refine ⟨⟨b, List.mem_cons_self, hx⟩, fun y hy => ?_⟩
        obtain ⟨b', hb', hy'⟩ := ih hxs y hy
        exact ⟨b', List.mem_cons_of_mem _ hb', hy'⟩

/-- A loop whose rounds are known. -/
theorem mapM_eq_ok_map {f : α → Except ε β} {g : α → β} {xs : List α} (h : ∀ x ∈ xs, f x = .ok (g x)) :
    xs.mapM f = .ok (xs.map g) := by
  induction xs with
  | nil => rfl
  | cons x xs ih =>
    rw [List.forall_mem_cons] at h
    rw [List.mapM_cons, h.1, ih h.2]
    rfl

end Interactive
