import Mathlib

/-!
# Sources of a main loop

A main loop keeps the ids of the sources that are pending.  A source that fires once is gone afterwards,
and `remove` looks for one that may be gone.  A program that keeps the id of its only source in a handle
has two things to keep:

    Single handle s     no other source than the handle's is pending
    Live handle s       the handle's source is pending

Firing keeps the first, and breaks the second when nobody clears the handle (`Single.not_live`).
-/

namespace MainLoop

structure Sources where
  pending : List ℕ
  /-- The ids that were to be removed, and whether they were pending. -/
  removed : List (ℕ × Bool)

namespace Sources

def attach (s : Sources) (id : ℕ) : Sources := { s with pending := s.pending ++ [id] }

def remove (s : Sources) (id : ℕ) : Sources where
  pending := s.pending.erase id
  removed := s.removed ++ [(id, decide (id ∈ s.pending))]

/-- A source that fires once. -/
def fire (s : Sources) (id : ℕ) : Sources := { s with pending := s.pending.erase id }

/-- Every source that was to be removed was pending. -/
def AllFound (s : Sources) : Prop := ∀ r ∈ s.removed, r.2 = true

end Sources

variable {handle : Option ℕ} {s : Sources} {id : ℕ}

/-- No source but the handle's is pending. -/
def Single (handle : Option ℕ) (s : Sources) : Prop :=
  s.pending = [] ∨ ∃ id, id ≠ 0 ∧ handle = some id ∧ s.pending = [id]

/-- The handle is empty or its source is pending. -/
def Live (handle : Option ℕ) (s : Sources) : Prop := ∀ id, handle = some id → id ∈ s.pending

theorem live_none (s : Sources) : Live none s := fun _ h => by cases h

theorem Single.length_le (h : Single handle s) : s.pending.length ≤ 1 := by
  rcases h with h | ⟨id, -, -, h⟩ <;> simp [h]

/-- An empty handle, or zero: nothing is pending. -/
theorem Single.pending_of_falsy (h : Single handle s) (hfalsy : ∀ id, handle = some id → id = 0) :
    s.pending = [] := by
  rcases h with h | ⟨id, hid, hhandle, -⟩
  · exact h
  · exact absurd (hfalsy id hhandle) hid

theorem Single.pending_remove (h : Single (some id) s) : (s.remove id).pending = [] := by
  show s.pending.erase id = []
  rcases h with h | ⟨id', -, hhandle, h⟩
  · rw [h]
    rfl
  · obtain rfl := Option.some.inj hhandle
    rw [h]
    simp

theorem Live.allFound_remove (h : Live (some id) s) (hfound : s.AllFound) : (s.remove id).AllFound := by
  refine List.forall_mem_append.mpr ⟨hfound, List.forall_mem_singleton.mpr ?_⟩
  exact decide_eq_true (h id rfl)

theorem single_attach (hnone : s.pending = []) (hid : id ≠ 0) : Single (some id) (s.attach id) := by
  refine Or.inr ⟨id, hid, rfl, ?_⟩
  show s.pending ++ [id] = [id]
  rw [hnone]
  rfl

theorem live_attach (s : Sources) (id : ℕ) : Live (some id) (s.attach id) := by
  intro id' h
  obtain rfl := Option.some.inj h
  exact List.mem_append_right _ List.mem_cons_self

theorem Single.fire (h : Single handle s) (id : ℕ) : Single handle (s.fire id) := by
  rcases h with h | ⟨id', hid', hhandle, h⟩
  · refine Or.inl ?_
    show s.pending.erase id = []
    rw [h]
    rfl
  · by_cases heq : id' = id
    · refine Or.inl ?_
      show s.pending.erase id = []
      rw [h, heq]
      simp
    · refine Or.inr ⟨id', hid', hhandle, ?_⟩
      show s.pending.erase id = [id']
      rw [h]
      simp [heq]

/-- **A source that has fired** leaves a handle behind that is not live. -/
theorem Single.not_live (h : Single handle s) (hid : id ∈ s.pending) : ¬ Live handle (s.fire id) := by
  intro hlive
  rcases h with h | ⟨id', -, hhandle, h⟩
  · rw [h] at hid
    cases hid
  · rw [h, List.mem_singleton] at hid
    subst hid
    have hmem : id ∈ s.pending.erase id := hlive id hhandle
    rw [h] at hmem
    simp at hmem

end MainLoop
