import Mathlib

/-!
# What was written last

A state machine with a store, `files`, where an event writes one entry or none, which may depend on the state: what
an entry holds is what the last event wrote that wrote it (`Writes.foldl_of_eq`, `last_write`).
-/

namespace LastWrite

variable {σ ε κ ν : Type} [DecidableEq κ]

/-- `write` is all that the events do to the store. -/
def Writes (handle : σ → ε → σ) (files : σ → κ → Option ν) (write : σ → ε → Option (κ × ν)) : Prop :=
  ∀ s e, files (handle s e) =
    match write s e with
    | some (k, v) => Function.update (files s) k (some v)
    | none => files s

variable {handle : σ → ε → σ} {files : σ → κ → Option ν} {write : σ → ε → Option (κ × ν)}

theorem Writes.of_ne (h : Writes handle files write) {s : σ} {e : ε} {k : κ}
    (hne : ∀ v, write s e ≠ some (k, v)) : files (handle s e) k = files s k := by
  rw [h s e]
  cases hw : write s e with
  | none => rfl
  | some kv =>
    refine Function.update_of_ne ?_ _ _
    rintro rfl
    exact hne kv.2 hw

theorem Writes.of_eq (h : Writes handle files write) {s : σ} {e : ε} {k : κ} {v : ν}
    (hw : write s e = some (k, v)) : files (handle s e) k = some v := by
  rw [h s e, hw]
  exact Function.update_self k (some v) (files s)

/-- What nothing writes stays. -/
theorem Writes.foldl_of_ne (h : Writes handle files write) {s : σ} {k : κ} {events : List ε}
    (hne : ∀ pre e post, events = pre ++ e :: post → ∀ v, write (pre.foldl handle s) e ≠ some (k, v)) :
    files (events.foldl handle s) k = files s k := by
  induction events using List.reverseRecOn with
  | nil => rfl
  | append_singleton events event ih =>
    rw [List.foldl_concat, h.of_ne (hne events event [] rfl)]
    exact ih fun pre e post hevents => hne pre e (post ++ [event]) (by rw [hevents]; simp)

/-- **The last write** to an entry is what it holds. -/
theorem Writes.foldl_of_eq (h : Writes handle files write) {s : σ} {k : κ} {pre post : List ε} {e : ε} {v : ν}
    (hw : write (pre.foldl handle s) e = some (k, v))
    (hlast : ∀ mid e' post', post = mid ++ e' :: post' →
      ∀ v', write ((pre ++ e :: mid).foldl handle s) e' ≠ some (k, v')) :
    files ((pre ++ e :: post).foldl handle s) k = some v := by
  have hafter : files (post.foldl handle (handle (pre.foldl handle s) e)) k =
      files (handle (pre.foldl handle s) e) k := by
    refine h.foldl_of_ne fun mid e' post' hpost v' => ?_
    have hnot := hlast mid e' post' hpost v'
    rwa [List.foldl_append, List.foldl_cons] at hnot
  rw [List.foldl_append, List.foldl_cons, hafter]
  exact h.of_eq hw

/-- The last of the writes to an entry of a store that was empty at first. -/
theorem last_write (h : Writes handle files write) {s : σ} {k : κ} (hs : files s k = none) {events : List ε} {v : ν}
    (hv : files (events.foldl handle s) k = some v) :
    ∃ pre e post, events = pre ++ e :: post ∧ write (pre.foldl handle s) e = some (k, v) ∧
      ∀ mid e' post', post = mid ++ e' :: post' →
        ∀ v', write ((pre ++ e :: mid).foldl handle s) e' ≠ some (k, v') := by
  induction events using List.reverseRecOn with
  | nil =>
    rw [List.foldl_nil, hs] at hv
    cases hv
  | append_singleton events event ih =>
    rw [List.foldl_concat] at hv
    by_cases hw : ∃ v', write (events.foldl handle s) event = some (k, v')
    · obtain ⟨v', hw⟩ := hw
      obtain rfl : v' = v := by
        rw [h.of_eq hw] at hv
        exact Option.some.inj hv
      refine ⟨events, event, [], rfl, hw, fun mid e' post' hpost => ?_⟩
      cases mid <;> cases hpost
    · rw [not_exists] at hw
      rw [h.of_ne hw] at hv
      obtain ⟨pre, e, post, rfl, hwrite, hlast⟩ := ih hv
      refine ⟨pre, e, post ++ [event], by simp, hwrite, fun mid e' post' hpost => ?_⟩
      rcases List.eq_nil_or_concat post' with rfl | ⟨post', event', rfl⟩
      · obtain ⟨rfl, rfl⟩ := List.append_inj' hpost rfl |>.imp_right List.singleton_inj.mp
        exact hw
      · have hinit : post ++ [event] = (mid ++ e' :: post') ++ [event'] := by
          rw [hpost]
          simp
        exact hlast mid e' post' (List.append_inj' hinit rfl).1

end LastWrite
