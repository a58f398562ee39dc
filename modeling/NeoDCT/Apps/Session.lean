import NeoDCT.Screen
import NeoDCT.Lib.History

/-!
# What an app does to the world

`AppStep step store w w'`: while an app ran from `w` to `w'`, its part `store` of the databases
changed by `step`s only, each licensed by the journal before it; `state` and `dial_buffer` are
untouched, and polls were only read.  App steps compose, so an app's `run` is one.
-/

namespace NeoDCT

open Interactive

structure AppStep {σ : Type} (step : σ → List Event → Event → σ → Prop) (store : Db → σ)
    (w w' : World) : Prop where
  history : History step w.log (store w.db) w'.log (store w'.db)
  state : w'.state = w.state
  dialBuffer : w'.dialBuffer = w.dialBuffer
  input : w'.io.input.length ≤ w.io.input.length

namespace AppStep

variable {σ : Type} {step : σ → List Event → Event → σ → Prop} {store : Db → σ}

theorem refl (w : World) : AppStep step store w w := ⟨.start, rfl, rfl, le_rfl⟩

theorem trans {w w' w'' : World} (h : AppStep step store w w') (h' : AppStep step store w' w'') :
    AppStep step store w w'' where
  history := h.history.trans h'.history
  state := h'.state.trans h.state
  dialBuffer := h'.dialBuffer.trans h.dialBuffer
  input := h'.input.trans h.input

/-- Entries that leave the store alone. -/
theorem of_logged {evs : List Event} {w w' : World}
    (hevs : ∀ l, ∀ e ∈ evs, step (store w.db) l e (store w.db)) (h : Logged evs w w') :
    AppStep step store w w' where
  history := by
    rw [h.log, h.db]
    exact History.idle hevs
  state := h.state
  dialBuffer := h.dialBuffer
  input := h.input

theorem of_quiet {w w' : World} (h : Quiet w w') : AppStep step store w w' := by
  obtain ⟨io, hle, rfl⟩ := h
  exact ⟨.start, rfl, rfl, hle⟩

/-- One entry that leaves the store alone. -/
theorem of_entry {e : Event} {w w' : World} (he : step (store w.db) w.log e (store w.db))
    (h : Logged [e] w w') : AppStep step store w w' where
  history := by
    rw [h.log, h.db]
    exact History.start.snoc he
  state := h.state
  dialBuffer := h.dialBuffer
  input := h.input

theorem mono {step' : σ → List Event → Event → σ → Prop}
    (hstep : ∀ s l e s', step s l e s' → step' s l e s') {w w' : World}
    (h : AppStep step store w w') : AppStep step' store w w' where
  history := h.history.mono hstep
  state := h.state
  dialBuffer := h.dialBuffer
  input := h.input

/-- A statement that is a step. -/
theorem of_execute {w : World} {stmt : Stmt}
    (h : step (store w.db) w.log (.sql stmt) (store (stmt.run w.db))) :
    AppStep step store w ((w.withDb (stmt.run w.db)).journal [.sql stmt]) where
  history := History.start.snoc h
  state := rfl
  dialBuffer := rfl
  input := le_rfl

theorem execute_step {w : World} {stmt : Stmt}
    (h : step (store w.db) w.log (.sql stmt) (store (stmt.run w.db)))
    {E : Halt PyError → World → Prop} :
    wp (execute stmt) (fun _ w' => AppStep step store w w') E w := by
  refine wp_mono (execute_spec stmt w) ?_ fun _ _ h => h
  rintro _ _ rfl
  exact of_execute h

/-- A loop whose iterations are app steps and read input. -/
theorem of_loop {α β : Type} {body : β → UI (β ⊕ α)} (F : Halt PyError → Prop)
    (Q : α → World → Prop) (I : β → World → Prop)
    (h : ∀ b w, I b w → wp (body b) (fun r w' => AppStep step store w w' ∧
        r.elim (fun b' => I b' w' ∧ w'.io.input.length < w.io.input.length) (fun a => Q a w'))
      (fun e w' => F e ∧ AppStep step store w w') w)
    {b : β} {w : World} (hb : I b w) :
    wp (loop body b) (fun a w' => AppStep step store w w' ∧ Q a w')
      (fun e w' => F e ∧ AppStep step store w w') w := by
  refine wp_loop (fun b w' => AppStep step store w w' ∧ I b w') ⟨.refl w, hb⟩ ?_
  rintro b w₁ ⟨hw, hI⟩
  refine wp_mono (h b w₁ hI) ?_ fun _ _ h => ⟨h.1, hw.trans h.2⟩
  rintro (b' | a) w₂ ⟨hstep, hr⟩
  · exact ⟨⟨hw.trans hstep, hr.1⟩, hr.2⟩
  · exact ⟨hw.trans hstep, hr⟩

end AppStep

end NeoDCT
