import NeoDCT.Lib.Prog

/-!
# What a program keeps to

`Within R p`: from wherever `p` runs, and wherever it is stopped, it is `R` that leads there.  If `R` is
reflexive and transitive a program keeps to it if its parts do, loops included, so that what the
primitives keep to is kept to by everything that is made of them.
-/

namespace Interactive

variable {ε σ α β : Type} {R : σ → σ → Prop}

def Within (R : σ → σ → Prop) (p : Prog ε σ α) : Prop := ∀ s, wp p (fun _ => R s) (fun _ => R s) s

namespace Within

theorem finalState {p : Prog ε σ α} (h : Within R p) (s : σ) : R s (finalState p s) :=
  finalState_of_wp (h s)

/-- A specification that says more. -/
theorem of_wp {p : Prog ε σ α} {Q : σ → α → σ → Prop} {E : σ → Halt ε → σ → Prop}
    (h : ∀ s, wp p (Q s) (E s) s) (hQ : ∀ s a s', Q s a s' → R s s') (hE : ∀ s e s', E s e s' → R s s') :
    Within R p :=
  fun s => wp_mono (h s) (hQ s) (hE s)

section
variable [Std.Refl R]

theorem pure (a : α) : Within R (pure a : Prog ε σ α) := fun s => Std.Refl.refl s

theorem get : Within R (get : Prog ε σ σ) := fun s => Std.Refl.refl s

theorem throw (e : Halt ε) : Within R (throw e : Prog ε σ α) := fun s => Std.Refl.refl s

end

section
variable [IsTrans σ R]

theorem bind {p : Prog ε σ α} {f : α → Prog ε σ β} (h : Within R p) (hf : ∀ a, Within R (f a)) :
    Within R (p >>= f) :=
  fun s => wp_seq (h s) (fun _ _ h => h) fun a s' hs' =>
    wp_mono (hf a s') (fun _ _ h => IsTrans.trans s s' _ hs' h) fun _ _ h => IsTrans.trans s s' _ hs' h

variable [Std.Refl R]

/-- A part that depends on the state. -/
theorem bind_get {f : σ → Prog ε σ α} (hf : ∀ s, Within R (f s)) : Within R (MonadState.get >>= f) :=
  get.bind hf

theorem loopUpTo {body : β → Prog ε σ (β ⊕ α)} (h : ∀ b, Within R (body b)) (n : ℕ) (b : β) :
    Within R (loopUpTo n body b) := by
  induction n generalizing b with
  | zero => exact throw _
  | succ n ih =>
    refine (h b).bind fun r => ?_
    cases r with
    | inl b' => exact ih b'
    | inr a => exact pure a

/-- A loop keeps to what its body keeps to, whether or not the body reads. -/
theorem loop [Input σ] {body : β → Prog ε σ (β ⊕ α)} (h : ∀ b, Within R (body b)) (b : β) :
    Within R (loop body b) :=
  fun s => loopUpTo h (Input.remaining s + 1) b s

end

end Within

end Interactive
