import Mathlib

/-!
# Programs that wait for input

A program of type `Prog ε σ α` runs on a state `σ` that holds the input still to come.  It
returns a value, or halts: it waits for input that is not there yet, or it raised an error.
Either way the state it leaves is kept, so a property of "every moment of every run" is a
property of the state left on every input (an input cut short is a run observed early).

`wp p Q E s` says what holds when `p` is run on `s`: `Q` if it returns, `E` if it halts.

`loop body` is `while True: …`.  Its fuel is the amount of input left, and one more; the rule
`wp_loop` asks every iteration to consume input, so what stops a loop is never the fuel.
-/

namespace Interactive

/-- Why a program has not returned. -/
inductive Halt (ε : Type) where
  | waiting
  | raised (e : ε)
deriving DecidableEq, Repr

abbrev Prog (ε σ α : Type) := EStateM (Halt ε) σ α

variable {ε σ α β γ : Type}

/-- The state a run leaves, whether it returns or halts. -/
def finalState (p : Prog ε σ α) (s : σ) : σ :=
  match p s with
  | .ok _ s' => s'
  | .error _ s' => s'

/-- The value a run returns, if it does. -/
def returned? (p : Prog ε σ α) (s : σ) : Option α :=
  match p s with
  | .ok a _ => some a
  | .error _ _ => none

def Halt.error? : Halt ε → Option ε
  | .waiting => none
  | .raised e => some e

/-- The error a run raises, if it does. -/
def raised? (p : Prog ε σ α) (s : σ) : Option ε :=
  match p s with
  | .ok _ _ => none
  | .error h _ => h.error?

theorem returned?_map (f : α → β) (p : Prog ε σ α) (s : σ) :
    returned? (f <$> p) s = (returned? p s).map f := by
  show (match EStateM.map f p s with
    | .ok a _ => some a
    | .error _ _ => none) = _
  unfold returned? EStateM.map
  cases p s <;> rfl

theorem raised?_map (f : α → β) (p : Prog ε σ α) (s : σ) : raised? (f <$> p) s = raised? p s := by
  show (match EStateM.map f p s with
    | .ok _ _ => none
    | .error h _ => h.error?) = _
  unfold raised? EStateM.map
  cases p s <;> rfl

theorem finalState_map (f : α → β) (p : Prog ε σ α) (s : σ) :
    finalState (f <$> p) s = finalState p s := by
  show (match EStateM.map f p s with
    | .ok _ s' => s'
    | .error _ s' => s') = _
  unfold finalState EStateM.map
  cases p s <;> rfl

/-! ## Weakest preconditions -/

def wp (p : Prog ε σ α) (Q : α → σ → Prop) (E : Halt ε → σ → Prop) (s : σ) : Prop :=
  match p s with
  | .ok a s' => Q a s'
  | .error h s' => E h s'

theorem wp_get (Q : σ → σ → Prop) (E : Halt ε → σ → Prop) (s : σ) :
    wp get Q E s ↔ Q s s := Iff.rfl

theorem wp_bind (p : Prog ε σ α) (f : α → Prog ε σ β) (Q : β → σ → Prop) (E : Halt ε → σ → Prop)
    (s : σ) : wp (p >>= f) Q E s ↔ wp p (fun a s' => wp (f a) Q E s') E s := by
  show (match EStateM.bind p f s with
    | .ok a s' => Q a s'
    | .error h s' => E h s') ↔ _
  unfold wp EStateM.bind
  cases p s <;> rfl

theorem wp_mono {p : Prog ε σ α} {Q Q' : α → σ → Prop} {E E' : Halt ε → σ → Prop} {s : σ}
    (h : wp p Q E s) (hQ : ∀ a s', Q a s' → Q' a s') (hE : ∀ e s', E e s' → E' e s') :
    wp p Q' E' s := by
  unfold wp at h ⊢
  cases hp : p s with
  | ok a s' => rw [hp] at h; exact hQ a s' h
  | error e s' => rw [hp] at h; exact hE e s' h

/-- The rule for `p; f`: a specification of `p`, then `f` from what it leaves. -/
theorem wp_seq {p : Prog ε σ α} {f : α → Prog ε σ β} {Q : β → σ → Prop} {E E' : Halt ε → σ → Prop}
    {R : α → σ → Prop} {s : σ} (h : wp p R E' s) (hE : ∀ e s', E' e s' → E e s')
    (hf : ∀ a s', R a s' → wp (f a) Q E s') : wp (p >>= f) Q E s :=
  (wp_bind p f Q E s).mpr (wp_mono h hf hE)

/-- Two specifications of one program. -/
theorem wp_and {p : Prog ε σ α} {Q Q' : α → σ → Prop} {E E' : Halt ε → σ → Prop} {s : σ}
    (h : wp p Q E s) (h' : wp p Q' E' s) :
    wp p (fun a s' => Q a s' ∧ Q' a s') (fun e s' => E e s' ∧ E' e s') s := by
  unfold wp at h h' ⊢
  cases hp : p s with
  | ok a s' => rw [hp] at h h'; exact ⟨h, h'⟩
  | error e s' => rw [hp] at h h'; exact ⟨h, h'⟩

/-- What holds of every return and of every halt holds of the final state. -/
theorem finalState_of_wp {p : Prog ε σ α} {P : σ → Prop} {s : σ}
    (h : wp p (fun _ => P) (fun _ => P) s) : P (finalState p s) := by
  unfold wp at h
  unfold finalState
  cases hp : p s <;> (rw [hp] at h; exact h)

/-- A run returns or halts, as specified. -/
theorem wp_cases {p : Prog ε σ α} {Q : α → σ → Prop} {E : Halt ε → σ → Prop} {s : σ}
    (h : wp p Q E s) :
    (∃ a, returned? p s = some a ∧ raised? p s = none ∧ Q a (finalState p s)) ∨
    ∃ e, returned? p s = none ∧ raised? p s = e.error? ∧ E e (finalState p s) := by
  unfold wp at h
  unfold returned? raised? finalState
  cases hp : p s with
  | ok a s' => rw [hp] at h; exact Or.inl ⟨a, rfl, rfl, h⟩
  | error e s' => rw [hp] at h; exact Or.inr ⟨e, rfl, rfl, h⟩

/-! ## Loops -/

/-- States that hold the input still to come. -/
class Input (σ : Type) where
  remaining : σ → Nat

open Input

/-- `n` iterations at most; an iteration goes on with `inl` and returns with `inr`. -/
def loopUpTo : Nat → (β → Prog ε σ (β ⊕ α)) → β → Prog ε σ α
  | 0, _, _ => throw .waiting
  | n + 1, body, b => do
    match ← body b with
    | .inl b' => loopUpTo n body b'
    | .inr a => pure a

/-- `while True`, for a body that reads input in every iteration. -/
def loop [Input σ] (body : β → Prog ε σ (β ⊕ α)) (b : β) : Prog ε σ α :=
  fun s => loopUpTo (remaining s + 1) body b s

theorem wp_loopUpTo [Input σ] {body : β → Prog ε σ (β ⊕ α)} {Q : α → σ → Prop}
    {E : Halt ε → σ → Prop} (I : β → σ → Prop)
    (step : ∀ b s, I b s → wp (body b) (fun r s' =>
      r.elim (fun b' => I b' s' ∧ remaining s' < remaining s) fun a => Q a s') E s) :
    ∀ n b s, remaining s < n → I b s → wp (loopUpTo n body b) Q E s := by
  intro n
  induction n with
  | zero => intro b s hn; omega
  | succ n ih =>
    intro b s hn hI
    refine wp_seq (step b s hI) (fun _ _ h => h) ?_
    rintro (b' | a) s' h
    · obtain ⟨hI', hlt⟩ := h
      exact ih b' s' (by omega) hI'
    · exact h

/-- **The loop rule.**  `I` holds before every iteration, and every iteration reads input. -/
theorem wp_loop [Input σ] {body : β → Prog ε σ (β ⊕ α)} {Q : α → σ → Prop}
    {E : Halt ε → σ → Prop} (I : β → σ → Prop) {b : β} {s : σ} (h : I b s)
    (step : ∀ b s, I b s → wp (body b) (fun r s' =>
      r.elim (fun b' => I b' s' ∧ remaining s' < remaining s) fun a => Q a s') E s) : wp (loop body b) Q E s :=
  wp_loopUpTo I step _ b s (Nat.lt_succ_self _) h

/-- A loop that returns more returns as much. -/
theorem loop_map [Input σ] (f : γ → α) {body : β → Prog ε σ (β ⊕ α)} {body' : β → Prog ε σ (β ⊕ γ)}
    (h : ∀ b, body b = Sum.map id f <$> body' b) (b : β) : loop body b = f <$> loop body' b := by
  have hupto : ∀ n b, loopUpTo n body b = f <$> loopUpTo n body' b := by
    intro n
    induction n with
    | zero => intro b; rfl
    | succ n ih =>
      intro b
      simp only [loopUpTo, h, map_eq_pure_bind, bind_assoc, pure_bind]
      congr 1
      funext r
      cases r with
      | inl b' =>
        show loopUpTo n body b' = _
        rw [ih, map_eq_pure_bind]
      | inr a => exact (pure_bind (m := Prog ε σ) a fun c => pure (f c)).symm
  funext s
  exact congrFun (hupto _ b) s

/-! ## Feeding keys to a step function -/

/-- Feeds keys to `step` until it returns; `inl` when they run out first. -/
def feed {κ : Type} (step : β → κ → β ⊕ α) : β → List κ → β ⊕ (α × List κ)
  | b, [] => .inl b
  | b, k :: ks =>
    match step b k with
    | .inl b' => feed step b' ks
    | .inr a => .inr (a, ks)

theorem feed_append {κ : Type} (step : β → κ → β ⊕ α) (b : β) (ks ks' : List κ) :
    feed step b (ks ++ ks') =
      match feed step b ks with
      | .inl b' => feed step b' ks'
      | .inr (a, rest) => .inr (a, rest ++ ks') := by
  induction ks generalizing b with
  | nil => rfl
  | cons k ks ih =>
    simp only [List.cons_append, feed]
    cases step b k with
    | inl b' => exact ih b'
    | inr a => rfl

/-- One more key, on which `step` goes on or returns. -/
theorem feed_snoc {κ : Type} {step : β → κ → β ⊕ α} {b b' : β} {ks ks' : List κ} {k : κ}
    (h : feed step b ks = .inl b') : feed step b (ks ++ k :: ks') =
      match step b' k with
      | .inl b'' => feed step b'' ks'
      | .inr a => .inr (a, ks') := by
  rw [feed_append, h]
  rfl

/-- While it goes on, a step function that only returns something else goes on the same way. -/
theorem feed_map_inl {κ : Type} {step : β → κ → β ⊕ α} (g : β → α → γ) {b b' : β} {ks : List κ}
    (h : feed step b ks = .inl b') : feed (fun b k => (step b k).map id (g b)) b ks = .inl b' := by
  induction ks generalizing b with
  | nil =>
    cases h
    rfl
  | cons k ks ih =>
    rw [feed] at h ⊢
    cases hk : step b k with
    | inl b₁ =>
      rw [hk] at h
      exact ih h
    | inr a =>
      rw [hk] at h
      cases h

/-- A machine inside another one: where it goes on, so does the other. -/
theorem feed_embed {δ κ : Type} {step : β → κ → β ⊕ α} {outer : γ → κ → γ ⊕ δ} {f : β → γ}
    (h : ∀ b k b', step b k = .inl b' → outer (f b) k = .inl (f b')) {b b' : β} {ks : List κ}
    (hfeed : feed step b ks = .inl b') (rest : List κ) :
    feed outer (f b) (ks ++ rest) = feed outer (f b') rest := by
  induction ks generalizing b with
  | nil =>
    cases hfeed
    rfl
  | cons k ks ih =>
    rw [feed] at hfeed
    cases hk : step b k with
    | inl b₁ =>
      rw [hk] at hfeed
      rw [List.cons_append, feed, h b k b₁ hk]
      exact ih hfeed
    | inr a =>
      rw [hk] at hfeed
      cases hfeed

/-- A state that all keys but the ones that close it leave as it is. -/
theorem feed_fixed {κ : Type} {step : β → κ → β ⊕ α} {b : β} {closes : κ → Bool}
    (h : ∀ k, closes k = false → step b k = .inl b) (ks : List κ) :
    feed step b ks =
      match ks.find? closes with
      | none => .inl b
      | some k => feed step b (k :: (ks.dropWhile fun k => !closes k).tail) := by
  induction ks with
  | nil => rfl
  | cons k ks ih =>
    cases hk : closes k with
    | true => simp [hk]
    | false =>
      simp only [List.find?_cons, List.dropWhile_cons, hk, Bool.not_false, if_true]
      rw [feed, h k hk]
      exact ih

/-- **Key loops.**  Every iteration takes one of the `keys` to come and does what `onKey` says: it
goes on, returns or raises.  Then so does the loop, on the keys fed to `onKey`. -/
theorem wp_keyLoop [Input σ] {κ : Type} (keys : σ → List κ) {body : β → Prog ε σ (β ⊕ α)}
    {onKey : β → κ → β ⊕ Except ε α} (I : β → σ → Prop) {Q : β → α → σ → Prop} {b : β} {s : σ}
    (h : I b s)
    (step : ∀ b s, I b s → wp (body b)
      (fun r s' => remaining s' < remaining s ∧ ∃ key, keys s = key :: keys s' ∧
        r.elim (fun b' => onKey b key = .inl b' ∧ I b' s')
          fun a => onKey b key = .inr (.ok a) ∧ Q b a s')
      (fun h _ => (h = .waiting ∧ keys s = []) ∨
        ∃ e key ks, h = .raised e ∧ keys s = key :: ks ∧ onKey b key = .inr (.error e)) s) :
    wp (loop body b)
      (fun a s' => ∃ ks key b', keys s = ks ++ key :: keys s' ∧ feed onKey b ks = .inl b' ∧
        onKey b' key = .inr (.ok a) ∧ Q b' a s')
      (fun h _ => (h = .waiting ∧ ∃ b', feed onKey b (keys s) = .inl b') ∨
        ∃ e rest, h = .raised e ∧ feed onKey b (keys s) = .inr (.error e, rest)) s := by
  refine wp_loop (fun b₁ s₁ => I b₁ s₁ ∧ ∃ ks, keys s = ks ++ keys s₁ ∧ feed onKey b ks = .inl b₁)
    ⟨h, [], rfl, rfl⟩ ?_
  rintro b₁ s₁ ⟨hI, ks, hks, hfeed⟩
  refine wp_mono (step b₁ s₁ hI) ?_ ?_
  · rintro (b₂ | a) s₂ ⟨hlt, key, hkey, hkind, hafter⟩
    · refine ⟨⟨hafter, ks ++ [key], ?_, ?_⟩, hlt⟩
      · rw [hks, hkey, List.append_assoc]
        rfl
      · rw [feed_snoc hfeed, hkind]
        rfl
    · exact ⟨ks, key, b₁, by rw [hks, hkey], hfeed, hkind, hafter⟩
  · rintro _ s₂ (⟨rfl, hnil⟩ | ⟨e, key, rest, rfl, hkey, herror⟩)
    · exact Or.inl ⟨rfl, b₁, by rw [hks, hnil, List.append_nil, hfeed]⟩
    · exact Or.inr ⟨e, rest, rfl, by rw [hks, hkey, feed_snoc hfeed, herror]⟩

end Interactive
