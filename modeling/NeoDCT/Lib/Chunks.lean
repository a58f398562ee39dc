import NeoDCT.Lib.Works

/-!
# Chunked strings

A string of chunks, read from its front by a loop.  `Turn` is what one turn of a `while` comes to, `run`
its turns one after the other; a `Format` takes one chunk off a string and leaves a shorter one, `chunks`
takes them all.  A loop that handles one chunk a turn, wherever it keeps the rest of the string, is a fold:

    Walks F f rest acc body → (rest s).length < n →
      run body n s = some ((F.chunks (rest s)).foldlM f (acc s))                  (Walks.run_eq)

and what is written chunk by chunk is read back (`Format.chunks_flatMap_append`).  Where each chunk sets
fields of a record, the last one that sets a field wins (`field_of_foldlM`).
-/

namespace Chunks

/-! ## Loops -/

/-- One turn of a loop: it goes on from a state, or it has a result. -/
inductive Turn (σ ρ : Type) where
  | next (s : σ)
  | done (r : ρ)
deriving DecidableEq

section
variable {σ ρ : Type} {body : σ → Turn σ ρ} {s : σ}

/-- At most `n` turns; `none` is a loop that still goes on. -/
def run (body : σ → Turn σ ρ) : ℕ → σ → Option ρ
  | 0, _ => none
  | n + 1, s =>
    match body s with
    | .next s' => run body n s'
    | .done r => some r

theorem run_next {s' : σ} (h : body s = .next s') (n : ℕ) : run body (n + 1) s = run body n s' := by
  rw [run, h]

theorem run_done {r : ρ} (h : body s = .done r) (n : ℕ) : run body (n + 1) s = some r := by
  rw [run, h]

/-- A loop has one result, however many turns it is given. -/
theorem run_unique {n m : ℕ} {r r' : ρ} (h : run body n s = some r) (h' : run body m s = some r') :
    r = r' := by
  induction n generalizing m s with
  | zero => cases h
  | succ n ih =>
    cases m with
    | zero => cases h'
    | succ m =>
      cases hs : body s with
      | next s' =>
        rw [run_next hs] at h h'
        exact ih h h'
      | done r₀ =>
        rw [run_done hs] at h h'
        exact Option.some.inj (h.symm.trans h')

end

/-! ## Formats -/

/-- How one chunk is taken off the front of a string. -/
structure Format (β α : Type) where
  next : List β → Option (α × List β)
  shorter : ∀ {l rest : List β} {a : α}, next l = some (a, rest) → rest.length < l.length

namespace Format

variable {α β : Type} {F : Format β α} {l rest : List β} {a : α}

/-- The chunks of a string, as far as it can be read. -/
def chunks (F : Format β α) (l : List β) : List α :=
  match _h : F.next l with
  | none => []
  | some (a, rest) => a :: F.chunks rest
termination_by l.length
decreasing_by exact F.shorter _h

theorem chunks_of_none (h : F.next l = none) : F.chunks l = [] := by
  rw [chunks]
  split
  next => rfl
  next a rest h' => cases h.symm.trans h'

theorem chunks_of_some (h : F.next l = some (a, rest)) : F.chunks l = a :: F.chunks rest := by
  rw [chunks]
  split
  next h' => cases h'.symm.trans h
  next a' rest' h' =>
    obtain ⟨rfl, rfl⟩ := Prod.mk.inj (Option.some.inj (h'.symm.trans h))
    rfl

/-- What is written chunk by chunk is read back. -/
theorem chunks_flatMap_append {γ : Type} {encode : γ → List β} {value : γ → α} {xs : List γ}
    (h : ∀ x ∈ xs, ∀ rest, F.next (encode x ++ rest) = some (value x, rest)) (rest : List β) :
    F.chunks (xs.flatMap encode ++ rest) = xs.map value ++ F.chunks rest := by
  induction xs with
  | nil => rfl
  | cons x xs ih =>
    rw [List.forall_mem_cons] at h
    rw [List.flatMap_cons, List.append_assoc, chunks_of_some (h.1 _), ih h.2]
    rfl

/-- What holds of the first chunk of every end of a string holds of all its chunks. -/
theorem forall_mem_chunks {P : α → Prop}
    (hsuffix : ∀ {l rest : List β} {a : α}, F.next l = some (a, rest) → rest <:+ l)
    (h : ∀ {l' rest : List β} {a : α}, l' <:+ l → F.next l' = some (a, rest) → P a) :
    ∀ a ∈ F.chunks l, P a := by
  induction hn : l.length using Nat.strong_induction_on generalizing l with
  | _ n ih =>
    subst hn
    cases hnext : F.next l with
    | none =>
      rw [chunks_of_none hnext]
      simp
    | some r =>
      obtain ⟨a, rest⟩ := r
      rw [chunks_of_some hnext, List.forall_mem_cons]
      refine ⟨h List.suffix_rfl hnext, ih rest.length (F.shorter hnext) (fun hl' => ?_) rfl⟩
      exact h (hl'.trans (hsuffix hnext))

end Format

/-! ## Loops over chunks -/

/-- A loop that handles one chunk a turn: `rest` is what it has not read yet, `acc` what it has made of the
rest. -/
structure Walks {α β σ τ ε : Type} (F : Format β α) (f : τ → α → Except ε τ) (rest : σ → List β)
    (acc : σ → τ) (body : σ → Turn σ (Except ε τ)) : Prop where
  stops : ∀ {s}, F.next (rest s) = none → body s = .done (.ok (acc s))
  fails : ∀ {s a l e}, F.next (rest s) = some (a, l) → f (acc s) a = .error e → body s = .done (.error e)
  goesOn : ∀ {s a l t}, F.next (rest s) = some (a, l) → f (acc s) a = .ok t →
    ∃ s', body s = .next s' ∧ rest s' = l ∧ acc s' = t

/-- **Such a loop ends, and is a fold over the chunks.** -/
theorem Walks.run_eq {α β σ τ ε : Type} {F : Format β α} {f : τ → α → Except ε τ} {rest : σ → List β}
    {acc : σ → τ} {body : σ → Turn σ (Except ε τ)} (h : Walks F f rest acc body) {n : ℕ} {s : σ}
    (hn : (rest s).length < n) : run body n s = some ((F.chunks (rest s)).foldlM f (acc s)) := by
  induction n generalizing s with
  | zero => omega
  | succ n ih =>
    cases hnext : F.next (rest s) with
    | none =>
      rw [run_done (h.stops hnext), Format.chunks_of_none hnext]
      rfl
    | some r =>
      obtain ⟨a, l⟩ := r
      have hshorter := F.shorter hnext
      rw [Format.chunks_of_some hnext, List.foldlM_cons]
      cases hf : f (acc s) a with
      | error e =>
        rw [run_done (h.fails hnext hf)]
        rfl
      | ok t =>
        obtain ⟨s', hbody, rfl, rfl⟩ := h.goesOn hnext hf
        rw [run_next hbody, ih (by omega)]
        rfl

/-! ## Records -/

section
variable {α γ τ ε : Type} {update : τ → τ → τ} {sets : α → Except ε τ} {as : List α} {t t' : τ}

theorem works_foldlM_iff : Interactive.Works (as.foldlM (fun t a => (sets a).map (update t)) t) ↔
    ∀ a ∈ as, Interactive.Works (sets a) := by
  induction as generalizing t with
  | nil => exact ⟨fun _ a ha => (by cases ha), fun _ => ⟨t, rfl⟩⟩
  | cons a as ih =>
    rw [List.foldlM_cons, Interactive.works_bind, List.forall_mem_cons]
    constructor
    · rintro ⟨t', ht', h⟩
      refine ⟨?_, ih.mp h⟩
      cases ha : sets a with
      | error e =>
        rw [ha] at ht'
        cases ht'
      | ok u => exact ⟨u, rfl⟩
    · rintro ⟨⟨u, hu⟩, h⟩
      exact ⟨update t u, by rw [hu]; rfl, ih.mpr h⟩

/-- The field that each chunk sets, of a record that all of them have set. -/
theorem field_of_foldlM {field : τ → Option γ} {value : α → Option γ}
    (hupdate : ∀ t u, field (update t u) = (field u).or (field t))
    (hvalue : ∀ a u, sets a = .ok u → field u = value a)
    (h : as.foldlM (fun t a => (sets a).map (update t)) t = .ok t') :
    field t' = ((as.filterMap value).getLast?).or (field t) := by
  induction as generalizing t with
  | nil =>
    obtain rfl : t = t' := Except.ok.inj h
    rfl
  | cons a as ih =>
    rw [List.foldlM_cons] at h
    cases ha : sets a with
    | error e =>
      rw [ha] at h
      cases h
    | ok u =>
      rw [ha] at h
      rw [ih h, hupdate, hvalue a u ha]
      cases hv : value a with
      | none => rw [List.filterMap_cons_none hv, Option.none_or]
      | some v =>
        rw [List.filterMap_cons_some hv, List.getLast?_cons]
        cases (as.filterMap value).getLast? <;> rfl

end

end Chunks
