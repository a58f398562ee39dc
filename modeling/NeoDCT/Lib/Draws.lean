import Mathlib

/-!
# Draws until something new

Values of random draws, one wanted after the other, each drawn until it is none of those that are in use.
A search is given what is in use (`searches`), and goes on for as long as it draws that.  Where different
draws have different values, with `free` the draws whose value is not in use,

    every search has something left to draw   ↔  n ≤ (free value used).card     (searches_iff)
    some draws end all of them                →  n ≤ (free value used).card     (freshMany_le)
    a stream in which every draw recurs does  ←  n ≤ (free value used).card     (freshMany_of_recurs)
-/

namespace Draws

variable {α β : Type} [BEq β] (value : α → β)

/-- The first value that is not in use, and the draws behind it; `none` when these draws are used up. -/
def fresh (used : List β) : List α → Option (β × List α)
  | [] => none
  | a :: draws => if !used.contains (value a) then some (value a, draws) else fresh used draws

/-- `n` values, each in use once it is found. -/
def freshMany : ℕ → List β → List α → Option (List β)
  | 0, _, _ => some []
  | n + 1, used, draws => do
    let (b, draws) ← fresh value used draws
    let bs ← freshMany n (b :: used) draws
    some (b :: bs)

/-- What is in use at each search, the one that still draws included. -/
def searches : ℕ → List β → List α → List (List β)
  | 0, _, _ => []
  | n + 1, used, draws =>
    used :: match fresh value used draws with
      | none => []
      | some (b, draws) => searches n (b :: used) draws

/-- The draws whose value is not in use. -/
def free [Fintype α] (used : List β) : Finset α := Finset.univ.filter fun a => !used.contains (value a)

variable {value} [LawfulBEq β] {used : List β}

@[simp] theorem mem_free [Fintype α] {a : α} : a ∈ free value used ↔ value a ∉ used := by
  simp [free]

/-- A draw whose value comes into use is free no more; no other draw is touched. -/
theorem card_free_cons [Fintype α] (hinj : Function.Injective value) {a : α} (h : value a ∉ used) :
    (free value (value a :: used)).card + 1 = (free value used).card := by
  classical
  have herase : free value (value a :: used) = (free value used).erase a := by
    ext x
    simp [hinj.eq_iff]
  rw [herase]
  exact Finset.card_erase_add_one (mem_free.mpr h)

theorem free_nonempty_iff [Fintype α] : 0 < (free value used).card ↔ ∃ a, value a ∉ used := by
  rw [Finset.card_pos]
  constructor
  · rintro ⟨a, ha⟩
    exact ⟨a, mem_free.mp ha⟩
  · rintro ⟨a, ha⟩
    exact ⟨a, mem_free.mpr ha⟩

theorem fresh_spec {draws draws' : List α} {b : β} (h : fresh value used draws = some (b, draws')) :
    ∃ a, b = value a ∧ value a ∉ used := by
  induction draws with
  | nil => cases h
  | cons a draws ih =>
    unfold fresh at h
    split at h
    next hnew =>
      simp only [Option.some.injEq, Prod.mk.injEq] at h
      exact ⟨a, h.1.symm, by simpa using hnew⟩
    next => exact ih h

/-- Draws of what is in use are passed over. -/
theorem fresh_append {pre rest : List α} {a : α} (hpre : ∀ b ∈ pre, value b ∈ used)
    (ha : value a ∉ used) : fresh value used (pre ++ a :: rest) = some (value a, rest) := by
  induction pre with
  | nil =>
    show (if !used.contains (value a) then _ else _) = _
    rw [if_pos (by simpa using ha)]
  | cons b pre ih =>
    rw [List.forall_mem_cons] at hpre
    show (if !used.contains (value b) then _ else _) = _
    rw [if_neg (by simpa using hpre.1)]
    exact ih hpre.2

section
variable [Fintype α] (hinj : Function.Injective value)
include hinj

/-- **When every search has something left to draw**, whatever was drawn before it. -/
theorem searches_iff {n : ℕ} :
    (∀ draws, ∀ inUse ∈ searches value n used draws, ∃ a, value a ∉ inUse) ↔
      n ≤ (free value used).card := by
  induction n generalizing used with
  | zero => simp [searches]
  | succ n ih =>
    constructor
    · intro h
      obtain ⟨a, ha⟩ := h [] used List.mem_cons_self
      have hrest : n ≤ (free value (value a :: used)).card := by
        refine ih.mp fun draws inUse hmem => h (a :: draws) inUse (List.mem_cons_of_mem used ?_)
        have hfresh : fresh value used ([] ++ a :: draws) = some (value a, draws) :=
          fresh_append (by simp) ha
        rw [List.nil_append] at hfresh
        rw [hfresh]
        exact hmem
      have hcard := card_free_cons hinj ha
      omega
    · intro hle draws
      unfold searches
      rw [List.forall_mem_cons]
      refine ⟨free_nonempty_iff.mp (by omega), ?_⟩
      cases hfresh : fresh value used draws with
      | none => simp
      | some r =>
        obtain ⟨b, draws'⟩ := r
        obtain ⟨a, rfl, ha⟩ := fresh_spec hfresh
        have hcard := card_free_cons hinj ha
        exact ih.mpr (by omega) draws'

/-- As many values as are found were free. -/
theorem freshMany_le {n : ℕ} {draws : List α} {bs : List β} (h : freshMany value n used draws = some bs) :
    n ≤ (free value used).card := by
  induction n generalizing used draws bs with
  | zero => exact Nat.zero_le _
  | succ n ih =>
    unfold freshMany at h
    simp only [Option.bind_eq_bind, Option.bind_eq_some_iff] at h
    obtain ⟨⟨b, draws'⟩, hfresh, bs', hrest, -⟩ := h
    obtain ⟨a, rfl, ha⟩ := fresh_spec hfresh
    have hle : n ≤ (free value (value a :: used)).card := ih hrest
    have hcard := card_free_cons hinj ha
    omega

end

/-! ## Streams -/

/-- Every draw comes again and again. -/
def Recurs (stream : ℕ → α) : Prop := ∀ a k, ∃ m, k ≤ m ∧ stream m = a

/-- `n` draws of a stream, from the `k`-th on. -/
def segment (stream : ℕ → α) (k n : ℕ) : List α := (List.range' k n).map stream

theorem segment_add (stream : ℕ → α) (k m n : ℕ) :
    segment stream k (m + n) = segment stream k m ++ segment stream (k + m) n := by
  unfold segment
  rw [← List.map_append, ← List.range'_append_1]

/-- There are such streams. -/
theorem recurs_ofNat (n : ℕ) [NeZero n] : Recurs (Fin.ofNat n) := by
  intro a k
  have hn : 1 ≤ n := NeZero.one_le
  refine ⟨n * k + a.val, ?_, ?_⟩
  · have hk : 1 * k ≤ n * k := Nat.mul_le_mul_right k hn
    omega
  · apply Fin.ext
    show (n * k + a.val) % n = a.val
    rw [Nat.mul_add_mod, Nat.mod_eq_of_lt a.isLt]

/-- A search ends on such a stream, wherever it begins, if there is something to find. -/
theorem fresh_segment {stream : ℕ → α} (hstream : Recurs stream) {a : α} (ha : value a ∉ used) (k : ℕ) :
    ∃ b n, value b ∉ used ∧
      ∀ rest, fresh value used (segment stream k (n + 1) ++ rest) = some (value b, rest) := by
  classical
  have hex : ∃ n, value (stream (k + n)) ∉ used := by
    obtain ⟨m, hm, rfl⟩ := hstream a k
    exact ⟨m - k, by rwa [Nat.add_sub_cancel' hm]⟩
  -- the first draw of the stream that is not in use
  refine ⟨stream (k + Nat.find hex), Nat.find hex, Nat.find_spec hex, fun rest => ?_⟩
  have hpre : ∀ b ∈ segment stream k (Nat.find hex), value b ∈ used := by
    intro b hb
    obtain ⟨i, hi, rfl⟩ := List.mem_map.mp hb
    obtain ⟨hki, hlt⟩ := List.mem_range'_1.mp hi
    have hmin := Nat.find_min hex (m := i - k) (by omega)
    rw [Nat.add_sub_cancel' hki] at hmin
    exact not_not.mp hmin
  rw [segment_add, List.append_assoc]
  exact fresh_append hpre (Nat.find_spec hex)

/-- **All searches end on such a stream**, if there are no more of them than there is free. -/
theorem freshMany_of_recurs [Fintype α] (hinj : Function.Injective value) {stream : ℕ → α}
    (hstream : Recurs stream) {n : ℕ} (h : n ≤ (free value used).card) (k : ℕ) :
    ∃ m bs, freshMany value n used (segment stream k m) = some bs := by
  induction n generalizing used k with
  | zero => exact ⟨0, [], rfl⟩
  | succ n ih =>
    obtain ⟨a, ha⟩ := free_nonempty_iff.mp (show 0 < (free value used).card by omega)
    obtain ⟨b, m, hb, hfresh⟩ := fresh_segment hstream ha k
    have hcard := card_free_cons hinj hb
    have hle : n ≤ (free value (value b :: used)).card := by omega
    obtain ⟨m', bs, hbs⟩ := ih hle (k + (m + 1))
    refine ⟨m + 1 + m', value b :: bs, ?_⟩
    unfold freshMany
    rw [segment_add, hfresh]
    simp only [Option.bind_eq_bind, Option.bind_some, hbs]

end Draws
