import Mathlib

/-!
# Regular expressions that look around

A regular expression over atoms `α` is matched against a list of characters `γ`; `sat` says which
characters an atom stands for, and `isWord` which of them are word characters: `boundary` matches
between one that is and one that is not.  A `Cursor` is a place in the list.

What an expression denotes is a relation between cursors (`Matches`).  `ends` computes where a match
can end, in the order in which a backtracking matcher tries the ends:

    c' ∈ ends r c  ↔  Matches r c c'       (mem_ends)

There is nothing an expression can say about what it does not match, but through `boundary`.  So a
match survives in any list around the one it was found in whose neighbouring characters are no word
characters (`search_within`).
-/

namespace Regex

open Relation

inductive Expr (α : Type) where
  | empty
  | atom (a : α)
  | boundary
  | seq (r s : Expr α)
  | alt (r s : Expr α)
  | star (r : Expr α)
deriving DecidableEq, Repr

/-- A place in a list: what comes before it, the nearest first, and what comes after. -/
structure Cursor (γ : Type) where
  before : List γ
  after : List γ
deriving DecidableEq, Repr

variable {α γ : Type} (sat : α → γ → Bool) (isWord : γ → Bool)

/-- Whether a list starts with a word character. -/
def startsWord (cs : List γ) : Bool := cs.head?.any isWord

def Cursor.AtBoundary (c : Cursor γ) : Prop := startsWord isWord c.before ≠ startsWord isWord c.after

instance (c : Cursor γ) : Decidable (c.AtBoundary isWord) := inferInstanceAs (Decidable (_ ≠ _))

/-- **What an expression denotes.** -/
def Matches : Expr α → Cursor γ → Cursor γ → Prop
  | .empty => Eq
  | .atom a => fun c c' => ∃ x, sat a x = true ∧ c.after = x :: c'.after ∧ c'.before = x :: c.before
  | .boundary => fun c c' => c = c' ∧ c.AtBoundary isWord
  | .seq r s => Comp (Matches r) (Matches s)
  | .alt r s => fun c c' => Matches r c c' ∨ Matches s c c'
  | .star r => ReflTransGen (Matches r)

/-! ## The matcher -/

/-- As many iterations as possible, then fewer; each of them goes on. -/
def starEnds (step : Cursor γ → List (Cursor γ)) : Nat → Cursor γ → List (Cursor γ)
  | 0, c => [c]
  | n + 1, c =>
    ((step c).filter fun c' => c'.after.length < c.after.length).flatMap (starEnds step n) ++ [c]

/-- Where a match can end. -/
def ends : Expr α → Cursor γ → List (Cursor γ)
  | .empty, c => [c]
  | .atom a, c =>
    match c.after with
    | [] => []
    | x :: xs => if sat a x then [⟨x :: c.before, xs⟩] else []
  | .boundary, c => if c.AtBoundary isWord then [c] else []
  | .seq r s, c => (ends r c).flatMap (ends s)
  | .alt r s, c => ends r c ++ ends s c
  | .star r, c => starEnds (ends r) c.after.length c

/-- A match goes forward, or nowhere. -/
theorem Matches.progress {r : Expr α} {c c' : Cursor γ} (h : Matches sat isWord r c c') :
    c' = c ∨ c'.after.length < c.after.length := by
  induction r generalizing c c' with
  | empty => exact Or.inl h.symm
  | atom a =>
    obtain ⟨x, -, hafter, -⟩ := h
    rw [hafter]
    exact Or.inr (Nat.lt_succ_self _)
  | boundary => exact Or.inl h.1.symm
  | seq r s ihr ihs =>
    obtain ⟨c₁, h₁, h₂⟩ := h
    rcases ihr h₁ with rfl | hlt₁
    · exact ihs h₂
    · rcases ihs h₂ with rfl | hlt₂
      · exact Or.inr hlt₁
      · exact Or.inr (hlt₂.trans hlt₁)
  | alt r s ihr ihs =>
    rcases h with h | h
    · exact ihr h
    · exact ihs h
  | star r ih =>
    induction h with
    | refl => exact Or.inl rfl
    | tail _ hstep ih' =>
      rcases ih hstep with rfl | hlt
      · exact ih'
      · rcases ih' with rfl | hlt'
        · exact Or.inr hlt
        · exact Or.inr (hlt.trans hlt')

theorem self_mem_starEnds (step : Cursor γ → List (Cursor γ)) (n : Nat) (c : Cursor γ) :
    c ∈ starEnds step n c := by
  cases n with
  | zero => exact List.mem_singleton_self c
  | succ n => exact List.mem_append_right _ (List.mem_singleton_self c)

theorem starEnds_sound {R : Cursor γ → Cursor γ → Prop} {step : Cursor γ → List (Cursor γ)}
    (hstep : ∀ c c', c' ∈ step c → R c c') {n : Nat} {c c' : Cursor γ} (h : c' ∈ starEnds step n c) :
    ReflTransGen R c c' := by
  induction n generalizing c with
  | zero =>
    obtain rfl := List.mem_singleton.mp h
    exact .refl
  | succ n ih =>
    rcases List.mem_append.mp h with h | h
    · obtain ⟨c₁, h₁, h₂⟩ := List.mem_flatMap.mp h
      exact .head (hstep c c₁ (List.mem_filter.mp h₁).1) (ih h₂)
    · obtain rfl := List.mem_singleton.mp h
      exact .refl

theorem starEnds_complete {R : Cursor γ → Cursor γ → Prop} {step : Cursor γ → List (Cursor γ)}
    (hstep : ∀ c c', R c c' → c' ∈ step c)
    (hprogress : ∀ c c', R c c' → c' = c ∨ c'.after.length < c.after.length) {c c' : Cursor γ}
    (h : ReflTransGen R c c') : ∀ n, c.after.length ≤ n → c' ∈ starEnds step n c := by
  induction h using ReflTransGen.head_induction_on with
  | refl => exact fun n _ => self_mem_starEnds step n c'
  | @head c c₁ h₁ _ ih =>
    intro n hn
    rcases hprogress c c₁ h₁ with rfl | hlt
    · exact ih n hn
    · cases n with
      | zero => omega
      | succ n =>
        refine List.mem_append_left _ (List.mem_flatMap.mpr ⟨c₁, ?_, ih n (by omega)⟩)
        exact List.mem_filter.mpr ⟨hstep c c₁ h₁, decide_eq_true hlt⟩

/-- **The matcher finds every match, and nothing else.** -/
theorem mem_ends {r : Expr α} {c c' : Cursor γ} :
    c' ∈ ends sat isWord r c ↔ Matches sat isWord r c c' := by
  induction r generalizing c c' with
  | empty => exact List.mem_singleton.trans eq_comm
  | atom a =>
    obtain ⟨before, after⟩ := c
    obtain ⟨before', after'⟩ := c'
    unfold ends Matches
    cases after with
    | nil => simp
    | cons x xs =>
      by_cases hx : sat a x = true
      · simp only [hx, if_true, List.mem_singleton, Cursor.mk.injEq, List.cons.injEq]
        constructor
        · rintro ⟨rfl, rfl⟩
          exact ⟨x, hx, ⟨rfl, rfl⟩, rfl⟩
        · rintro ⟨_, -, ⟨rfl, rfl⟩, rfl⟩
          exact ⟨rfl, rfl⟩
      · simp only [hx, List.cons.injEq]
        constructor
        · intro h
          simp at h
        · rintro ⟨y, hy, ⟨rfl, -⟩, -⟩
          exact absurd hy hx
  | boundary =>
    unfold ends Matches
    split
    · next hb => exact ⟨fun h => ⟨(List.mem_singleton.mp h).symm, hb⟩, fun h => by simp [h.1]⟩
    · next hb => exact ⟨fun h => by simp at h, fun h => absurd h.2 hb⟩
  | seq r s ihr ihs =>
    unfold ends Matches
    rw [List.mem_flatMap]
    constructor
    · rintro ⟨c₁, h₁, h₂⟩
      exact ⟨c₁, ihr.mp h₁, ihs.mp h₂⟩
    · rintro ⟨c₁, h₁, h₂⟩
      exact ⟨c₁, ihr.mpr h₁, ihs.mpr h₂⟩
  | alt r s ihr ihs =>
    unfold ends Matches
    rw [List.mem_append, ihr, ihs]
  | star r ih =>
    unfold ends Matches
    constructor
    · exact starEnds_sound fun _ _ => ih.mp
    · intro h
      have hstep : ∀ c c', Matches sat isWord r c c' → c' ∈ ends sat isWord r c := fun _ _ => ih.mpr
      exact starEnds_complete hstep (fun _ _ => Matches.progress sat isWord) h _ le_rfl

/-! ## Searching -/

/-- The first match from here on: where it starts and ends. -/
def searchFrom (r : Expr α) : List γ → List γ → Option (Cursor γ × Cursor γ)
  | before, [] => (ends sat isWord r ⟨before, []⟩).head?.map fun c' => (⟨before, []⟩, c')
  | before, x :: xs =>
    match (ends sat isWord r ⟨before, x :: xs⟩).head? with
    | some c' => some (⟨before, x :: xs⟩, c')
    | none => searchFrom r (x :: before) xs

def search (r : Expr α) (text : List γ) : Option (Cursor γ × Cursor γ) :=
  searchFrom sat isWord r [] text

theorem head?_ends_isSome {r : Expr α} {c : Cursor γ} :
    (ends sat isWord r c).head?.isSome = true ↔ ∃ c', Matches sat isWord r c c' := by
  rw [List.isSome_head?]
  constructor
  · intro h
    obtain ⟨c', hc'⟩ := List.exists_mem_of_ne_nil _ (by simpa using h)
    exact ⟨c', (mem_ends sat isWord).mp hc'⟩
  · rintro ⟨c', hc'⟩
    simpa using List.ne_nil_of_mem ((mem_ends sat isWord).mpr hc')

theorem searchFrom_isSome {r : Expr α} (before after : List γ) :
    (searchFrom sat isWord r before after).isSome = true ↔
      ∃ skipped rest c', after = skipped ++ rest ∧
        Matches sat isWord r ⟨skipped.reverse ++ before, rest⟩ c' := by
  induction after generalizing before with
  | nil =>
    unfold searchFrom
    rw [Option.isSome_map, head?_ends_isSome]
    constructor
    · rintro ⟨c', h⟩
      exact ⟨[], [], c', rfl, h⟩
    · rintro ⟨skipped, rest, c', hnil, h⟩
      obtain ⟨rfl, rfl⟩ := List.append_eq_nil_iff.mp hnil.symm
      exact ⟨c', h⟩
  | cons x xs ih =>
    unfold searchFrom
    cases hends : (ends sat isWord r ⟨before, x :: xs⟩).head? with
    | some c' =>
      refine ⟨fun _ => ?_, fun _ => rfl⟩
      have hsome : (ends sat isWord r ⟨before, x :: xs⟩).head?.isSome = true := by rw [hends]; rfl
      obtain ⟨c', h⟩ := (head?_ends_isSome sat isWord).mp hsome
      exact ⟨[], x :: xs, c', rfl, h⟩
    | none =>
      simp only []
      rw [ih]
      constructor
      · rintro ⟨skipped, rest, c', rfl, h⟩
        refine ⟨x :: skipped, rest, c', rfl, ?_⟩
        simpa using h
      · rintro ⟨skipped, rest, c', heq, h⟩
        cases skipped with
        | nil =>
          obtain rfl : x :: xs = rest := heq
          have hsome := (head?_ends_isSome sat isWord).mpr ⟨c', h⟩
          simp only [List.reverse_nil, List.nil_append] at hsome
          rw [hends] at hsome
          cases hsome
        | cons y skipped =>
          obtain ⟨rfl, rfl⟩ : x = y ∧ xs = skipped ++ rest := by simpa using heq
          exact ⟨skipped, rest, c', rfl, by simpa using h⟩

/-- **A search finds something exactly when there is something to find.** -/
theorem search_isSome {r : Expr α} {text : List γ} :
    (search sat isWord r text).isSome = true ↔
      ∃ before after c', text = before ++ after ∧ Matches sat isWord r ⟨before.reverse, after⟩ c' := by
  unfold search
  rw [searchFrom_isSome]
  simp only [List.append_nil]

/-! ## Around a match -/

/-- The place in a longer list. -/
def Cursor.within (left right : List γ) (c : Cursor γ) : Cursor γ :=
  ⟨c.before ++ left, c.after ++ right⟩

theorem startsWord_append {cs right : List γ} (h : startsWord isWord right = false) :
    startsWord isWord (cs ++ right) = startsWord isWord cs := by
  cases cs with
  | nil => exact h
  | cons x xs => rfl

/-- A match survives between characters that are no word characters. -/
theorem Matches.within {r : Expr α} {left right : List γ} (hl : startsWord isWord left = false)
    (hr : startsWord isWord right = false) {c c' : Cursor γ} (h : Matches sat isWord r c c') :
    Matches sat isWord r (c.within left right) (c'.within left right) := by
  induction r generalizing c c' with
  | empty => exact congrArg _ h
  | atom a =>
    obtain ⟨x, hx, hafter, hbefore⟩ := h
    refine ⟨x, hx, ?_, ?_⟩
    · show c.after ++ right = _
      rw [hafter]
      rfl
    · show c'.before ++ left = _
      rw [hbefore]
      rfl
  | boundary =>
    obtain ⟨rfl, hb⟩ := h
    refine ⟨rfl, ?_⟩
    show startsWord isWord (c.before ++ left) ≠ startsWord isWord (c.after ++ right)
    rw [startsWord_append isWord hl, startsWord_append isWord hr]
    exact hb
  | seq r s ihr ihs =>
    obtain ⟨c₁, h₁, h₂⟩ := h
    exact ⟨c₁.within left right, ihr h₁, ihs h₂⟩
  | alt r s ihr ihs =>
    rcases h with h | h
    · exact Or.inl (ihr h)
    · exact Or.inr (ihs h)
  | star r ih =>
    have hstep : ∀ c c', Matches sat isWord r c c' →
        Matches sat isWord r (c.within left right) (c'.within left right) := fun _ _ => ih
    exact ReflTransGen.lift (Cursor.within left right) hstep _ _ h

/-- **A search that finds something in a list finds something around it**, if the characters next to it
are no word characters. -/
theorem search_within {r : Expr α} {text left right : List γ}
    (hl : startsWord isWord left.reverse = false) (hr : startsWord isWord right = false)
    (h : (search sat isWord r text).isSome = true) :
    (search sat isWord r (left ++ text ++ right)).isSome = true := by
  obtain ⟨before, after, c', rfl, hm⟩ := (search_isSome sat isWord).mp h
  have hm' : Matches sat isWord r ⟨before.reverse ++ left.reverse, after ++ right⟩
      (c'.within left.reverse right) := hm.within sat isWord hl hr
  rw [← List.reverse_append] at hm'
  have htext : left ++ (before ++ after) ++ right = (left ++ before) ++ (after ++ right) := by simp
  exact (search_isSome sat isWord).mpr ⟨left ++ before, after ++ right, _, htext, hm'⟩

end Regex
