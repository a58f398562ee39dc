import Mathlib

/-!
# Memo tables that keep what was found

A value that was found for a key is kept; a key without a value is looked up again.  The source may be another
one at every look, so what a look gives is what was found first:

    (looks [] asked)[n]? = the first value found for the key of look n, in the looks 0, .., n      (looks_eq)
-/

namespace Memo

variable {κ α : Type} [BEq κ]

/-- A look: what is kept for the key, or what the source has, which is then kept. -/
def look (source : κ → Option α) (memo : List (κ × α)) (key : κ) : Option α × List (κ × α) :=
  match memo.lookup key with
  | some a => (some a, memo)
  | none =>
    match source key with
    | some a => (some a, memo ++ [(key, a)])
    | none => (none, memo)

/-- Looks one after the other, each with the source that there is then. -/
def looks : List (κ × α) → List ((κ → Option α) × κ) → List (Option α)
  | _, [] => []
  | memo, (source, key) :: asked => (look source memo key).1 :: looks (look source memo key).2 asked

/-- What was found first for a key. -/
def firstFound (key : κ) (asked : List ((κ → Option α) × κ)) : Option α :=
  asked.findSome? fun (source, k) => if k == key then source k else none

theorem firstFound_append (key : κ) (asked asked' : List ((κ → Option α) × κ)) :
    firstFound key (asked ++ asked') = (firstFound key asked).or (firstFound key asked') :=
  List.findSome?_append

variable [LawfulBEq κ]

theorem lookup_snoc (memo : List (κ × α)) (key key' : κ) (a : α) :
    (memo ++ [(key, a)]).lookup key' = (memo.lookup key').or (if key == key' then some a else none) := by
  induction memo with
  | nil =>
    by_cases h : key = key'
    · simp [List.lookup, h]
    · have hfalse : (key' == key) = false := beq_false_of_ne (Ne.symm h)
      simp [List.lookup, h, hfalse]
  | cons kv memo ih =>
    rw [List.cons_append, List.lookup, List.lookup]
    cases key' == kv.1 with
    | true => rfl
    | false => exact ih

/-- A look keeps the table what was found first. -/
theorem lookup_look {memo : List (κ × α)} {before : List ((κ → Option α) × κ)}
    (h : ∀ key, memo.lookup key = firstFound key before) (source : κ → Option α) (key key' : κ) :
    (look source memo key).2.lookup key' = firstFound key' (before ++ [(source, key)]) := by
  have hlast : firstFound key' [(source, key)] = if key == key' then source key else none := by
    simp [firstFound]
  rw [firstFound_append, hlast, ← h key']
  unfold look
  cases hkept : memo.lookup key with
  | some a =>
    by_cases hkey : key = key'
    · subst hkey
      rw [hkept]
      rfl
    · rw [if_neg (by simpa using hkey), Option.or_none]
  | none =>
    cases hfound : source key with
    | some a => exact lookup_snoc memo key key' a
    | none => simp

theorem look_fst {memo : List (κ × α)} {before : List ((κ → Option α) × κ)}
    (h : ∀ key, memo.lookup key = firstFound key before) (source : κ → Option α) (key : κ) :
    (look source memo key).1 = firstFound key (before ++ [(source, key)]) := by
  have hlast : firstFound key [(source, key)] = source key := by simp [firstFound]
  rw [firstFound_append, hlast, ← h key]
  unfold look
  cases memo.lookup key with
  | some a => rfl
  | none => cases source key <;> rfl

theorem looks_from {memo : List (κ × α)} {before : List ((κ → Option α) × κ)}
    (h : ∀ key, memo.lookup key = firstFound key before) (asked : List ((κ → Option α) × κ)) (n : ℕ) :
    (looks memo asked)[n]? = asked[n]?.map fun ask => firstFound ask.2 (before ++ asked.take (n + 1)) := by
  induction asked generalizing memo before n with
  | nil => rfl
  | cons ask asked ih =>
    obtain ⟨source, key⟩ := ask
    cases n with
    | zero =>
      rw [looks, List.getElem?_cons_zero, List.getElem?_cons_zero, look_fst h]
      rfl
    | succ n =>
      rw [looks, List.getElem?_cons_succ, List.getElem?_cons_succ, ih (lookup_look h source key)]
      simp only [List.append_assoc, List.take_succ_cons, List.singleton_append]

/-- **What a look gives was found first**. -/
theorem looks_eq (asked : List ((κ → Option α) × κ)) (n : ℕ) :
    (looks [] asked)[n]? = asked[n]?.map fun ask => firstFound ask.2 (asked.take (n + 1)) :=
  @looks_from κ α _ _ [] [] (fun _ => rfl) asked n

/-- With one source the table is not seen. -/
theorem firstFound_const (source : κ → Option α) {keys : List κ} {key : κ} (h : key ∈ keys) :
    firstFound key (keys.map fun k => (source, k)) = source key := by
  induction keys with
  | nil => cases h
  | cons k keys ih =>
    have hcons : firstFound key ((k :: keys).map fun k => (source, k)) =
        (if k == key then source k else none).or (firstFound key (keys.map fun k => (source, k))) := by
      rw [List.map_cons, ← List.singleton_append, firstFound_append]
      simp [firstFound]
    rw [hcons]
    by_cases hk : k = key
    · subst hk
      rw [if_pos (beq_self_eq_true k)]
      cases hfound : source k with
      | some a => rfl
      | none =>
        -- the source has nothing at the later looks either
        rw [Option.none_or, firstFound, List.findSome?_eq_none_iff]
        intro ask hask
        obtain ⟨k', -, rfl⟩ := List.mem_map.mp hask
        by_cases hk' : k' = k
        · simp [hk', hfound]
        · simp [hk']
    · rw [if_neg (by simpa using hk), Option.none_or]
      rcases List.mem_cons.mp h with rfl | h
      · exact absurd rfl hk
      · exact ih h

end Memo
