import NeoDCT.Lib.PyText

/-!
# Splitting at a separator of several characters

`text.split(sep)` goes from left to right, and a separator that was found is passed as a whole.  No part has
the separator in it (`not_infix_of_mem_splitBy`).  Where no end of the separator is a beginning of it
(`Unbordered`), no separator is passed over, so the last part is what follows the last one (`getLast?_splitBy`).
-/

namespace PyText

/-- `text.split(sep)`, where `skip` characters are still to be passed, and `part` is the part so far, reversed. -/
def splitFrom (sep : Text) : ℕ → Text → Text → List Text
  | _, part, [] => [part.reverse]
  | skip + 1, part, _ :: s => splitFrom sep skip part s
  | 0, part, c :: s =>
    if sep.isPrefixOf (c :: s) then part.reverse :: splitFrom sep (sep.length - 1) [] s
    else splitFrom sep 0 (c :: part) s

/-- `text.split(sep)`. -/
def splitBy (sep text : Text) : List Text := splitFrom sep 0 [] text

/-- No end of a text is a beginning of it, but the text itself. -/
def Unbordered (sep : Text) : Prop := ∀ n < sep.length, 0 < n → ¬ sep.drop n <+: sep

instance (sep : Text) : Decidable (Unbordered sep) := inferInstanceAs (Decidable (∀ n < sep.length, _ → _))

variable {sep : Text}

theorem splitFrom_skip {n : ℕ} {s : Text} (h : n ≤ s.length) (part : Text) :
    splitFrom sep n part s = splitFrom sep 0 part (s.drop n) := by
  induction n generalizing s with
  | zero => rfl
  | succ n ih =>
    cases s with
    | nil => exact absurd h (Nat.not_succ_le_zero n)
    | cons c s => exact ih (Nat.le_of_succ_le_succ h)

theorem splitFrom_ne_nil (n : ℕ) (part s : Text) : splitFrom sep n part s ≠ [] := by
  induction s generalizing n part with
  | nil =>
    cases n <;> exact List.cons_ne_nil _ _
  | cons c s ih =>
    cases n with
    | zero =>
      rw [splitFrom]
      split
      · exact List.cons_ne_nil _ _
      · exact ih 0 (c :: part)
    | succ n => exact ih n part

/-- A text without the separator is its only part. -/
theorem splitFrom_absent {s : Text} (h : ¬ sep <:+: s) (part : Text) :
    splitFrom sep 0 part s = [part.reverse ++ s] := by
  induction s generalizing part with
  | nil => rw [splitFrom, List.append_nil]
  | cons c s ih =>
    have hhead : sep.isPrefixOf (c :: s) = false := by
      rw [Bool.eq_false_iff]
      exact fun hpre => h (List.isPrefixOf_iff_prefix.mp hpre).isInfix
    rw [splitFrom, hhead, if_neg Bool.false_ne_true,
      ih (fun hin => h (hin.trans (List.suffix_cons c s).isInfix)), List.reverse_cons, List.append_assoc]
    rfl

/-- A separator is passed. -/
theorem splitFrom_sep (hsep : sep ≠ []) (part s : Text) :
    splitFrom sep 0 part (sep ++ s) = part.reverse :: splitFrom sep 0 [] s := by
  cases sep with
  | nil => exact absurd rfl hsep
  | cons c sep =>
    have hpre : (c :: sep).isPrefixOf (c :: (sep ++ s)) = true :=
      List.isPrefixOf_iff_prefix.mpr (List.prefix_append (c :: sep) s)
    rw [List.cons_append, splitFrom, hpre, if_pos rfl, List.length_cons, Nat.add_sub_cancel,
      splitFrom_skip (by rw [List.length_append]; omega), List.drop_left]

/-- A separator does not begin in what is left of another one. -/
theorem Unbordered.le_of_prefix (hsep : Unbordered sep) {a b : Text} (ha : a ≠ [])
    (h : sep <+: a ++ (sep ++ b)) : sep.length ≤ a.length := by
  by_contra hlt
  rw [not_le] at hlt
  obtain ⟨t, ht⟩ : a <+: sep := List.prefix_of_prefix_length_le (List.prefix_append _ _) h hlt.le
  have hdrop : sep.drop a.length = t := by rw [← ht, List.drop_left]
  refine hsep a.length hlt (List.length_pos_of_ne_nil ha) ?_
  have hpre : t <+: sep ++ b := by
    have happ : a ++ t <+: a ++ (sep ++ b) := by rwa [ht]
    exact (List.prefix_append_right_inj a).mp happ
  rw [hdrop]
  refine List.prefix_of_prefix_length_le hpre (List.prefix_append _ _) ?_
  rw [← hdrop, List.length_drop]
  omega

/-- The last part is what follows the last separator. -/
theorem getLast?_splitFrom (hne : sep ≠ []) (hsep : Unbordered sep) {b : Text} (hb : ¬ sep <:+: b) (a part : Text) :
    (splitFrom sep 0 part (a ++ (sep ++ b))).getLast? = some b := by
  induction hn : a.length using Nat.strong_induction_on generalizing a part with
  | _ n ih =>
    cases a with
    | nil =>
      rw [List.nil_append, splitFrom_sep hne, List.getLast?_cons_of_ne_nil (splitFrom_ne_nil _ _ _),
        splitFrom_absent hb]
      rfl
    | cons c a =>
      by_cases hpre : sep <+: c :: a ++ (sep ++ b)
      · -- the separator at the front ends before the last one begins
        have hle := hsep.le_of_prefix (List.cons_ne_nil c a) hpre
        obtain ⟨a', ha'⟩ : sep <+: c :: a := List.prefix_of_prefix_length_le hpre (List.prefix_append _ _) hle
        have hshort : a'.length < n := by
          have hpos := List.length_pos_of_ne_nil hne
          rw [← hn, ← ha', List.length_append]
          omega
        rw [← ha', List.append_assoc, splitFrom_sep hne, List.getLast?_cons_of_ne_nil (splitFrom_ne_nil _ _ _)]
        exact ih _ hshort a' [] rfl
      · have hfalse : sep.isPrefixOf (c :: (a ++ (sep ++ b))) = false := by
          rw [Bool.eq_false_iff]
          exact fun h => hpre (List.isPrefixOf_iff_prefix.mp h)
        rw [List.cons_append, splitFrom, hfalse, if_neg Bool.false_ne_true]
        exact ih _ (by rw [← hn]; exact Nat.lt_succ_self _) a (c :: part) rfl

theorem getLast?_splitBy (hne : sep ≠ []) (hsep : Unbordered sep) {a b : Text} (hb : ¬ sep <:+: b) :
    (splitBy sep (a ++ (sep ++ b))).getLast? = some b := getLast?_splitFrom hne hsep hb a []

/-- No separator begins in the part so far. -/
theorem not_infix_part (hne : sep ≠ []) {part s : Text}
    (h : ∀ n < part.length, ¬ sep <+: (part.reverse ++ s).drop n) : ¬ sep <:+: part.reverse := by
  rintro ⟨x, y, hxy⟩
  have hlen : x.length < part.length := by
    have hpos := List.length_pos_of_ne_nil hne
    have htotal := congrArg List.length hxy
    rw [List.length_append, List.length_append, List.length_reverse] at htotal
    omega
  refine h x.length hlen ?_
  rw [← hxy, List.append_assoc, List.append_assoc, List.drop_left]
  exact List.prefix_append _ _

theorem not_infix_splitFrom (hne : sep ≠ []) (s part : Text)
    (h : ∀ n < part.length, ¬ sep <+: (part.reverse ++ s).drop n) :
    ∀ p ∈ splitFrom sep 0 part s, ¬ sep <:+: p := by
  induction hn : s.length using Nat.strong_induction_on generalizing s part with
  | _ n ih =>
    intro p hp
    cases s with
    | nil =>
      rw [splitFrom, List.mem_singleton] at hp
      subst hp
      exact not_infix_part hne h
    | cons c s =>
      rw [splitFrom] at hp
      split at hp
      · next hpre =>
        rcases List.mem_cons.mp hp with rfl | hp
        · exact not_infix_part hne h
        · have hle : sep.length - 1 ≤ s.length := by
            have := (List.isPrefixOf_iff_prefix.mp hpre).length_le
            rw [List.length_cons] at this
            omega
          rw [splitFrom_skip hle] at hp
          refine ih _ ?_ (s.drop (sep.length - 1)) [] (fun _ hlt => absurd hlt (Nat.not_lt_zero _)) rfl p hp
          rw [← hn, List.length_drop, List.length_cons]
          omega
      · next hpre =>
        refine ih s.length (by rw [← hn]; exact Nat.lt_succ_self _) s (c :: part) (fun k hk => ?_) rfl p hp
        rw [List.reverse_cons, List.append_assoc]
        rw [List.length_cons] at hk
        rcases Nat.lt_succ_iff_lt_or_eq.mp hk with hk | rfl
        · exact h k hk
        · rw [← List.length_reverse, List.drop_left]
          exact fun hin => hpre (List.isPrefixOf_iff_prefix.mpr hin)

/-- No part has the separator in it. -/
theorem not_infix_of_mem_splitBy (hne : sep ≠ []) {p text : Text} (h : p ∈ splitBy sep text) : ¬ sep <:+: p :=
  not_infix_splitFrom hne text [] (fun _ hlt => absurd hlt (Nat.not_lt_zero _)) p h

end PyText
