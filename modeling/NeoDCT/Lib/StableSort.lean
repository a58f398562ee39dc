import Mathlib

/-!
# Stable sorting by a key

`sortBy key l` sorts a list by a key, and elements of one key stay in their order.  No other list does
(`eq_sortBy`), so what was sorted before or put in classes before is sorted as it would have been afresh
(`sortBy_congr`).
-/

namespace StableSort

variable {α κ : Type} [LinearOrder κ] (key : α → κ)

/-- `l.sort(key=key)`. -/
def sortBy (l : List α) : List α := l.insertionSort fun a b => key a ≤ key b

/-- The elements of every key are the same in both lists, in the same order. -/
def SameClasses (l l' : List α) : Prop := ∀ k, l.filter (key · = k) = l'.filter (key · = k)

variable {key} {l l' l'' : List α}

theorem SameClasses.symm (h : SameClasses key l l') : SameClasses key l' l := fun k => (h k).symm

theorem SameClasses.trans (h : SameClasses key l l') (h' : SameClasses key l' l'') : SameClasses key l l'' :=
  fun k => (h k).trans (h' k)

theorem SameClasses.mem_iff (h : SameClasses key l l') {a : α} : a ∈ l ↔ a ∈ l' := by
  have hclass : a ∈ l.filter (key · = key a) ↔ a ∈ l'.filter (key · = key a) := by rw [h (key a)]
  simpa using hclass

theorem SameClasses.filter (h : SameClasses key l l') (p : α → Bool) :
    SameClasses key (l.filter p) (l'.filter p) := by
  intro k
  rw [List.filter_comm, h k, List.filter_comm]

/-- Sorted lists have their classes one after the other. -/
theorem SameClasses.eq_of_pairwise (h : SameClasses key l l') (hl : l.Pairwise fun a b => key a ≤ key b)
    (hl' : l'.Pairwise fun a b => key a ≤ key b) : l = l' := by
  induction l generalizing l' with
  | nil =>
    cases l' with
    | nil => rfl
    | cons b l' => exact absurd (h.mem_iff.mpr List.mem_cons_self) List.not_mem_nil
  | cons a l ih =>
    cases l' with
    | nil => exact absurd (h.mem_iff.mp List.mem_cons_self) List.not_mem_nil
    | cons b l' =>
      rw [List.pairwise_cons] at hl hl'
      -- both heads have the least key
      have hab : key a ≤ key b := by
        rcases List.mem_cons.mp (h.mem_iff.mpr (List.mem_cons_self (a := b))) with rfl | hb
        · exact le_rfl
        · exact hl.1 b hb
      have hba : key b ≤ key a := by
        rcases List.mem_cons.mp (h.mem_iff.mp (List.mem_cons_self (a := a))) with rfl | ha
        · exact le_rfl
        · exact hl'.1 a ha
      have hkey : key b = key a := le_antisymm hba hab
      have hhead : a = b := by
        have hclass := h (key a)
        rw [List.filter_cons_of_pos (by simp), List.filter_cons_of_pos (by simp [hkey])] at hclass
        exact (List.cons.inj hclass).1
      subst hhead
      congr 1
      refine ih (fun k => ?_) hl.2 hl'.2
      have hclass := h k
      by_cases hk : key a = k
      · rw [List.filter_cons_of_pos (by simp [hk]), List.filter_cons_of_pos (by simp [hk])] at hclass
        exact (List.cons.inj hclass).2
      · rw [List.filter_cons_of_neg (by simp [hk]), List.filter_cons_of_neg (by simp [hk])] at hclass
        exact hclass

variable (key) (l)

theorem sortBy_perm : (sortBy key l).Perm l := List.perm_insertionSort _ l

@[simp] theorem mem_sortBy {a : α} : a ∈ sortBy key l ↔ a ∈ l := (sortBy_perm key l).mem_iff

@[simp] theorem length_sortBy : (sortBy key l).length = l.length := (sortBy_perm key l).length_eq

theorem pairwise_sortBy : (sortBy key l).Pairwise fun a b => key a ≤ key b := List.pairwise_insertionSort _ l

/-- A class is a sorted sublist, so it is still there, and nothing else has its key. -/
theorem sortBy_sameClasses : SameClasses key (sortBy key l) l := by
  intro k
  have hsorted : (l.filter (key · = k)).Pairwise fun a b => key a ≤ key b := by
    refine List.pairwise_of_forall_mem_list fun a ha b hb => ?_
    rw [List.mem_filter, decide_eq_true_eq] at ha hb
    exact le_of_eq (ha.2.trans hb.2.symm)
  have hsub : (l.filter (key · = k)).Sublist (sortBy key l) :=
    List.sublist_insertionSort hsorted List.filter_sublist
  have hclass := hsub.filter (key · = k)
  rw [List.filter_filter] at hclass
  simp only [Bool.and_self] at hclass
  exact (hclass.eq_of_length ((sortBy_perm key l).filter _).length_eq.symm).symm

variable {key} {l}

/-- **A stable sort is the only one**. -/
theorem eq_sortBy (hsorted : l'.Pairwise fun a b => key a ≤ key b) (h : SameClasses key l' l) :
    l' = sortBy key l :=
  (h.trans (sortBy_sameClasses key l).symm).eq_of_pairwise hsorted (pairwise_sortBy key l)

theorem sortBy_congr (h : SameClasses key l l') : sortBy key l = sortBy key l' :=
  eq_sortBy (pairwise_sortBy key l) ((sortBy_sameClasses key l).trans h)

/-- What comes last and is sorted the other way comes out in front, turned round. -/
theorem sortBy_append_of_lt (hl' : l'.Pairwise fun a b => key b < key a)
    (hlt : ∀ a ∈ l', ∀ b ∈ l, key a < key b) : sortBy key (l ++ l') = l'.reverse ++ sortBy key l := by
  refine (eq_sortBy ?_ fun k => ?_).symm
  · rw [List.pairwise_append]
    refine ⟨List.pairwise_reverse.mpr (hl'.imp le_of_lt), pairwise_sortBy key l, fun a ha b hb => ?_⟩
    exact le_of_lt (hlt a (List.mem_reverse.mp ha) b ((mem_sortBy key l).mp hb))
  · rw [List.filter_append, List.filter_append, sortBy_sameClasses key l k, List.filter_reverse]
    have hclass : (l'.filter (key · = k)).Pairwise fun _ _ => False := by
      refine (hl'.filter _).imp_of_mem fun {a b} ha hb hab => ?_
      rw [List.mem_filter, decide_eq_true_eq] at ha hb
      exact absurd (hb.2.trans ha.2.symm) (ne_of_lt hab)
    match h : l'.filter (key · = k) with
    | [] => exact (List.append_nil _).symm
    | [a] =>
      have ha : a ∈ l' ∧ decide (key a = k) = true := List.mem_filter.mp (h ▸ List.mem_singleton_self a)
      have hnone : l.filter (key · = k) = [] := by
        rw [List.filter_eq_nil_iff]
        intro b hb hk
        rw [decide_eq_true_eq] at hk
        exact absurd (hlt a ha.1 b hb) (by rw [of_decide_eq_true ha.2, hk]; exact lt_irrefl k)
      rw [hnone]
      rfl
    | a :: b :: rest =>
      rw [h] at hclass
      exact ((List.pairwise_cons.mp hclass).1 b List.mem_cons_self).elim

/-! ## When the order does not matter -/

theorem length_filter_key (k : κ) : (l.filter (key · = k)).length = (l.map key).count k := by
  rw [List.count_eq_countP, List.countP_map, List.countP_eq_length_filter]
  congr 1

/-- With distinct keys there is nothing that an order could decide. -/
theorem sortBy_perm_eq (hperm : l'.Perm l) (hkeys : (l.map key).Nodup) : sortBy key l' = sortBy key l := by
  refine sortBy_congr fun k => ?_
  have hclass : (l'.filter (key · = k)).Perm (l.filter (key · = k)) := hperm.filter _
  have hlen : (l.filter (key · = k)).length ≤ 1 := by
    rw [length_filter_key]
    exact List.nodup_iff_count_le_one.mp hkeys k
  match h : l.filter (key · = k) with
  | [] => exact List.perm_nil.mp (h ▸ hclass)
  | [a] => exact List.perm_singleton.mp (h ▸ hclass)
  | a :: b :: rest =>
    rw [h, List.length_cons, List.length_cons] at hlen
    omega

theorem length_le_one_of_reverse (hnodup : l.Nodup) (h : l.reverse = l) : l.length ≤ 1 := by
  by_contra hlt
  have hpos : 0 < l.length := by omega
  have hends : l[0] = l[l.length - 1] := by
    have hpos' : 0 < l.reverse.length := by rwa [List.length_reverse]
    have hfirst : l.reverse[0] = l[0] := by simp only [h]
    rw [← hfirst, List.getElem_reverse]
    rfl
  have hindex := hnodup.getElem_inj_iff.mp hends
  omega

/-- Sorting forgets the order exactly if the keys are distinct. -/
theorem sortBy_reverse_iff (hnodup : l.Nodup) : sortBy key l.reverse = sortBy key l ↔ (l.map key).Nodup := by
  constructor
  · intro h
    rw [List.nodup_iff_count_le_one]
    intro k
    rw [← length_filter_key]
    refine length_le_one_of_reverse (hnodup.filter _) ?_
    rw [← List.filter_reverse, ← sortBy_sameClasses key l.reverse k, h, sortBy_sameClasses key l k]
  · exact sortBy_perm_eq l.reverse_perm

end StableSort
