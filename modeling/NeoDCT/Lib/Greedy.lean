import Mathlib

/-!
# Greedy packing

A list is cut into consecutive groups, each of which has to fit.  `pack` goes on with a group as long
as one more item fits.  When a part of a group that fits fits too, no cut has fewer groups:

    (pack xs).length is the least number of groups of a cut of xs         (isLeast_pack)
-/

namespace Greedy

variable {α : Type} (fits : List α → Prop) [DecidablePred fits]

/-- The groups of `xs`, from the group `cur` on. -/
def packFrom : List α → List α → List (List α)
  | cur, [] => [cur]
  | cur, x :: xs => if fits (cur ++ [x]) then packFrom (cur ++ [x]) xs else cur :: packFrom [x] xs

/-- As many items in each group as fit; the first of a group is not asked. -/
def pack : List α → List (List α)
  | [] => []
  | x :: xs => packFrom fits [x] xs

/-- `xs`, cut into consecutive groups that fit. -/
structure IsCut (fits : List α → Prop) (xs : List α) (groups : List (List α)) : Prop where
  flatten : groups.flatten = xs
  ne_nil : ∀ g ∈ groups, g ≠ []
  fits : ∀ g ∈ groups, fits g

/-- A part of a group of `xs` that fits fits too. -/
def Hereditary (fits : List α → Prop) (xs : List α) : Prop :=
  ∀ g part, g <:+: xs → part <:+: g → part ≠ [] → fits g → fits part

/-! ## The groups are a cut -/

theorem flatten_packFrom (xs cur : List α) : (packFrom fits cur xs).flatten = cur ++ xs := by
  induction xs generalizing cur with
  | nil => simp [packFrom]
  | cons x xs ih =>
    rw [packFrom]
    split
    · rw [ih, List.append_assoc, List.singleton_append]
    · rw [List.flatten_cons, ih, List.singleton_append]

theorem flatten_pack (xs : List α) : (pack fits xs).flatten = xs := by
  cases xs with
  | nil => rfl
  | cons x xs => exact flatten_packFrom fits xs [x]

theorem packFrom_ne_nil (xs cur : List α) : packFrom fits cur xs ≠ [] := by
  induction xs generalizing cur with
  | nil => simp [packFrom]
  | cons x xs ih =>
    rw [packFrom]
    split
    · exact ih _
    · exact List.cons_ne_nil _ _

/-- The first group is what `cur` takes of the items; the others are packed from there. -/
theorem packFrom_split (xs cur : List α) : ∃ taken rest, xs = taken ++ rest ∧
    packFrom fits cur xs = (cur ++ taken) :: pack fits rest := by
  induction xs generalizing cur with
  | nil => exact ⟨[], [], rfl, by rw [List.append_nil]; rfl⟩
  | cons x xs ih =>
    rw [packFrom]
    split
    · obtain ⟨taken, rest, rfl, heq⟩ := ih (cur ++ [x])
      refine ⟨x :: taken, rest, rfl, ?_⟩
      rw [heq, List.append_assoc, List.singleton_append]
    · exact ⟨[], x :: xs, rfl, by rw [List.append_nil]; rfl⟩

theorem packFrom_congr {fits' : List α → Prop} [DecidablePred fits'] (h : ∀ g, fits g ↔ fits' g)
    (xs cur : List α) : packFrom fits cur xs = packFrom fits' cur xs := by
  induction xs generalizing cur with
  | nil => rfl
  | cons x xs ih => simp only [packFrom, h, ih]

theorem pack_congr {fits' : List α → Prop} [DecidablePred fits'] (h : ∀ g, fits g ↔ fits' g)
    (xs : List α) : pack fits xs = pack fits' xs := by
  cases xs with
  | nil => rfl
  | cons x xs => exact packFrom_congr fits h xs [x]

variable {fits}

theorem mem_of_mem_pack {xs g : List α} (hg : g ∈ pack fits xs) {x : α} (hx : x ∈ g) : x ∈ xs := by
  rw [← flatten_pack fits xs]
  exact List.mem_flatten.mpr ⟨g, hg, hx⟩

/-- What holds of the group begun, of every group that one item opens and of every group that fits holds
of all groups. -/
theorem packFrom_forall {P : List α → Prop} {xs : List α} (hone : ∀ x ∈ xs, P [x])
    (hfits : ∀ g x, fits (g ++ [x]) → P (g ++ [x])) {cur : List α} (hcur : P cur) :
    ∀ g ∈ packFrom fits cur xs, P g := by
  induction xs generalizing cur with
  | nil =>
    intro g hg
    rw [packFrom, List.mem_singleton] at hg
    rwa [hg]
  | cons x xs ih =>
    have hrest : ∀ y ∈ xs, P [y] := fun y hy => hone y (List.mem_cons_of_mem x hy)
    rw [packFrom]
    split
    · next h => exact ih hrest (hfits cur x h)
    · intro g hg
      rcases List.mem_cons.mp hg with rfl | hg
      · exact hcur
      · exact ih hrest (hone x List.mem_cons_self) g hg

theorem pack_forall {P : List α → Prop} {xs : List α} (hone : ∀ x ∈ xs, P [x])
    (hfits : ∀ g x, fits (g ++ [x]) → P (g ++ [x])) : ∀ g ∈ pack fits xs, P g := by
  cases xs with
  | nil => exact List.forall_mem_nil _
  | cons x xs =>
    exact packFrom_forall (fun y hy => hone y (List.mem_cons_of_mem x hy)) hfits
      (hone x List.mem_cons_self)

theorem pack_ne_nil (xs : List α) : ∀ g ∈ pack fits xs, g ≠ [] :=
  pack_forall (fun _ _ => List.cons_ne_nil _ _) fun _ _ _ => by simp

theorem isCut_pack {xs : List α} (hone : ∀ x ∈ xs, fits [x]) : IsCut fits xs (pack fits xs) where
  flatten := flatten_pack fits xs
  ne_nil := pack_ne_nil xs
  fits := pack_forall hone fun _ _ h => h

/-! ## No cut has fewer groups -/

/-- A group takes all of `ys` when it fits with every beginning of it. -/
theorem packFrom_append {ys : List α} (zs : List α) {cur : List α}
    (h : ∀ p, p <+: ys → p ≠ [] → fits (cur ++ p)) :
    packFrom fits cur (ys ++ zs) = packFrom fits (cur ++ ys) zs := by
  induction ys generalizing cur with
  | nil => rw [List.append_nil, List.nil_append]
  | cons y ys ih =>
    have hy : fits (cur ++ [y]) := h [y] (List.prefix_append [y] ys) (List.cons_ne_nil _ _)
    rw [List.cons_append, packFrom, if_pos hy, ih, List.append_assoc, List.singleton_append]
    intro p hp hne
    have := h (y :: p) (List.cons_prefix_cons.mpr ⟨rfl, hp⟩) (List.cons_ne_nil _ _)
    rwa [List.append_assoc, List.singleton_append]

/-- The greedy groups of an end of `ys` are no more than the groups of a cut of `ys`: each greedy group
reaches at least as far as the next group of the cut. -/
theorem length_pack_le {groups : List (List α)} {ys : List α} (hher : Hereditary fits ys)
    (hcut : IsCut fits ys groups) {xs : List α} (hxs : xs <:+ ys) :
    (pack fits xs).length ≤ groups.length := by
  induction groups generalizing ys xs with
  | nil =>
    have hys : ys = [] := hcut.flatten.symm
    subst hys
    rw [List.suffix_nil] at hxs
    subst hxs
    exact le_rfl
  | cons g groups ih =>
    have hflat : g ++ groups.flatten = ys := hcut.flatten
    have hrest : groups.flatten <:+ ys := ⟨g, hflat⟩
    have hcut' : IsCut fits groups.flatten groups :=
      ⟨rfl, fun h hh => hcut.ne_nil h (List.mem_cons_of_mem _ hh),
        fun h hh => hcut.fits h (List.mem_cons_of_mem _ hh)⟩
    have hher' : Hereditary fits groups.flatten := fun h part hh =>
      hher h part (hh.trans hrest.isInfix)
    have hg : g <:+: ys := ⟨[], groups.flatten, by rw [List.nil_append, hflat]⟩
    rcases List.suffix_or_suffix_of_suffix hxs hrest with hxs | ⟨part, rfl⟩
    · exact (ih hher' hcut' hxs).trans (Nat.le_succ _)
    rw [← hflat, List.suffix_append_self_iff] at hxs
    cases part with
    | nil => exact (ih hher' hcut' List.suffix_rfl).trans (Nat.le_succ _)
    | cons x part =>
      -- the first greedy group has the rest of `g`, and maybe more
      have htake : ∀ p, p <+: part → p ≠ [] → fits ([x] ++ p) := by
        intro p hp _
        apply hher g _ hg _ (List.cons_ne_nil _ _) (hcut.fits g List.mem_cons_self)
        exact (List.cons_prefix_cons.mpr ⟨rfl, hp⟩).isInfix.trans hxs.isInfix
      obtain ⟨taken, rest, hsplit, heq⟩ := packFrom_split fits groups.flatten ([x] ++ part)
      have hlen := ih hher' hcut' (⟨taken, hsplit.symm⟩ : rest <:+ groups.flatten)
      rw [List.cons_append, pack, packFrom_append _ htake, heq]
      exact Nat.succ_le_succ hlen

/-- **Greedy packing is optimal.** -/
theorem isLeast_pack {xs : List α} (hone : ∀ x ∈ xs, fits [x]) (hher : Hereditary fits xs) :
    IsLeast {n | ∃ groups, IsCut fits xs groups ∧ groups.length = n} (pack fits xs).length := by
  refine ⟨⟨_, isCut_pack hone, rfl⟩, ?_⟩
  rintro _ ⟨groups, hcut, rfl⟩
  exact length_pack_le hher hcut List.suffix_rfl

end Greedy
