import Mathlib

/-!
# Tables with an AUTOINCREMENT key

`AutoTable ρ` is an SQL table whose first column is `INTEGER PRIMARY KEY AUTOINCREMENT`: rows in
rowid order, and the largest id ever given out.  A fresh id is larger than every id given before,
so an id that was deleted never comes back (`Retired`).
-/

namespace Interactive

structure AutoTable (ρ : Type) where
  rows : List (ℤ × ρ)
  /-- The largest id given out so far (`sqlite_sequence`). -/
  seq : ℤ
  sorted : rows.Pairwise (fun a b => a.1 < b.1)
  le_seq : ∀ r ∈ rows, r.1 ≤ seq
deriving DecidableEq

namespace AutoTable

variable {ρ : Type}

/-- `CREATE TABLE`. -/
def empty : AutoTable ρ where
  rows := []
  seq := 0
  sorted := List.Pairwise.nil
  le_seq := by simp

/-- `INSERT INTO t VALUES (x)`: the next id. -/
def insert (t : AutoTable ρ) (x : ρ) : AutoTable ρ where
  rows := t.rows ++ [(t.seq + 1, x)]
  seq := t.seq + 1
  sorted := by
    rw [List.pairwise_append]
    refine ⟨t.sorted, List.pairwise_singleton _ _, fun a ha b hb => ?_⟩
    rw [List.mem_singleton] at hb
    have := t.le_seq a ha
    subst hb
    show a.1 < t.seq + 1
    omega
  le_seq := by
    intro r hr
    rcases List.mem_append.mp hr with hr | hr
    · have := t.le_seq r hr; omega
    · rw [List.mem_singleton] at hr; subst hr; exact le_rfl

/-- `UPDATE t SET … WHERE id = i`. -/
def update (t : AutoTable ρ) (i : ℤ) (f : ρ → ρ) : AutoTable ρ where
  rows := t.rows.map fun r => if r.1 = i then (r.1, f r.2) else r
  seq := t.seq
  sorted := by
    rw [List.pairwise_map]
    refine t.sorted.imp fun {a b} h => ?_
    split <;> split <;> exact h
  le_seq := by
    intro r hr
    obtain ⟨a, ha, rfl⟩ := List.mem_map.mp hr
    have := t.le_seq a ha
    split <;> exact this

/-- `DELETE FROM t WHERE id = i`. -/
def delete (t : AutoTable ρ) (i : ℤ) : AutoTable ρ where
  rows := t.rows.filter fun r => r.1 ≠ i
  seq := t.seq
  sorted := t.sorted.filter _
  le_seq := fun r hr => t.le_seq r (List.mem_of_mem_filter hr)

/-- `DELETE FROM t`; the ids that were given out stay given out. -/
def clear (t : AutoTable ρ) : AutoTable ρ where
  rows := []
  seq := t.seq
  sorted := List.Pairwise.nil
  le_seq := by simp

/-- `i` was given out once and is in the table no more. -/
def Retired (t : AutoTable ρ) (i : ℤ) : Prop := i ≤ t.seq ∧ ∀ r ∈ t.rows, r.1 ≠ i

/-- An id names one row. -/
theorem eq_of_id_eq {t : AutoTable ρ} {r s : ℤ × ρ} (hr : r ∈ t.rows) (hs : s ∈ t.rows)
    (h : r.1 = s.1) : r = s := by
  have hnodup : (t.rows.map Prod.fst).Nodup := List.pairwise_map.mpr (t.sorted.imp ne_of_lt)
  exact List.inj_on_of_nodup_map hnodup hr hs h

/-- Updating by a row's id changes that row only. -/
theorem update_rows [DecidableEq ρ] {t : AutoTable ρ} {r : ℤ × ρ} (hr : r ∈ t.rows) (f : ρ → ρ) :
    (t.update r.1 f).rows = t.rows.map fun s => if s = r then (r.1, f r.2) else s := by
  refine List.map_congr_left ?_
  intro s hs
  by_cases h : s = r
  · simp [h]
  · rw [if_neg fun hid => h (t.eq_of_id_eq hs hr hid), if_neg h]

/-- Deleting by a row's id removes that row only. -/
theorem delete_rows [DecidableEq ρ] {t : AutoTable ρ} {r : ℤ × ρ} (hr : r ∈ t.rows) :
    (t.delete r.1).rows = t.rows.filter (· ≠ r) := by
  refine List.filter_congr ?_
  intro s hs
  rw [decide_eq_decide]
  exact not_congr ⟨fun hid => t.eq_of_id_eq hs hr hid, fun h => by rw [h]⟩

theorem mem_insert (t : AutoTable ρ) (x : ρ) (r : ℤ × ρ) :
    r ∈ (t.insert x).rows ↔ r ∈ t.rows ∨ r = (t.seq + 1, x) := by
  simp [insert]

/-- `INSERT` of one row after the other adds these rows at the end. -/
theorem foldl_insert_rows (t : AutoTable ρ) (xs : List ρ) :
    ∃ new, (xs.foldl insert t).rows = t.rows ++ new ∧ new.map Prod.snd = xs := by
  induction xs generalizing t with
  | nil => exact ⟨[], (List.append_nil _).symm, rfl⟩
  | cons x xs ih =>
    obtain ⟨new, hrows, hnew⟩ := ih (t.insert x)
    refine ⟨(t.seq + 1, x) :: new, ?_, congrArg (x :: ·) hnew⟩
    rw [List.foldl_cons, hrows]
    exact List.append_assoc t.rows [_] new

/-- A table that was empty is as it was. -/
theorem clear_eq_self_iff {t : AutoTable ρ} : t.clear = t ↔ t.rows = [] := by
  constructor
  · intro h
    rw [← h]
    rfl
  · intro h
    cases t
    subst h
    rfl

theorem mem_delete (t : AutoTable ρ) (i : ℤ) (r : ℤ × ρ) :
    r ∈ (t.delete i).rows ↔ r ∈ t.rows ∧ r.1 ≠ i := by
  simp [delete]

theorem Retired.insert {t : AutoTable ρ} {i : ℤ} (h : t.Retired i) (x : ρ) :
    (t.insert x).Retired i := by
  obtain ⟨hle, hrows⟩ := h
  refine ⟨le_trans hle (by show t.seq ≤ t.seq + 1; omega), fun r hr => ?_⟩
  rcases (t.mem_insert x r).mp hr with hr | rfl
  · exact hrows r hr
  · show t.seq + 1 ≠ i
    omega

theorem Retired.delete {t : AutoTable ρ} {i : ℤ} (h : t.Retired i) (j : ℤ) :
    (t.delete j).Retired i :=
  ⟨h.1, fun r hr => h.2 r ((t.mem_delete j r).mp hr).1⟩

/-- A deleted row's id is retired. -/
theorem retired_delete (t : AutoTable ρ) {r : ℤ × ρ} (h : r ∈ t.rows) : (t.delete r.1).Retired r.1 :=
  ⟨t.le_seq r h, fun _ hs => ((t.mem_delete r.1 _).mp hs).2⟩

end AutoTable

end Interactive
