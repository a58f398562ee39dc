import Mathlib

/-!
# Rounding to a binary format

A number is rounded to so many binary digits, but not beyond a least exponent: to the nearest multiple of its
`ulp`, and to the even one of two.  There is no greatest exponent here.

    x ≤ y  →  round x ≤ round y                                            (round_mono)
    a multiple of `2 ^ e`, below `2 ^ (precision + e)`, is rounded to itself  (round_of_grid)
    |round x - x| ≤ |x| / 2 ^ precision, for the multiples of the least ulp   (abs_round_sub_le)
-/

namespace Rounding

/-! ## Integers -/

/-- The nearest integer, and of two the even one. -/
def roundEven (y : ℚ) : ℤ :=
  if Int.fract y < 1 / 2 then ⌊y⌋
  else if 1 / 2 < Int.fract y then ⌊y⌋ + 1
  else if Even ⌊y⌋ then ⌊y⌋
  else ⌊y⌋ + 1

theorem floor_le_roundEven (y : ℚ) : ⌊y⌋ ≤ roundEven y := by
  unfold roundEven
  split_ifs <;> omega

theorem roundEven_le_floor_add_one (y : ℚ) : roundEven y ≤ ⌊y⌋ + 1 := by
  unfold roundEven
  split_ifs <;> omega

theorem abs_roundEven_sub_le (y : ℚ) : |(roundEven y : ℚ) - y| ≤ 1 / 2 := by
  have hfract := Int.floor_add_fract y
  have hnonneg := Int.fract_nonneg y
  have hlt := Int.fract_lt_one y
  unfold roundEven
  rw [abs_le]
  split_ifs <;> push_cast <;> constructor <;> linarith

theorem roundEven_intCast (n : ℤ) : roundEven n = n := by
  unfold roundEven
  rw [Int.fract_intCast, if_pos (by norm_num), Int.floor_intCast]

theorem roundEven_mono {y y' : ℚ} (h : y ≤ y') : roundEven y ≤ roundEven y' := by
  have hfloor : ⌊y⌋ ≤ ⌊y'⌋ := Int.floor_mono h
  rcases hfloor.lt_or_eq with hlt | heq
  · have hle := roundEven_le_floor_add_one y
    have hge := floor_le_roundEven y'
    omega
  · have hfract : Int.fract y ≤ Int.fract y' := by
      have hy := Int.floor_add_fract y
      have hy' := Int.floor_add_fract y'
      rw [heq] at hy
      linarith
    unfold roundEven
    rw [heq]
    split_ifs <;> first | omega | linarith

theorem le_roundEven {n : ℤ} {y : ℚ} (h : n ≤ y) : n ≤ roundEven y := by
  have hmono := roundEven_mono h
  rwa [roundEven_intCast] at hmono

theorem roundEven_le {n : ℤ} {y : ℚ} (h : y ≤ n) : roundEven y ≤ n := by
  have hmono := roundEven_mono h
  rwa [roundEven_intCast] at hmono

/-- An even integer takes the halves on both sides of it. -/
theorem roundEven_even_le_iff {n : ℤ} (hn : Even n) {y : ℚ} : n ≤ roundEven y ↔ (n : ℚ) - 1 / 2 ≤ y := by
  have hclose := abs_le.mp (abs_roundEven_sub_le y)
  constructor
  · intro h
    have hcast : (n : ℚ) ≤ roundEven y := by exact_mod_cast h
    linarith [hclose.2]
  · intro h
    by_contra hlt
    have hcast : (roundEven y : ℚ) + 1 ≤ n := by exact_mod_cast Int.add_one_le_of_lt (not_le.mp hlt)
    have hy : y = (n : ℚ) - 1 / 2 := by linarith [hclose.1]
    have hfloor : ⌊y⌋ = n - 1 := by
      rw [Int.floor_eq_iff, hy]
      push_cast
      constructor <;> linarith
    have hfract : Int.fract y = 1 / 2 := by
      rw [Int.fract, hfloor, hy]
      push_cast
      ring
    have hodd : ¬ Even (n - 1) := by
      rw [Int.not_even_iff_odd]
      exact hn.sub_odd odd_one
    have hround : roundEven y = n := by
      unfold roundEven
      rw [hfract, if_neg (lt_irrefl _), if_neg (lt_irrefl _), hfloor, if_neg hodd]
      ring
    omega

theorem roundEven_le_even_iff {n : ℤ} (hn : Even n) {y : ℚ} : roundEven y ≤ n ↔ y ≤ (n : ℚ) + 1 / 2 := by
  have hclose := abs_le.mp (abs_roundEven_sub_le y)
  constructor
  · intro h
    have hcast : (roundEven y : ℚ) ≤ n := by exact_mod_cast h
    linarith [hclose.1]
  · intro h
    by_contra hlt
    have hcast : (n : ℚ) + 1 ≤ roundEven y := by exact_mod_cast Int.add_one_le_of_lt (not_le.mp hlt)
    have hy : y = (n : ℚ) + 1 / 2 := by linarith [hclose.2]
    have hfloor : ⌊y⌋ = n := by
      rw [Int.floor_eq_iff, hy]
      constructor <;> linarith
    have hfract : Int.fract y = 1 / 2 := by
      rw [Int.fract, hfloor, hy]
      ring
    have hround : roundEven y = n := by
      unfold roundEven
      rw [hfract, if_neg (lt_irrefl _), if_neg (lt_irrefl _), hfloor, if_pos hn]
    omega

/-! ## Grids -/

/-- The multiples of `2 ^ e`. -/
def OnGrid (e : ℤ) (x : ℚ) : Prop := ∃ m : ℤ, x = m * 2 ^ e

theorem two_zpow_pos (e : ℤ) : (0 : ℚ) < 2 ^ e := zpow_pos (by norm_num) e

theorem OnGrid.zero (e : ℤ) : OnGrid e 0 := ⟨0, by simp⟩

theorem OnGrid.add {e : ℤ} {x y : ℚ} (hx : OnGrid e x) (hy : OnGrid e y) : OnGrid e (x + y) := by
  obtain ⟨m, rfl⟩ := hx
  obtain ⟨n, rfl⟩ := hy
  exact ⟨m + n, by push_cast; ring⟩

theorem OnGrid.sub {e : ℤ} {x y : ℚ} (hx : OnGrid e x) (hy : OnGrid e y) : OnGrid e (x - y) := by
  obtain ⟨m, rfl⟩ := hx
  obtain ⟨n, rfl⟩ := hy
  exact ⟨m - n, by push_cast; ring⟩

/-- A finer grid has the multiples of a coarser one. -/
theorem OnGrid.of_le {e e' : ℤ} (h : e' ≤ e) {x : ℚ} (hx : OnGrid e x) : OnGrid e' x := by
  obtain ⟨m, rfl⟩ := hx
  refine ⟨m * 2 ^ (e - e').toNat, ?_⟩
  have hsplit : (2 : ℚ) ^ e = 2 ^ (e - e').toNat * 2 ^ e' := by
    rw [← zpow_natCast, ← zpow_add₀ (by norm_num), Int.toNat_of_nonneg (by omega)]
    congr 1
    ring
  rw [hsplit]
  push_cast
  ring

theorem onGrid_intCast {e : ℤ} (h : e ≤ 0) (n : ℤ) : OnGrid e n :=
  OnGrid.of_le h ⟨n, by simp⟩

theorem onGrid_two_zpow {e k : ℤ} (h : e ≤ k) : OnGrid e (2 ^ k) := OnGrid.of_le h ⟨1, by simp⟩

/-! ## Formats -/

/-- So many binary digits, and multiples of `2 ^ minExponent` only. -/
structure Format where
  precision : ℕ
  minExponent : ℤ

namespace Format

variable (F : Format)

/-- The exponent of the last digit. -/
def exponent (x : ℚ) : ℤ := max (Int.log 2 |x| + 1 - F.precision) F.minExponent

/-- The unit in the last place. -/
def ulp (x : ℚ) : ℚ := 2 ^ F.exponent x

/-- `x`, rounded to the format. -/
def round (x : ℚ) : ℚ := roundEven (x / F.ulp x) * F.ulp x

/-- A number of the format. -/
def Value (x : ℚ) : Prop := F.round x = x

variable {F} {x y : ℚ}

theorem ulp_pos (x : ℚ) : 0 < F.ulp x := two_zpow_pos _

theorem minExponent_le (x : ℚ) : F.minExponent ≤ F.exponent x := le_max_right _ _

theorem onGrid_round (x : ℚ) : OnGrid (F.exponent x) (F.round x) := ⟨_, rfl⟩

theorem onGrid_min_round (x : ℚ) : OnGrid F.minExponent (F.round x) :=
  (onGrid_round x).of_le (minExponent_le x)

theorem Value.onGrid (h : F.Value x) : OnGrid (F.exponent x) x := by
  have hround : OnGrid (F.exponent x) (F.round x) := onGrid_round x
  rwa [h] at hround

/-- What is on the grid of its last digit is a number of the format. -/
theorem round_eq_self (h : OnGrid (F.exponent x) x) : F.round x = x := by
  obtain ⟨m, hm⟩ := h
  have hdiv : x / F.ulp x = m := by
    rw [div_eq_iff (ulp_pos x).ne']
    exact hm
  unfold round
  rw [hdiv, roundEven_intCast]
  exact hm.symm

theorem exponent_mono (h : |x| ≤ |y|) (hx : x ≠ 0) : F.exponent x ≤ F.exponent y :=
  max_le_max_right _ (by have := Int.log_mono_right (b := 2) (abs_pos.mpr hx) h; omega)

/-- Few enough digits, none beyond the least exponent. -/
theorem round_of_grid {e : ℤ} (hx : OnGrid e x) (he : F.minExponent ≤ e)
    (hlt : |x| < 2 ^ (F.precision + e)) : F.round x = x := by
  by_cases hzero : x = 0
  · rw [hzero]
    exact round_eq_self (.zero _)
  · have hlog : Int.log 2 |x| < F.precision + e :=
      (Int.lt_zpow_iff_log_lt (by norm_num) (abs_pos.mpr hzero)).mp (by exact_mod_cast hlt)
    exact round_eq_self (hx.of_le (max_le (by omega) he))

theorem round_zero : F.round 0 = 0 := round_eq_self (.zero _)

theorem round_intCast {n : ℤ} (hmin : F.minExponent ≤ 0) (hn : |n| < 2 ^ F.precision) : F.round n = n := by
  refine round_of_grid (e := 0) ⟨n, by simp⟩ hmin ?_
  rw [add_zero, zpow_natCast]
  exact_mod_cast hn

/-! ### Bounds -/

/-- What is on the grid of `x` bounds what `x` is rounded to. -/
theorem round_le_of_onGrid (hy : OnGrid (F.exponent x) y) (h : x ≤ y) : F.round x ≤ y := by
  obtain ⟨m, rfl⟩ := hy
  have hdiv : x / F.ulp x ≤ m := (div_le_iff₀ (ulp_pos x)).mpr h
  exact mul_le_mul_of_nonneg_right (by exact_mod_cast roundEven_le hdiv) (ulp_pos x).le

theorem le_round_of_onGrid (hy : OnGrid (F.exponent x) y) (h : y ≤ x) : y ≤ F.round x := by
  obtain ⟨m, rfl⟩ := hy
  have hdiv : (m : ℚ) ≤ x / F.ulp x := (le_div_iff₀ (ulp_pos x)).mpr h
  exact mul_le_mul_of_nonneg_right (by exact_mod_cast le_roundEven hdiv) (ulp_pos x).le

theorem round_nonneg (h : 0 ≤ x) : 0 ≤ F.round x := le_round_of_onGrid (.zero _) h

theorem round_nonpos (h : x ≤ 0) : F.round x ≤ 0 := round_le_of_onGrid (.zero _) h

/-- Where the last digit of `y` is above that of `x`, a power of two of both grids is between them. -/
theorem exists_between (hx : x ≠ 0) (hy : y ≠ 0) (hlt : F.exponent x < F.exponent y) (hprec : 0 < F.precision) :
    ∃ k : ℤ, |x| ≤ 2 ^ k ∧ 2 ^ k ≤ |y| ∧ F.exponent x ≤ k ∧ F.exponent y ≤ k := by
  have hmin := minExponent_le (F := F) x
  have hexp : F.exponent y = Int.log 2 |y| + 1 - F.precision := by
    unfold exponent at hlt hmin ⊢
    omega
  have hlog : Int.log 2 |x| < Int.log 2 |y| := by
    unfold exponent at hlt hexp
    omega
  have hbelow := (Int.lt_zpow_iff_log_lt (b := 2) (by norm_num) (abs_pos.mpr hx)).mpr hlog
  have habove := Int.zpow_log_le_self (b := 2) (by norm_num) (abs_pos.mpr hy)
  exact ⟨Int.log 2 |y|, by exact_mod_cast hbelow.le, by exact_mod_cast habove, by omega, by omega⟩

theorem round_mono_of_exponent (heq : F.exponent x = F.exponent y) (h : x ≤ y) : F.round x ≤ F.round y := by
  unfold round ulp
  rw [heq]
  have hpos : (0 : ℚ) < 2 ^ F.exponent y := two_zpow_pos _
  have hround := roundEven_mono (div_le_div_of_nonneg_right h hpos.le)
  exact mul_le_mul_of_nonneg_right (by exact_mod_cast hround) hpos.le

/-- **Rounding keeps the order.** -/
theorem round_mono (hprec : 0 < F.precision) (h : x ≤ y) : F.round x ≤ F.round y := by
  rcases le_or_gt x 0 with hx | hx
  · rcases le_or_gt 0 y with hy | hy
    · exact (round_nonpos hx).trans (round_nonneg hy)
    have hxneg : x < 0 := h.trans_lt hy
    have habs : |y| ≤ |x| := by
      rw [abs_of_neg hy, abs_of_neg hxneg]
      linarith
    rcases (exponent_mono (F := F) habs hy.ne).lt_or_eq with hlt | heq
    · obtain ⟨k, hky, hkx, hey, hex⟩ := exists_between hy.ne hxneg.ne hlt hprec
      rw [abs_of_neg hy] at hky
      rw [abs_of_neg hxneg] at hkx
      have hgrid : ∀ {e : ℤ}, e ≤ k → OnGrid e (-2 ^ k) := fun he => by
        simpa using (OnGrid.zero _).sub (onGrid_two_zpow he)
      exact (round_le_of_onGrid (hgrid hex) (by linarith)).trans (le_round_of_onGrid (hgrid hey) (by linarith))
    · exact round_mono_of_exponent heq.symm h
  · have hy : 0 < y := hx.trans_le h
    have habs : |x| ≤ |y| := by rwa [abs_of_pos hx, abs_of_pos hy]
    rcases (exponent_mono (F := F) habs hx.ne').lt_or_eq with hlt | heq
    · obtain ⟨k, hkx, hky, hex, hey⟩ := exists_between hx.ne' hy.ne' hlt hprec
      rw [abs_of_pos hx] at hkx
      rw [abs_of_pos hy] at hky
      exact (round_le_of_onGrid (onGrid_two_zpow hex) hkx).trans (le_round_of_onGrid (onGrid_two_zpow hey) hky)
    · exact round_mono_of_exponent heq h

theorem abs_round_sub_le_ulp (x : ℚ) : |F.round x - x| ≤ F.ulp x / 2 := by
  have hulp := ulp_pos (F := F) x
  have hx : x = x / F.ulp x * F.ulp x := (div_mul_cancel₀ x hulp.ne').symm
  have hsub : F.round x - x = (roundEven (x / F.ulp x) - x / F.ulp x) * F.ulp x := by
    unfold round
    rw [sub_mul, ← hx]
  rw [hsub, abs_mul, abs_of_pos hulp]
  have hround := mul_le_mul_of_nonneg_right (abs_roundEven_sub_le (x / F.ulp x)) hulp.le
  linarith

/-- **The error of rounding**, of a sum or difference of numbers of the format: half a unit in the last of the
digits that there is room for. -/
theorem abs_round_sub_le (hx : OnGrid F.minExponent x) : |F.round x - x| ≤ |x| / 2 ^ F.precision := by
  by_cases hzero : x = 0
  · rw [hzero, round_zero]
    simp
  rcases le_or_gt (Int.log 2 |x| + 1 - F.precision) F.minExponent with hlow | hhigh
  · have hself : F.round x = x := round_eq_self (by rwa [exponent, max_eq_right hlow])
    rw [hself, sub_self, abs_zero]
    positivity
  · have hulp : F.ulp x / 2 = 2 ^ Int.log 2 |x| / 2 ^ F.precision := by
      unfold ulp exponent
      rw [max_eq_left hhigh.le, zpow_sub₀ (by norm_num), zpow_add_one₀ (by norm_num), zpow_natCast]
      ring
    have hlog : (2 : ℚ) ^ Int.log 2 |x| ≤ |x| := by
      exact_mod_cast Int.zpow_log_le_self (b := 2) (by norm_num) (abs_pos.mpr hzero)
    refine (abs_round_sub_le_ulp x).trans ?_
    rw [hulp]
    exact div_le_div_of_nonneg_right hlog (by positivity)

/-- A number of the format is on the grid of every one that is not above it. -/
theorem Value.onGrid_of_le (hx : F.Value x) (hy : 0 < y) (h : y ≤ x) : OnGrid (F.exponent y) x := by
  refine hx.onGrid.of_le (exponent_mono ?_ hy.ne')
  rwa [abs_of_pos hy, abs_of_pos (hy.trans_le h)]

/-- **An exact step**: what is on the grid of `t` and not above it is rounded to itself. -/
theorem round_of_exponent {t : ℚ} (ht : 0 < t) (hx : OnGrid (F.exponent t) x) (h : |x| ≤ t) : F.round x = x := by
  refine round_of_grid hx (minExponent_le t) (h.trans_lt ?_)
  have hlog : t < 2 ^ (Int.log 2 |t| + 1) := by
    rw [abs_of_pos ht]
    exact_mod_cast Int.lt_zpow_succ_log_self (b := 2) (by norm_num) t
  refine hlog.trans_le (zpow_le_zpow_right₀ (by norm_num) ?_)
  have hexp : Int.log 2 |t| + 1 - F.precision ≤ F.exponent t := le_max_left _ _
  omega

/-! ### Whole numbers -/

/-- A whole number takes what is half a unit off. -/
theorem intCast_le_round_iff {n : ℤ} (h : F.exponent x < 0) : (n : ℚ) ≤ F.round x ↔ n - F.ulp x / 2 ≤ x := by
  obtain ⟨m, hm⟩ : OnGrid (F.exponent x + 1) n := onGrid_intCast (by omega) n
  have hulp := ulp_pos (F := F) x
  have heven : (n : ℚ) = (2 * m : ℤ) * F.ulp x := by
    rw [hm, zpow_add_one₀ (by norm_num), ulp]
    push_cast
    ring
  have hround : (n : ℚ) ≤ F.round x ↔ 2 * m ≤ roundEven (x / F.ulp x) := by
    rw [heven, round, mul_le_mul_iff_of_pos_right hulp, Int.cast_le]
  rw [hround, roundEven_even_le_iff (even_two_mul m), le_div_iff₀ hulp, sub_mul, ← heven]
  constructor <;> intro h <;> linarith

theorem round_le_intCast_iff {n : ℤ} (h : F.exponent x < 0) : F.round x ≤ n ↔ x ≤ n + F.ulp x / 2 := by
  obtain ⟨m, hm⟩ : OnGrid (F.exponent x + 1) n := onGrid_intCast (by omega) n
  have hulp := ulp_pos (F := F) x
  have heven : (n : ℚ) = (2 * m : ℤ) * F.ulp x := by
    rw [hm, zpow_add_one₀ (by norm_num), ulp]
    push_cast
    ring
  have hround : F.round x ≤ n ↔ roundEven (x / F.ulp x) ≤ 2 * m := by
    rw [heven, round, mul_le_mul_iff_of_pos_right hulp, Int.cast_le]
  rw [hround, roundEven_le_even_iff (even_two_mul m), div_le_iff₀ hulp, add_mul, ← heven]
  constructor <;> intro h <;> linarith

theorem exponent_neg (hmin : F.minExponent < 0) (hprec : 1 < F.precision) (hx : |x| < 2 ^ (F.precision - 1)) :
    F.exponent x < 0 := by
  refine max_lt ?_ hmin
  by_cases hzero : x = 0
  · rw [hzero, abs_zero, Int.log_zero_right]
    omega
  · have hlog : Int.log 2 |x| < (F.precision - 1 : ℕ) :=
      (Int.lt_zpow_iff_log_lt (by norm_num) (abs_pos.mpr hzero)).mp (by exact_mod_cast hx)
    omega

/-- **When rounding leaves the whole part alone**: when the next whole number is further than half a unit. -/
theorem floor_round_eq_iff (h : F.exponent x < 0) : ⌊F.round x⌋ = ⌊x⌋ ↔ F.ulp x / 2 < ⌊x⌋ + 1 - x := by
  have hlow : (⌊x⌋ : ℚ) ≤ F.round x := le_round_of_onGrid (onGrid_intCast h.le _) (Int.floor_le x)
  have hhigh := (intCast_le_round_iff (F := F) (n := ⌊x⌋ + 1) h).not
  push_cast at hhigh
  rw [Int.floor_eq_iff, and_iff_right hlow, ← not_le, hhigh, not_le]
  constructor <;> intro h <;> linarith

/-- What is rounded to -1 from above. -/
theorem neg_one_lt_round_iff (hmin : F.minExponent ≤ -F.precision) (hprec : 0 < F.precision) :
    -1 < F.round x ↔ -1 + 2 ^ (-F.precision - 1 : ℤ) < x := by
  have hhalf : (2 : ℚ) ^ (-F.precision - 1 : ℤ) ≤ 1 / 4 := by
    have h := zpow_le_zpow_right₀ (a := (2 : ℚ)) (by norm_num) (show (-F.precision - 1 : ℤ) ≤ -2 by omega)
    refine h.trans (by norm_num)
  have hpos := two_zpow_pos (-F.precision - 1)
  rcases le_or_gt x (-1) with hlow | hlow
  · have hround : F.round x ≤ -1 := by
      have hone : F.round (-1) = -1 := by
        refine round_of_grid (e := 0) ⟨-1, by norm_num⟩ (by omega) ?_
        rw [abs_neg, abs_one, add_zero, zpow_natCast]
        exact one_lt_pow₀ (by norm_num) hprec.ne'
      exact hone ▸ round_mono hprec hlow
    exact iff_of_false (not_lt.mpr hround) (not_lt.mpr (by linarith))
  rcases le_or_gt x (-1 / 2) with hhigh | hhigh
  · have hneg : x < 0 := by linarith
    have habs : 0 < -x := neg_pos.mpr hneg
    have hlog : Int.log 2 |x| = -1 := by
      rw [abs_of_neg hneg]
      have hlt : Int.log 2 (-x) < 0 := (Int.lt_zpow_iff_log_lt (by norm_num) habs).mp (by norm_num; linarith)
      have hle : -1 ≤ Int.log 2 (-x) := (Int.zpow_le_iff_le_log (by norm_num) habs).mp (by norm_num; linarith)
      omega
    have hexp : F.exponent x = -F.precision := by
      unfold exponent
      rw [hlog, max_eq_left (by omega)]
      ring
    have hiff := (round_le_intCast_iff (F := F) (x := x) (n := -1) (by omega)).not
    rw [not_le, not_le, ulp, hexp] at hiff
    push_cast at hiff
    rw [hiff, zpow_sub₀ (by norm_num)]
    norm_num
  · have hround : F.round (-1 / 2) = -1 / 2 := by
      refine round_of_grid (e := -1) ⟨-1, by norm_num⟩ (by omega) ?_
      have hprec' : (2 : ℚ) ^ (0 : ℤ) ≤ 2 ^ (F.precision + -1 : ℤ) :=
        zpow_le_zpow_right₀ (by norm_num) (by omega)
      have habs : |(-1 / 2 : ℚ)| = 1 / 2 := by norm_num [abs_of_neg]
      rw [zpow_zero] at hprec'
      rw [habs]
      linarith
    have hmono : F.round (-1 / 2) ≤ F.round x := round_mono hprec hhigh.le
    rw [hround] at hmono
    exact iff_of_true (by linarith) (by linarith)

end Format

end Rounding
