import NeoDCT.Apps.MusicPlayer
import NeoDCT.Lib.PyNumbers

/-!
# The now-playing screen

What `run_now_playing` (apps/MusicPlayer/main.py) shows of a track: its texts, cut to the column right of
the cover, the timestamps over the progress bar, and the elapsed time that they are made from.
-/

namespace NeoDCT

open PyText Interactive Processes Rounding

namespace MusicPlayer

/-! ## The texts -/

/-- The loop of `truncate`: the last character goes while the text, marked, is too wide. -/
def truncateLoop (width : Text → ℤ) (mark : Text) (maxW : ℤ) (t : Text) (w : ℤ) : Text :=
  if maxW < w ∧ 0 < t.length then
    truncateLoop width mark maxW t.dropLast (width (t.dropLast ++ mark))
  else t
termination_by t.length
decreasing_by
  rw [List.length_dropLast]
  omega

/-- `truncate`, for any mark. -/
def truncateWith (width : Text → ℤ) (mark text : Text) (maxW : ℤ) : Text :=
  let t := truncateLoop width mark maxW text (width text)
  if t.length < text.length then t ++ mark else t

/-- `truncate`. -/
def truncate (ui : Ui) (text : Text) (font : Font) (maxW : ℤ) : Text :=
  truncateWith (fun s => (ui.getTextSize s font).1) "...".toList text maxW

/-! ## The elapsed time -/

/-- `format_time`. -/
def formatTime (seconds : ℤ) : Text :=
  let m := seconds / 60
  let s := seconds % 60
  zeroPad 2 m ++ ':' :: zeroPad 2 s

/-- `curr_str`. -/
def currStr (currentElapsed : ℚ) : Text := formatTime (toInt currentElapsed)

/-- The local variables when iteration `i` begins, for the clock readings `n` and whether the player is
paused in each iteration. -/
def NowPlaying.before (t₀ : ℚ) (n : ℕ → ℚ) (paused : ℕ → Bool) : ℕ → NowPlaying
  | 0 => { startTime := t₀ }
  | i + 1 => ((before t₀ n paused i).elapsed (paused i) (n i)).2

/-- `current_elapsed` in iteration `i`. -/
def currentElapsed (t₀ : ℚ) (n : ℕ → ℚ) (paused : ℕ → Bool) (i : ℕ) : ℚ :=
  ((NowPlaying.before t₀ n paused i).elapsed (paused i) (n i)).1

/-- The time since the start, without what is between the readings that follow a paused iteration. -/
def exactElapsed (t₀ : ℚ) (n : ℕ → ℚ) (paused : ℕ → Bool) (i : ℕ) : ℚ :=
  (n 0 - t₀) + ∑ k ∈ Finset.range i with paused k = false, (n (k + 1) - n k)

/-- The pauses that are over by iteration `i`. -/
def pausesEnded (paused : ℕ → Bool) (i : ℕ) : ℕ :=
  ((Finset.range i).filter fun k => paused k = true ∧ paused (k + 1) = false).card

/-- The reading that the time stands at: where the pause began, or the last one. -/
def NowPlaying.clock (t : NowPlaying) (now : ℚ) (isPaused : Bool) : ℚ := if isPaused then t.pausedAt else now

/-- The variables after an iteration that showed `e`. -/
structure NowPlaying.Shows (t : NowPlaying) (t₀ e now : ℚ) (isPaused : Bool) : Prop where
  startTime : t.startTime = t₀
  pausedAt : if isPaused then 0 < t.pausedAt else t.pausedAt = 0
  elapsed : toFloat (toFloat (t.clock now isPaused - t₀) - t.totalPausedDuration) = e

/-- Before the first reading nothing has elapsed. -/
theorem NowPlaying.Shows.start (t₀ : ℚ) : NowPlaying.Shows { startTime := t₀ } t₀ 0 t₀ false := by
  refine ⟨rfl, rfl, ?_⟩
  show toFloat (toFloat (t₀ - t₀) - 0) = 0
  rw [sub_self, toFloat_zero, sub_zero, toFloat_zero]

section
variable {t : NowPlaying} {t₀ e now now' : ℚ} {wasPaused : Bool}

/-- The variables after an iteration: those of the pause, those after one, or those of no pause. -/
theorem NowPlaying.Shows.elapsed_cases (h : t.Shows t₀ e now wasPaused) (isPaused : Bool) (now' : ℚ) :
    (t.elapsed isPaused now').2 =
      if wasPaused then
        if isPaused then t
        else { t with
          totalPausedDuration := toFloat (t.totalPausedDuration + toFloat (now' - t.pausedAt)), pausedAt := 0 }
      else if isPaused then { t with pausedAt := now' } else t := by
  cases wasPaused with
  | true =>
    have hne : t.pausedAt ≠ 0 := ne_of_gt h.pausedAt
    cases isPaused <;> simp [NowPlaying.elapsed, hne]
  | false =>
    have hzero : t.pausedAt = 0 := h.pausedAt
    cases isPaused <;> simp [NowPlaying.elapsed, hzero]

theorem NowPlaying.elapsed_eq (t : NowPlaying) (isPaused : Bool) (now : ℚ) : (t.elapsed isPaused now).1 =
    toFloat (toFloat ((t.elapsed isPaused now).2.clock now isPaused - t.startTime) -
      (t.elapsed isPaused now).2.totalPausedDuration) := by
  cases isPaused with
  | true => by_cases hzero : t.pausedAt = 0 <;> simp [NowPlaying.elapsed, NowPlaying.clock, hzero]
  | false => by_cases hzero : t.pausedAt = 0 <;> simp [NowPlaying.elapsed, NowPlaying.clock, hzero]

/-- **An iteration.** -/
theorem NowPlaying.Shows.next (h : t.Shows t₀ e now wasPaused) (isPaused : Bool) (hpos : 0 < now') :
    (t.elapsed isPaused now').2.Shows t₀ (t.elapsed isPaused now').1 now' isPaused := by
  have hvars := h.elapsed_cases isPaused now'
  refine ⟨?_, ?_, ?_⟩
  · rw [hvars, ← h.startTime]
    split_ifs <;> rfl
  · rw [hvars]
    cases wasPaused with
    | true =>
      cases isPaused with
      | true => exact h.pausedAt
      | false => rfl
    | false =>
      cases isPaused with
      | true => exact hpos
      | false => exact h.pausedAt
  · rw [t.elapsed_eq isPaused now', h.startTime]

/-- In a pause the time stands. -/
theorem NowPlaying.Shows.paused (h : t.Shows t₀ e now true) (now' : ℚ) : (t.elapsed true now').1 = e := by
  have hvars : (t.elapsed true now').2 = t := h.elapsed_cases true now'
  rw [t.elapsed_eq, hvars, h.startTime]
  exact h.elapsed

/-- Without a pause before it the clock is the reading. -/
theorem NowPlaying.Shows.running_clock (h : t.Shows t₀ e now false) (isPaused : Bool) (now' : ℚ) :
    (t.elapsed isPaused now').2.clock now' isPaused = now' := by
  rw [h.elapsed_cases isPaused now']
  cases isPaused <;> rfl

/-- Without a pause before it no pause ends. -/
theorem NowPlaying.Shows.running_total (h : t.Shows t₀ e now false) (isPaused : Bool) (now' : ℚ) :
    (t.elapsed isPaused now').2.totalPausedDuration = t.totalPausedDuration := by
  rw [h.elapsed_cases isPaused now']
  cases isPaused <;> rfl

/-- Without a pause before it the time does not go back. -/
theorem NowPlaying.Shows.running (h : t.Shows t₀ e now false) (isPaused : Bool) (hle : now ≤ now') :
    e ≤ (t.elapsed isPaused now').1 := by
  have helapsed : toFloat (toFloat (now - t₀) - t.totalPausedDuration) = e := h.elapsed
  rw [t.elapsed_eq, h.running_clock, h.running_total, h.startTime, ← helapsed]
  exact toFloat_mono (sub_le_sub_right (toFloat_mono (sub_le_sub_right hle t₀)) _)

end

/-! ### What is left out of it -/

/-- The total of the pauses, between `a` and `b` times the time that is left out of `elapsed`; all of it on a
grid. -/
structure NowPlaying.Accounts (t : NowPlaying) (t₀ now : ℚ) (isPaused : Bool) (exp : ℤ) (a b elapsed : ℚ) :
    Prop where
  onGrid : OnGrid exp (t.clock now isPaused)
  le : t.clock now isPaused ≤ now
  nonneg : 0 ≤ elapsed
  left : 0 ≤ t.clock now isPaused - t₀ - elapsed
  total_onGrid : OnGrid exp t.totalPausedDuration
  ge : a * (t.clock now isPaused - t₀ - elapsed) ≤ t.totalPausedDuration
  le_total : t.totalPausedDuration ≤ b * (t.clock now isPaused - t₀ - elapsed)

theorem NowPlaying.Accounts.start {t₀ : ℚ} {exp : ℤ} (h : OnGrid exp t₀) (a b : ℚ) :
    NowPlaying.Accounts { startTime := t₀ } t₀ t₀ false exp a b 0 := by
  refine ⟨h, le_rfl, le_rfl, ?_, .zero exp, ?_, ?_⟩
  · show 0 ≤ t₀ - t₀ - 0
    simp
  · show a * (t₀ - t₀ - 0) ≤ 0
    simp
  · show 0 ≤ b * (t₀ - t₀ - 0)
    simp

section
variable {t : NowPlaying} {t₀ e now now' elapsed a b : ℚ} {wasPaused isPaused : Bool} {exp : ℤ}

/-- As long as no pause ends, the total stays; outside of a pause the time counts. -/
theorem NowPlaying.Accounts.goes (h : t.Accounts t₀ now wasPaused exp a b elapsed)
    (hshows : t.Shows t₀ e now wasPaused) (hgrid : OnGrid exp now') (hle : now ≤ now')
    (hgoes : ¬(wasPaused = true ∧ isPaused = false)) :
    (t.elapsed isPaused now').2.Accounts t₀ now' isPaused exp a b
      (if wasPaused then elapsed else elapsed + (now' - now)) := by
  cases wasPaused with
  | true =>
    obtain rfl : isPaused = true := Bool.eq_true_of_not_eq_false fun h => hgoes ⟨rfl, h⟩
    rw [hshows.elapsed_cases true now']
    exact ⟨h.onGrid, h.le.trans hle, h.nonneg, h.left, h.total_onGrid, h.ge, h.le_total⟩
  | false =>
    have hclock := hshows.running_clock isPaused now'
    have htotal := hshows.running_total isPaused now'
    have hleft : now' - t₀ - (elapsed + (now' - now)) = now - t₀ - elapsed := by ring
    refine ⟨?_, ?_, ?_, ?_, ?_, ?_, ?_⟩
    · rwa [hclock]
    · rw [hclock]
    · exact add_nonneg h.nonneg (sub_nonneg.mpr hle)
    · rw [hclock]
      show 0 ≤ now' - t₀ - (elapsed + (now' - now))
      rw [hleft]
      exact h.left
    · rw [htotal]
      exact h.total_onGrid
    · rw [hclock, htotal]
      show a * (now' - t₀ - (elapsed + (now' - now))) ≤ _
      rw [hleft]
      exact h.ge
    · rw [hclock, htotal]
      show _ ≤ b * (now' - t₀ - (elapsed + (now' - now)))
      rw [hleft]
      exact h.le_total

/-- When a pause ends, the time that it took is left out. -/
theorem NowPlaying.Accounts.ends (h : t.Accounts t₀ now true exp a b elapsed) (hshows : t.Shows t₀ e now true)
    (hgrid : OnGrid exp now') (hle : now ≤ now') {a' b' : ℚ}
    (htotal : let total := toFloat (t.totalPausedDuration + toFloat (now' - t.pausedAt))
      OnGrid exp total ∧ a' * (now' - t₀ - elapsed) ≤ total ∧ total ≤ b' * (now' - t₀ - elapsed)) :
    (t.elapsed false now').2.Accounts t₀ now' false exp a' b' elapsed := by
  rw [hshows.elapsed_cases false now']
  obtain ⟨honGrid, hge, hle'⟩ := htotal
  have hclock : t.pausedAt ≤ now := h.le
  have hleft : 0 ≤ t.pausedAt - t₀ - elapsed := h.left
  refine ⟨hgrid, le_rfl, h.nonneg, ?_, honGrid, hge, hle'⟩
  show 0 ≤ now' - t₀ - elapsed
  linarith

/-- Up to twice the start every step is exact. -/
theorem NowPlaying.Accounts.next_exact (h : t.Accounts t₀ now wasPaused (binary64.exponent t₀) 1 1 elapsed)
    (hshows : t.Shows t₀ e now wasPaused) (h₀ : 0 < t₀) (hgrid : OnGrid (binary64.exponent t₀) now')
    (hle : now ≤ now') (htwice : now' ≤ 2 * t₀) :
    (t.elapsed isPaused now').2.Accounts t₀ now' isPaused (binary64.exponent t₀) 1 1
      (if wasPaused then elapsed else elapsed + (now' - now)) := by
  by_cases hends : wasPaused = true ∧ isPaused = false
  · obtain ⟨rfl, rfl⟩ := hends
    refine h.ends hshows hgrid hle ?_
    have hclock : t.pausedAt ≤ now := h.le
    have hleft : 0 ≤ t.pausedAt - t₀ - elapsed := h.left
    have hnonneg := h.nonneg
    have htotal : t.totalPausedDuration = t.pausedAt - t₀ - elapsed := by
      have hge : 1 * (t.pausedAt - t₀ - elapsed) ≤ t.totalPausedDuration := h.ge
      have hle : t.totalPausedDuration ≤ 1 * (t.pausedAt - t₀ - elapsed) := h.le_total
      linarith
    have hpause : toFloat (now' - t.pausedAt) = now' - t.pausedAt :=
      Format.round_of_exponent h₀ (hgrid.sub h.onGrid) (abs_le.mpr ⟨by linarith, by linarith⟩)
    have hgrid' : OnGrid (binary64.exponent t₀) (t.totalPausedDuration + (now' - t.pausedAt)) :=
      h.total_onGrid.add (hgrid.sub h.onGrid)
    have hsum : toFloat (t.totalPausedDuration + (now' - t.pausedAt)) = now' - t₀ - elapsed := by
      have hself : toFloat (t.totalPausedDuration + (now' - t.pausedAt)) = _ :=
        Format.round_of_exponent h₀ hgrid' (by rw [htotal]; exact abs_le.mpr ⟨by linarith, by linarith⟩)
      rw [hself, htotal]
      ring
    intro total
    have hvalue : total = now' - t₀ - elapsed := by rw [← hsum, ← hpause]
    rw [hvalue, one_mul]
    refine ⟨?_, le_rfl, le_rfl⟩
    rw [htotal] at hgrid'
    convert hgrid' using 1
    ring
  · exact h.goes hshows hgrid hle hends

/-- An iteration with such a total shows the time that is not left out. -/
theorem NowPlaying.Accounts.shows_exact (h : t.Accounts t₀ now isPaused (binary64.exponent t₀) 1 1 elapsed)
    (hshows : t.Shows t₀ e now isPaused) (h₀ : 0 < t₀) (hgrid₀ : OnGrid (binary64.exponent t₀) t₀)
    (htwice : now ≤ 2 * t₀) : e = elapsed := by
  have hclock := h.le
  have hleft := h.left
  have hnonneg := h.nonneg
  have htotal : t.totalPausedDuration = t.clock now isPaused - t₀ - elapsed :=
    le_antisymm (by simpa using h.le_total) (by simpa using h.ge)
  have hsince : toFloat (t.clock now isPaused - t₀) = t.clock now isPaused - t₀ :=
    Format.round_of_exponent h₀ (h.onGrid.sub hgrid₀) (abs_le.mpr ⟨by linarith, by linarith⟩)
  have hshown : t.clock now isPaused - t₀ - t.totalPausedDuration = elapsed := by
    rw [htotal]
    ring
  have hself : toFloat elapsed = elapsed := by
    refine Format.round_of_exponent h₀ ?_ (abs_le.mpr ⟨by linarith, by linarith⟩)
    rw [← hshown]
    exact (h.onGrid.sub hgrid₀).sub h.total_onGrid
  rw [← hshows.elapsed, hsince, hshown, hself]

/-- The relative error of a step. -/
def unitRoundoff : ℚ := 1 / 2 ^ 53

theorem toFloat_bounds {x : ℚ} (hx : OnGrid binary64.minExponent x) (h : 0 ≤ x) :
    (1 - unitRoundoff) * x ≤ toFloat x ∧ toFloat x ≤ (1 + unitRoundoff) * x := by
  have hround := abs_toFloat_sub_le hx
  rw [abs_of_nonneg h, abs_le] at hround
  unfold unitRoundoff
  constructor <;> linarith

theorem unitRoundoff_pos : 0 < unitRoundoff := by norm_num [unitRoundoff]

theorem unitRoundoff_lt_one : unitRoundoff < 1 := by norm_num [unitRoundoff]

/-- The bounds of a total, with one pause more. -/
theorem toFloat_total_bounds {total left pause : ℚ} {q : ℕ} (htotal : OnGrid binary64.minExponent total)
    (hgrid : OnGrid binary64.minExponent pause) (hleft : 0 ≤ left) (hpause : 0 ≤ pause)
    (hge : (1 - unitRoundoff) ^ (2 * q) * left ≤ total) (hle : total ≤ (1 + unitRoundoff) ^ (2 * q) * left) :
    OnGrid binary64.minExponent (toFloat (total + toFloat pause)) ∧
      (1 - unitRoundoff) ^ (2 * (q + 1)) * (left + pause) ≤ toFloat (total + toFloat pause) ∧
      toFloat (total + toFloat pause) ≤ (1 + unitRoundoff) ^ (2 * (q + 1)) * (left + pause) := by
  have hu := unitRoundoff_pos
  have hu1 := unitRoundoff_lt_one
  obtain ⟨hlow, hhigh⟩ := toFloat_bounds hgrid hpause
  have hpow : 0 ≤ (1 - unitRoundoff) ^ (2 * q) := pow_nonneg (by linarith) _
  have hpow1 : (1 - unitRoundoff) ^ (2 * q) ≤ 1 := pow_le_one₀ (by linarith) (by linarith)
  have hpow' : 1 ≤ (1 + unitRoundoff) ^ (2 * q) := one_le_pow₀ (by linarith)
  have hnonneg : 0 ≤ total := (mul_nonneg hpow hleft).trans hge
  obtain ⟨hlow', hhigh'⟩ := toFloat_bounds (htotal.add (onGrid_toFloat pause))
    (add_nonneg hnonneg (toFloat_nonneg hpause))
  rw [mul_add 2 q 1, pow_add, pow_add]
  generalize (1 - unitRoundoff) ^ (2 * q) = a at hge hpow hpow1 ⊢
  generalize (1 + unitRoundoff) ^ (2 * q) = b at hle hpow' ⊢
  refine ⟨onGrid_toFloat _, ?_, ?_⟩
  · have htotal : (1 - unitRoundoff) * (a * left) ≤ total :=
      (mul_le_of_le_one_left (mul_nonneg hpow hleft) (by linarith)).trans hge
    have hpaused : a * ((1 - unitRoundoff) * pause) ≤ toFloat pause :=
      (mul_le_of_le_one_left (mul_nonneg (by linarith) hpause) hpow1).trans hlow
    calc a * (1 - unitRoundoff) ^ (2 * 1) * (left + pause)
        = (1 - unitRoundoff) * ((1 - unitRoundoff) * (a * left) + a * ((1 - unitRoundoff) * pause)) := by ring
      _ ≤ (1 - unitRoundoff) * (total + toFloat pause) :=
          mul_le_mul_of_nonneg_left (add_le_add htotal hpaused) (by linarith)
      _ ≤ _ := hlow'
  · have htotal : total ≤ (1 + unitRoundoff) * (b * left) :=
      hle.trans (le_mul_of_one_le_left (mul_nonneg (by linarith) hleft) (by linarith))
    have hpaused : toFloat pause ≤ b * ((1 + unitRoundoff) * pause) :=
      hhigh.trans (le_mul_of_one_le_left (mul_nonneg (by linarith) hpause) hpow')
    calc toFloat (total + toFloat pause)
        ≤ (1 + unitRoundoff) * (total + toFloat pause) := hhigh'
      _ ≤ (1 + unitRoundoff) * ((1 + unitRoundoff) * (b * left) + b * ((1 + unitRoundoff) * pause)) :=
          mul_le_mul_of_nonneg_left (add_le_add htotal hpaused) (by linarith)
      _ = b * (1 + unitRoundoff) ^ (2 * 1) * (left + pause) := by ring

/-- Two steps more when a pause ends. -/
theorem NowPlaying.Accounts.next_near {q : ℕ}
    (h : t.Accounts t₀ now wasPaused binary64.minExponent ((1 - unitRoundoff) ^ (2 * q))
      ((1 + unitRoundoff) ^ (2 * q)) elapsed)
    (hshows : t.Shows t₀ e now wasPaused) (hgrid : OnGrid binary64.minExponent now') (hle : now ≤ now') :
    (t.elapsed isPaused now').2.Accounts t₀ now' isPaused binary64.minExponent
      ((1 - unitRoundoff) ^ (2 * (q + if wasPaused = true ∧ isPaused = false then 1 else 0)))
      ((1 + unitRoundoff) ^ (2 * (q + if wasPaused = true ∧ isPaused = false then 1 else 0)))
      (if wasPaused then elapsed else elapsed + (now' - now)) := by
  by_cases hends : wasPaused = true ∧ isPaused = false
  · rw [if_pos hends]
    obtain ⟨rfl, rfl⟩ := hends
    refine h.ends hshows hgrid hle ?_
    have hclock : t.pausedAt ≤ now := h.le
    have htotal := toFloat_total_bounds h.total_onGrid (hgrid.sub h.onGrid) h.left
      (sub_nonneg.mpr (hclock.trans hle)) h.ge h.le_total
    have hleft : t.clock now true - t₀ - elapsed + (now' - t.clock now true) = now' - t₀ - elapsed := by ring
    rwa [hleft] at htotal
  · rw [if_neg hends, add_zero]
    exact h.goes hshows hgrid hle hends

/-- What the two powers are away from 1, the lower one is not further. -/
theorem two_le_powers (q : ℕ) : 2 ≤ (1 - unitRoundoff) ^ q + (1 + unitRoundoff) ^ q := by
  have hlow := one_add_mul_le_pow (a := -unitRoundoff) (by linarith [unitRoundoff_lt_one]) q
  have hhigh := one_add_mul_le_pow (a := unitRoundoff) (by linarith [unitRoundoff_pos]) q
  rw [← sub_eq_add_neg] at hlow
  linarith

/-- How far from it what such an iteration shows is. -/
theorem NowPlaying.Accounts.shows_near {q : ℕ}
    (h : t.Accounts t₀ now isPaused binary64.minExponent ((1 - unitRoundoff) ^ (2 * q))
      ((1 + unitRoundoff) ^ (2 * q)) elapsed)
    (hshows : t.Shows t₀ e now isPaused) (hgrid₀ : OnGrid binary64.minExponent t₀) :
    |e - elapsed| ≤ ((1 + unitRoundoff) ^ (2 * q + 2) - 1) * (now - t₀) := by
  have hu := unitRoundoff_pos
  have hclock := h.le
  have hleft := h.left
  have hnonneg := h.nonneg
  have hsum := two_le_powers (2 * q)
  have hpow : 1 ≤ (1 + unitRoundoff) ^ (2 * q) := one_le_pow₀ (by linarith)
  have hge := h.ge
  have hle := h.le_total
  generalize ht : t.totalPausedDuration = total at hge hle
  have hgrid : OnGrid binary64.minExponent total := ht ▸ h.total_onGrid
  generalize hc : t.clock now isPaused = clock at hclock hleft hge hle
  have hgrid' : OnGrid binary64.minExponent clock := hc ▸ h.onGrid
  rw [← hshows.elapsed, ht, hc, pow_add]
  generalize (1 - unitRoundoff) ^ (2 * q) = a at hge hsum
  generalize (1 + unitRoundoff) ^ (2 * q) = b at hle hsum hpow ⊢
  have hsince : 0 ≤ clock - t₀ := by linarith
  have htotal : |total - (clock - t₀ - elapsed)| ≤ (b - 1) * (clock - t₀ - elapsed) := by
    rw [abs_le]
    constructor
    · have hmul := mul_le_mul_of_nonneg_right hsum hleft
      linarith
    · linarith
  have hfirst : |toFloat (clock - t₀) - (clock - t₀)| ≤ unitRoundoff * (clock - t₀) := by
    have hbounds := toFloat_bounds (hgrid'.sub hgrid₀) hsince
    rw [abs_le]
    constructor <;> linarith [hbounds.1, hbounds.2]
  have hdiff : |toFloat (clock - t₀) - total - elapsed| ≤ (unitRoundoff + b - 1) * (clock - t₀) := by
    have hmul : (b - 1) * (clock - t₀ - elapsed) ≤ (b - 1) * (clock - t₀) :=
      mul_le_mul_of_nonneg_left (by linarith) (by linarith)
    rw [abs_le] at htotal hfirst ⊢
    constructor <;> linarith [htotal.1, htotal.2, hfirst.1, hfirst.2]
  have hsecond : |toFloat (toFloat (clock - t₀) - total) - (toFloat (clock - t₀) - total)| ≤
      unitRoundoff * |toFloat (clock - t₀) - total| := by
    refine (abs_toFloat_sub_le ((onGrid_toFloat (clock - t₀)).sub hgrid)).trans_eq ?_
    unfold unitRoundoff
    ring
  have habs : |toFloat (clock - t₀) - total| ≤ (unitRoundoff + b) * (clock - t₀) := by
    rw [abs_le] at hdiff ⊢
    constructor <;> linarith [hdiff.1, hdiff.2]
  have hlast := hsecond.trans (mul_le_mul_of_nonneg_left habs hu.le)
  have hfactor : (unitRoundoff + b - 1 + unitRoundoff * (unitRoundoff + b)) * (clock - t₀) ≤
      (b * (1 + unitRoundoff) ^ 2 - 1) * (now - t₀) := by
    refine mul_le_mul ?_ (by linarith) hsince ?_
    · nlinarith [mul_nonneg hu.le (sub_nonneg.mpr hpow), mul_nonneg (mul_nonneg hu.le hu.le) (sub_nonneg.mpr hpow)]
    · nlinarith [mul_nonneg hu.le (sub_nonneg.mpr hpow)]
  rw [abs_le] at hdiff hlast ⊢
  constructor <;> linarith [hdiff.1, hdiff.2, hlast.1, hlast.2]

end

/-! ### Over a run -/

section
variable {t₀ : ℚ} {n : ℕ → ℚ} (paused : ℕ → Bool)

theorem exactElapsed_zero : exactElapsed t₀ n paused 0 = n 0 - t₀ := by simp [exactElapsed]

theorem exactElapsed_succ (i : ℕ) : exactElapsed t₀ n paused (i + 1) =
    if paused i then exactElapsed t₀ n paused i else exactElapsed t₀ n paused i + (n (i + 1) - n i) := by
  unfold exactElapsed
  rw [Finset.range_add_one, Finset.filter_insert]
  cases hp : paused i with
  | true => simp
  | false =>
    simp
    ring

theorem exactElapsed_mono (hn : Monotone n) : Monotone (exactElapsed t₀ n paused) := by
  apply monotone_nat_of_le_succ
  intro i
  have hstep : n i ≤ n (i + 1) := hn (Nat.le_succ i)
  rw [exactElapsed_succ]
  split
  · exact le_rfl
  · linarith

theorem exactElapsed_nonneg (hle : t₀ ≤ n 0) (hn : Monotone n) (i : ℕ) : 0 ≤ exactElapsed t₀ n paused i := by
  have hzero : 0 ≤ exactElapsed t₀ n paused 0 := by
    rw [exactElapsed_zero]
    linarith
  exact hzero.trans (exactElapsed_mono paused hn (Nat.zero_le i))

/-- While it is paused the time stands, and the first iteration after the pause goes on from there. -/
theorem exactElapsed_pause {i j : ℕ} (hij : i ≤ j) (hp : ∀ k, i ≤ k → k < j → paused k = true) :
    exactElapsed t₀ n paused j = exactElapsed t₀ n paused i := by
  induction j, hij using Nat.le_induction with
  | base => rfl
  | succ j hij ih =>
    rw [exactElapsed_succ, if_pos (hp j hij (Nat.lt_succ_self j))]
    exact ih fun k hk hkj => hp k hk (Nat.lt_succ_of_lt hkj)

theorem pausesEnded_succ (i : ℕ) : pausesEnded paused (i + 1) =
    pausesEnded paused i + if paused i = true ∧ paused (i + 1) = false then 1 else 0 := by
  unfold pausesEnded
  rw [Finset.range_add_one, Finset.filter_insert]
  split
  · rw [Finset.card_insert_of_notMem (by simp)]
  · rfl

theorem positive_of_monotone (h₀ : 0 < t₀) (hle : t₀ ≤ n 0) (hn : Monotone n) (i : ℕ) : 0 < n i :=
  lt_of_lt_of_le h₀ (hle.trans (hn (Nat.zero_le i)))

theorem shows_before (t₀ : ℚ) (hpos : ∀ i, 0 < n i) (i : ℕ) : (NowPlaying.before t₀ n paused (i + 1)).Shows t₀
    (currentElapsed t₀ n paused i) (n i) (paused i) := by
  induction i with
  | zero => exact (NowPlaying.Shows.start t₀).next _ (hpos 0)
  | succ i ih => exact ih.next _ (hpos (i + 1))

/-- In a pause the same time is shown. -/
theorem currentElapsed_paused (hpos : ∀ i, 0 < n i) {i j : ℕ} (hij : i ≤ j)
    (hp : ∀ k, i ≤ k → k ≤ j → paused k = true) :
    currentElapsed t₀ n paused j = currentElapsed t₀ n paused i := by
  induction j, hij using Nat.le_induction with
  | base => rfl
  | succ j hij ih =>
    rw [← ih fun k hk hkj => hp k hk (hkj.trans (Nat.le_succ j))]
    have hshows := shows_before paused t₀ hpos j
    rw [hp j hij (Nat.le_succ j)] at hshows
    have hnext := hshows.paused (n (j + 1))
    rw [← hp (j + 1) (hij.trans (Nat.le_succ j)) le_rfl] at hnext
    exact hnext

/-- After an iteration that was not paused no less is shown. -/
theorem currentElapsed_running (hpos : ∀ i, 0 < n i) (hn : Monotone n) {i : ℕ} (hp : paused i = false) :
    currentElapsed t₀ n paused i ≤ currentElapsed t₀ n paused (i + 1) := by
  have hshows := shows_before paused t₀ hpos i
  rw [hp] at hshows
  exact hshows.running _ (hn (Nat.le_succ i))

variable (h₀ : 0 < t₀) (hfloat₀ : IsFloat t₀) (hfloat : ∀ i, IsFloat (n i)) (hle : t₀ ≤ n 0) (hn : Monotone n)
include h₀ hfloat₀ hfloat hle hn

theorem accounts_exact {i : ℕ} (htwice : n i ≤ 2 * t₀) : (NowPlaying.before t₀ n paused (i + 1)).Accounts t₀ (n i)
    (paused i) (binary64.exponent t₀) 1 1 (exactElapsed t₀ n paused i) := by
  have hpos := positive_of_monotone h₀ hle hn
  have hgrid : ∀ i, OnGrid (binary64.exponent t₀) (n i) := fun i =>
    Format.Value.onGrid_of_le (hfloat i) h₀ (hle.trans (hn (Nat.zero_le i)))
  induction i with
  | zero =>
    have hstart : (NowPlaying.before t₀ n paused 1).Accounts t₀ (n 0) (paused 0) (binary64.exponent t₀) 1 1
        (0 + (n 0 - t₀)) := (NowPlaying.Accounts.start (Format.Value.onGrid hfloat₀) 1 1).next_exact
      (NowPlaying.Shows.start t₀) h₀ (hgrid 0) hle htwice
    rwa [exactElapsed_zero, ← zero_add (n 0 - t₀)]
  | succ i ih =>
    have hstep : n i ≤ n (i + 1) := hn (Nat.le_succ i)
    rw [exactElapsed_succ]
    exact (ih (hstep.trans htwice)).next_exact (shows_before paused t₀ hpos i) h₀ (hgrid (i + 1)) hstep htwice

theorem accounts_near (i : ℕ) : (NowPlaying.before t₀ n paused (i + 1)).Accounts t₀ (n i) (paused i)
    binary64.minExponent ((1 - unitRoundoff) ^ (2 * pausesEnded paused i))
    ((1 + unitRoundoff) ^ (2 * pausesEnded paused i)) (exactElapsed t₀ n paused i) := by
  have hpos := positive_of_monotone h₀ hle hn
  induction i with
  | zero =>
    have hstart : (NowPlaying.before t₀ n paused 1).Accounts t₀ (n 0) (paused 0) binary64.minExponent
        ((1 - unitRoundoff) ^ (2 * 0)) ((1 + unitRoundoff) ^ (2 * 0)) (0 + (n 0 - t₀)) :=
      (NowPlaying.Accounts.start hfloat₀.onGrid _ _).next_near (NowPlaying.Shows.start t₀) (hfloat 0).onGrid hle
    rwa [exactElapsed_zero, ← zero_add (n 0 - t₀)]
  | succ i ih =>
    rw [exactElapsed_succ, pausesEnded_succ]
    exact ih.next_near (shows_before paused t₀ hpos i) (hfloat (i + 1)).onGrid (hn (Nat.le_succ i))

theorem currentElapsed_exact {i : ℕ} (htwice : n i ≤ 2 * t₀) :
    currentElapsed t₀ n paused i = exactElapsed t₀ n paused i :=
  (accounts_exact paused h₀ hfloat₀ hfloat hle hn htwice).shows_exact
    (shows_before paused t₀ (positive_of_monotone h₀ hle hn) i) h₀ (Format.Value.onGrid hfloat₀) htwice

theorem currentElapsed_near (i : ℕ) : |currentElapsed t₀ n paused i - exactElapsed t₀ n paused i| ≤
    ((1 + unitRoundoff) ^ (2 * pausesEnded paused i + 2) - 1) * (n i - t₀) :=
  (accounts_near paused h₀ hfloat₀ hfloat hle hn i).shows_near
    (shows_before paused t₀ (positive_of_monotone h₀ hle hn) i) hfloat₀.onGrid

end

/-! ## The loop shows it -/

/-- A call that leaves the phone and what was shown alone. -/
def Kept (s s' : MusicPlayer) : Prop := s'.ui = s.ui ∧ s'.drawn = s.drawn

theorem Kept.trans {s₁ s₂ s₃ : MusicPlayer} (h : Kept s₁ s₂) (h' : Kept s₂ s₃) : Kept s₁ s₃ :=
  ⟨h'.1.trans h.1, h'.2.trans h.2⟩

def Keeps {α : Type} (p : Player α) : Prop :=
  ∀ s, wp p (fun _ s' => Kept s s') (fun _ s' => Kept s s') s

theorem Keeps.bind {α β : Type} {p : Player α} {f : α → Player β} (hp : Keeps p)
    (hf : ∀ a, Keeps (f a)) : Keeps (p >>= f) := by
  intro s
  refine wp_seq (hp s) (fun _ _ h => h) ?_
  intro a s₁ h₁
  exact wp_mono (hf a s₁) (fun _ _ h => h₁.trans h) fun _ _ h => h₁.trans h

theorem Keeps.pure {α : Type} (a : α) : Keeps (pure a : Player α) := fun _ => ⟨rfl, rfl⟩

theorem Keeps.get : Keeps (get : Player MusicPlayer) := fun _ => ⟨rfl, rfl⟩

theorem Keeps.throw {α : Type} (e : Halt PyError) : Keeps (throw e : Player α) := fun _ => ⟨rfl, rfl⟩

theorem keeps_system {α : Type} (call : Chance → List Status → α × List Status) :
    Keeps (system call) := fun _ => ⟨rfl, rfl⟩

theorem keeps_assign (currentProcess : Option Nat) (isPaused : Bool) :
    Keeps (assign currentProcess isPaused) := fun _ => ⟨rfl, rfl⟩

theorem keeps_terminateAndWait (pid : Nat) : Keeps (terminateAndWait pid) := by
  have hterminate : Keeps (terminate pid) := keeps_system _
  have hwait : Keeps (wait pid) := keeps_system _
  refine hterminate.bind fun sent => ?_
  cases sent with
  | true => exact hwait
  | false => exact .pure false

theorem keeps_stop : Keeps stop := by
  refine Keeps.get.bind fun self => ?_
  cases self.currentProcess with
  | none => exact .pure ()
  | some pid =>
    have hkill : Keeps (kill pid) := keeps_system _
    refine (keeps_terminateAndWait pid).bind fun ended => ?_
    cases ended with
    | true => exact keeps_assign none false
    | false => exact hkill.bind fun _ => keeps_assign none false

theorem keeps_osKill (pid : Nat) (signal : Status → Status) : Keeps (osKill pid signal) := by
  refine (keeps_system _).bind fun found => ?_
  cases found with
  | true => exact .pure ()
  | false => exact .throw _

theorem keeps_togglePause : Keeps togglePause := by
  refine Keeps.get.bind fun self => ?_
  cases self.currentProcess with
  | none => exact .pure ()
  | some pid =>
    simp only []
    split
    · exact (keeps_osKill pid _).bind fun _ => keeps_assign _ _
    · exact (keeps_osKill pid _).bind fun _ => keeps_assign _ _

/-- The key goes with the drawing: it is needed again. -/
theorem nowPlayingKey_shows (t : NowPlaying) (key : Option Nat) (s : MusicPlayer) :
    wp (nowPlayingKey t key)
      (fun r s' => Kept s s' ∧ ∀ t', r = .inl t' → t' = { t with needsRedraw := true })
      (fun _ s' => Kept s s') s := by
  cases key with
  | none => exact ⟨⟨rfl, rfl⟩, fun t' h => (Sum.inl.inj h).symm⟩
  | some key =>
    unfold nowPlayingKey
    simp only []
    split
    · refine wp_seq (keeps_stop s) (fun _ _ h => h) ?_
      intro _ s₁ h₁
      exact ⟨h₁, fun _ h => by cases h⟩
    split
    · refine wp_seq (keeps_togglePause s) (fun _ _ h => h) ?_
      intro _ s₁ h₁
      exact ⟨h₁, fun t' h => (Sum.inl.inj h).symm⟩
    · exact ⟨⟨rfl, rfl⟩, fun t' h => (Sum.inl.inj h).symm⟩

/-- The clock at the start and after every poll. -/
def readings (w : World) : List ℚ := w.io.clock :: w.io.input.map Poll.time

def reading (w : World) (i : ℕ) : ℚ := (readings w).getD i 0

/-- What a run from `s₀` has shown by the end of iteration `m - 1`. -/
def Shown (s₀ : MusicPlayer) (paused : ℕ → Bool) (m : ℕ) (s : MusicPlayer) : Prop :=
  s.drawn = s₀.drawn ++ (List.range m).map fun i =>
    (currentElapsed s₀.ui.io.clock (reading s₀.ui) paused i, paused i)

/-- Iteration `m` of a run from `s₀` begins. -/
structure Begins (s₀ : MusicPlayer) (paused : ℕ → Bool) (m : ℕ) (t : NowPlaying) (s : MusicPlayer) :
    Prop where
  accumulators : t = .before s₀.ui.io.clock (reading s₀.ui) paused m
  shown : Shown s₀ paused m s
  readings : readings s.ui = (readings s₀.ui).drop m

theorem NowPlaying.before_congr {t₀ : ℚ} {n : ℕ → ℚ} {paused paused' : ℕ → Bool} {i : ℕ}
    (h : ∀ k < i, paused k = paused' k) : before t₀ n paused i = before t₀ n paused' i := by
  induction i with
  | zero => rfl
  | succ i ih =>
    rw [before, before, h i (Nat.lt_succ_self i), ih fun k hk => h k (Nat.lt_succ_of_lt hk)]

theorem NowPlaying.needsRedraw_elapsed (t : NowPlaying) (isPaused : Bool) (now : ℚ) :
    (t.elapsed isPaused now).2.needsRedraw = t.needsRedraw := by
  unfold NowPlaying.elapsed
  split
  · simp only []
    split <;> rfl
  · simp only []
    split <;> rfl

theorem NowPlaying.needsRedraw_before (t₀ : ℚ) (n : ℕ → ℚ) (paused : ℕ → Bool) (i : ℕ) :
    (before t₀ n paused i).needsRedraw = true := by
  induction i with
  | zero => rfl
  | succ i ih => exact (needsRedraw_elapsed _ _ _).trans ih

/-- What the flags of the iterations to come are does not matter. -/
theorem Begins.update {s₀ s : MusicPlayer} {paused : ℕ → Bool} {m : ℕ} {t : NowPlaying}
    (h : Begins s₀ paused m t s) (isPaused : Bool) :
    Begins s₀ (Function.update paused m isPaused) m t s := by
  have hpast : ∀ k, k ≠ m → paused k = Function.update paused m isPaused k := fun k hk =>
    (Function.update_of_ne hk isPaused paused).symm
  obtain ⟨hacc, hshown, hread⟩ := h
  refine ⟨?_, ?_, hread⟩
  · rw [hacc]
    exact NowPlaying.before_congr fun k hk => hpast k hk.ne
  · unfold Shown at hshown ⊢
    rw [hshown]
    congr 1
    apply List.map_congr_left
    intro i hi
    have him : i < m := List.mem_range.mp hi
    unfold currentElapsed
    rw [hpast i him.ne, NowPlaying.before_congr fun k hk => hpast k (hk.trans him).ne]

theorem Begins.kept {s₀ s s' : MusicPlayer} {paused : ℕ → Bool} {m : ℕ} {t : NowPlaying}
    (h : Begins s₀ paused m t s) (hk : Kept s s') : Begins s₀ paused m t s' where
  accumulators := h.accumulators
  shown := hk.2.trans h.shown
  readings := by
    rw [hk.1]
    exact h.readings

theorem Begins.clock {s₀ s : MusicPlayer} {paused : ℕ → Bool} {m : ℕ} {t : NowPlaying}
    (h : Begins s₀ paused m t s) : s.ui.io.clock = reading s₀.ui m := by
  have hhead := congrArg List.head? h.readings
  rw [List.head?_drop] at hhead
  unfold reading
  rw [List.getD_eq_getElem?_getD, ← hhead]
  rfl

theorem Begins.elapsed_eq {s₀ s : MusicPlayer} {paused : ℕ → Bool} {m : ℕ} {t : NowPlaying}
    (h : Begins s₀ paused m t s) : t.elapsed (paused m) s.ui.io.clock =
      (currentElapsed s₀.ui.io.clock (reading s₀.ui) paused m,
        .before s₀.ui.io.clock (reading s₀.ui) paused (m + 1)) := by
  rw [h.accumulators, h.clock]
  rfl

/-- The drawing of iteration `m` is the next one shown. -/
theorem Begins.draws {s₀ s : MusicPlayer} {paused : ℕ → Bool} {m : ℕ} {t : NowPlaying}
    (h : Begins s₀ paused m t s) (hflag : s.isPaused = paused m) : Shown s₀ paused (m + 1)
      { s with drawn := s.drawn ++ [((t.elapsed (paused m) s.ui.io.clock).1, s.isPaused)] } := by
  show s.drawn ++ _ = _
  rw [h.shown, hflag, h.elapsed_eq, List.range_succ, List.map_append, List.append_assoc]
  rfl

/-- After a poll and its key the next iteration begins. -/
theorem Begins.next {s₀ s s' : MusicPlayer} {paused : ℕ → Bool} {m : ℕ} {t : NowPlaying}
    (h : Begins s₀ paused m t s) (hshown : Shown s₀ paused (m + 1) s')
    (hread : MusicPlayer.readings s.ui = s.ui.io.clock :: MusicPlayer.readings s'.ui) :
    Begins s₀ paused (m + 1)
      { (t.elapsed (paused m) s.ui.io.clock).2 with needsRedraw := true } s' := by
  refine ⟨?_, hshown, ?_⟩
  · rw [h.elapsed_eq, ← NowPlaying.needsRedraw_before s₀.ui.io.clock (reading s₀.ui) paused (m + 1)]
  · rw [h.readings] at hread
    rw [← List.tail_drop, hread]
    rfl

theorem drawNowPlaying_shows (draws : Drawing) (filepath : Text) {t : NowPlaying}
    (ht : t.needsRedraw = true) (elapsed : ℚ) (s : MusicPlayer) :
    wp (drawNowPlaying draws filepath t elapsed)
      (fun t' s' => t' = { t with needsRedraw := false } ∧
        s' = { s with drawn := s.drawn ++ [(elapsed, s.isPaused)] })
      (fun _ s' => s' = s) s := by
  unfold drawNowPlaying
  rw [if_pos ht, wp_bind, wp_get]
  cases hdraw : draws filepath elapsed s.isPaused with
  | some e => exact rfl
  | none => exact ⟨rfl, rfl⟩

theorem readKey_reads (w : World) : wp readKey
    (fun _ w' => ∃ p ps, w.io.input = p :: ps ∧ w'.io.input = ps ∧ w'.io.clock = p.time)
    (fun _ w' => w' = w) w := by
  refine wp_seq (NeoDCT.poll_spec w) ?_ ?_
  · rintro _ _ ⟨-, -, rfl⟩
    rfl
  · rintro p _ ⟨ps, hps, rfl⟩
    exact ⟨p, ps, hps, rfl, rfl⟩

/-- **An iteration** shows the next elapsed time, unless the player has ended or the drawing raises. -/
theorem nowPlayingBody_shows (draws : Drawing) (filepath : Text) {s₀ s : MusicPlayer}
    {paused : ℕ → Bool} {m : ℕ} {t : NowPlaying} (h : Begins s₀ paused m t s) :
    wp (nowPlayingBody draws filepath t)
      (fun r s' => ∃ paused' m', Shown s₀ paused' m' s' ∧ ∀ t', r = .inl t' →
        Begins s₀ paused' m' t' s' ∧ Input.remaining s' < Input.remaining s)
      (fun _ s' => ∃ paused' m', Shown s₀ paused' m' s') s := by
  have hkept : ∀ {s'}, Kept s s' → ∃ paused' m', Shown s₀ paused' m' s' := fun hk =>
    ⟨paused, m, hk.2.trans h.shown⟩
  unfold nowPlayingBody
  rw [wp_bind, wp_get]
  cases s.currentProcess with
  | none => exact ⟨paused, m, h.shown⟩
  | some pid =>
    have hpoll : wp (poll pid) (fun _ s' => Kept s s' ∧ s'.isPaused = s.isPaused)
        (fun _ s' => Kept s s') s := ⟨⟨rfl, rfl⟩, rfl⟩
    refine wp_seq hpoll (fun _ _ hk => hkept hk) ?_
    rintro ended s₁ ⟨hk₁, hpaused₁⟩
    cases ended with
    | true =>
      refine wp_seq (keeps_stop s₁) (fun _ _ hk => hkept (hk₁.trans hk)) ?_
      intro _ s₂ hk₂
      obtain ⟨paused', m', hshown⟩ := hkept (hk₁.trans hk₂)
      exact ⟨paused', m', hshown, fun _ h => by cases h⟩
    | false =>
      refine wp_seq (onUi_spec (now_spec s₁.ui (E := fun _ _ => False))) ?_ ?_
      · rintro _ _ ⟨_, hfalse, -⟩
        exact hfalse.elim
      rintro time _ ⟨_, ⟨htime, rfl⟩, rfl⟩
      -- from here on iteration `m` has the flag that was read before the poll
      have hb₀ := (h.kept hk₁).update s.isPaused
      generalize hp : Function.update paused m s.isPaused = paused' at hb₀
      have hflag : s.isPaused = paused' m := by
        rw [← hp, Function.update_self]
      rw [hflag] at hpaused₁ ⊢
      rw [htime]
      have hredraw : (t.elapsed (paused' m) s₁.ui.io.clock).2.needsRedraw = true := by
        rw [hb₀.elapsed_eq]
        exact NowPlaying.needsRedraw_before _ _ _ _
      refine wp_seq (drawNowPlaying_shows draws filepath hredraw _ s₁) ?_ ?_
      · rintro _ _ rfl
        exact hkept hk₁
      rintro t' s₃ ⟨rfl, rfl⟩
      have hshown := hb₀.draws hpaused₁
      refine wp_seq (onUi_spec (readKey_reads s₁.ui)) ?_ ?_
      · rintro _ _ ⟨_, rfl, rfl⟩
        exact ⟨paused', m + 1, hshown⟩
      rintro key _ ⟨w, ⟨p, ps, hps, hinput, hnow⟩, rfl⟩
      refine wp_mono (nowPlayingKey_shows _ key _) ?_ ?_
      · rintro r s₅ ⟨hk₅, hr⟩
        have hshown₅ : Shown s₀ paused' (m + 1) s₅ := hk₅.2.trans hshown
        have hread : readings s₁.ui = s₁.ui.io.clock :: readings s₅.ui := by
          rw [hk₅.1]
          unfold readings
          rw [hps, hinput, hnow]
          rfl
        refine ⟨paused', m + 1, hshown₅, ?_⟩
        intro t'' ht''
        rw [hr t'' ht'']
        refine ⟨hb₀.next hshown₅ hread, ?_⟩
        show s₅.ui.io.input.length < s.ui.io.input.length
        rw [hk₅.1, ← hk₁.1, hps, hinput]
        exact Nat.lt_succ_self _
      · intro _ s₅ hk₅
        exact ⟨paused', m + 1, hk₅.2.trans hshown⟩

/-- **What the screen shows in a run** is the elapsed time of each iteration, on the clock of the phone. -/
theorem runNowPlaying_shows (draws : Drawing) (filepath : Text) (s : MusicPlayer) :
    ∃ paused m, Shown s paused m (finalState (runNowPlaying draws filepath) s) := by
  apply finalState_of_wp (P := fun s' => ∃ paused m, Shown s paused m s')
  refine wp_seq (onUi_spec (E := fun _ _ => False) (loading_spec s.ui)) ?_ ?_
  · rintro _ _ ⟨_, hfalse, -⟩
    exact hfalse.elim
  rintro startTime _ ⟨w, ⟨⟨io, hinput, hclock, rfl⟩, rfl⟩, rfl⟩
  refine wp_loop (fun t s' => ∃ paused m, Begins s paused m t s') ?_ ?_
  · refine ⟨fun _ => false, 0, ?_, ?_, ?_⟩
    · show NowPlaying.mk io.clock 0 0 true = NowPlaying.mk s.ui.io.clock 0 0 true
      rw [hclock]
    · exact (List.append_nil _).symm
    · show io.clock :: io.input.map Poll.time = _
      rw [hclock, hinput]
      rfl
  · rintro t s₁ ⟨paused, m, hb⟩
    refine wp_mono (nowPlayingBody_shows draws filepath hb) ?_ fun _ _ h => h
    rintro (t' | u) s₂ ⟨paused', m', hshown, hnext⟩
    · obtain ⟨hb', hlt⟩ := hnext t' rfl
      exact ⟨⟨paused', m', hb'⟩, hlt⟩
    · exact ⟨paused', m', hshown⟩

/-- Readings of 1.9, 2.9 and 5.1 seconds, with a pause between the last two. -/
def earlyReadings : ℕ → ℚ
  | 0 => toFloat 1.9
  | 1 => toFloat 2.9
  | _ => toFloat 5.1

/-- `total_str`, if there is one. -/
def totalStr (length currentElapsed : ℚ) : Option Text :=
  if 0 < length then some ('-' :: formatTime (toInt (toFloat (length - currentElapsed)))) else none

/-- `fill_width`. -/
def fillWidth (length currentElapsed : ℚ) : ℤ :=
  let pct := if 0 < length then min 1 (toFloat (currentElapsed / length)) else 0
  toInt (toFloat (200 * pct))

/-- The seconds that a text shows as minutes and seconds: at least two digits, a colon and two digits of
seconds below 60. -/
def readTime (text : Text) : Option ℕ :=
  let m := text.takeWhile (· ≠ ':')
  let s := (text.dropWhile (· ≠ ':')).drop 1
  if 2 ≤ m.length ∧ m.all Char.isDigit = true ∧ s.length = 2 ∧ s.all Char.isDigit = true ∧
      Nat.ofDigitChars 10 s 0 < 60 then
    some (60 * Nat.ofDigitChars 10 m 0 + Nat.ofDigitChars 10 s 0)
  else none

theorem colon_not_digit {c : Char} (h : c.isDigit = true) : c ≠ ':' := by
  rintro rfl
  cases h

/-- A time from zero on is shown as it is. -/
theorem readTime_formatTime (n : ℕ) : readTime (formatTime n) = some n := by
  have hdiv : (n : ℤ) / 60 = (n / 60 : ℕ) := by omega
  have hmod : (n : ℤ) % 60 = (n % 60 : ℕ) := by omega
  have hsec : n % 60 < 60 := Nat.mod_lt n (by decide)
  have hm := zeroPad_digits 2 (n / 60)
  have hs := zeroPad_digits 2 (n % 60)
  have hcolon : ∀ c ∈ zeroPad 2 (n / 60 : ℕ), (decide (c ≠ ':')) = true := fun c hc =>
    decide_eq_true (colon_not_digit (hm c hc))
  have htake : (formatTime n).takeWhile (· ≠ ':') = zeroPad 2 (n / 60 : ℕ) := by
    unfold formatTime
    rw [hdiv, List.takeWhile_append_of_pos hcolon]
    simp
  have hdrop : ((formatTime n).dropWhile (· ≠ ':')).drop 1 = zeroPad 2 (n % 60 : ℕ) := by
    unfold formatTime
    rw [hdiv, hmod, List.dropWhile_append_of_pos hcolon]
    simp
  simp only [readTime, htake, hdrop, zeroPad_value]
  rw [if_pos]
  · congr 1
    omega
  · refine ⟨le_length_zeroPad 2 _, List.all_eq_true.mpr hm, ?_, List.all_eq_true.mpr hs, hsec⟩
    exact length_zeroPad (by decide) (by omega)

/-- A time below zero is not: its minutes have a sign. -/
theorem readTime_formatTime_neg {n : ℤ} (h : n < 0) : readTime (formatTime n) = none := by
  have hdiv : n / 60 < 0 := by omega
  obtain ⟨rest, hrest⟩ := zeroPad_of_neg hdiv 2
  simp [readTime, formatTime, hrest, Char.isDigit]

/-- The elapsed text denotes the whole seconds, and the remaining text, behind its sign, those left. -/
def TimestampsRead (length elapsed : ℚ) : Prop :=
  readTime (currStr elapsed) = some ⌊elapsed⌋.toNat ∧
  ∃ rest, totalStr length elapsed = some ('-' :: rest) ∧
    readTime rest = some (max 0 ⌊length - elapsed⌋).toNat

theorem readTime_currStr {elapsed : ℚ} (h : 0 ≤ elapsed) :
    readTime (currStr elapsed) = some ⌊elapsed⌋.toNat := by
  obtain ⟨n, hn⟩ := Int.eq_ofNat_of_zero_le (Int.floor_nonneg.mpr h)
  rw [currStr, toInt_of_nonneg h, hn]
  exact readTime_formatTime n

theorem readTime_left {left : ℚ} (h : -1 < left) :
    readTime (formatTime (toInt left)) = some (max 0 ⌊left⌋).toNat := by
  by_cases hleft : 0 ≤ left
  · obtain ⟨n, hn⟩ := Int.eq_ofNat_of_zero_le (Int.floor_nonneg.mpr hleft)
    rw [toInt_of_nonneg hleft, hn, max_eq_right (by omega)]
    exact readTime_formatTime n
  · have hneg : left < 0 := not_le.mp hleft
    have hfloor : ⌊left⌋ ≤ 0 := (Int.floor_lt.mpr (by exact_mod_cast hneg)).le
    rw [toInt_of_neg h hneg, max_eq_left hfloor]
    exact readTime_formatTime 0

theorem readTime_overrun {left : ℚ} (h : left ≤ -1) : readTime (formatTime (toInt left)) = none := by
  apply readTime_formatTime_neg
  by_contra hneg
  exact absurd (toInt_nonneg_iff.mp (not_lt.mp hneg)) (not_lt.mpr h)

/-- What is left of a second is not lost or won in the rounding. -/
def KeepsSeconds (left : ℚ) : Prop := ⌊toFloat left⌋ = ⌊left⌋

instance (left : ℚ) : Decidable (KeepsSeconds left) := inferInstanceAs (Decidable (_ = _))

/-- The whole seconds that are denoted are those of the rounded difference. -/
theorem readTime_rounded_iff {left : ℚ} :
    readTime (formatTime (toInt (toFloat left))) = some (max 0 ⌊left⌋).toNat ↔
      -1 + 1 / 2 ^ 54 < left ∧ (0 ≤ left → KeepsSeconds left) := by
  have hone : -1 < toFloat left ↔ -1 + 1 / 2 ^ 54 < left := by
    have hiff := Format.neg_one_lt_round_iff (F := binary64) (x := left) (by decide) (by decide)
    have hval : (2 : ℚ) ^ (-(binary64.precision : ℤ) - 1) = 1 / 2 ^ 54 := by decide +kernel
    rwa [hval] at hiff
  rw [← hone]
  rcases le_or_gt (toFloat left) (-1) with hover | hlt
  · rw [readTime_overrun hover]
    exact iff_of_false (by simp) fun h => absurd h.1 (not_lt.mpr hover)
  rw [readTime_left hlt, Option.some_inj, and_iff_right hlt]
  rcases le_or_gt 0 left with hleft | hneg
  · have hfloor : 0 ≤ ⌊left⌋ := Int.floor_nonneg.mpr hleft
    have hfloor' : 0 ≤ ⌊toFloat left⌋ := Int.floor_nonneg.mpr (toFloat_nonneg hleft)
    unfold KeepsSeconds
    rw [max_eq_right hfloor, max_eq_right hfloor', forall_prop_of_true hleft]
    omega
  · have hfloor : ⌊left⌋ ≤ 0 := (Int.floor_lt.mpr (by exact_mod_cast hneg)).le
    have hfloor' : ⌊toFloat left⌋ ≤ 0 := by
      rw [← Int.floor_zero (R := ℚ)]
      exact Int.floor_mono (Format.round_nonpos hneg.le)
    rw [max_eq_left hfloor, max_eq_left hfloor']
    exact iff_of_true rfl fun h => absurd hneg (not_lt.mpr h)

/-- The half of a unit in the last place. -/
def halfUlp (left : ℚ) : ℚ := binary64.ulp left / 2

/-- Below `2 ^ 52` seconds they are kept when the next one is further than half a unit in the last place. -/
theorem keepsSeconds_iff {left : ℚ} (h : 0 ≤ left) (hlt : left < 2 ^ 52) :
    KeepsSeconds left ↔ halfUlp left < ⌊left⌋ + 1 - left := by
  refine Format.floor_round_eq_iff (F := binary64) (Format.exponent_neg (by decide) (by decide) ?_)
  rw [abs_of_nonneg h]
  exact hlt

/-- **Both timestamps can be read** until the track has outlasted its length by a second, as long as the
difference is not rounded to another second. -/
theorem timestampsRead_iff (length elapsed : ℚ) (hlength : 0 < length) (helapsed : 0 ≤ elapsed) :
    (TimestampsRead length elapsed ↔
      -1 + 1 / 2 ^ 54 < length - elapsed ∧ (0 ≤ length - elapsed → KeepsSeconds (length - elapsed))) ∧
    (0 ≤ length - elapsed → length - elapsed < 2 ^ 52 →
      (KeepsSeconds (length - elapsed) ↔ halfUlp (length - elapsed) < ⌊length - elapsed⌋ + 1 - (length - elapsed))) := by
  refine ⟨?_, fun h hlt => keepsSeconds_iff h hlt⟩
  rw [← readTime_rounded_iff]
  unfold TimestampsRead totalStr
  rw [if_pos hlength]
  constructor
  · rintro ⟨-, rest, hrest, hread⟩
    obtain rfl : formatTime (toInt (toFloat (length - elapsed))) = rest := (List.cons.inj (Option.some.inj hrest)).2
    exact hread
  · exact fun hread => ⟨readTime_currStr helapsed, _, rfl, hread⟩

/-- A minute of two and a half, with a fraction left. -/
theorem timestampsRead_iff_minute : TimestampsRead 150.5 60 :=
  (timestampsRead_iff 150.5 60 (by norm_num) (by norm_num)).1.mpr ⟨by norm_num, fun _ => by decide +kernel⟩

/-- Two minutes are over, and a second: the remaining text is `--1:59`. -/
theorem not_timestampsRead_overrun : ¬ ∀ (t₀ : ℚ) (n : ℕ → ℚ) (paused : ℕ → Bool), 0 < t₀ → IsFloat t₀ →
    (∀ i, IsFloat (n i)) → t₀ ≤ n 0 → Monotone n →
    ∀ length i, 0 < length → IsFloat length → TimestampsRead length (currentElapsed t₀ n paused i) := by
  intro hall
  obtain ⟨-, rest, hrest, hread⟩ := hall 1 (fun _ => 122) (fun _ => false) (by norm_num) (by decide +kernel)
    (fun _ => by decide +kernel) (by norm_num) monotone_const 120 0 (by norm_num) (by decide +kernel)
  have helapsed : currentElapsed 1 (fun _ => 122) (fun _ => false) 0 = 121 := by decide +kernel
  have htotal : totalStr 120 121 = some "--1:59".toList := by decide +kernel
  rw [helapsed, htotal] at hrest
  obtain rfl : "-1:59".toList = rest := (List.cons.inj (Option.some.inj hrest)).2
  have hnone : readTime "-1:59".toList = none := by decide +kernel
  rw [hnone] at hread
  cases hread

/-- The bar next to them stays within its 200 pixels. -/
theorem fillWidth_le (length : ℚ) {elapsed : ℚ} (helapsed : 0 ≤ elapsed) :
    0 ≤ fillWidth length elapsed ∧ fillWidth length elapsed ≤ 200 := by
  have hpct : 0 ≤ (if 0 < length then min 1 (toFloat (elapsed / length)) else 0) ∧
      (if 0 < length then min 1 (toFloat (elapsed / length)) else 0) ≤ 1 := by
    split
    · next hlength => exact ⟨le_min zero_le_one (toFloat_nonneg (by positivity)), min_le_left _ _⟩
    · norm_num
  obtain ⟨hlow, hhigh⟩ := hpct
  unfold fillWidth
  simp only []
  generalize (if 0 < length then min 1 (toFloat (elapsed / length)) else 0) = pct at hlow hhigh
  have hnonneg : 0 ≤ toFloat (200 * pct) := toFloat_nonneg (by linarith)
  have hle : toFloat (200 * pct) ≤ 200 := by
    have hmono : toFloat (200 * pct) ≤ toFloat (200 : ℕ) := toFloat_mono (by push_cast; linarith)
    rw [toFloat_natCast (by norm_num)] at hmono
    exact_mod_cast hmono
  rw [toInt_of_nonneg hnonneg]
  refine ⟨Int.floor_nonneg.mpr hnonneg, ?_⟩
  rw [← Int.lt_add_one_iff, Int.floor_lt]
  push_cast
  linarith

end MusicPlayer

end NeoDCT
