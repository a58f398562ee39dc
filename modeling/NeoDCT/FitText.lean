import NeoDCT.CallScreen
import NeoDCT.Apps.NowPlaying
import NeoDCT.Lib.Bisect

/-!
# Truncation

The call screen (ui/Dialer/call_screen.py) looks for the longest beginning of a number that fits before
an ellipsis by bisection, the music player (apps/MusicPlayer/main.py) by dropping characters one by one.
For a font in which longer texts are no narrower the two give the same text:

    fitText ui text maxWidth preferFont = (truncateWith … "…" text maxWidth, font_s)     (fitText_spec)

where `text` does not fit in the preferred font.
-/

namespace NeoDCT

open PyText Bisect

/-- A text does not get narrower when it gets longer, with the mark after it or without. -/
structure Widens (width : Text → ℤ) (mark : Text) : Prop where
  bare : ∀ p s, p <+: s → width p ≤ width s
  marked : ∀ p s, p <+: s → width (p ++ mark) ≤ width (s ++ mark)

/-- `p` is the longest beginning of the text that fits with the mark after it. -/
structure LongestFit (width : Text → ℤ) (mark : Text) (maxW : ℤ) (text p : Text) : Prop where
  beginning : p <+: text
  fits : width (p ++ mark) ≤ maxW
  longest : ∀ q, q <+: text → width (q ++ mark) ≤ maxW → q.length ≤ p.length

section
variable (width : Text → ℤ) (mark : Text) (maxW : ℤ) (text : Text)

/-- The first `i` characters fit with the mark after them. -/
def TakeFits (i : ℕ) : Prop := width (text.take i ++ mark) ≤ maxW

instance : DecidablePred (TakeFits width mark maxW text) := fun _ => Int.decLe _ _

variable {width mark maxW text}

theorem TakeFits.anti (hw : Widens width mark) {i j : ℕ} (hij : i ≤ j)
    (h : TakeFits width mark maxW text j) : TakeFits width mark maxW text i :=
  (hw.marked _ _ (List.take_prefix_take_left hij)).trans h

/-- A text that does not fit does not fit with the mark either. -/
theorem not_takeFits_length (hw : Widens width mark) (h : maxW < width text) :
    ¬ TakeFits width mark maxW text text.length := by
  unfold TakeFits
  rw [List.take_length, not_le]
  exact h.trans_le (hw.bare _ _ (List.prefix_append text mark))

theorem LongestFit.isGreatest {p : Text} (h : LongestFit width mark maxW text p) :
    IsGreatest {i | i ≤ text.length ∧ TakeFits width mark maxW text i} p.length := by
  have htake : text.take p.length = p := (List.prefix_iff_eq_take.mp h.beginning).symm
  refine ⟨⟨h.beginning.length_le, ?_⟩, ?_⟩
  · show width _ ≤ maxW
    rw [htake]
    exact h.fits
  · rintro i ⟨hi, hfits⟩
    have hlen := h.longest _ (List.take_prefix i text) hfits
    rw [List.length_take, min_eq_left hi] at hlen
    exact hlen

/-! ## Character by character -/

theorem truncateLoop_of_le {t : Text} {w : ℤ} (h : w ≤ maxW) :
    MusicPlayer.truncateLoop width mark maxW t w = t := by
  rw [MusicPlayer.truncateLoop, if_neg fun hlt => absurd h (not_le.mpr hlt.1)]

theorem truncateLoop_nil (w : ℤ) : MusicPlayer.truncateLoop width mark maxW [] w = [] := by
  rw [MusicPlayer.truncateLoop, if_neg fun hlt => absurd hlt.2 (lt_irrefl 0)]

theorem truncateLoop_take {n : ℕ} (hn : n < text.length) {w : ℤ} (hw : maxW < w) :
    MusicPlayer.truncateLoop width mark maxW (text.take (n + 1)) w =
      MusicPlayer.truncateLoop width mark maxW (text.take n) (width (text.take n ++ mark)) := by
  have hlen : 0 < (text.take (n + 1)).length := by
    rw [List.length_take]
    omega
  have hdrop : (text.take (n + 1)).dropLast = text.take n := by
    rw [List.dropLast_eq_take, List.length_take, List.take_take]
    congr 1
    omega
  rw [MusicPlayer.truncateLoop, if_pos ⟨hw, hlen⟩, hdrop]

/-- The loop of `truncate` is a scan from the end. -/
theorem truncateLoop_eq_scanDown {n : ℕ} (hn : n < text.length) {w : ℤ} (hw : maxW < w) :
    MusicPlayer.truncateLoop width mark maxW (text.take (n + 1)) w =
      text.take ((scanDown (TakeFits width mark maxW text) n).getD 0) := by
  induction n generalizing w with
  | zero =>
    rw [truncateLoop_take hn hw, List.take_zero, truncateLoop_nil, scanDown]
    split <;> rfl
  | succ n ih =>
    rw [truncateLoop_take hn hw, scanDown]
    by_cases hfits : TakeFits width mark maxW text (n + 1)
    · rw [truncateLoop_of_le hfits, if_pos hfits]
      rfl
    · rw [if_neg hfits]
      exact ih (Nat.lt_of_succ_lt hn) (not_le.mp hfits)

theorem truncateWith_of_le (h : width text ≤ maxW) :
    MusicPlayer.truncateWith width mark text maxW = text := by
  unfold MusicPlayer.truncateWith
  rw [truncateLoop_of_le h]
  exact if_neg (lt_irrefl _)

theorem truncateWith_nil : MusicPlayer.truncateWith width mark [] maxW = [] := by
  unfold MusicPlayer.truncateWith
  rw [truncateLoop_nil]
  rfl

/-- A text that does not fit ends in the mark, after what the scan finds. -/
theorem truncateWith_eq_scanDown (hw : Widens width mark) (h : maxW < width text) (hne : text ≠ []) :
    MusicPlayer.truncateWith width mark text maxW =
      text.take ((scanDown (TakeFits width mark maxW text) text.length).getD 0) ++ mark := by
  obtain ⟨n, hn⟩ := Nat.exists_eq_succ_of_ne_zero (List.length_pos_of_ne_nil hne).ne'
  have hfull : ¬ TakeFits width mark maxW text text.length := not_takeFits_length hw h
  have hscan : scanDown (TakeFits width mark maxW text) text.length =
      scanDown (TakeFits width mark maxW text) n := by
    rw [hn] at hfull ⊢
    rw [scanDown, if_neg hfull]
  have hloop : MusicPlayer.truncateLoop width mark maxW text (width text) =
      text.take ((scanDown (TakeFits width mark maxW text) n).getD 0) := by
    have hlt : n < text.length := by omega
    have htake : MusicPlayer.truncateLoop width mark maxW (text.take (n + 1)) (width text) = _ :=
      truncateLoop_eq_scanDown hlt h
    rwa [← Nat.succ_eq_add_one, ← hn, List.take_length] at htake
  have hlt : (scanDown (TakeFits width mark maxW text) n).getD 0 < text.length := by
    cases hk : scanDown (TakeFits width mark maxW text) n with
    | none => exact List.length_pos_of_ne_nil hne
    | some k =>
      have hle : k ≤ n := ((scanDown_eq_some _).mp hk).1.1
      show k < text.length
      omega
  unfold MusicPlayer.truncateWith
  simp only [hloop, hscan]
  rw [if_pos]
  rw [List.length_take]
  omega

/-! ## By bisection -/

/-- The text that the best index so far stands for. -/
def cut (text mark : Text) (best : Option ℕ) : Text :=
  best.elim [] fun k => text.take k ++ mark

theorem fitLoop_eq_bisect (lo hi : ℤ) (best : Option ℕ) :
    CallScreen.fitLoop (fun s => width s ≤ maxW) text lo hi (cut text ['…'] best) =
      cut text ['…'] (bisect (TakeFits width ['…'] maxW text) lo hi best) := by
  fun_induction bisect (TakeFits width ['…'] maxW text) lo hi best with
  | case1 lo hi best hle mid hfits ih =>
    have htrue : decide (width (text.take mid.toNat ++ ['…']) ≤ maxW) = true := decide_eq_true hfits
    rw [CallScreen.fitLoop, if_pos hle]
    exact (if_pos htrue).trans ih
  | case2 lo hi best hle mid hfits ih =>
    have hfalse : ¬ decide (width (text.take mid.toNat ++ ['…']) ≤ maxW) = true := fun h =>
      hfits (of_decide_eq_true h)
    rw [CallScreen.fitLoop, if_pos hle]
    exact (if_neg hfalse).trans ih
  | case3 lo hi best hlt => rw [CallScreen.fitLoop, if_neg hlt]

/-- The binary search finds what the scan finds, and nothing is an ellipsis alone. -/
theorem fitLoop_eq_scanDown (hw : Widens width ['…']) :
    (let best := CallScreen.fitLoop (fun s => width s ≤ maxW) text 0 text.length []
      if best ≠ [] then best else ['…']) =
      text.take ((scanDown (TakeFits width ['…'] maxW text) text.length).getD 0) ++ ['…'] := by
  have hloop : CallScreen.fitLoop (fun s => width s ≤ maxW) text 0 text.length (cut text ['…'] none) = _ :=
    fitLoop_eq_bisect 0 text.length none
  rw [bisect_eq_scanDown fun i j hij _ => TakeFits.anti hw hij] at hloop
  simp only [cut, Option.elim_none] at hloop
  rw [hloop]
  cases scanDown (TakeFits width ['…'] maxW text) text.length with
  | none => rfl
  | some k =>
    show (if text.take k ++ ['…'] ≠ [] then text.take k ++ ['…'] else ['…']) = _
    rw [if_pos (List.append_ne_nil_of_right_ne_nil _ (List.cons_ne_nil _ _))]
    rfl

end

/-! ## The call screen's text -/

namespace CallScreen

def smallWidth (ui : Ui) (s : Text) : ℤ := (ui.getTextSize s .s).1

/-- In the small font the two truncations agree. -/
theorem fitText_eq_truncateWith (ui : Ui) (text : Text) (maxWidth : ℤ) (preferFont : Font)
    (hw : Widens (smallWidth ui) ['…']) (hwide : maxWidth < (ui.getTextSize text preferFont).1) :
    fitText ui text maxWidth preferFont =
      (MusicPlayer.truncateWith (smallWidth ui) ['…'] text maxWidth, .s) := by
  unfold fitText
  rw [if_neg (not_le.mpr hwide)]
  by_cases hsmall : smallWidth ui text ≤ maxWidth
  · rw [truncateWith_of_le hsmall]
    exact if_pos hsmall
  have hwide' : maxWidth < smallWidth ui text := not_le.mp hsmall
  refine (if_neg hsmall).trans ?_
  by_cases hnil : text = []
  · rw [if_pos hnil, hnil, truncateWith_nil]
  · rw [if_neg hnil, truncateWith_eq_scanDown hw hwide' hnil, ← fitLoop_eq_scanDown hw]
    rfl

/-- **Truncation.**  A text that fits in neither font is cut to its longest beginning that fits before
an ellipsis, as character by character, or to the ellipsis alone; the empty text stays empty. -/
theorem fitText_spec (ui : Ui) (text : Text) (maxWidth : ℤ) (preferFont : Font)
    (hw : Widens (smallWidth ui) ['…']) :
    ((ui.getTextSize text preferFont).1 ≤ maxWidth →
      fitText ui text maxWidth preferFont = (text, preferFont)) ∧
    (maxWidth < (ui.getTextSize text preferFont).1 →
      (smallWidth ui text ≤ maxWidth → fitText ui text maxWidth preferFont = (text, .s)) ∧
      (maxWidth < smallWidth ui text → text = [] →
        fitText ui text maxWidth preferFont = ([], .s)) ∧
      (maxWidth < smallWidth ui text → text ≠ [] →
        (∀ p, LongestFit (smallWidth ui) ['…'] maxWidth text p →
          fitText ui text maxWidth preferFont = (p ++ ['…'], .s)) ∧
        ((∀ p, p <+: text → maxWidth < smallWidth ui (p ++ ['…'])) →
          fitText ui text maxWidth preferFont = (['…'], .s))) ∧
      fitText ui text maxWidth preferFont =
        (MusicPlayer.truncateWith (smallWidth ui) ['…'] text maxWidth, .s)) := by
  refine ⟨fun h => if_pos h, ?_⟩
  intro hwide
  have heq := fitText_eq_truncateWith ui text maxWidth preferFont hw hwide
  refine ⟨?_, ?_, ?_, heq⟩
  · intro hsmall
    rw [heq, truncateWith_of_le hsmall]
  · rintro - rfl
    rw [heq, truncateWith_nil]
  · intro hsmall hne
    rw [heq, truncateWith_eq_scanDown hw hsmall hne]
    constructor
    · intro p hp
      rw [(scanDown_eq_some _).mpr hp.isGreatest, Option.getD_some,
        ← List.prefix_iff_eq_take.mp hp.beginning]
    · intro hnone
      have hscan : scanDown (TakeFits (smallWidth ui) ['…'] maxWidth text) text.length = none := by
        rw [scanDown_eq_none]
        intro i _ hfits
        exact absurd (hnone _ (List.take_prefix i text)) (not_lt.mpr hfits)
      rw [hscan]
      rfl

theorem widens_plain : Widens (smallWidth Ui.plain) ['…'] := by
  constructor
  · intro p s h
    have hlen := h.length_le
    show (10 * p.length : ℤ) ≤ 10 * s.length
    omega
  · intro p s h
    have hlen := h.length_le
    show (10 * (p ++ ['…']).length : ℤ) ≤ 10 * (s ++ ['…']).length
    rw [List.length_append, List.length_append]
    omega

/-- Thirty digits, of which eighteen fit before the ellipsis. -/
theorem fitText_spec_thirty : fitText Ui.plain (List.replicate 30 '5') 190 .n =
    (List.replicate 18 '5' ++ ['…'], .s) := by
  refine (((fitText_spec Ui.plain (List.replicate 30 '5') 190 .n widens_plain).2 (by decide)).2.2.1
    (by decide) (by decide)).1 _ ⟨by decide, by decide, ?_⟩
  intro q _ hfits
  have hlen : (10 * (q ++ ['…']).length : ℤ) ≤ 190 := hfits
  rw [List.length_append, List.length_singleton] at hlen
  rw [List.length_replicate]
  omega

/-- The empty text is not replaced by an ellipsis. -/
theorem fitText_nil_not_ellipsis : ¬ ∀ (ui : Ui) (text : Text) (maxWidth : ℤ) (preferFont : Font),
    (∀ font, Widens (fun s => (ui.getTextSize s font).1) ['…']) →
    maxWidth < (ui.getTextSize text preferFont).1 → maxWidth < smallWidth ui text →
    (∀ p, p <+: text → maxWidth < smallWidth ui (p ++ ['…'])) →
    fitText ui text maxWidth preferFont = (['…'], .s) := by
  intro hall
  have hnone : ∀ p : Text, p <+: [] → (-1 : ℤ) < smallWidth Ui.plain (p ++ ['…']) := by
    intro p _
    show (-1 : ℤ) < 10 * (p ++ ['…']).length
    omega
  have h := hall Ui.plain [] (-1) .n (fun _ => widens_plain) (by decide) (by decide) hnone
  have hnil : fitText Ui.plain [] (-1) .n = ([], .s) := rfl
  rw [hnil] at h
  cases h

end CallScreen

end NeoDCT
