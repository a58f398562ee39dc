import NeoDCT.Framework.Dialog
import NeoDCT.WrapLines

/-!
# The margin of a MessageDialog

`MessageDialog._draw` never draws more lines than there is room for, and ends the last one in `…` when
it leaves lines out.  The mark is added to a line that was wrapped without it, so that

    every line drawn stays in the margin  ↔  no line is left out, or the last one has room for the mark
                                                                              (draw_inMargin_iff)
-/

namespace NeoDCT

open PyText Interactive

namespace MessageDialog

/-! ## The layout -/

/-- `text_w`, in the font of the body. -/
def textW (ui : Ui) (s : Text) : ℤ := (ui.getTextSize s .s).1

/-- `max_w`. -/
def maxW (self : MessageDialog) : ℤ := 240 - self.margin * 2

/-- `line_h`. -/
def lineH (ui : Ui) : ℤ := (ui.getTextSize "Ag".toList .s).2 + 3

/-- `max_lines`: the room between the header and the softkey. -/
def maxLines (ui : Ui) (self : MessageDialog) : Nat :=
  (max 1 (Int.tdiv (210 - (self.header ui).1 - self.margin) (lineH ui))).toNat

/-- The lines before any is cut. -/
def lines (ui : Ui) (self : MessageDialog) : List Text := wrapText (textW ui) self.maxW self.message

theorem maxLines_pos (ui : Ui) (self : MessageDialog) : 1 ≤ self.maxLines ui := by
  unfold maxLines
  omega

/-- The body lines when `_draw` does not raise. -/
def drawnLines (ui : Ui) (self : MessageDialog) : List Text :=
  if self.maxLines ui < (self.lines ui).length then
    addEllipsis ((self.lines ui).take (self.maxLines ui))
  else self.lines ui

theorem bodyLines_eq (ui : Ui) (self : MessageDialog) : self.bodyLines ui (self.header ui).1 =
    if lineH ui = 0 then .error .zeroDivisionError else .ok (self.drawnLines ui, lineH ui) := rfl

/-- `_draw` returns, with these body lines between the header and the softkey. -/
def Draws (ui : Ui) (self : MessageDialog) (drawn : List Text) : Prop :=
  ∃ step : ℤ, self.drawOps ui = .ok ([fillBox 0 0 240 240 "black"] ++ (self.header ui).2 ++
    (drawn.mapIdx fun i line => drawText self.margin ((self.header ui).1 + i * step : ℤ) line .s "white") ++
    SoftKeyBar.app.drawOps ui (some self.buttonText))

/-- The text of a drawing operation. -/
def opText : DrawOp → Text
  | .text _ _ s _ _ => s
  | _ => []

theorem opText_mapIdx (drawn : List Text) (x : ℚ) (y : Nat → ℚ) :
    (drawn.mapIdx fun i line => drawText x (y i) line .s "white").map opText = drawn := by
  apply List.ext_getElem?
  intro i
  rw [List.getElem?_map, List.getElem?_mapIdx]
  cases drawn[i]? <;> rfl

theorem draws_iff (ui : Ui) (self : MessageDialog) (drawn : List Text) :
    self.Draws ui drawn ↔ lineH ui ≠ 0 ∧ drawn = self.drawnLines ui := by
  have hops : self.drawOps ui = (self.bodyLines ui (self.header ui).1).bind fun body =>
      .ok ([fillBox 0 0 240 240 "black"] ++ (self.header ui).2 ++ (body.1.mapIdx fun i line =>
        drawText self.margin ((self.header ui).1 + i * body.2 : ℤ) line .s "white") ++
        SoftKeyBar.app.drawOps ui (some self.buttonText)) := rfl
  unfold Draws
  rw [hops, bodyLines_eq]
  by_cases h : lineH ui = 0
  · rw [if_pos h]
    constructor
    · rintro ⟨step, heq⟩
      cases heq
    · exact fun hne => absurd h hne.1
  · rw [if_neg h]
    constructor
    · rintro ⟨step, heq⟩
      refine ⟨h, ?_⟩
      have hbody := List.append_cancel_left (List.append_cancel_right (Except.ok.inj heq))
      have htext := congrArg (List.map opText) hbody
      rw [opText_mapIdx, opText_mapIdx] at htext
      exact htext.symm
    · rintro ⟨-, rfl⟩
      exact ⟨lineH ui, rfl⟩

/-! ## The mark -/

/-- A line that ends in `…`. -/
def mark (last : Text) : Text := if ['…'] <:+ last then last else last ++ [' ', '…']

theorem suffix_mark (last : Text) : ['…'] <:+ mark last := by
  unfold mark
  split
  · next h => exact h
  · exact ⟨last ++ [' '], by simp⟩

/-- The lines that are left when some are cut: the last of them is marked. -/
theorem addEllipsis_take {lines : List Text} {n : Nat} (hn : 1 ≤ n) (h : n < lines.length) :
    ∃ last, lines[n - 1]? = some last ∧
      addEllipsis (lines.take n) = lines.take (n - 1) ++ [mark last] := by
  obtain ⟨m, rfl⟩ : ∃ m, n = m + 1 := ⟨n - 1, by omega⟩
  have hm : m < lines.length := by omega
  refine ⟨lines[m], List.getElem?_eq_getElem hm, ?_⟩
  have htake : lines.take (m + 1) = lines.take m ++ [lines[m]] := by
    rw [List.take_add_one, List.getElem?_eq_getElem hm]
    rfl
  unfold addEllipsis
  rw [htake, List.getLast?_concat]
  simp only [List.dropLast_concat]
  rfl

/-! ## The margin -/

/-- The lines that `_draw` draws keep to the margin and to the room, and say when they are not all. -/
structure InMargin (ui : Ui) (self : MessageDialog) (drawn : List Text) : Prop where
  narrow : ∀ l ∈ drawn, textW ui l ≤ self.maxW
  few : drawn.length ≤ self.maxLines ui
  marked : self.maxLines ui < (self.lines ui).length →
    ∃ last, drawn.getLast? = some last ∧ ['…'] <:+ last

/-- The last line there is room for, if others follow it. -/
def lastLine (ui : Ui) (self : MessageDialog) : Option Text :=
  if self.maxLines ui < (self.lines ui).length then (self.lines ui)[self.maxLines ui - 1]? else none

/-- The lines that are drawn as they are. -/
def whole (ui : Ui) (self : MessageDialog) : List Text :=
  if self.maxLines ui < (self.lines ui).length then (self.lines ui).take (self.maxLines ui - 1)
  else self.lines ui

/-- The last line, if others follow it, ends in `…` already or has room for the mark; and the empty text
fits if a blank line is drawn. -/
def HasRoom (ui : Ui) (self : MessageDialog) : Prop :=
  (∀ last ∈ self.lastLine ui, ['…'] <:+ last ∨ textW ui (last ++ [' ', '…']) ≤ self.maxW) ∧
  ([] ∈ self.whole ui → textW ui [] ≤ self.maxW)

theorem fits_lines {ui : Ui} {self : MessageDialog} (hchar : ∀ c, textW ui [c] ≤ self.maxW) {l : Text}
    (hl : l ∈ self.lines ui) (hne : l ≠ []) : textW ui l ≤ self.maxW :=
  fits_wrapLines hchar (mem_of_mem_popEmpty hl) hne

/-- Lines drawn as they are fit, but for blank ones. -/
theorem narrow_iff {ui : Ui} {self : MessageDialog} (hchar : ∀ c, textW ui [c] ≤ self.maxW)
    {drawn : List Text} (hsub : ∀ l ∈ drawn, l ∈ self.lines ui) :
    (∀ l ∈ drawn, textW ui l ≤ self.maxW) ↔ ([] ∈ drawn → textW ui [] ≤ self.maxW) := by
  constructor
  · intro h hmem
    exact h [] hmem
  · intro h l hl
    by_cases hne : l = []
    · subst hne
      exact h hl
    · exact fits_lines hchar (hsub l hl) hne

/-- The lines when none, or some, are cut. -/
theorem drawnLines_cases (ui : Ui) (self : MessageDialog) :
    ((self.lines ui).length ≤ self.maxLines ui ∧ self.lastLine ui = none ∧
      self.drawnLines ui = self.whole ui) ∨
    (self.maxLines ui < (self.lines ui).length ∧ ∃ last, self.lastLine ui = some last ∧
      last ∈ self.lines ui ∧ self.drawnLines ui = self.whole ui ++ [mark last]) := by
  unfold lastLine drawnLines whole
  by_cases h : self.maxLines ui < (self.lines ui).length
  · right
    obtain ⟨last, hlast, hmark⟩ := addEllipsis_take (self.maxLines_pos ui) h
    simp only [if_pos h]
    exact ⟨h, last, hlast, List.mem_of_getElem? hlast, hmark⟩
  · left
    simp only [if_neg h]
    exact ⟨not_lt.mp h, trivial, trivial⟩

theorem whole_subset (ui : Ui) (self : MessageDialog) : ∀ l ∈ self.whole ui, l ∈ self.lines ui := by
  intro l hl
  unfold whole at hl
  split at hl
  · exact List.mem_of_mem_take hl
  · exact hl

theorem few_drawnLines (ui : Ui) (self : MessageDialog) :
    (self.drawnLines ui).length ≤ self.maxLines ui := by
  rcases self.drawnLines_cases ui with ⟨hle, -, heq⟩ | ⟨hlt, last, -, -, heq⟩
  · have hwhole : self.whole ui = self.lines ui := if_neg (not_lt.mpr hle)
    rw [heq, hwhole]
    exact hle
  · have hwhole : self.whole ui = (self.lines ui).take (self.maxLines ui - 1) := if_pos hlt
    have hpos := self.maxLines_pos ui
    rw [heq, hwhole, List.length_append, List.length_take, List.length_singleton]
    omega

theorem marked_drawnLines {ui : Ui} {self : MessageDialog}
    (hcut : self.maxLines ui < (self.lines ui).length) :
    ∃ last, (self.drawnLines ui).getLast? = some last ∧ ['…'] <:+ last := by
  rcases self.drawnLines_cases ui with ⟨hle, -, -⟩ | ⟨-, last, -, -, heq⟩
  · omega
  · rw [heq, List.getLast?_concat]
    exact ⟨_, rfl, suffix_mark last⟩

/-- The mark fits when it was there already, or when there is room for it. -/
theorem textW_mark_le {ui : Ui} {self : MessageDialog} (hchar : ∀ c, textW ui [c] ≤ self.maxW)
    {last : Text} (hlast : last ∈ self.lines ui) : textW ui (mark last) ≤ self.maxW ↔
      ['…'] <:+ last ∨ textW ui (last ++ [' ', '…']) ≤ self.maxW := by
  unfold mark
  by_cases h : ['…'] <:+ last
  · have hne : last ≠ [] := by
      rintro rfl
      simp at h
    rw [if_pos h]
    exact iff_of_true (fits_lines hchar hlast hne) (Or.inl h)
  · rw [if_neg h]
    exact ⟨Or.inr, fun hor => hor.resolve_left h⟩

theorem inMargin_iff (ui : Ui) (self : MessageDialog) (hchar : ∀ c, textW ui [c] ≤ self.maxW) :
    self.InMargin ui (self.drawnLines ui) ↔ self.HasRoom ui := by
  have hnarrow : self.InMargin ui (self.drawnLines ui) ↔
      ∀ l ∈ self.drawnLines ui, textW ui l ≤ self.maxW :=
    ⟨InMargin.narrow, fun h => ⟨h, self.few_drawnLines ui, marked_drawnLines⟩⟩
  have hwhole := narrow_iff hchar (self.whole_subset ui)
  rw [hnarrow, HasRoom, ← hwhole]
  rcases self.drawnLines_cases ui with ⟨-, hnone, heq⟩ | ⟨-, last, hsome, hlast, heq⟩
  · rw [heq, hnone]
    simp
  · rw [heq, hsome]
    simp only [List.mem_append, List.mem_singleton, or_imp, forall_and, forall_eq, Option.mem_def,
      Option.some.injEq, forall_eq', textW_mark_le hchar hlast]
    exact and_comm

/-- **Inside the margin.**  What `_draw` draws keeps to the margin exactly when there is room for the
mark where it is needed (or when it draws nothing: without a line height it raises). -/
theorem draw_inMargin_iff (ui : Ui) (self : MessageDialog) (hchar : ∀ c, textW ui [c] ≤ self.maxW) :
    (∀ drawn, self.Draws ui drawn → self.InMargin ui drawn) ↔ lineH ui = 0 ∨ self.HasRoom ui := by
  simp only [draws_iff]
  by_cases h : lineH ui = 0
  · exact iff_of_true (fun _ hdrawn => absurd h hdrawn.1) (Or.inl h)
  · rw [← inMargin_iff ui self hchar]
    constructor
    · exact fun hall => Or.inr (hall _ ⟨h, rfl⟩)
    · rintro hor drawn ⟨-, rfl⟩
      exact hor.resolve_left h

theorem plain_char (self : MessageDialog) (h : self.margin ≤ 115) (c : Char) :
    textW Ui.plain [c] ≤ self.maxW := by
  show (10 * 1 : ℤ) ≤ 240 - self.margin * 2
  omega

/-- What `Messages` shows after a message is erased. -/
def erased : MessageDialog where
  message := "Erased!".toList

/-- One line has room. -/
theorem draw_inMargin_erased :
    (∀ c, textW Ui.plain [c] ≤ erased.maxW) ∧
    ∀ drawn, erased.Draws Ui.plain drawn → erased.InMargin Ui.plain drawn := by
  have hchar := plain_char erased (by decide)
  refine ⟨hchar, (draw_inMargin_iff Ui.plain erased hchar).mpr (Or.inr ?_)⟩
  unfold HasRoom
  decide +kernel

/-- Nine words that fill a line each, where there is room for eight lines. -/
def nineWords : MessageDialog where
  message := joinSpace (List.replicate 9 (List.replicate 22 'a'))

/-- The eighth line, with the mark, is drawn over the margin. -/
theorem draw_inMargin_not :
    (∀ c, textW Ui.plain [c] ≤ nineWords.maxW) ∧ textW Ui.plain " …".toList ≤ nineWords.maxW ∧
    ¬ ∀ drawn, nineWords.Draws Ui.plain drawn → nineWords.InMargin Ui.plain drawn := by
  have hchar := plain_char nineWords (by decide)
  refine ⟨hchar, by decide, fun h => ?_⟩
  have hdraws : nineWords.Draws Ui.plain (nineWords.drawnLines Ui.plain) :=
    (draws_iff Ui.plain nineWords _).mpr ⟨by decide, rfl⟩
  have hroom := ((inMargin_iff Ui.plain nineWords hchar).mp (h _ hdraws)).1 (List.replicate 22 'a')
    (by decide +kernel)
  revert hroom
  decide +kernel

end MessageDialog

end NeoDCT
