import NeoDCT.Screen

/-!
# Softkey bar and header

`SoftKeyBar` and `HeaderWidget` (ui/framework.py), and the scrollbar notch the lists share.
-/

namespace NeoDCT

open PyText Interactive

/-- The bar `main.py` makes before `ui.softkey` exists is transparent, the bars of apps are not. -/
structure SoftKeyBar where
  isTransparent : Bool

/-- `SoftKeyBar(ui)` in an app or a dialog. -/
def SoftKeyBar.app : SoftKeyBar := ⟨false⟩

/-- `ui.softkey`. -/
def SoftKeyBar.system : SoftKeyBar := ⟨true⟩

def SoftKeyBar.drawOps (ui : Ui) (self : SoftKeyBar) (newText : Option Text) : List DrawOp :=
  let background :=
    if self.isTransparent ∧ ui.wallpaper then DrawOp.paste "wallpaper".toList 0 210
    else fillBox 0 210 240 240 "black"
  match newText with
  | none => [background]
  | some text =>
    if text = [] then [background]
    else
      let (w, h) := ui.getTextSize text .n
      [background, drawText ((240 - w) / 2 : ℤ) (210 + (30 - h) / 2 : ℤ) text .n "white"]

/-- `SoftKeyBar.update`; it presents the canvas unless `present=False`. -/
def SoftKeyBar.update (ui : Ui) (self : SoftKeyBar) (newText : Option Text) (presentNow : Bool) :
    UI Unit := do
  paint (self.drawOps ui newText)
  if presentNow then present else pure ()

theorem SoftKeyBar.update_spec (ui : Ui) (self : SoftKeyBar) (newText : Option Text)
    (presentNow : Bool) (w : World) {E : Halt PyError → World → Prop} :
    wp (self.update ui newText presentNow) (fun _ w' => Drawn w w') E w := by
  refine wp_seq (paint_spec _ w) (fun _ _ h => h) ?_
  intro _ w' hq
  cases presentNow with
  | false => exact hq
  | true => exact wp_mono (present_spec w') (fun _ _ h => hq.trans h) fun _ _ h => h

theorem SoftKeyBar.update_painted (ui : Ui) (bar : SoftKeyBar) (text : Option Text) (w : World)
    {E : Halt PyError → World → Prop} :
    wp (bar.update ui text true)
      (fun _ w' => Painted (bar.drawOps ui text) w w' ∧ w'.io.screen = w'.io.canvas) E w := by
  refine wp_seq (paint_painted _ w) (fun _ _ h => h) fun _ w₁ h₁ => ?_
  refine wp_mono (present_painted w₁) (fun _ w₂ h₂ => ⟨?_, h₂.2⟩) fun _ _ h => h
  simpa using h₁.trans h₂.1

/-- A screen with a softkey under it. -/
theorem SoftKeyBar.show_spec (ui : Ui) (self : SoftKeyBar) (newText : Option Text) (presentNow : Bool)
    (ops : List DrawOp) (w : World) {E : Halt PyError → World → Prop} :
    wp (do paint ops; self.update ui newText presentNow; present : UI Unit)
      (fun _ w' => Drawn w w') E w := by
  refine wp_seq (paint_spec ops w) (fun _ _ h => h) ?_
  intro _ w₁ h₁
  refine wp_seq (update_spec ui self newText presentNow w₁) (fun _ _ h => h) ?_
  intro _ w₂ h₂
  exact wp_mono (present_spec w₂) (fun _ _ h => (h₁.trans h₂).trans h) fun _ _ h => h

/-- `HeaderWidget(ui, root_id).draw(sub_index)`. -/
def headerOps (ui : Ui) (rootId : Text) (subIndex : Option Nat) : List DrawOp :=
  let text := match subIndex with
    | some i => rootId ++ '-' :: (toString i).toList
    | none => rootId
  [drawText (235 - (ui.getTextSize text .n).1 : ℤ) 5 text .n "white"]

/-- The notch of a scrollbar whose track is 160 high and starts at `top`. -/
def notchY (top : ℚ) (selected count : Nat) : ℚ :=
  if 1 < count then top + selected * (160 / (count - 1 : ℕ)) else top

end NeoDCT
