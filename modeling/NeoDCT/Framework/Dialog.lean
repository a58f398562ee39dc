import NeoDCT.Framework.Bars
import NeoDCT.Wrap

/-!
# MessageDialog

The full-screen modal of ui/framework.py: it wraps its message into the space below the icon or
the title, and waits for one of its keys.
-/

namespace NeoDCT

open PyText Interactive

structure MessageDialog where
  message : Text
  title : Option Text := none
  iconPath : Text := "/NeoDCT/System/ui/resources/img/errorscreen/warning.png".toList
  buttonText : Text := "OK".toList
  acceptKeys : List Nat := [28]
  cancelKeys : List Nat := [14]
  margin : ℤ := 8

namespace MessageDialog

/-- `getattr(ui, "font_md", None) or getattr(ui, "font_n", None)`. -/
def fontTitle (ui : Ui) : Font := if ui.hasFontMd then .md else .n

/-- Where the body starts, and the drawing above it. -/
def header (ui : Ui) (self : MessageDialog) : ℤ × List DrawOp :=
  let icon := ui.getImage self.iconPath
  let iconOps := if icon.isSome then [.paste self.iconPath self.margin self.margin] else []
  match self.title with
  | some (c :: cs) =>
    let titleX := self.margin + match icon with
      | some (width, _) => width + 6
      | none => 0
    let th := (ui.getTextSize (c :: cs) (fontTitle ui)).2
    (max self.margin (self.margin + th + 6),
      iconOps ++ [drawText titleX self.margin (c :: cs) (fontTitle ui) "white"])
  | _ =>
    match icon with
    | some (_, height) => (self.margin + height + 6, iconOps)
    | none => (self.margin, iconOps)

/-- `lines[-1] + " …"`, unless it ends in `…` already. -/
def addEllipsis (lines : List Text) : List Text :=
  match lines.getLast? with
  | none => lines
  | some last => lines.dropLast ++ [if ['…'] <:+ last then last else last ++ [' ', '…']]

/-- The body lines `_draw` shows when there is room from `y` down. -/
def bodyLines (ui : Ui) (self : MessageDialog) (y : ℤ) : Except PyError (List Text × ℤ) :=
  let lines := wrapText (fun s => (ui.getTextSize s .s).1) (240 - self.margin * 2) self.message
  let lineH := (ui.getTextSize "Ag".toList .s).2 + 3
  if lineH = 0 then .error .zeroDivisionError
  else
    let maxLines := (max 1 (Int.tdiv (210 - y - self.margin) lineH)).toNat
    .ok (if maxLines < lines.length then addEllipsis (lines.take maxLines) else lines, lineH)

/-- `_draw`. -/
def drawOps (ui : Ui) (self : MessageDialog) : Except PyError (List DrawOp) := do
  let (y, top) := self.header ui
  let (lines, lineH) ← self.bodyLines ui y
  pure ([fillBox 0 0 240 240 "black"] ++ top ++
    (lines.mapIdx fun i line => drawText self.margin (y + i * lineH : ℤ) line .s "white") ++
    SoftKeyBar.app.drawOps ui (some self.buttonText))

def draw (ui : Ui) (self : MessageDialog) : UI Unit := do
  let ops ← attempt (self.drawOps ui)
  paint ops
  present

def showBody (self : MessageDialog) (_ : Unit) : UI (Unit ⊕ Nat) := do
  let key ← waitForKey
  if key ∈ self.acceptKeys ∨ key ∈ self.cancelKeys then pure (.inr key) else pure (.inl ())

/-- `MessageDialog.show`. -/
def showModal (ui : Ui) (self : MessageDialog) : UI Nat := do
  flushInput
  self.draw ui
  loop self.showBody ()

theorem draw_spec (ui : Ui) (self : MessageDialog) (w : World) :
    wp (self.draw ui) (fun _ w' => Drawn w w') (fun _ w' => Drawn w w') w :=
  attemptShow_spec _ w

theorem showBody_spec (self : MessageDialog) (u : Unit) (w : World) :
    wp (self.showBody u) (fun _ w' => Reads w w') (fun _ w' => Quiet w w') w := by
  refine wp_seq (waitForKey_spec w) (fun _ _ h => h.2.2) ?_
  rintro key w₁ ⟨hr, -⟩
  split <;> exact hr

theorem showModal_spec (ui : Ui) (self : MessageDialog) (w : World) :
    wp (self.showModal ui) (fun _ w' => Reads w w') (fun _ w' => Quiet w w') w :=
  modal_reads (draw_spec ui self) self.showBody_spec () w

end MessageDialog

end NeoDCT
