import NeoDCT.Layout
import NeoDCT.Framework.Bars

/-!
# The call screen

ui/Dialer/call_screen.py.  `show_calling` blocks until one of its two End keys is pressed, and then
hangs up.  Every time it shows the screen it leaves a journal entry.
-/

namespace NeoDCT

open PyText Interactive

namespace CallScreen

/-- `_read_keypress`. -/
def readKey : UI (Option Nat) := do
  let p ← poll
  pure (p.data.bind CallScreen.readKeypress)

/-- `_draw_handset_icon`. -/
def handsetIcon (x y : ℚ) : List DrawOp :=
  [.rectangle x (y + 2) (x + 18) (y + 10) none (some (.named "white")),
    fillBox (x + 1) (y + 3) (x + 5) (y + 5) "white",
    fillBox (x + 13) (y + 7) (x + 17) (y + 9) "white"]

/-- The binary search of `_fit_text`. -/
def fitLoop (fits : Text → Bool) (text : Text) (lo hi : ℤ) (best : Text) : Text :=
  if lo ≤ hi then
    let mid := (lo + hi) / 2
    let candidate := text.take mid.toNat ++ ['…']
    if fits candidate then fitLoop fits text (mid + 1) hi candidate
    else fitLoop fits text lo (mid - 1) best
  else best
termination_by (hi + 1 - lo).toNat
decreasing_by all_goals omega

/-- `_fit_text`. -/
def fitText (ui : Ui) (text : Text) (maxWidth : ℤ) (preferFont : Font) : Text × Font :=
  if (ui.getTextSize text preferFont).1 ≤ maxWidth then (text, preferFont)
  else if (ui.getTextSize text .s).1 ≤ maxWidth then (text, .s)
  else if text = [] then ([], .s)
  else
    let best := fitLoop (fun s => (ui.getTextSize s .s).1 ≤ maxWidth) text 0 text.length []
    (if best ≠ [] then best else ['…'], .s)

/-- `number if number else ""`, where a text is needed. -/
def numberText : PyVal → Except PyError Text
  | .str s => .ok s
  | .int i => if i = 0 then .ok [] else .error .typeError
  | .row _ => .error .typeError

/-- `el.get("type") == "text" and el.get("text") == "12:00"`. -/
def isClock (el : Json) : Except PyError Bool := do
  if (← el.get "type" .null).isStr "text" then
    pure ((← el.get "text" .null).isStr "12:00")
  else pure false

/-- `el.get("type") == "icon_set" and el.get("prefix") in ("bat", "sig")`. -/
def isStatusIcon (el : Json) : Except PyError Bool := do
  if (← el.get "type" .null).isStr "icon_set" then
    let pfx ← el.get "prefix" .null
    pure (pfx.isStr "bat" || pfx.isStr "sig")
  else pure false

/-- The first of the two loops over the layout: it stops at the clock. -/
def clockOps (ui : Ui) (clock : ℚ) : List Json → Except PyError (List DrawOp)
  | [] => .ok []
  | el :: els => do if ← isClock el then renderElement ui clock el else clockOps ui clock els

/-- The second one. -/
def statusOps (ui : Ui) (clock : ℚ) (els : List Json) : Except PyError (List DrawOp) := do
  let ops ← els.mapM fun el => do
    if ← isStatusIcon el then renderElement ui clock el else pure []
  pure ops.flatten

/-- `ui.home_layout.get("elements", [])`. -/
def layoutElements (ui : Ui) : Except PyError (List Json) := do
  let layout := ui.homeLayout.getD .null
  (← layout.get "elements" (.arr [])).elements

/-- `draw_call_screen`. -/
def drawOps (ui : Ui) (clock : ℚ) (number : PyVal) : Except PyError (List DrawOp) := do
  let numText ← numberText number
  let (fittedNum, numFont) := fitText ui numText (240 - 40 - 10) .n
  let els ← layoutElements ui
  let clockPart ← clockOps ui clock els
  let statusPart ← statusOps ui clock els
  pure ([fillBox 0 0 240 240 "black"] ++ handsetIcon 8 10 ++
    [drawText 40 58 "Call 1".toList .n "white", drawText 40 84 fittedNum numFont "white"] ++
    clockPart ++ statusPart)

/-- `draw_call_screen(…)`, `ui.fb.update(ui.canvas)`. -/
def draw (ui : Ui) (number : PyVal) : UI Unit := do
  let t ← now
  let ops ← attempt (drawOps ui t number)
  paint ops
  present
  record (.calling number)

/-- The head of the loop: a fresh screen every quarter of a second. -/
def refresh (ui : Ui) (number : PyVal) (lastDraw : ℚ) : UI ℚ := do
  let t ← now
  if 1 / 4 ≤ t - lastDraw then
    draw ui number
    SoftKeyBar.app.update ui (some "End".toList) true
    pure t
  else pure lastDraw

/-- One iteration of `show_calling`. -/
def showBody (ui : Ui) (number : PyVal) (lastDraw : ℚ) : UI (ℚ ⊕ Unit) := do
  let lastDraw ← refresh ui number lastDraw
  match ← readKey with
  | none => pure (.inl lastDraw)
  | some key =>
    if key = 14 ∨ key = 28 then
      record .hangup
      pure (.inr ())
    else pure (.inl lastDraw)

/-- `show_calling`. -/
def showCalling (ui : Ui) (number : PyVal) : UI Unit := do
  flushInput
  loop (showBody ui number) 0

/-! ## What a call leaves in the journal -/

/-- Some showings of the call screen. -/
def Showings (number : PyVal) (evs : List Event) : Prop := ∀ e ∈ evs, e = .calling number

theorem draw_spec (ui : Ui) (number : PyVal) (w : World) :
    wp (draw ui number) (fun _ w' => Logged [.calling number] w w')
      (fun _ w' => Drawn w w') w := by
  refine wp_seq (now_spec w) (fun _ _ h => h) ?_
  rintro t _ ⟨-, rfl⟩
  refine wp_seq (attempt_spec _ _) ?_ ?_
  · rintro _ _ ⟨e, -, rfl⟩
    exact Drawn.refl _
  rintro ops _ ⟨-, rfl⟩
  refine wp_mono (recordShow_spec ops _ _) ?_ fun _ _ h => h
  rintro _ _ ⟨w₁, h₁, rfl⟩
  exact Logged.single h₁.quiet _

theorem refresh_spec (ui : Ui) (number : PyVal) (lastDraw : ℚ) (w : World) :
    wp (refresh ui number lastDraw)
      (fun _ w' => ∃ evs, Showings number evs ∧ Logged evs w w')
      (fun _ w' => ∃ evs, Showings number evs ∧ Logged evs w w') w := by
  have none : Showings number [] := by simp [Showings]
  refine wp_seq (now_spec w) (fun _ _ h => h) ?_
  rintro t _ ⟨-, rfl⟩
  split
  · refine wp_seq (draw_spec ui number _) (fun _ _ h => ⟨[], none, h.quiet.logged⟩) ?_
    intro _ w₁ h₁
    refine wp_seq (SoftKeyBar.update_spec ui _ _ _ w₁) (fun _ _ h => h) ?_
    intro _ w₂ h₂
    exact ⟨_, by simp [Showings], h₁.trans_quiet h₂.quiet⟩
  · exact ⟨[], none, (Quiet.refl _).logged⟩

theorem readKey_spec (w : World) :
    wp readKey (fun _ w' => Reads w w') (fun h w' => h = .waiting ∧ Quiet w w') w :=
  poll_reads (fun p => p.data.bind CallScreen.readKeypress) w

/-- **A call ends with a hangup**: the journal gets showings of the screen, then one hangup. -/
theorem showCalling_spec (ui : Ui) (number : PyVal) (w : World) :
    wp (showCalling ui number)
      (fun _ w' => ∃ evs, Showings number evs ∧ Logged (evs ++ [.hangup]) w w')
      (fun _ w' => ∃ evs, Showings number evs ∧ Logged evs w w') w := by
  have none : Showings number [] := by simp [Showings]
  refine wp_seq (flushInput_spec w) (fun _ _ h => ⟨[], none, h.2.logged⟩) ?_
  intro _ w₀ h₀
  refine wp_loop (fun _ w' => ∃ evs, Showings number evs ∧ Logged evs w w')
    ⟨[], none, h₀.quiet.logged⟩ ?_
  rintro lastDraw w₁ ⟨evs, hevs, h₁⟩
  have more : ∀ {evs' w₂}, Showings number evs' → Logged evs' w₁ w₂ →
      Showings number (evs ++ evs') ∧ Logged (evs ++ evs') w w₂ := fun hs h =>
    ⟨fun e he => (List.mem_append.mp he).elim (hevs e) (hs e), h₁.trans h⟩
  refine wp_seq (refresh_spec ui number lastDraw w₁) ?_ ?_
  · rintro _ w₂ ⟨evs', hs, h⟩
    exact ⟨_, more hs h⟩
  rintro lastDraw' w₂ ⟨evs', hs, h⟩
  obtain ⟨hs₂, h₂⟩ := more hs h
  refine wp_seq (readKey_spec w₂) (fun _ _ h => ⟨_, hs₂, h₂.trans_quiet h.2⟩) ?_
  intro key w₃ hr
  have h₃ := h₂.trans_quiet hr.quiet
  have hlt : w₃.io.input.length < w₁.io.input.length := by
    exact lt_of_lt_of_le hr.remaining h.input
  cases key with
  | none => exact ⟨⟨_, hs₂, h₃⟩, hlt⟩
  | some key =>
    simp only []
    split
    · refine wp_seq (record_spec .hangup w₃) (fun _ _ h => h) ?_
      rintro _ _ rfl
      exact ⟨_, hs₂, h₃.trans (Logged.single (Quiet.refl w₃) _)⟩
    · exact ⟨⟨_, hs₂, h₃⟩, hlt⟩

end CallScreen

end NeoDCT
