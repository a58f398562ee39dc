import NeoDCT.Browser.Keys
import NeoDCT.Lib.Runs

/-!
# The browser's cursor

In browser mode an arrow key moves the cursor by a step; at the edge of the screen it stops, and
scrolls the page by the step instead.  main.py.old does so (`old_moves`).  main.py calls a method that
it does not have there, after moving the cursor and before drawing it:

    every arrow key of a run does what main.py.old does  ↔  none leads off the screen   (cursor_iff)
-/

namespace NeoDCT.Browser

open PyText Interactive

namespace Window

inductive ArrowKey where
  | Left | Right | Up | Down
deriving DecidableEq, Repr

/-- An arrow key, with or without Shift. -/
structure Arrow where
  key : ArrowKey
  shift : Bool
deriving DecidableEq, Repr

namespace Arrow

def event (a : Arrow) : KeyEvent where
  keyval :=
    match a.key with
    | .Left => .Left
    | .Right => .Right
    | .Up => .Up
    | .Down => .Down
  shift := a.shift

def dx (a : Arrow) : ℤ :=
  match a.key with
  | .Left => -cursorStep a.event
  | .Right => cursorStep a.event
  | .Up | .Down => 0

def dy (a : Arrow) : ℤ :=
  match a.key with
  | .Up => -cursorStep a.event
  | .Down => cursorStep a.event
  | .Left | .Right => 0

end Arrow

/-- On the 240 × 240 screen. -/
def OnScreen (z : ℤ) : Prop := 0 ≤ z ∧ z ≤ 239

instance (z : ℤ) : Decidable (OnScreen z) := inferInstanceAs (Decidable (_ ∧ _))

/-- The nearest place on the screen. -/
def clamp (z : ℤ) : ℤ := max 0 (min 239 z)

theorem clamp_of_onScreen {z : ℤ} (h : OnScreen z) : clamp z = z := by
  unfold clamp
  rw [min_eq_right h.2, max_eq_right h.1]

theorem clamp_onScreen (z : ℤ) : OnScreen (clamp z) := by
  unfold clamp
  constructor
  · exact le_max_left 0 _
  · exact max_le (by omega) (min_le_left 239 z)

theorem clamp_of_neg {z : ℤ} (h : z < 0) : clamp z = 0 := by
  unfold clamp
  omega

theorem clamp_of_large {z : ℤ} (h : 240 ≤ z) : clamp z = 239 := by
  unfold clamp
  omega

/-- Neither the popup nor the menu is open, the URL bar does not have the focus, and the cursor is on
the screen. -/
structure Browsing (w : Window) : Prop where
  popup : w.inputVisible = false
  menu : w.menuVisible = false
  focus : w.focus ≠ .entry
  x : OnScreen w.cursorX
  y : OnScreen w.cursorY

/-- The arrow's target is on the screen. -/
def StaysOn (w : Window) (a : Arrow) : Prop :=
  OnScreen (w.cursorX + a.dx) ∧ OnScreen (w.cursorY + a.dy)

instance (w : Window) (a : Arrow) : Decidable (StaysOn w a) := inferInstanceAs (Decidable (_ ∧ _))

/-- What an arrow key should do: it moves the cursor to its target, or as near as the screen allows,
and then scrolls the page by the step; the cursor is drawn where it is. -/
structure Moves (w : Window) (a : Arrow) (w' : Window) : Prop where
  x : w'.cursorX = clamp (w.cursorX + a.dx)
  y : w'.cursorY = clamp (w.cursorY + a.dy)
  scripts : w'.scripts = w.scripts ++ if StaysOn w a then [] else [scrollScript a.dx a.dy]
  drawn : w'.cursorImg = (w'.cursorX - 5, w'.cursorY - 5)
  browsing : Browsing w'

variable {w : Window} {a : Arrow} {scrollPage : ℤ → ℤ → Handler Unit}

/-! ## One key -/

/-- The window after an arrow key. -/
def pressed (scrollPage : ℤ → ℤ → Handler Unit) (w : Window) (a : Arrow) : Window :=
  step scrollPage w (.key a.event)

/-- The branch of `on_key` that an arrow key takes. -/
def Arrow.move (scrollPage : ℤ → ℤ → Handler Unit) (a : Arrow) : Handler Unit :=
  match a.key with
  | .Left => moveLeft scrollPage (cursorStep a.event)
  | .Right => moveRight scrollPage (cursorStep a.event)
  | .Up => moveUp scrollPage (cursorStep a.event)
  | .Down => moveDown scrollPage (cursorStep a.event)

/-- The window with the cursor elsewhere, before it is drawn there. -/
def cursorTo (w : Window) (x y : ℤ) : Window := { w with cursorX := x, cursorY := y }

/-- The window with the cursor drawn where it is. -/
def drawn (w : Window) : Window :=
  { w with
    cursorImg := (w.cursorX - 5, w.cursorY - 5)
    calls := w.calls ++ [.motion w.cursorX w.cursorY] }

theorem onKey_arrow (hw : Browsing w) : onKey scrollPage a.event w =
    (do a.move scrollPage; updateCursorPosition; pure true : Handler Bool) w := by
  obtain ⟨key, shift⟩ := a
  show (if w.inputVisible then _ else if w.menuVisible then _ else if w.focus = .entry then _
    else onKeyBrowser scrollPage _ : Handler Bool) w = _
  rw [hw.popup, hw.menu, if_neg Bool.false_ne_true, if_neg Bool.false_ne_true, if_neg hw.focus]
  cases key <;> simp [onKeyBrowser, onKeyCursor, Arrow.event, Arrow.move, Keyval.isEnter]

theorem step_pos (a : Arrow) : 0 < cursorStep a.event := by
  unfold cursorStep
  split <;> omega

/-- Where the target is on the screen, the branch that scrolls is not taken. -/
theorem move_on (h : StaysOn w a) :
    a.move scrollPage w = .ok () (cursorTo w (w.cursorX + a.dx) (w.cursorY + a.dy)) := by
  obtain ⟨key, shift⟩ := a
  obtain ⟨⟨hx, hx'⟩, hy, hy'⟩ := h
  have hpos := step_pos ⟨key, shift⟩
  cases key with
  | Left =>
    show (if w.cursorX - cursorStep _ < 0 then _ else _ : Handler Unit) w = _
    rw [if_neg (show ¬ w.cursorX - cursorStep _ < 0 by simp only [Arrow.dx] at hx; omega)]
    show EStateM.Result.ok () _ = _
    simp [cursorTo, Arrow.dx, Arrow.dy, sub_eq_add_neg]
  | Right =>
    show (if 240 ≤ w.cursorX + cursorStep _ then _ else _ : Handler Unit) w = _
    rw [if_neg (show ¬ 240 ≤ w.cursorX + cursorStep _ by simp only [Arrow.dx] at hx'; omega)]
    show EStateM.Result.ok () _ = _
    simp [cursorTo, Arrow.dx, Arrow.dy]
  | Up =>
    show (if w.cursorY - cursorStep _ < 0 then _ else _ : Handler Unit) w = _
    rw [if_neg (show ¬ w.cursorY - cursorStep _ < 0 by simp only [Arrow.dy] at hy; omega)]
    show EStateM.Result.ok () _ = _
    simp [cursorTo, Arrow.dx, Arrow.dy, sub_eq_add_neg]
  | Down =>
    show (if 240 ≤ w.cursorY + cursorStep _ then _ else _ : Handler Unit) w = _
    rw [if_neg (show ¬ 240 ≤ w.cursorY + cursorStep _ by simp only [Arrow.dy] at hy'; omega)]
    show EStateM.Result.ok () _ = _
    simp [cursorTo, Arrow.dx, Arrow.dy]

/-- Else it is: the cursor is put at the edge, and the page is scrolled. -/
theorem move_off (hw : Browsing w) (h : ¬ StaysOn w a) :
    a.move scrollPage w = scrollPage a.dx a.dy
      (cursorTo w (clamp (w.cursorX + a.dx)) (clamp (w.cursorY + a.dy))) := by
  obtain ⟨key, shift⟩ := a
  have hpos := step_pos ⟨key, shift⟩
  have hx := hw.x
  have hy := hw.y
  unfold StaysOn OnScreen at h
  unfold OnScreen at hx hy
  cases key with
  | Left =>
    simp only [Arrow.dx, Arrow.dy, add_zero] at h ⊢
    have hoff : w.cursorX - cursorStep (Arrow.event ⟨.Left, shift⟩) < 0 := by omega
    rw [clamp_of_neg (by omega), clamp_of_onScreen hy]
    show (if w.cursorX - cursorStep _ < 0 then _ else _ : Handler Unit) w = _
    rw [if_pos hoff]
    rfl
  | Right =>
    simp only [Arrow.dx, Arrow.dy, add_zero] at h ⊢
    have hoff : 240 ≤ w.cursorX + cursorStep (Arrow.event ⟨.Right, shift⟩) := by omega
    rw [clamp_of_large hoff, clamp_of_onScreen hy]
    show (if 240 ≤ w.cursorX + cursorStep _ then _ else _ : Handler Unit) w = _
    rw [if_pos hoff]
    rfl
  | Up =>
    simp only [Arrow.dx, Arrow.dy, add_zero] at h ⊢
    have hoff : w.cursorY - cursorStep (Arrow.event ⟨.Up, shift⟩) < 0 := by omega
    rw [clamp_of_neg (z := w.cursorY + _) (by omega), clamp_of_onScreen hx]
    show (if w.cursorY - cursorStep _ < 0 then _ else _ : Handler Unit) w = _
    rw [if_pos hoff]
    rfl
  | Down =>
    simp only [Arrow.dx, Arrow.dy, add_zero] at h ⊢
    have hoff : 240 ≤ w.cursorY + cursorStep (Arrow.event ⟨.Down, shift⟩) := by omega
    rw [clamp_of_large hoff, clamp_of_onScreen hx]
    show (if 240 ≤ w.cursorY + cursorStep _ then _ else _ : Handler Unit) w = _
    rw [if_pos hoff]
    rfl

theorem pressed_eq : pressed scrollPage w a = finalState (onKey scrollPage a.event) w :=
  finalState_map _ _ _

/-- The window after the cursor was moved and drawn. -/
def movedBy (w : Window) (a : Arrow) : Window :=
  drawn (cursorTo w (clamp (w.cursorX + a.dx)) (clamp (w.cursorY + a.dy)))

theorem moves_of (hw : Browsing w) {w' : Window} (h : w' = { movedBy w a with
    scripts := w.scripts ++ if StaysOn w a then [] else [scrollScript a.dx a.dy] }) :
    Moves w a w' := by
  subst h
  constructor
  · rfl
  · rfl
  · rfl
  · rfl
  · exact ⟨hw.popup, hw.menu, hw.focus, clamp_onScreen _, clamp_onScreen _⟩

theorem onKey_on (hw : Browsing w) (h : StaysOn w a) :
    onKey scrollPage a.event w = .ok true (movedBy w a) := by
  rw [onKey_arrow hw]
  show EStateM.bind _ _ w = _
  unfold EStateM.bind
  rw [move_on h]
  unfold movedBy
  rw [clamp_of_onScreen h.1, clamp_of_onScreen h.2]
  rfl

/-- At the edge, main.py.old scrolls, and then draws the cursor. -/
theorem onKey_old_off (hw : Browsing w) (h : ¬ StaysOn w a) : onKey Old.scrollPage a.event w =
    .ok true { movedBy w a with scripts := w.scripts ++ [scrollScript a.dx a.dy] } := by
  rw [onKey_arrow hw]
  show EStateM.bind _ _ w = _
  unfold EStateM.bind
  rw [move_off hw h]
  rfl

/-- main.py raises, and does not. -/
theorem onKey_main_off (hw : Browsing w) (h : ¬ StaysOn w a) : onKey noScrollPage a.event w =
    .error (.raised .attributeError)
      (cursorTo w (clamp (w.cursorX + a.dx)) (clamp (w.cursorY + a.dy))) := by
  rw [onKey_arrow hw]
  show EStateM.bind _ _ w = _
  unfold EStateM.bind
  rw [move_off hw h]
  rfl

/-- main.py.old's handler does what it should, at the edge and elsewhere. -/
theorem old_moves (hw : Browsing w) (a : Arrow) : raised? (onKey Old.scrollPage a.event) w = none ∧
    Moves w a (pressed Old.scrollPage w a) := by
  rw [pressed_eq]
  unfold raised? finalState
  by_cases h : StaysOn w a
  · rw [onKey_on hw h]
    refine ⟨rfl, moves_of hw ?_⟩
    rw [if_pos h, List.append_nil]
    rfl
  · rw [onKey_old_off hw h]
    refine ⟨rfl, moves_of hw ?_⟩
    rw [if_neg h]

/-- main.py's handler does not raise on an arrow key, moves the cursor as it should, and leaves the
window that main.py.old's leaves. -/
def Refines (w : Window) (a : Arrow) : Prop :=
  raised? (onKey noScrollPage a.event) w = none ∧ Moves w a (pressed noScrollPage w a) ∧
    pressed noScrollPage w a = pressed Old.scrollPage w a

theorem refines_iff (hw : Browsing w) (a : Arrow) : Refines w a ↔ StaysOn w a := by
  constructor
  · rintro ⟨hraised, -, -⟩
    by_contra h
    unfold raised? at hraised
    rw [onKey_main_off hw h] at hraised
    cases hraised
  · intro h
    have hsame : pressed noScrollPage w a = pressed Old.scrollPage w a := by
      rw [pressed_eq, pressed_eq]
      unfold finalState
      rw [onKey_on hw h, onKey_on hw h]
    refine ⟨?_, ?_, hsame⟩
    · unfold raised?
      rw [onKey_on hw h]
    · rw [hsame]
      exact (old_moves hw a).2

/-! ## Runs -/

/-- main.py.old's handler does what it should throughout a run of arrow keys; main.py's does as much,
and the same, exactly when no arrow key leads off the screen. -/
theorem cursor_iff (w : Window) (hw : Browsing w) (arrows : List Arrow) :
    EveryStep (pressed Old.scrollPage) (fun w a =>
      raised? (onKey Old.scrollPage a.event) w = none ∧ Moves w a (pressed Old.scrollPage w a)) w
      arrows ∧
    (EveryStep (pressed noScrollPage) Refines w arrows ↔
      EveryStep (pressed noScrollPage) StaysOn w arrows) := by
  constructor
  · have hbrowsing : Always (pressed Old.scrollPage) Browsing w arrows :=
      always_induct Browsing hw fun pre a _ h => (old_moves h a).2.browsing
    intro pre a hpre
    exact old_moves (hbrowsing.before hpre) a
  · refine everyStep_iff Browsing ?_ (fun w a h => refines_iff h a) hw
    intro w a h hon
    exact ((refines_iff h a).mpr hon).2.1.browsing

theorem init_browsing : Browsing init := by
  constructor
  · rfl
  · rfl
  · decide
  · decide
  · decide

/-- From the start, in the middle of the screen. -/
theorem cursor_iff_init : Browsing init ∧
    (EveryStep (pressed noScrollPage) Refines init [⟨.Left, true⟩, ⟨.Up, false⟩] ↔
      EveryStep (pressed noScrollPage) StaysOn init [⟨.Left, true⟩, ⟨.Up, false⟩]) :=
  ⟨init_browsing, (cursor_iff init init_browsing [⟨.Left, true⟩, ⟨.Up, false⟩]).2⟩

/-- Nine times Shift and Left, from the middle of the screen: 120, 106, …, 8, and then off it. -/
theorem not_refines :
    ¬ EveryStep (pressed noScrollPage) Refines init (List.replicate 9 ⟨.Left, true⟩) := by
  intro h
  have hraised : raised? (onKey noScrollPage (Arrow.event ⟨.Left, true⟩))
      ((List.replicate 8 ⟨.Left, true⟩).foldl (pressed noScrollPage) init) = none :=
    (h (List.replicate 8 ⟨.Left, true⟩) ⟨.Left, true⟩ (by decide)).1
  revert hraised
  decide

end Window

end NeoDCT.Browser
