import NeoDCT.Browser.Popup
import NeoDCT.Screen

/-!
# The browser's key handler

`VerticalListWidget` and the parts of `NeoDCTBrowser` that keys, timers and JavaScript results work on
(neodct-browser/main.py).  A `Window` is a browser window; a handler is a program over it, which keeps
what it did before it raised, as GTK's main loop does when it prints the exception and goes on.

`on_key` is the same text in main.py and main.py.old; the two differ in `scroll_page`, which only
main.py.old defines.  It is a parameter here.
-/

namespace NeoDCT.Browser

open PyText Interactive

/-! ## The menu widget -/

/-- A label of `row_widgets`. -/
structure RowWidget where
  text : Text
  visible : Bool
  /-- Whether it has the class `neodct-menu-item-selected`. -/
  selected : Bool
deriving DecidableEq, Repr

structure VerticalListWidget where
  items : List Text
  visible : Bool
  selectedIndex : Nat := 0
  windowStart : Nat := 0
  maxLines : Nat := 3
  rowWidgets : List RowWidget := List.replicate 3 ⟨[], true, false⟩
deriving DecidableEq

inductive Direction where
  | UP | DOWN | SELECT
deriving DecidableEq, Repr

namespace VerticalListWidget

/-- `refresh_view`. -/
def refreshView (self : VerticalListWidget) : VerticalListWidget :=
  { self with
    rowWidgets := self.rowWidgets.mapIdx fun i widget =>
      match self.items[self.windowStart + i]? with
      | some item => ⟨item, true, self.windowStart + i = self.selectedIndex⟩
      | none => { widget with visible := false } }

/-- `__init__`. -/
def init (items : List Text) : VerticalListWidget :=
  refreshView { items := items, visible := false }

/-- `navigate`, DOWN. -/
def down (self : VerticalListWidget) : VerticalListWidget :=
  if self.selectedIndex + 1 < self.items.length then
    let self := { self with selectedIndex := self.selectedIndex + 1 }
    let self :=
      if self.windowStart + self.maxLines ≤ self.selectedIndex then
        { self with windowStart := self.windowStart + 1 }
      else self
    self.refreshView
  else self

/-- `navigate`, UP. -/
def up (self : VerticalListWidget) : VerticalListWidget :=
  if 0 < self.selectedIndex then
    let self := { self with selectedIndex := self.selectedIndex - 1 }
    let self :=
      if self.selectedIndex < self.windowStart then
        { self with windowStart := self.windowStart - 1 }
      else self
    self.refreshView
  else self

/-- The widget with another selection, redrawn. -/
def select (self : VerticalListWidget) (selectedIndex windowStart : Nat) : VerticalListWidget :=
  refreshView { self with selectedIndex := selectedIndex, windowStart := windowStart }

theorem down_eq (self : VerticalListWidget) : self.down =
    if self.selectedIndex + 1 < self.items.length then
      self.select (self.selectedIndex + 1)
        (if self.windowStart + self.maxLines ≤ self.selectedIndex + 1 then self.windowStart + 1
          else self.windowStart)
    else self := by
  unfold down select
  split
  · simp only []
    split
    · rfl
    · rfl
  · rfl

theorem up_eq (self : VerticalListWidget) : self.up =
    if 0 < self.selectedIndex then
      self.select (self.selectedIndex - 1)
        (if self.selectedIndex - 1 < self.windowStart then self.windowStart - 1
          else self.windowStart)
    else self := by
  unfold up select
  split
  · simp only []
    split
    · rfl
    · rfl
  · rfl

end VerticalListWidget

/-! ## The window -/

/-- The widget that has the keyboard focus. -/
inductive Focus where
  | entry | webview | popupEntry | menu | other
deriving DecidableEq, Repr

/-- What the window asks of GTK and WebKit, besides scripts. -/
inductive Call where
  | motion (x y : ℤ)
  | click (x y : ℤ)
  | action (item : Text)
  | goBack | goForward | reload | loadDefault | quit
deriving DecidableEq, Repr

structure Window extends NeoDCTBrowser where
  menuVisible : Bool
  menuWidget : VerticalListWidget
  focus : Focus
  /-- The text of the URL bar. -/
  entryText : Text
  isHoveringInput : Bool
  cursorX : ℤ
  cursorY : ℤ
  /-- Where `cursor_img` is in `cursor_fixed`. -/
  cursorImg : ℤ × ℤ
  /-- Click timers that have not fired yet. -/
  timers : Nat
  /-- Scripts whose result is still to come. -/
  fetches : Nat
  calls : List Call

def menuItems : List Text :=
  ["Exit", "Go to URL", "Back", "Forward", "Home", "Reload"].map String.toList

/-- The window when the main loop starts. -/
def Window.init : Window where
  inputWidget := { text := [], visible := false }
  inputVisible := false
  softkeyVisible := false
  softkeyText := []
  scripts := []
  menuVisible := false
  menuWidget := VerticalListWidget.init menuItems
  focus := .webview
  entryText := "NeoDCT".toList
  isHoveringInput := false
  cursorX := 120
  cursorY := 120
  cursorImg := (115, 115)
  timers := 0
  fetches := 0
  calls := []

/-- A handler: it may raise, and keeps what it did. -/
abbrev Handler (α : Type) := Prog PyError Window α

namespace Window

def call (c : Call) : Handler Unit := modify fun w => { w with calls := w.calls ++ [c] }

theorem call_spec (c : Call) (w : Window) {E : Halt PyError → Window → Prop} :
    wp (call c) (fun _ w' => w' = { w with calls := w.calls ++ [c] }) E w := rfl

/-- `toggle_input_popup`. -/
def toggleInputPopup (text : Text) : Handler Unit := modify fun w =>
  { w with
    toNeoDCTBrowser := w.toNeoDCTBrowser.toggleInputPopup text
    focus := if w.inputVisible then .webview else .popupEntry }

/-- `on_input_complete`. -/
def onInputComplete : Handler Unit := modify fun w =>
  { w with toNeoDCTBrowser := w.toNeoDCTBrowser.onInputComplete, focus := .webview }

/-- `fetch_and_open_input_popup`: the callback is run later. -/
def fetchAndOpenInputPopup : Handler Unit := modify fun w => { w with fetches := w.fetches + 1 }

/-- The callback of `fetch_and_open_input_popup`; however it ends, it toggles the popup. -/
def fetched (result : Except Unit (Option Text)) : Handler Unit := modify fun w =>
  { w with
    toNeoDCTBrowser := w.toNeoDCTBrowser.fetched result
    focus := if w.inputVisible then .webview else .popupEntry }

/-- `toggle_menu`. -/
def toggleMenu : Handler Unit := modify fun w =>
  if w.menuVisible then
    { w with
      menuVisible := false
      menuWidget := { w.menuWidget with visible := false }
      softkeyVisible := false
      focus := .webview }
  else
    { w with
      menuVisible := true
      menuWidget := { w.menuWidget with visible := true, selectedIndex := 0, windowStart := 0 }
      softkeyVisible := true
      softkeyText := "Select".toList
      focus := .menu }

/-- `on_menu_action`. -/
def onMenuAction (action : Text) : Handler Unit := do
  call (.action action)
  toggleMenu
  if action = "Go to URL".toList then modify fun w => { w with focus := .entry }
  else if action = "Back".toList then call .goBack
  else if action = "Forward".toList then call .goForward
  else if action = "Home".toList then call .loadDefault
  else if action = "Reload".toList then call .reload
  else if action = "Exit".toList then call .quit
  else pure ()

/-- `menu_widget.navigate`; the callback of SELECT is `on_menu_action`. -/
def navigate (direction : Direction) : Handler Unit := do
  let w ← get
  match direction with
  | .DOWN => set { w with menuWidget := w.menuWidget.down }
  | .UP => set { w with menuWidget := w.menuWidget.up }
  | .SELECT =>
    match w.menuWidget.items[w.menuWidget.selectedIndex]? with
    | some item => onMenuAction item
    | none => throw (.raised .indexError)

/-- `update_cursor_position`. -/
def updateCursorPosition : Handler Unit := do
  let w ← get
  set { w with cursorImg := (w.cursorX - 5, w.cursorY - 5) }
  call (.motion w.cursorX w.cursorY)

/-- `click_at_cursor`. -/
def clickAtCursor : Handler Unit := do
  let w ← get
  call (.click w.cursorX w.cursorY)

/-! ## on_key -/

/-- `event.keyval`: the named keys of Gdk, and the values of all others. -/
inductive Keyval where
  | Return | KP_Enter | Escape | BackSpace | Tab | F1 | Left | Right | Up | Down
  /-- `Gdk.KEY_q` and `Gdk.KEY_Q`. -/
  | q
  | other (value : Nat)
deriving DecidableEq, Repr

structure KeyEvent where
  keyval : Keyval
  shift : Bool := false
  control : Bool := false
deriving DecidableEq, Repr

def Keyval.isEnter (k : Keyval) : Bool := k = .Return ∨ k = .KP_Enter

/-- `event.keyval < 0xF000`, for the keys that reach this test. -/
def Keyval.isChar : Keyval → Bool
  | .q => true
  | .other value => value < 0xF000
  | _ => false

/-- `on_key`, 1: the popup is visible. -/
def onKeyPopup (event : KeyEvent) : Handler Bool := do
  let w ← get
  if event.keyval.isEnter then
    onInputComplete
    pure true
  else if event.keyval = .Escape then
    toggleInputPopup []
    pure true
  else if event.keyval = .BackSpace then
    if w.inputWidget.text = [] then
      toggleInputPopup []
      pure true
    else pure false
  else pure false

/-- What a key does in the menu. -/
def menuKey (keyval : Keyval) : Handler Unit :=
  if keyval = .BackSpace then toggleMenu
  else if keyval = .Down then navigate .DOWN
  else if keyval = .Up then navigate .UP
  else if keyval.isEnter then navigate .SELECT
  else if keyval = .Escape ∨ keyval = .Tab ∨ keyval = .F1 then toggleMenu
  else pure ()

/-- `on_key`, 2: the menu is visible. -/
def onKeyMenu (event : KeyEvent) : Handler Bool := do
  menuKey event.keyval
  pure true

/-- `on_key`, 3: the URL bar has the focus. -/
def onKeyEntry (event : KeyEvent) : Handler Bool := do
  let w ← get
  if event.keyval = .Escape then
    set { w with focus := .webview }
    pure true
  else if event.keyval = .BackSpace ∧ w.entryText = [] then
    set { w with focus := .webview }
    pure true
  else pure false

/-- `CURSOR_STEP_FAST` with Shift, else `CURSOR_STEP`. -/
def cursorStep (event : KeyEvent) : ℤ := if event.shift then 14 else 6

def setCursorX (x : ℤ) : Handler Unit := modify fun w => { w with cursorX := x }

def setCursorY (y : ℤ) : Handler Unit := modify fun w => { w with cursorY := y }

/-- `on_key`, 6, Left. -/
def moveLeft (scrollPage : ℤ → ℤ → Handler Unit) (step : ℤ) : Handler Unit := do
  let w ← get
  let target := w.cursorX - step
  if target < 0 then
    setCursorX 0
    scrollPage (-step) 0
  else setCursorX target

/-- `on_key`, 6, Right. -/
def moveRight (scrollPage : ℤ → ℤ → Handler Unit) (step : ℤ) : Handler Unit := do
  let w ← get
  let target := w.cursorX + step
  if 240 ≤ target then
    setCursorX (240 - 1)
    scrollPage step 0
  else setCursorX target

/-- `on_key`, 6, Up. -/
def moveUp (scrollPage : ℤ → ℤ → Handler Unit) (step : ℤ) : Handler Unit := do
  let w ← get
  let target := w.cursorY - step
  if target < 0 then
    setCursorY 0
    scrollPage 0 (-step)
  else setCursorY target

/-- `on_key`, 6, Down. -/
def moveDown (scrollPage : ℤ → ℤ → Handler Unit) (step : ℤ) : Handler Unit := do
  let w ← get
  let target := w.cursorY + step
  if 240 ≤ target then
    setCursorY (240 - 1)
    scrollPage 0 step
  else setCursorY target

/-- `on_key`, 6, Enter: a click, and after it a timer when it hit a field. -/
def click : Handler Unit := do
  clickAtCursor
  let w ← get
  if w.isHoveringInput then set { w with timers := w.timers + 1 } else pure ()

/-- `on_key`, 6: the cursor.  Only the keys that move it, and those that nothing handles, update its
position. -/
def onKeyCursor (scrollPage : ℤ → ℤ → Handler Unit) (event : KeyEvent) : Handler Bool :=
  let step := cursorStep event
  let updated (h : Handler Unit) : Handler Bool := do
    h
    updateCursorPosition
    pure true
  if event.keyval = .Left then updated (moveLeft scrollPage step)
  else if event.keyval = .Right then updated (moveRight scrollPage step)
  else if event.keyval = .Up then updated (moveUp scrollPage step)
  else if event.keyval = .Down then updated (moveDown scrollPage step)
  else if event.keyval.isEnter then
    if event.shift then pure false
    else do
      click
      pure true
  else if event.keyval = .q ∧ event.control then do
    call .quit
    pure true
  else if event.keyval.isChar then pure false
  else updated (pure ())

/-- `on_key`, 4 and on: neither the popup nor the menu is visible. -/
def onKeyBrowser (scrollPage : ℤ → ℤ → Handler Unit) (event : KeyEvent) : Handler Bool := do
  let w ← get
  if w.focus = .webview ∧ event.keyval.isEnter ∧ event.shift then
    toggleInputPopup []
    pure true
  else if w.focus = .webview ∧ event.keyval = .BackSpace ∧ w.isHoveringInput then pure false
  else if event.keyval = .BackSpace ∨ event.keyval = .F1 then
    toggleMenu
    pure true
  else onKeyCursor scrollPage event

/-- `on_key`. -/
def onKey (scrollPage : ℤ → ℤ → Handler Unit) (event : KeyEvent) : Handler Bool := do
  let w ← get
  if w.inputVisible then onKeyPopup event
  else if w.menuVisible then onKeyMenu event
  else if w.focus = .entry then onKeyEntry event
  else onKeyBrowser scrollPage event

/-- `self.scroll_page` in main.py: there is no such method. -/
def noScrollPage (_dx _dy : ℤ) : Handler Unit := throw (.raised .attributeError)

/-- The script of main.py.old's `scroll_page`. -/
def scrollScript (dx dy : ℤ) : Text := s!"window.scrollBy({dx}, {dy});".toList

/-- `scroll_page` in main.py.old. -/
def Old.scrollPage (dx dy : ℤ) : Handler Unit :=
  modify fun w => { w with scripts := w.scripts ++ [scrollScript dx dy] }

/-! ## Events -/

/-- What the main loop dispatches.  Hovering, the focus and the texts of the two entries are also
changed by GTK and WebKit themselves. -/
inductive Event where
  | key (event : KeyEvent)
  | timer
  | result (result : Except Unit (Option Text))
  | hover (editable : Bool)
  | focusMoved (focus : Focus)
  | popupTyped (text : Text)
  | entryTyped (text : Text)

/-- A timer can only fire, and a result only come, when one is pending. -/
def handle (scrollPage : ℤ → ℤ → Handler Unit) : Event → Handler Unit
  | .key event => do
    let _ ← onKey scrollPage event
  | .timer => do
    let w ← get
    match w.timers with
    | 0 => pure ()
    | n + 1 => do
      set { w with timers := n }
      fetchAndOpenInputPopup
  | .result result => do
    let w ← get
    match w.fetches with
    | 0 => pure ()
    | n + 1 => do
      set { w with fetches := n }
      fetched result
  | .hover editable => modify fun w => { w with isHoveringInput := editable }
  | .focusMoved focus => modify fun w => { w with focus := focus }
  | .popupTyped text => modify fun w =>
    { w with inputWidget := { w.inputWidget with text := text } }
  | .entryTyped text => modify fun w => { w with entryText := text }

/-- The window after an event. -/
def step (scrollPage : ℤ → ℤ → Handler Unit) (w : Window) (e : Event) : Window :=
  finalState (handle scrollPage e) w

/-- A JavaScript result comes in. -/
def Event.Delivers (e : Event) (w : Window) : Prop := (∃ r, e = .result r) ∧ 0 < w.fetches

end Window

end NeoDCT.Browser
