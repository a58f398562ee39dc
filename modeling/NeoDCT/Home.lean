import NeoDCT.CallScreen
import NeoDCT.Apps.PhoneBook

/-!
# The main loop

`update`, `render_menu`, `handle_input` and `run` (core/main.py).  What an app's module does when it
is launched is a parameter, `launch`.  Every `handle_input` leaves a journal entry with the state and
the `dial_buffer` it is called in, every modem call leaves one too.
-/

namespace NeoDCT

open PyText Interactive

/-- `self.DEV_KEYMAP`; `handle_input` tests for 28 before it looks here. -/
def devKeymap : List (Nat × Char) :=
  [(2, '1'), (3, '2'), (4, '3'), (5, '4'), (6, '5'), (7, '6'), (8, '7'), (9, '8'), (10, '9'),
    (11, '0'), (12, '-'), (52, '.'), (51, ','), (42, '*'), (28, '#')]

/-! ## Handling a key -/

/-- `target[i]` for what `show_contact_selector` returns: a pair, the row and its index. -/
def getItem (target : ContactRow × Nat) (i : Nat) : Except PyError PyVal :=
  match i with
  | 0 => .ok (.row target.1)
  | 1 => .ok (.int target.2)
  | _ => .error .indexError

def setState (state : UiState) : UI Unit := modify fun w => { w with state := state }

def setDialBuffer (buffer : Text) : UI Unit := modify fun w => { w with dialBuffer := buffer }

/-- `handle_input`, code 28. -/
def handleCenter (ui : Ui) : UI Unit := do
  let w ← get
  match w.state with
  | .HOME => setState .MENU
  | .HOME_DIALING => do
    record (.dial (.str w.dialBuffer))
    CallScreen.showCalling ui (.str w.dialBuffer)
    setDialBuffer []
    setState .HOME
  | .MENU => pure ()

/-- `handle_input`, code 14. -/
def handleBackspace : UI Unit := do
  let w ← get
  if w.state = .HOME_DIALING then
    setDialBuffer w.dialBuffer.dropLast
    if w.dialBuffer.dropLast = [] then setState .HOME else pure ()
  else pure ()

/-- `handle_input`, codes 103 and 108 on the home screen. -/
def handleContacts (ui : Ui) : UI Unit := do
  match ← showContactSelector ui "Select".toList "Call".toList none "1".toList with
  | none => pure ()
  | some target => do
    let number ← attempt (getItem target 2)
    let _name ← attempt (getItem target 1)
    record (.dial number)
    CallScreen.showCalling ui number

/-- `handle_input`, the last branch. -/
def handleTyping (code : Nat) : UI Unit := do
  let w ← get
  match devKeymap.lookup code with
  | some char =>
    if w.state = .HOME ∨ w.state = .HOME_DIALING then
      setDialBuffer (w.dialBuffer ++ [char])
      setState .HOME_DIALING
    else pure ()
  | none => pure ()

/-- `handle_input`. -/
def handleInput (ui : Ui) (code : Nat) : UI Unit := do
  let w ← get
  record (.handleInput code w.state w.dialBuffer)
  if code = 28 then handleCenter ui
  else if code = 14 then handleBackspace
  else if (code = 103 ∨ code = 108) ∧ w.state = .HOME then handleContacts ui
  else handleTyping code

/-! ## The loop -/

/-- `render_menu`. -/
def renderMenu (launch : AppEntry → UI Unit) (ui : Ui) : UI Unit := do
  match ← AppSelector.showModal ui { items := ui.apps, background := ui.wallpaper } with
  | none => setState .HOME
  | some choice =>
    match ui.apps[choice]? with
    | none => throw (.raised .indexError)
    | some app => do
      launch app
      setState .HOME

/-- `update`. -/
def update (launch : AppEntry → UI Unit) (ui : Ui) : UI Unit := do
  let w ← get
  match w.state with
  | .HOME => do
    let ops ← attempt (renderHome ui w.io.clock)
    paint ops
    SoftKeyBar.system.update ui (some "Menu".toList) false
    present
  | .HOME_DIALING => do
    paint (renderHomeDialing ui w.dialBuffer)
    SoftKeyBar.system.update ui (some "Call".toList) false
    present
  | .MENU => renderMenu launch ui

/-- One iteration of `run`. -/
def mainBody (launch : AppEntry → UI Unit) (ui : Ui) (_ : Unit) : UI (Unit ⊕ Empty) := do
  update launch ui
  match ← readKey with
  | none => pure (.inl ())
  | some key => do
    handleInput ui key
    pure (.inl ())

/-- `run`: it never returns. -/
def mainLoop (launch : AppEntry → UI Unit) (ui : Ui) : UI Empty := loop (mainBody launch ui) ()

end NeoDCT
