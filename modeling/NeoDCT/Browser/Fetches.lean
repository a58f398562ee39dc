import NeoDCT.Browser.Keys
import NeoDCT.Lib.Runs

/-!
# Clicks on a field

Enter over an editable field starts a timer, the timer a script, and the script's callback toggles the
popup (neodct-browser/main.py).  `toggle_input_popup` does what its name says, so when several presses
come before the first callback, each callback undoes the one before it: the popup is open after `n` of
them when `n` is odd (`fetches_open_iff`).
-/

namespace NeoDCT.Browser

open PyText Interactive

namespace Window

/-- Neither a key nor a result; and nothing is typed into the popup. -/
def Event.Aside : Event → Prop
  | .key _ | .result _ | .popupTyped _ => False
  | .timer | .hover _ | .focusMoved _ | .entryTyped _ => True

def Event.isKey : Event → Bool
  | .key _ => true
  | _ => false

/-- Enter over an editable field, in browser mode. -/
structure ClicksField (w : Window) (event : KeyEvent) : Prop where
  enter : event.keyval.isEnter = true
  noShift : event.shift = false
  popup : w.inputVisible = false
  menu : w.menuVisible = false
  focus : w.focus ≠ .entry
  hovering : w.isHoveringInput = true

/-- Popups still to be toggled. -/
def pending (w : Window) : ℕ := w.timers + w.fetches

section
variable (scrollPage : ℤ → ℤ → Handler Unit)

/-- The popup as the window has it. -/
structure SamePopup (w w' : Window) : Prop where
  inputVisible : w'.inputVisible = w.inputVisible
  inputWidget : w'.inputWidget = w.inputWidget

theorem step_aside (w : Window) {e : Event} (h : e.Aside) :
    SamePopup w (step scrollPage w e) ∧ (step scrollPage w e).pending = w.pending := by
  cases e with
  | timer =>
    refine finalState_of_wp (P := fun w' : Window => SamePopup w w' ∧ w'.pending = w.pending) ?_
    unfold handle
    rw [wp_bind, wp_get]
    split
    · exact ⟨⟨rfl, rfl⟩, rfl⟩
    · next n hn =>
      refine ⟨⟨rfl, rfl⟩, ?_⟩
      show n + (w.fetches + 1) = w.timers + w.fetches
      omega
  | hover editable => exact ⟨⟨rfl, rfl⟩, rfl⟩
  | focusMoved focus => exact ⟨⟨rfl, rfl⟩, rfl⟩
  | entryTyped text => exact ⟨⟨rfl, rfl⟩, rfl⟩
  | key event => exact h.elim
  | result r => exact h.elim
  | popupTyped text => exact h.elim

/-- What the key handler does with it. -/
theorem onKey_click {w : Window} {event : KeyEvent} (h : ClicksField w event) :
    onKey scrollPage event w = (do click; pure true : Handler Bool) w := by
  obtain ⟨keyval, shift, control⟩ := event
  obtain ⟨henter, hshift, hpopup, hmenu, hfocus, -⟩ := h
  obtain rfl : shift = false := hshift
  show (if w.inputVisible then _ else if w.menuVisible then _ else if w.focus = .entry then _
    else onKeyBrowser scrollPage _ : Handler Bool) w = _
  rw [hpopup, hmenu, if_neg Bool.false_ne_true, if_neg Bool.false_ne_true, if_neg hfocus]
  cases keyval with
  | Return => simp [onKeyBrowser, onKeyCursor, Keyval.isEnter]
  | KP_Enter => simp [onKeyBrowser, onKeyCursor, Keyval.isEnter]
  | _ => cases henter

/-- **A click on a field** leaves a timer. -/
theorem step_click {w : Window} {event : KeyEvent} (h : ClicksField w event) :
    SamePopup w (step scrollPage w (.key event)) ∧
      (step scrollPage w (.key event)).pending = w.pending + 1 := by
  have hstep : step scrollPage w (.key event) = finalState (onKey scrollPage event) w :=
    finalState_map _ _ _
  have hclick : wp (do click; pure true : Handler Bool)
      (fun _ w' => SamePopup w w' ∧ w'.pending = w.pending + 1)
      (fun _ w' => SamePopup w w' ∧ w'.pending = w.pending + 1) w := by
    unfold click clickAtCursor
    simp only [bind_assoc]
    rw [wp_bind, wp_get]
    have hcall := call_spec (.click w.cursorX w.cursorY) w (E := fun _ _ => False)
    refine wp_seq hcall (fun _ _ h => False.elim h) ?_
    rintro _ _ rfl
    rw [wp_bind, wp_get]
    simp only [h.hovering, if_true]
    refine ⟨⟨rfl, rfl⟩, ?_⟩
    show w.timers + 1 + w.fetches = w.timers + w.fetches + 1
    omega
  rw [hstep]
  unfold finalState
  rw [onKey_click scrollPage h]
  exact finalState_of_wp (P := fun w' : Window => SamePopup w w' ∧ w'.pending = w.pending + 1) hclick

/-- **A result** toggles the popup, which opens with the field's value. -/
theorem step_result (w : Window) (v : Text) (hfetches : 0 < w.fetches) :
    (step scrollPage w (.result (.ok (some v)))).pending + 1 = w.pending ∧
    (step scrollPage w (.result (.ok (some v)))).inputVisible = !w.inputVisible ∧
    (w.inputVisible = false → (step scrollPage w (.result (.ok (some v)))).inputWidget.text = v) := by
  obtain ⟨n, hn⟩ := Nat.exists_eq_succ_of_ne_zero hfetches.ne'
  refine finalState_of_wp (P := fun w' : Window => w'.pending + 1 = w.pending ∧
    w'.inputVisible = (!w.inputVisible) ∧ (w.inputVisible = false → w'.inputWidget.text = v)) ?_
  have hpending : w.timers + n + 1 = w.pending := by
    rw [pending, hn]
    omega
  unfold handle
  rw [wp_bind, wp_get, hn]
  cases hv : w.inputVisible with
  | true =>
    refine ⟨hpending, ?_, fun h => by cases h⟩
    simp [NeoDCTBrowser.fetched, NeoDCTBrowser.toggleInputPopup, hv]
  | false =>
    refine ⟨hpending, ?_, fun _ => ?_⟩
    · simp [NeoDCTBrowser.fetched, NeoDCTBrowser.toggleInputPopup, hv]
    · simp [NeoDCTBrowser.fetched, NeoDCTBrowser.toggleInputPopup, InputPopupWidget.open, hv]

/-! ## Runs -/

/-- Clicks on fields, and what the main loop does besides. -/
def Clicking (w : Window) (e : Event) : Prop := (∃ event, e = .key event ∧ ClicksField w event) ∨ e.Aside

/-- The value of the field, and what the main loop does besides. -/
def Answering (v : Text) (e : Event) : Prop := e = .result (.ok (some v)) ∨ e.Aside

/-- While the field is clicked the popup is closed, and each click is pending. -/
theorem clicks_pending {w : Window} (hclosed : w.inputVisible = false) {before : List Event}
    (h : EveryStep (step scrollPage) Clicking w before) :
    (before.foldl (step scrollPage) w).inputVisible = false ∧
      (before.foldl (step scrollPage) w).pending = w.pending + before.countP Event.isKey := by
  induction before generalizing w with
  | nil => exact ⟨hclosed, rfl⟩
  | cons e before ih =>
    obtain ⟨hfirst, hrest⟩ := everyStep_cons.mp h
    rcases hfirst with ⟨event, rfl, hclick⟩ | haside
    · obtain ⟨hpopup, hcount⟩ := step_click scrollPage hclick
      obtain ⟨hopen, hpending⟩ := ih (hpopup.inputVisible.trans hclosed) hrest
      refine ⟨hopen, hpending.trans ?_⟩
      rw [hcount, List.countP_cons_of_pos rfl]
      omega
    · obtain ⟨hpopup, hcount⟩ := step_aside scrollPage w haside
      obtain ⟨hopen, hpending⟩ := ih (hpopup.inputVisible.trans hclosed) hrest
      refine ⟨hopen, hpending.trans ?_⟩
      have hkey : Event.isKey e = false := by
        cases e with
        | key event => exact haside.elim
        | _ => rfl
      rw [hcount, List.countP_cons_of_neg (by simp [hkey])]

/-- Each result that was pending has toggled the popup. -/
structure Toggled (v : Text) (n : ℕ) (w : Window) : Prop where
  visible : w.inputVisible = true ↔ Odd (n + w.pending)
  value : w.inputVisible = true → w.inputWidget.text = v

theorem Toggled.step {v : Text} {n : ℕ} {w : Window} (h : Toggled v n w) {e : Event}
    (he : Answering v e) : Toggled v n (step scrollPage w e) := by
  obtain ⟨hvisible, hvalue⟩ := h
  rcases he with rfl | haside
  · rcases Nat.eq_zero_or_pos w.fetches with hzero | hfetches
    · -- no script is running: the event is not one
      have hstep : Window.step scrollPage w (.result (.ok (some v))) = w := by
        refine finalState_of_wp (P := fun w' : Window => w' = w) ?_
        unfold handle
        rw [wp_bind, wp_get, hzero]
        exact rfl
      rw [hstep]
      exact ⟨hvisible, hvalue⟩
    · obtain ⟨hpending, htoggled, htext⟩ := step_result scrollPage w v hfetches
      constructor
      · rw [← hpending, ← Nat.add_assoc, Nat.odd_add_one] at hvisible
        rw [htoggled, Bool.not_eq_true', ← Bool.not_eq_true, hvisible, not_not]
      · intro hopen
        rw [htoggled] at hopen
        exact htext (by simpa using hopen)
  · obtain ⟨⟨hopen, hwidget⟩, hpending⟩ := step_aside scrollPage w haside
    constructor
    · rw [hopen, hpending]
      exact hvisible
    · rw [hopen, hwidget]
      exact hvalue

theorem Toggled.run {v : Text} {n : ℕ} {w : Window} (h : Toggled v n w) {after : List Event}
    (hafter : ∀ e ∈ after, Answering v e) : Toggled v n (after.foldl (Window.step scrollPage) w) := by
  induction after generalizing w with
  | nil => exact h
  | cons e after ih =>
    obtain ⟨he, hrest⟩ := List.forall_mem_cons.mp hafter
    exact ih (h.step scrollPage he) hrest

/-- **When clicks on a field open the popup**: `n` of them, handled before the first result, leave it
open with the field's value if and only if `n` is odd. -/
theorem fetches_open_iff (v : Text) (w : Window) (before after : List Event)
    (hclosed : w.inputVisible = false) (hidle : w.pending = 0)
    (hbefore : EveryStep (step scrollPage) Clicking w before) (hafter : ∀ e ∈ after, Answering v e)
    (hdone : ((before ++ after).foldl (step scrollPage) w).pending = 0) :
    (((before ++ after).foldl (step scrollPage) w).inputVisible = true ∧
      ((before ++ after).foldl (step scrollPage) w).inputWidget.text = v) ↔
      Odd (before.countP Event.isKey) := by
  obtain ⟨hclosed', hpending⟩ := clicks_pending scrollPage hclosed hbefore
  rw [hidle, Nat.zero_add] at hpending
  have hstart : Toggled v (before.countP Event.isKey) (before.foldl (step scrollPage) w) := by
    constructor
    · simp [hclosed', hpending]
    · simp [hclosed']
  have hend := hstart.run scrollPage hafter
  rw [← List.foldl_append] at hend
  obtain ⟨hvisible, hvalue⟩ := hend
  rw [hdone, Nat.add_zero] at hvisible
  constructor
  · exact fun h => hvisible.mp h.1
  · intro hodd
    have hopen := hvisible.mpr hodd
    exact ⟨hopen, hvalue hopen⟩

end

/-- The cursor is over a field. -/
def onField : Window := { Window.init with isHoveringInput := true }

/-- Enter, `n` times. -/
def clicks (n : ℕ) : List Event := List.replicate n (.key { keyval := .Return })

/-- The timers of `n` clicks, and then their results. -/
def answers (n : ℕ) (v : Text) : List Event :=
  List.replicate n .timer ++ List.replicate n (.result (.ok (some v)))

theorem answering_answers (n : ℕ) (v : Text) : ∀ e ∈ answers n v, Answering v e := by
  intro e he
  rcases List.mem_append.mp he with he | he
  · exact Or.inr (List.eq_of_mem_replicate he ▸ trivial)
  · exact Or.inl (List.eq_of_mem_replicate he)

/-- One click opens the popup. -/
theorem fetches_open_iff_once :
    ((clicks 1 ++ answers 1 ['a']).foldl (step noScrollPage) onField).inputVisible = true := by
  refine ((fetches_open_iff noScrollPage ['a'] onField (clicks 1) (answers 1 ['a']) rfl rfl ?_
    (answering_answers 1 _) rfl).mpr (by decide)).1
  exact everyStep_cons.mpr ⟨Or.inl ⟨_, rfl, rfl, rfl, rfl, rfl, by decide, rfl⟩, everyStep_nil⟩

/-- Two clicks: the second result closes what the first one opened. -/
theorem fetches_not_open : ¬ ∀ (v : Text) (w : Window) (before after : List Event),
    w.inputVisible = false → w.pending = 0 → 1 ≤ before.countP Event.isKey →
    EveryStep (step noScrollPage) Clicking w before → (∀ e ∈ after, Answering v e) →
    ((before ++ after).foldl (step noScrollPage) w).pending = 0 →
    ((before ++ after).foldl (step noScrollPage) w).inputVisible = true ∧
      ((before ++ after).foldl (step noScrollPage) w).inputWidget.text = v := by
  intro hall
  have hclicks : EveryStep (step noScrollPage) Clicking onField (clicks 2) := by
    refine everyStep_cons.mpr ⟨Or.inl ⟨_, rfl, rfl, rfl, rfl, rfl, by decide, rfl⟩, ?_⟩
    exact everyStep_cons.mpr ⟨Or.inl ⟨_, rfl, rfl, rfl, rfl, rfl, by decide, rfl⟩, everyStep_nil⟩
  have h := hall ['a'] onField (clicks 2) (answers 2 ['a']) rfl rfl (by decide) hclicks
    (answering_answers 2 _) rfl
  cases h.1

end Window

end NeoDCT.Browser
