import NeoDCT.Browser.Keys
import NeoDCT.Lib.Runs

/-!
# The menu and the popup

The panels of a window are its menu, its input popup and the softkey bar.  `PanelStep` says all that
one event can do to them (`step_panels`).  A JavaScript result opens the popup over whatever is there,
two hops after the click that asked for it, so

    in every state of a run one panel at most is open, under its own softkey
        ↔  every JavaScript result of the run comes while the menu is hidden      (panels_iff)
-/

namespace NeoDCT.Browser

open PyText Interactive

structure Panels where
  menuVisible : Bool
  menuWidget : VerticalListWidget
  inputVisible : Bool
  popupShown : Bool
  softkeyVisible : Bool
  softkeyText : Text

namespace Window

def panels (w : Window) : Panels where
  menuVisible := w.menuVisible
  menuWidget := w.menuWidget
  inputVisible := w.inputVisible
  popupShown := w.inputWidget.visible
  softkeyVisible := w.softkeyVisible
  softkeyText := w.softkeyText

end Window

namespace Panels

def openPopup (p : Panels) : Panels :=
  { p with
    inputVisible := true
    popupShown := true
    softkeyVisible := true
    softkeyText := "Accept".toList }

def closePopup (p : Panels) : Panels :=
  { p with
    inputVisible := false
    popupShown := false
    softkeyVisible := false }

def openMenu (p : Panels) : Panels :=
  { p with
    menuVisible := true
    menuWidget := { p.menuWidget with visible := true, selectedIndex := 0, windowStart := 0 }
    softkeyVisible := true
    softkeyText := "Select".toList }

def closeMenu (p : Panels) : Panels :=
  { p with
    menuVisible := false
    menuWidget := { p.menuWidget with visible := false }
    softkeyVisible := false }

end Panels

/-- What a key does to the panels; `opens` says whether it opens the menu. -/
inductive KeyPanels (opens : Prop) (p : Panels) : Panels → Prop
  | keep (hopens : ¬ opens) : KeyPanels opens p p
  | closePopup (hpopup : p.inputVisible = true) : KeyPanels opens p p.closePopup
  | openPopup (hopens : ¬ opens) (hpopup : p.inputVisible = false) (hmenu : p.menuVisible = false) :
      KeyPanels opens p p.openPopup
  | closeMenu (hpopup : p.inputVisible = false) (hmenu : p.menuVisible = true) :
      KeyPanels opens p p.closeMenu
  | openMenu (hopens : opens) (hpopup : p.inputVisible = false) (hmenu : p.menuVisible = false) :
      KeyPanels opens p p.openMenu
  | down (hpopup : p.inputVisible = false) (hmenu : p.menuVisible = true) :
      KeyPanels opens p { p with menuWidget := p.menuWidget.down }
  | up (hpopup : p.inputVisible = false) (hmenu : p.menuVisible = true) :
      KeyPanels opens p { p with menuWidget := p.menuWidget.up }

/-- What a JavaScript result does: it toggles the popup. -/
def Panels.toggled (p : Panels) : Panels := if p.inputVisible then p.closePopup else p.openPopup

/-- **One panel at most**, under its own softkey. -/
structure Panels.Apart (p : Panels) : Prop where
  apart : ¬ (p.menuVisible = true ∧ p.inputVisible = true)
  softkey : p.softkeyVisible = true ↔ p.menuVisible = true ∨ p.inputVisible = true
  menuLabel : p.menuVisible = true → p.softkeyText = "Select".toList
  popupLabel : p.inputVisible = true → p.softkeyText = "Accept".toList
  menuShown : p.menuWidget.visible = p.menuVisible
  popupShown : p.popupShown = p.inputVisible

theorem VerticalListWidget.down_visible (self : VerticalListWidget) :
    self.down.visible = self.visible := by
  rw [down_eq]
  split
  · rfl
  · rfl

theorem VerticalListWidget.up_visible (self : VerticalListWidget) :
    self.up.visible = self.visible := by
  rw [up_eq]
  split
  · rfl
  · rfl

/-- Keys keep the panels apart. -/
theorem KeyPanels.apart {opens : Prop} {p p' : Panels} (h : KeyPanels opens p p') (hp : p.Apart) : p'.Apart := by
  obtain ⟨apart, softkey, menuLabel, popupLabel, menuShown, popupShown⟩ := hp
  cases h with
  | keep _ => exact ⟨apart, softkey, menuLabel, popupLabel, menuShown, popupShown⟩
  | closePopup hpopup =>
    have hmenu : p.menuVisible = false := by
      rw [← Bool.not_eq_true]
      intro hmenu
      exact apart ⟨hmenu, hpopup⟩
    constructor <;> simp [Panels.closePopup, hmenu, menuShown]
  | openPopup _ hpopup hmenu => constructor <;> simp [Panels.openPopup, hmenu, menuShown]
  | closeMenu hpopup hmenu => constructor <;> simp [Panels.closeMenu, hpopup, popupShown]
  | openMenu _ hpopup hmenu => constructor <;> simp [Panels.openMenu, hpopup, popupShown]
  | down hpopup hmenu =>
    exact ⟨apart, softkey, menuLabel, popupLabel,
      (VerticalListWidget.down_visible _).trans menuShown, popupShown⟩
  | up hpopup hmenu =>
    exact ⟨apart, softkey, menuLabel, popupLabel,
      (VerticalListWidget.up_visible _).trans menuShown, popupShown⟩

/-- A result keeps the panels apart if and only if it comes while the menu is hidden. -/
theorem Panels.Apart.toggled_iff {p : Panels} (hp : p.Apart) :
    p.toggled.Apart ↔ p.menuVisible = false := by
  unfold toggled
  by_cases hpopup : p.inputVisible = true
  · have hmenu : p.menuVisible = false := by
      rw [← Bool.not_eq_true]
      intro hmenu
      exact hp.apart ⟨hmenu, hpopup⟩
    rw [if_pos hpopup]
    refine ⟨fun _ => hmenu, fun _ => (.closePopup hpopup : KeyPanels False p p.closePopup).apart hp⟩
  · rw [if_neg hpopup]
    constructor
    · intro h
      rw [← Bool.not_eq_true]
      intro hmenu
      exact h.apart ⟨hmenu, rfl⟩
    · intro hmenu
      exact (KeyPanels.openPopup not_false (by simpa using hpopup) hmenu).apart hp

/-! ## The handlers -/

namespace Window

/-- A handler that leaves the panels alone. -/
def Keeps {α : Type} (h : Handler α) : Prop :=
  ∀ w, wp h (fun _ w' => w'.panels = w.panels) (fun _ w' => w'.panels = w.panels) w

theorem Keeps.bind {α β : Type} {h : Handler α} {f : α → Handler β} (hh : Keeps h)
    (hf : ∀ a, Keeps (f a)) : Keeps (h >>= f) := by
  intro w
  refine wp_seq (hh w) (fun _ _ h => h) ?_
  intro a w₁ h₁
  refine wp_mono (hf a w₁) ?_ ?_
  · intro _ w₂ h₂
    exact h₂.trans h₁
  · intro _ w₂ h₂
    exact h₂.trans h₁

theorem keeps_pure {α : Type} (a : α) : Keeps (pure a : Handler α) := fun _ => rfl

theorem keeps_get : Keeps (get : Handler Window) := fun _ => rfl

theorem keeps_throw {α : Type} (h : Halt PyError) : Keeps (throw h : Handler α) := fun _ => rfl

theorem keeps_updateCursorPosition : Keeps updateCursorPosition := fun _ => rfl

theorem Keeps.ite {α : Type} {c : Prop} [Decidable c] {h h' : Handler α} (hh : Keeps h)
    (hh' : Keeps h') : Keeps (if c then h else h') := by
  split
  · exact hh
  · exact hh'

theorem keeps_click : Keeps click := by
  have hclick : Keeps clickAtCursor := fun _ => rfl
  refine hclick.bind fun _ => ?_
  intro w
  rw [wp_bind, wp_get]
  split
  · exact rfl
  · exact rfl

/-- The cursor keys leave the panels alone, if scrolling does. -/
theorem keeps_onKeyCursor {scrollPage : ℤ → ℤ → Handler Unit}
    (hscroll : ∀ dx dy, Keeps (scrollPage dx dy)) (event : KeyEvent) :
    Keeps (onKeyCursor scrollPage event) := by
  have hx : ∀ x, Keeps (setCursorX x) := fun x _ => rfl
  have hy : ∀ y, Keeps (setCursorY y) := fun y _ => rfl
  have updated : ∀ {h : Handler Unit}, Keeps h → Keeps (do h; updateCursorPosition; pure true) :=
    fun hh => hh.bind fun _ => keeps_updateCursorPosition.bind fun _ => keeps_pure true
  unfold onKeyCursor
  refine .ite (updated ?_) (.ite (updated ?_) (.ite (updated ?_) (.ite (updated ?_) ?_)))
  · exact keeps_get.bind fun _ => .ite ((hx _).bind fun _ => hscroll _ _) (hx _)
  · exact keeps_get.bind fun _ => .ite ((hx _).bind fun _ => hscroll _ _) (hx _)
  · exact keeps_get.bind fun _ => .ite ((hy _).bind fun _ => hscroll _ _) (hy _)
  · exact keeps_get.bind fun _ => .ite ((hy _).bind fun _ => hscroll _ _) (hy _)
  · refine .ite (.ite (keeps_pure _) (keeps_click.bind fun _ => keeps_pure _)) ?_
    refine .ite ?_ (.ite (keeps_pure _) (updated (keeps_pure _)))
    have hcall : Keeps (call .quit) := fun _ => rfl
    exact hcall.bind fun _ => keeps_pure _

theorem toggleInputPopup_panels (text : Text) (w : Window) {E : Halt PyError → Window → Prop} :
    wp (toggleInputPopup text) (fun _ w' => w'.panels = w.panels.toggled) E w := by
  show Window.panels _ = _
  unfold Panels.toggled
  cases hv : w.inputVisible with
  | true => simp [panels, NeoDCTBrowser.toggleInputPopup, hv, Panels.closePopup, InputPopupWidget.close]
  | false => simp [panels, NeoDCTBrowser.toggleInputPopup, hv, Panels.openPopup, InputPopupWidget.open]

/-- A result toggles the popup, whatever it is. -/
theorem fetched_panels (result : Except Unit (Option Text)) (w : Window)
    {E : Halt PyError → Window → Prop} :
    wp (fetched result) (fun _ w' => w'.panels = w.panels.toggled) E w := by
  rcases result with _ | _ | val
  · exact toggleInputPopup_panels [] w
  · exact toggleInputPopup_panels [] w
  · exact toggleInputPopup_panels val w

theorem toggleMenu_panels (w : Window) {E : Halt PyError → Window → Prop} :
    wp toggleMenu (fun _ w' => w'.panels =
      if w.menuVisible then w.panels.closeMenu else w.panels.openMenu) E w := by
  show Window.panels _ = _
  cases hv : w.menuVisible with
  | true => simp [panels, hv, Panels.closeMenu]
  | false => simp [panels, hv, Panels.openMenu]

/-- After the callback, the menu is closed. -/
theorem onMenuAction_panels (action : Text) (w : Window) :
    wp (onMenuAction action)
      (fun _ w' => w'.panels = if w.menuVisible then w.panels.closeMenu else w.panels.openMenu)
      (fun _ _ => False) w := by
  unfold onMenuAction
  refine wp_seq (R := fun _ w₁ => w₁.panels = w.panels ∧ w₁.menuVisible = w.menuVisible) ⟨rfl, rfl⟩
    (fun _ _ h => h) ?_
  rintro _ w₁ ⟨h₁, hv⟩
  refine wp_seq (toggleMenu_panels w₁) (fun _ _ h => h) ?_
  intro _ w₂ h₂
  rw [h₁, hv] at h₂
  rw [← h₂]
  repeat' split
  all_goals exact rfl

/-- A key that opens the menu: F1, or BackSpace unless a field under the cursor takes it. -/
def OpensMenu (w : Window) (event : KeyEvent) : Prop :=
  w.inputVisible = false ∧ w.menuVisible = false ∧ w.focus ≠ .entry ∧
    (event.keyval = .F1 ∨
      event.keyval = .BackSpace ∧ ¬ (w.focus = .webview ∧ w.isHoveringInput = true))

theorem menuKey_panels (event : KeyEvent) {w : Window} (hpopup : w.inputVisible = false)
    (hmenu : w.menuVisible = true) :
    wp (menuKey event.keyval) (fun _ w' => KeyPanels (OpensMenu w event) w.panels w'.panels)
      (fun _ w' => KeyPanels (OpensMenu w event) w.panels w'.panels) w := by
  have hopens : ¬ OpensMenu w event := by
    intro h
    rw [h.2.1] at hmenu
    cases hmenu
  have close : wp toggleMenu (fun _ w' => KeyPanels (OpensMenu w event) w.panels w'.panels)
      (fun _ w' => KeyPanels (OpensMenu w event) w.panels w'.panels) w := by
    refine wp_mono (toggleMenu_panels w) ?_ fun _ _ h => h
    intro _ w' h
    rw [h, if_pos hmenu]
    exact .closeMenu hpopup hmenu
  unfold menuKey
  split
  · exact close
  split
  · exact .down hpopup hmenu
  split
  · exact .up hpopup hmenu
  split
  · unfold navigate
    rw [wp_bind, wp_get]
    simp only []
    split
    · refine wp_mono (onMenuAction_panels _ w) ?_ fun _ _ h => h.elim
      intro _ w' h
      rw [h, if_pos hmenu]
      exact .closeMenu hpopup hmenu
    · exact .keep hopens
  split
  · exact close
  · exact .keep hopens

theorem onKeyPopup_panels (event : KeyEvent) {w : Window} (hpopup : w.inputVisible = true) :
    wp (onKeyPopup event) (fun _ w' => KeyPanels (OpensMenu w event) w.panels w'.panels)
      (fun _ w' => KeyPanels (OpensMenu w event) w.panels w'.panels) w := by
  have hopens : ¬ OpensMenu w event := by
    intro h
    rw [h.1] at hpopup
    cases hpopup
  have close : wp (do toggleInputPopup []; pure true)
      (fun _ w' => KeyPanels (OpensMenu w event) w.panels w'.panels)
      (fun _ w' => KeyPanels (OpensMenu w event) w.panels w'.panels) w := by
    refine wp_seq (toggleInputPopup_panels [] w) (fun _ _ h => h) ?_
    intro _ w' h
    show KeyPanels (OpensMenu w event) w.panels w'.panels
    rw [h, Panels.toggled, if_pos (by exact hpopup)]
    exact .closePopup hpopup
  unfold onKeyPopup
  rw [wp_bind, wp_get]
  split
  · exact .closePopup hpopup
  split
  · exact close
  split
  · split
    · exact close
    · exact .keep hopens
  · exact .keep hopens

theorem onKeyBrowser_panels {scrollPage : ℤ → ℤ → Handler Unit}
    (hscroll : ∀ dx dy, Keeps (scrollPage dx dy)) (event : KeyEvent) {w : Window}
    (hpopup : w.inputVisible = false) (hmenu : w.menuVisible = false) (hfocus : w.focus ≠ .entry) :
    wp (onKeyBrowser scrollPage event) (fun _ w' => KeyPanels (OpensMenu w event) w.panels w'.panels)
      (fun _ w' => KeyPanels (OpensMenu w event) w.panels w'.panels) w := by
  unfold onKeyBrowser
  rw [wp_bind, wp_get]
  split
  · next henter =>
    have hopens : ¬ OpensMenu w event := by
      rintro ⟨-, -, -, h | ⟨h, -⟩⟩
      · simp [Keyval.isEnter, h] at henter
      · simp [Keyval.isEnter, h] at henter
    refine wp_seq (toggleInputPopup_panels [] w) (fun _ _ h => h) ?_
    intro _ w' h
    show KeyPanels (OpensMenu w event) w.panels w'.panels
    rw [h, Panels.toggled, if_neg (by rw [panels]; simp [hpopup])]
    exact .openPopup hopens hpopup hmenu
  split
  · next hfield =>
    have hopens : ¬ OpensMenu w event := by
      rintro ⟨-, -, -, h | ⟨-, h⟩⟩
      · rw [h] at hfield
        cases hfield.2.1
      · exact h ⟨hfield.1, hfield.2.2⟩
    exact .keep hopens
  next hfield =>
  split
  · next hkey =>
    have hopens : OpensMenu w event := by
      refine ⟨hpopup, hmenu, hfocus, ?_⟩
      rcases hkey with h | h
      · exact Or.inr ⟨h, fun hw => hfield ⟨hw.1, h, hw.2⟩⟩
      · exact Or.inl h
    refine wp_seq (toggleMenu_panels w) (fun _ _ h => h) ?_
    intro _ w' h
    show KeyPanels (OpensMenu w event) w.panels w'.panels
    rw [h, if_neg (by simp [hmenu])]
    exact .openMenu hopens hpopup hmenu
  · next hkey =>
    have hopens : ¬ OpensMenu w event := by
      rintro ⟨-, -, -, h | ⟨h, -⟩⟩
      · exact hkey (Or.inr h)
      · exact hkey (Or.inl h)
    have keep : ∀ w' : Window, w'.panels = w.panels →
        KeyPanels (OpensMenu w event) w.panels w'.panels := by
      intro w' h
      rw [h]
      exact .keep hopens
    exact wp_mono (keeps_onKeyCursor hscroll event w) (fun _ w' h => keep w' h)
      fun _ w' h => keep w' h

/-- **What a key does to the panels.** -/
theorem onKey_panels {scrollPage : ℤ → ℤ → Handler Unit} (hscroll : ∀ dx dy, Keeps (scrollPage dx dy))
    (event : KeyEvent) (w : Window) :
    wp (onKey scrollPage event) (fun _ w' => KeyPanels (OpensMenu w event) w.panels w'.panels)
      (fun _ w' => KeyPanels (OpensMenu w event) w.panels w'.panels) w := by
  unfold onKey
  rw [wp_bind, wp_get]
  by_cases hpopup : w.inputVisible = true
  · rw [if_pos hpopup]
    exact onKeyPopup_panels event hpopup
  rw [if_neg hpopup]
  rw [Bool.not_eq_true] at hpopup
  by_cases hmenu : w.menuVisible = true
  · rw [if_pos hmenu]
    refine wp_seq (menuKey_panels event hpopup hmenu) (fun _ _ h => h) ?_
    intro _ w' h
    exact h
  rw [if_neg hmenu]
  rw [Bool.not_eq_true] at hmenu
  by_cases hfocus : w.focus = .entry
  · rw [if_pos hfocus]
    have hopens : ¬ OpensMenu w event := fun h => h.2.2.1 hfocus
    unfold onKeyEntry
    rw [wp_bind, wp_get]
    split
    · exact .keep hopens
    split
    · exact .keep hopens
    · exact .keep hopens
  · rw [if_neg hfocus]
    exact onKeyBrowser_panels hscroll event hpopup hmenu hfocus

/-- An event that opens the menu. -/
def Event.OpensMenu (e : Event) (w : Window) : Prop := ∃ event, e = .key event ∧ Window.OpensMenu w event

/-- **What an event does to the panels.** -/
theorem step_panels {scrollPage : ℤ → ℤ → Handler Unit} (hscroll : ∀ dx dy, Keeps (scrollPage dx dy))
    (w : Window) (e : Event) :
    (e.Delivers w ∧ (step scrollPage w e).panels = w.panels.toggled) ∨
      (¬ e.Delivers w ∧ KeyPanels (e.OpensMenu w) w.panels (step scrollPage w e).panels) := by
  have hother : ∀ {e : Event}, (∀ r, e ≠ .result r) → ¬ e.Delivers w := by
    rintro e he ⟨⟨r, hr⟩, -⟩
    exact he r hr
  have hkey : ∀ {e : Event}, (∀ event, e ≠ .key event) → ¬ e.OpensMenu w := by
    rintro e he ⟨event, h, -⟩
    exact he event h
  cases e with
  | key event =>
    refine Or.inr ⟨hother (by simp), ?_⟩
    have hopens : (Event.key event).OpensMenu w = Window.OpensMenu w event := by
      simp [Event.OpensMenu]
    rw [hopens]
    refine finalState_of_wp (P := fun w' : Window =>
      KeyPanels (Window.OpensMenu w event) w.panels w'.panels) ?_
    refine wp_seq (onKey_panels hscroll event w) (fun _ _ h => h) ?_
    intro _ w' h
    exact h
  | timer =>
    refine Or.inr ⟨hother (by simp), ?_⟩
    refine finalState_of_wp (P := fun w' : Window => KeyPanels _ w.panels w'.panels) ?_
    unfold handle
    rw [wp_bind, wp_get]
    split
    · exact .keep (hkey (by simp))
    · exact .keep (hkey (by simp))
  | result r =>
    by_cases hf : w.fetches = 0
    · refine Or.inr ⟨fun h => by rw [Event.Delivers, hf] at h; exact absurd h.2 (lt_irrefl 0), ?_⟩
      refine finalState_of_wp (P := fun w' : Window => KeyPanels _ w.panels w'.panels) ?_
      unfold handle
      rw [wp_bind, wp_get, hf]
      exact .keep (hkey (by simp))
    · refine Or.inl ⟨⟨⟨r, rfl⟩, Nat.pos_of_ne_zero hf⟩, ?_⟩
      refine finalState_of_wp (P := fun w' : Window => w'.panels = w.panels.toggled) ?_
      unfold handle
      rw [wp_bind, wp_get]
      obtain ⟨n, hn⟩ := Nat.exists_eq_succ_of_ne_zero hf
      rw [hn]
      simp only []
      rw [wp_bind]
      exact fetched_panels r { w with fetches := n } (E := fun _ w' => w'.panels = w.panels.toggled)
  | hover editable => exact Or.inr ⟨hother (by simp), .keep (hkey (by simp))⟩
  | focusMoved focus => exact Or.inr ⟨hother (by simp), .keep (hkey (by simp))⟩
  | popupTyped text => exact Or.inr ⟨hother (by simp), .keep (hkey (by simp))⟩
  | entryTyped text => exact Or.inr ⟨hother (by simp), .keep (hkey (by simp))⟩

/-- main.py's `scroll_page` raises, and changes nothing. -/
theorem keeps_noScrollPage (dx dy : ℤ) : Keeps (noScrollPage dx dy) := keeps_throw _

/-! ## Runs -/

theorem init_apart : Window.init.panels.Apart := by
  constructor <;> simp [Window.init, panels, VerticalListWidget.init, VerticalListWidget.refreshView]

/-- **When the panels stay apart.**  Over any order of keys, timers and results: in every state of
the run the menu and the popup are not both visible, and the softkey bar belongs to the one that is,
if and only if every JavaScript result comes while the menu is hidden. -/
theorem panels_iff (events : List Event) :
    Always (step noScrollPage) (fun w => w.panels.Apart) Window.init events ↔
      EveryStep (step noScrollPage) (fun w e => e.Delivers w → w.menuVisible = false) Window.init
        events := by
  refine always_iff (fun w => w.panels.Apart) ?_ (fun _ h => h) ?_ init_apart
  · intro w e hw hmenu
    rcases step_panels keeps_noScrollPage w e with ⟨hres, heq⟩ | ⟨-, hkey⟩
    · rw [heq]
      exact hw.toggled_iff.mpr (hmenu hres)
    · exact hkey.apart hw
  · intro w e hw hnext hres
    rcases step_panels keeps_noScrollPage w e with ⟨-, heq⟩ | ⟨hno, -⟩
    · rw [heq] at hnext
      exact hw.toggled_iff.mp hnext
    · exact absurd hres hno

/-- Enter over a field, F1 within the 100 ms of the timer, and then the field's text. -/
theorem not_panels_apart : ¬ ∀ events,
    Always (step noScrollPage) (fun w => w.panels.Apart) Window.init events := by
  intro hall
  have hrun := hall [.hover true, .key { keyval := .Return }, .key { keyval := .F1 }, .timer,
    .result (.ok (some []))]
  have hlast := hrun _ (List.prefix_rfl)
  exact hlast.apart ⟨rfl, rfl⟩

end Window

end NeoDCT.Browser
