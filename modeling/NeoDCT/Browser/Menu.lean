import NeoDCT.Browser.Panels

/-!
# What the browser menu highlights

The rows of the menu are labels, a copy of what `selected_index` and `window_start` said when
`refresh_view` was last called.  `navigate` refreshes them; `toggle_menu` sets both indices to 0 and
does not.  So, in every run,

    the highlighted row is always the item that Enter activates
        ↔  the menu is only opened while both indices are 0                  (highlight_iff)
-/

namespace NeoDCT.Browser

open PyText Interactive

/-! ## The rows -/

/-- The rows of a window on `items`. -/
def rowsAt (items : List Text) (windowStart selectedIndex : Nat) : List RowWidget :=
  (List.range 3).map fun i => ⟨items.getD (windowStart + i) [], true, windowStart + i = selectedIndex⟩

/-- The indices and the rows of the menu agree. -/
structure Fresh (menu : VerticalListWidget) : Prop where
  items : menu.items = menuItems
  maxLines : menu.maxLines = 3
  start_le : menu.windowStart ≤ menu.selectedIndex
  lt_end : menu.selectedIndex < menu.windowStart + 3
  last : menu.windowStart + 3 ≤ menuItems.length
  rows : menu.rowWidgets = rowsAt menuItems menu.windowStart menu.selectedIndex

theorem rowsAt_get (items : List Text) (ws sel : Nat) {i : Nat} (hi : i < 3) :
    (rowsAt items ws sel)[i]? = some ⟨items.getD (ws + i) [], true, ws + i = sel⟩ := by
  unfold rowsAt
  rw [List.getElem?_map, List.getElem?_range hi]
  rfl

theorem rowsAt_none (items : List Text) (ws sel : Nat) {i : Nat} (hi : 3 ≤ i) :
    (rowsAt items ws sel)[i]? = none := by
  rw [List.getElem?_eq_none_iff]
  simpa [rowsAt] using hi

/-- The texts of the rows are the items of the window. -/
theorem rowsAt_shown (items : List Text) (ws sel : Nat) (hlast : ws + 3 ≤ items.length) :
    ((rowsAt items ws sel).filter (·.visible)).map (·.text) = (items.drop ws).take 3 := by
  have hvisible : (rowsAt items ws sel).filter (·.visible) = rowsAt items ws sel := by
    rw [List.filter_eq_self]
    intro row hrow
    obtain ⟨i, -, rfl⟩ := List.mem_map.mp hrow
    rfl
  rw [hvisible]
  apply List.ext_getElem?
  intro i
  by_cases hi : i < 3
  · have hitem : ws + i < items.length := by omega
    rw [List.getElem?_map, rowsAt_get _ _ _ hi, List.getElem?_take_of_lt hi, List.getElem?_drop,
      List.getElem?_eq_getElem hitem]
    simp [List.getElem?_eq_getElem hitem]
  · rw [List.getElem?_map, rowsAt_none _ _ _ (by omega), List.getElem?_eq_none_iff.mpr]
    · rfl
    · rw [List.length_take]
      omega

/-- `refresh_view` shows the window, when all of it is in the list. -/
theorem refreshView_rows (self : VerticalListWidget) (hrows : self.rowWidgets.length = 3)
    (hlast : self.windowStart + 3 ≤ self.items.length) :
    self.refreshView.rowWidgets = rowsAt self.items self.windowStart self.selectedIndex := by
  apply List.ext_getElem?
  intro i
  unfold VerticalListWidget.refreshView
  simp only [List.getElem?_mapIdx]
  by_cases hi : i < 3
  · have hitem : self.windowStart + i < self.items.length := by omega
    rw [rowsAt_get _ _ _ hi, List.getElem?_eq_getElem (by omega : i < self.rowWidgets.length),
      List.getElem?_eq_getElem hitem, List.getD_eq_getElem _ _ hitem]
    rfl
  · have hnone : self.rowWidgets[i]? = none := List.getElem?_eq_none_iff.mpr (by omega)
    rw [rowsAt_none _ _ _ (by omega), hnone]
    rfl

theorem Fresh.select {menu : VerticalListWidget} (h : Fresh menu) {sel ws : Nat} (hle : ws ≤ sel)
    (hlt : sel < ws + 3) (hlast : ws + 3 ≤ menuItems.length) : Fresh (menu.select sel ws) := by
  have hlen : menu.rowWidgets.length = 3 := by
    rw [h.rows]
    simp [rowsAt]
  refine ⟨h.items, h.maxLines, hle, hlt, hlast, ?_⟩
  have hrows := refreshView_rows { menu with selectedIndex := sel, windowStart := ws }
    hlen (by show ws + 3 ≤ menu.items.length; rw [h.items]; exact hlast)
  rw [← h.items]
  exact hrows

theorem Fresh.down {menu : VerticalListWidget} (h : Fresh menu) : Fresh menu.down := by
  obtain ⟨hitems, hmax, hle, hlt, hlast, hrows⟩ := h
  rw [VerticalListWidget.down_eq]
  split
  · next hnext =>
    rw [hitems] at hnext
    rw [hmax]
    apply Fresh.select ⟨hitems, hmax, hle, hlt, hlast, hrows⟩
    · split <;> omega
    · split <;> omega
    · split <;> omega
  · exact ⟨hitems, hmax, hle, hlt, hlast, hrows⟩

theorem Fresh.up {menu : VerticalListWidget} (h : Fresh menu) : Fresh menu.up := by
  obtain ⟨hitems, hmax, hle, hlt, hlast, hrows⟩ := h
  rw [VerticalListWidget.up_eq]
  split
  · apply Fresh.select ⟨hitems, hmax, hle, hlt, hlast, hrows⟩
    · split <;> omega
    · split <;> omega
    · split <;> omega
  · exact ⟨hitems, hmax, hle, hlt, hlast, hrows⟩

theorem KeyPanels.opened {opens : Prop} {p p' : Panels} (h : KeyPanels opens p p') (hopens : opens)
    (hpopup : p.inputVisible = false) (hmenu : p.menuVisible = false) : p' = p.openMenu := by
  cases h with
  | keep h => exact absurd hopens h
  | closePopup h => rw [hpopup] at h; cases h
  | openPopup h _ _ => exact absurd hopens h
  | closeMenu _ h => rw [hmenu] at h; cases h
  | openMenu _ _ _ => rfl
  | down _ h => rw [hmenu] at h; cases h
  | up _ h => rw [hmenu] at h; cases h

theorem Fresh.visible {menu : VerticalListWidget} (h : Fresh menu) (visible : Bool) :
    Fresh { menu with visible := visible } :=
  ⟨h.items, h.maxLines, h.start_le, h.lt_end, h.last, h.rows⟩

/-- Opening the menu while its indices are 0 changes nothing of it. -/
theorem Fresh.opened {menu : VerticalListWidget} (h : Fresh menu) (hsel : menu.selectedIndex = 0)
    (hws : menu.windowStart = 0) :
    Fresh { menu with visible := true, selectedIndex := 0, windowStart := 0 } := by
  have hrows := h.rows
  rw [hsel, hws] at hrows
  have hlast : 0 + 3 ≤ menuItems.length := by decide
  exact ⟨h.items, h.maxLines, le_rfl, Nat.zero_lt_succ 2, hlast, hrows⟩

/-! ## The highlighted row -/

namespace Window

/-- What Enter does is highlighted: the rows shown are those of the window, exactly one of them has
the selected style, and its item is the one that SELECT gives to the callback. -/
structure Highlights (w : Window) : Prop where
  shown : (w.menuWidget.rowWidgets.filter (·.visible)).map (·.text) =
    (w.menuWidget.items.drop w.menuWidget.windowStart).take 3
  highlighted : ∃ i row, w.menuWidget.rowWidgets[i]? = some row ∧ row.visible = true ∧
    (∀ j row', w.menuWidget.rowWidgets[j]? = some row' → (row'.selected = true ↔ j = i)) ∧
    w.menuWidget.windowStart + i = w.menuWidget.selectedIndex ∧
    w.menuWidget.items[w.menuWidget.selectedIndex]? = some row.text ∧
    ∃ calls, (finalState (navigate .SELECT) w).calls = w.calls ++ .action row.text :: calls

/-- The callback gets the selected item first of all. -/
theorem navigate_select {w : Window} {item : Text}
    (h : w.menuWidget.items[w.menuWidget.selectedIndex]? = some item) :
    ∃ calls, (finalState (navigate .SELECT) w).calls = w.calls ++ .action item :: calls := by
  refine finalState_of_wp (P := fun w' : Window =>
    ∃ calls, w'.calls = w.calls ++ .action item :: calls) ?_
  unfold navigate
  rw [wp_bind, wp_get]
  simp only []
  rw [h]
  unfold onMenuAction
  refine wp_seq (call_spec _ w) (fun _ _ h => h) ?_
  rintro _ _ rfl
  set w₁ : Window := { w with calls := w.calls ++ [.action item] }
  have htoggle : wp toggleMenu (fun _ w₂ => w₂.calls = w.calls ++ [.action item])
      (fun _ _ => False) w₁ := by
    show Window.calls (if w₁.menuVisible = true then _ else _) = _
    split
    · exact rfl
    · exact rfl
  refine wp_seq htoggle (fun _ _ h => h.elim) ?_
  intro _ w₂ h₂
  have hdone : ∃ calls, w₂.calls = w.calls ++ .action item :: calls := ⟨[], h₂⟩
  have hcall : ∀ c, ∃ calls, w₂.calls ++ [c] = w.calls ++ .action item :: calls := by
    intro c
    refine ⟨[c], ?_⟩
    rw [h₂, List.append_assoc]
    rfl
  split
  · exact hdone
  split
  · exact hcall _
  split
  · exact hcall _
  split
  · exact hcall _
  split
  · exact hcall _
  split
  · exact hcall _
  · exact hdone

/-- As long as the rows are fresh. -/
theorem highlights_of_fresh {w : Window} (h : Fresh w.menuWidget) : w.Highlights := by
  obtain ⟨hitems, -, hle, hlt, hlast, hrows⟩ := h
  have hget : ∀ j, j < 3 → w.menuWidget.rowWidgets[j]? = some
      ⟨menuItems.getD (w.menuWidget.windowStart + j) [], true,
        w.menuWidget.windowStart + j = w.menuWidget.selectedIndex⟩ := by
    intro j hj
    rw [hrows]
    exact rowsAt_get _ _ _ hj
  have hsel : w.menuWidget.selectedIndex < menuItems.length := by omega
  set i := w.menuWidget.selectedIndex - w.menuWidget.windowStart with hi
  have hsum : w.menuWidget.windowStart + i = w.menuWidget.selectedIndex := by omega
  have hitem : w.menuWidget.items[w.menuWidget.selectedIndex]? =
      some (menuItems.getD (w.menuWidget.windowStart + i) []) := by
    rw [hsum, hitems, List.getElem?_eq_getElem hsel, List.getD_eq_getElem _ _ hsel]
  constructor
  · rw [hrows, rowsAt_shown _ _ _ hlast, hitems]
  · refine ⟨i, _, hget i (by omega), rfl, ?_, hsum, hitem, navigate_select hitem⟩
    intro j row' hj
    have hj3 : j < 3 := by
      by_contra hj3
      rw [hrows, rowsAt_none _ _ _ (by omega)] at hj
      cases hj
    rw [hget j hj3] at hj
    cases hj
    rw [decide_eq_true_iff]
    omega

/-- Opening the menu resets the indices under its rows: that shows, unless they were 0. -/
theorem opened_highlights {w w' : Window} (h : Fresh w.menuWidget)
    (hopen : w'.menuWidget =
      { w.menuWidget with visible := true, selectedIndex := 0, windowStart := 0 })
    (hw' : w'.Highlights) : w.menuWidget.selectedIndex = 0 ∧ w.menuWidget.windowStart = 0 := by
  obtain ⟨hitems, -, hle, hlt, hlast, hrows⟩ := h
  have hstart : w.menuWidget.windowStart = 0 := by
    have hshown := hw'.shown
    rw [hopen] at hshown
    simp only [] at hshown
    rw [hrows, rowsAt_shown _ _ _ hlast, hitems] at hshown
    -- the six items are different, so another window shows other texts
    have hdiff : ∀ ws, ws + 3 ≤ menuItems.length →
        (menuItems.drop ws).take 3 = (menuItems.drop 0).take 3 → ws = 0 := by
      intro ws hws
      have hws' : ws < 4 := by
        have hlen : menuItems.length = 6 := rfl
        omega
      interval_cases ws <;> decide
    exact hdiff _ hlast hshown
  refine ⟨?_, hstart⟩
  obtain ⟨i, row, -, -, hone, hsum, -⟩ := hw'.highlighted
  rw [hopen] at hone hsum
  simp only [Nat.zero_add] at hsum
  have hrow := hone 0 ⟨menuItems.getD (w.menuWidget.windowStart + 0) [], true,
    w.menuWidget.windowStart + 0 = w.menuWidget.selectedIndex⟩ (by
      show w.menuWidget.rowWidgets[0]? = _
      rw [hrows]
      exact rowsAt_get _ _ _ (by omega))
  have hselected := hrow.mpr hsum.symm
  rw [decide_eq_true_iff] at hselected
  omega

theorem init_fresh : Fresh Window.init.menuWidget := by
  constructor <;> decide

/-- **When the menu highlights what Enter does.**  In every state of a run with the menu visible, if
and only if every opening of the menu finds its indices at 0. -/
theorem highlight_iff (events : List Event) :
    Always (step noScrollPage) (fun w => w.menuVisible = true → w.Highlights) Window.init events ↔
      EveryStep (step noScrollPage) (fun w e => e.OpensMenu w →
        w.menuWidget.selectedIndex = 0 ∧ w.menuWidget.windowStart = 0) Window.init events := by
  refine always_iff (fun w => Fresh w.menuWidget) ?_ (fun _ h _ => highlights_of_fresh h) ?_
    init_fresh
  · intro w e hw hzero
    show Fresh (step noScrollPage w e).panels.menuWidget
    rcases step_panels keeps_noScrollPage w e with ⟨-, heq⟩ | ⟨-, hkey⟩
    · rw [heq]
      unfold Panels.toggled
      split
      · exact hw
      · exact hw
    · generalize (step noScrollPage w e).panels = p' at hkey
      cases hkey with
      | keep _ => exact hw
      | closePopup _ => exact hw
      | openPopup _ _ _ => exact hw
      | closeMenu _ _ => exact hw.visible false
      | openMenu hopens _ _ =>
        obtain ⟨hsel, hws⟩ := hzero hopens
        exact hw.opened hsel hws
      | down _ _ => exact hw.down
      | up _ _ => exact hw.up
  · intro w e hw hnext hopens
    obtain ⟨event, rfl, hpopup, hmenu, -⟩ := id hopens
    rcases step_panels keeps_noScrollPage w (.key event) with ⟨⟨⟨r, hr⟩, -⟩, -⟩ | ⟨-, hkey⟩
    · cases hr
    have heq := hkey.opened hopens hpopup hmenu
    have hvisible : (step noScrollPage w (.key event)).menuVisible = true :=
      congrArg Panels.menuVisible heq
    exact opened_highlights hw (congrArg Panels.menuWidget heq) (hnext hvisible)

/-- Open the menu, DOWN, close it and open it again: "Go to URL" is highlighted, and Enter exits. -/
theorem not_highlights : ¬ ∀ events,
    Always (step noScrollPage) (fun w => w.menuVisible = true → w.Highlights) Window.init events := by
  intro hall
  set events : List Event := [.key { keyval := .F1 }, .key { keyval := .Down },
    .key { keyval := .BackSpace }, .key { keyval := .F1 }] with hevents
  have hlast := hall events events List.prefix_rfl rfl
  obtain ⟨i, row, hrow, -, hone, hsum, -⟩ := hlast.highlighted
  have hsecond := (hone 1 ⟨"Go to URL".toList, true, true⟩ rfl).mp rfl
  subst hsecond
  cases hsum

end Window

end NeoDCT.Browser
