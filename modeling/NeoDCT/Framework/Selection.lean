import NeoDCT.Framework.Lists

/-!
# Which selections are safe

What `show` of an `AppSelector` or a `PagedList` does key by key (`onKey`), and what the screen shows
when it returns.  A list that is not empty is safe: `show` never raises, and an index it returns is
one of the list.  On an empty list

    AppSelector    is safe  ↔  of UP, DOWN, ENTER and BACKSPACE the first one pressed is BACKSPACE
    VerticalList   is safe  ↔  of ENTER and BACKSPACE the first one pressed is BACKSPACE
    PagedList      is safe  ↔  of ENTER and BACKSPACE the first one pressed is BACKSPACE

or none of them is pressed (`selection_safe_iff`).
-/

namespace NeoDCT

open PyText Interactive

/-! ## What the screen shows -/

/-- The framebuffer shows these operations, drawn over some canvas. -/
def Shows (ops : List DrawOp) (w : World) : Prop :=
  ∃ canvas : Frame, w.io.screen = ops.foldl Frame.draw canvas

theorem Shows.of_screen {ops : List DrawOp} {w w' : World} (h : Shows ops w)
    (hscreen : w'.io.screen = w.io.screen) : Shows ops w' := by
  obtain ⟨canvas, hc⟩ := h
  exact ⟨canvas, hscreen.trans hc⟩

/-- The screen shows what a widget draws, if drawing it does not raise. -/
def ShowsOk (x : Except PyError (List DrawOp)) (w : World) : Prop :=
  ∃ ops, x = .ok ops ∧ Shows ops w

theorem ShowsOk.of_screen {x : Except PyError (List DrawOp)} {w w' : World} (h : ShowsOk x w)
    (hscreen : w'.io.screen = w.io.screen) : ShowsOk x w' := by
  obtain ⟨ops, hops, hs⟩ := h
  exact ⟨ops, hops, hs.of_screen hscreen⟩

/-- A `draw` that computes its operations, and then shows them. -/
theorem draw_shows {x : Except PyError (List DrawOp)} {ops : List DrawOp} (hx : x = .ok ops)
    (w : World) {E : Halt PyError → World → Prop} :
    wp (do
        let ops ← attempt x
        paint ops
        present : UI Unit)
      (fun _ w' => Drawn w w' ∧ ShowsOk x w') E w := by
  subst hx
  have hdrawn : Drawn w (w.withIo { w.io with
      canvas := ops.foldl Frame.draw w.io.canvas
      screen := ops.foldl Frame.draw w.io.canvas }) := ⟨{ w.io with
    canvas := ops.foldl Frame.draw w.io.canvas
    screen := ops.foldl Frame.draw w.io.canvas }, rfl, rfl, rfl⟩
  exact ⟨hdrawn, ops, rfl, w.io.canvas, rfl⟩

/-- Waiting for a key leaves the screen alone. -/
theorem waitForKey_shows (x : Except PyError (List DrawOp)) (w : World) (h : ShowsOk x w) :
    wp waitForKey
      (fun key w' => Reads w w' ∧ presses w.io.input = key :: presses w'.io.input ∧ ShowsOk x w')
      (fun h w' => h = .waiting ∧ presses w.io.input = [] ∧ Quiet w w' ∧ ShowsOk x w') w := by
  refine wp_mono (wp_and (waitForKey_spec w) (waitForKey_screen w)) ?_ ?_
  · rintro key w' ⟨⟨hr, hp⟩, -, hscreen⟩
    exact ⟨hr, hp, h.of_screen hscreen⟩
  · rintro e w' ⟨⟨rfl, hp, hq⟩, -, hscreen⟩
    exact ⟨rfl, hp, hq, h.of_screen hscreen⟩

/-- The keys that are pressed after a flush. -/
def keysAfterFlush (w : World) : List Nat := presses ((afterFlush w.io.input).getD [])

/-! ## What a key does -/

/-- An iteration of a key loop took a key and did what `onKey` says, and the screen shows the widget. -/
def KeyTaken {β α : Type} (onKey : β → Nat → β ⊕ Except PyError α)
    (drawOps : β → Except PyError (List DrawOp)) (b : β) (w : World) (r : β ⊕ α) (w' : World) : Prop :=
  Reads w w' ∧ ∃ key, presses w.io.input = key :: presses w'.io.input ∧
    r.elim (fun b' => onKey b key = .inl b' ∧ ShowsOk (drawOps b') w')
      fun a => onKey b key = .inr (.ok a) ∧ ShowsOk (drawOps b) w'

/-- Or it had none, or `onKey` raises on it. -/
def KeyFailed {β α : Type} (onKey : β → Nat → β ⊕ Except PyError α) (b : β) (w : World)
    (h : Halt PyError) : Prop :=
  (h = .waiting ∧ presses w.io.input = []) ∨
    ∃ e key ks, h = .raised e ∧ presses w.io.input = key :: ks ∧ onKey b key = .inr (.error e)

/-- A key that moves the selection to `i % n`, unless that raises. -/
def wrapKey {β α : Type} (n : Nat) (i : ℤ) (select : Nat → β) : β ⊕ Except PyError α :=
  match wrapIndex i n with
  | .ok j => .inl (select j)
  | .error e => .inr (.error e)

/-- `i % n` is an index of a list of `n` items; without items it raises. -/
theorem wrapIndex_lt {i : ℤ} {n j : Nat} (h : wrapIndex i n = .ok j) : j < n := by
  unfold wrapIndex at h
  split at h
  · cases h
  · next hn =>
    obtain rfl : (i % n).toNat = j := by simpa using h
    have hlt := Int.emod_lt_of_pos i (by omega : (0 : ℤ) < n)
    have hnonneg := Int.emod_nonneg i (by omega : (n : ℤ) ≠ 0)
    omega

/-- Moving the selection, for a widget that can draw every item. -/
theorem wrap_spec {β : Type} {n : Nat} {select : Nat → β} {drawOps : β → Except PyError (List DrawOp)}
    (hok : ∀ j < n, ∃ ops, drawOps (select j) = .ok ops) (i : ℤ) (w : World) :
    wp (do
        let j ← attempt (wrapIndex i n)
        (do
          let ops ← attempt (drawOps (select j))
          paint ops
          present : UI Unit)
        pure (select j) : UI β)
      (fun b w' => (∃ j, wrapIndex i n = .ok j ∧ b = select j) ∧ Drawn w w' ∧ ShowsOk (drawOps b) w')
      (fun h _ => ∃ e, h = .raised e ∧ wrapIndex i n = .error e) w := by
  cases hj : wrapIndex i n with
  | error e => exact ⟨e, rfl, rfl⟩
  | ok j =>
    obtain ⟨ops, hops⟩ := hok j (wrapIndex_lt hj)
    refine wp_seq (R := fun j' w' => j' = j ∧ w' = w) ⟨rfl, rfl⟩ (fun _ _ h => h) ?_
    rintro _ _ ⟨rfl, rfl⟩
    refine wp_seq (draw_shows hops _) (fun _ _ h => h) ?_
    rintro _ w' ⟨hd, hs⟩
    exact ⟨⟨_, rfl, rfl⟩, hd, hs⟩

/-- On a list with items it does not raise. -/
theorem wrapKey_ne_inr {β α : Type} {n : Nat} (hn : n ≠ 0) (i : ℤ) (select : Nat → β)
    (res : Except PyError α) : wrapKey n i select ≠ .inr res := by
  unfold wrapKey wrapIndex
  rw [if_neg hn]
  simp

theorem wrapKey_select {β α : Type} {n : Nat} {i : ℤ} {select : Nat → β} {b : β}
    (h : (wrapKey n i select : β ⊕ Except PyError α) = .inl b) :
    ∃ j, wrapIndex i n = .ok j ∧ b = select j := by
  unfold wrapKey at h
  cases hj : wrapIndex i n with
  | error e => rw [hj] at h; cases h
  | ok j =>
    rw [hj] at h
    cases h
    exact ⟨j, rfl, rfl⟩

/-- An iteration that moves the selection. -/
theorem wrapKey_taken {β α γ : Type} {onKey : β → Nat → β ⊕ Except PyError α}
    {drawOps : β → Except PyError (List DrawOp)} {b : β} {n key : Nat} {i : ℤ} {select : Nat → β}
    {w w₁ : World} {move : UI β}
    (hmove : wp move
      (fun b' w' => (∃ j, wrapIndex i n = .ok j ∧ b' = select j) ∧ Drawn w₁ w' ∧ ShowsOk (drawOps b') w')
      (fun h _ => ∃ e, h = .raised e ∧ wrapIndex i n = .error e) w₁)
    (hkey : onKey b key = wrapKey n i select) (hr : Reads w w₁)
    (hp : presses w.io.input = key :: presses w₁.io.input) :
    wp (do pure (.inl (← move)) : UI (β ⊕ γ))
      (fun r w' => ∃ b', r = .inl b' ∧ KeyTaken onKey drawOps b w (.inl b') w')
      (fun h _ => KeyFailed onKey b w h) w₁ := by
  unfold wrapKey at hkey
  refine wp_seq hmove ?_ ?_
  · rintro h _ ⟨e, rfl, he⟩
    rw [he] at hkey
    exact Or.inr ⟨e, key, _, rfl, hp, hkey⟩
  · rintro b' w₂ ⟨⟨j, hj, rfl⟩, hd, hs₂⟩
    rw [hj] at hkey
    exact ⟨_, rfl, hr.trans_quiet hd.quiet, key, by rw [hp, hd.input], hkey, hs₂⟩

/-- What a key does to a widget whose selection is `i`, when `arrow` moves the selection. -/
def selectorKey {β : Type} (arrow : ℤ → β ⊕ Except PyError (Option Nat × β)) (i : Nat) (b : β)
    (key : Nat) : β ⊕ Except PyError (Option Nat × β) :=
  if key = 108 then arrow (i + 1)
  else if key = 103 then arrow (i - 1)
  else if key = 28 then .inr (.ok (some i, b))
  else if key = 14 then .inr (.ok (none, b))
  else .inl b

theorem selectorKey_inl {β : Type} {arrow : ℤ → β ⊕ Except PyError (Option Nat × β)} {i key : Nat}
    {b b' : β} (h : selectorKey arrow i b key = .inl b') :
    (key = 108 ∧ arrow (i + 1) = .inl b') ∨ (key = 103 ∧ arrow (i - 1) = .inl b') ∨
      (key ≠ 108 ∧ key ≠ 103 ∧ b' = b) := by
  unfold selectorKey at h
  by_cases h108 : key = 108
  · rw [if_pos h108] at h
    exact Or.inl ⟨h108, h⟩
  by_cases h103 : key = 103
  · rw [if_neg h108, if_pos h103] at h
    exact Or.inr (Or.inl ⟨h103, h⟩)
  rw [if_neg h108, if_neg h103] at h
  refine Or.inr (Or.inr ⟨h108, h103, ?_⟩)
  split at h
  · cases h
  · split at h
    · cases h
    · cases h
      rfl

theorem selectorKey_inr {β : Type} {arrow : ℤ → β ⊕ Except PyError (Option Nat × β)} {i key : Nat}
    {b : β} {res : Except PyError (Option Nat × β)} (harrow : ∀ z, arrow z ≠ .inr res)
    (h : selectorKey arrow i b key = .inr res) :
    (key = 28 ∧ res = .ok (some i, b)) ∨ (key = 14 ∧ res = .ok (none, b)) := by
  unfold selectorKey at h
  split at h
  · exact absurd h (harrow _)
  split at h
  · exact absurd h (harrow _)
  split at h
  · next h28 =>
    cases h
    exact Or.inl ⟨h28, rfl⟩
  · split at h
    · next h14 =>
      cases h
      exact Or.inr ⟨h14, rfl⟩
    · cases h

/-- **A modal widget**: flush, draw, then a key loop that shows what every key leads to.  The keys
pressed after the flush are fed to `onKey`, and the screen shows the widget that is kept. -/
theorem modal_spec {β α : Type} {body : β → UI (β ⊕ α)} {onKey : β → Nat → β ⊕ Except PyError α}
    {drawOps : β → Except PyError (List DrawOp)} (Valid : β → Prop)
    (hok : ∀ {b}, Valid b → ∃ ops, drawOps b = .ok ops)
    (hvalid : ∀ {b b' key}, Valid b → onKey b key = .inl b' → Valid b')
    (hbody : ∀ {b w}, Valid b → ShowsOk (drawOps b) w →
      wp (body b) (KeyTaken onKey drawOps b w) (fun h _ => KeyFailed onKey b w h) w)
    {b : β} (hb : Valid b) (w : World) :
    wp (do
        flushInput
        (do
          let ops ← attempt (drawOps b)
          paint ops
          present : UI Unit)
        loop body b : UI α)
      (fun a w' => ∃ ks key b', keysAfterFlush w = ks ++ key :: presses w'.io.input ∧
        feed onKey b ks = .inl b' ∧ onKey b' key = .inr (.ok a) ∧ ShowsOk (drawOps b') w')
      (fun h _ => (h = .waiting ∧ ∃ b', feed onKey b (keysAfterFlush w) = .inl b') ∨
        ∃ e rest, h = .raised e ∧ feed onKey b (keysAfterFlush w) = .inr (.error e, rest)) w := by
  refine wp_seq (flushInput_rest w) ?_ ?_
  · rintro h _ ⟨⟨rfl, -⟩, hrest⟩
    refine Or.inl ⟨rfl, b, ?_⟩
    unfold keysAfterFlush
    rw [hrest]
    rfl
  rintro _ w₁ ⟨-, hrest⟩
  have hkeys : keysAfterFlush w = presses w₁.io.input := by
    unfold keysAfterFlush
    rw [hrest]
    rfl
  obtain ⟨ops, hops⟩ := hok hb
  refine wp_seq (draw_shows hops w₁) (fun _ _ h => h) ?_
  rintro _ w₂ ⟨hd, hs⟩
  rw [hkeys, ← hd.input]
  refine wp_keyLoop (fun w : World => presses w.io.input)
    (fun b w => Valid b ∧ ShowsOk (drawOps b) w) ⟨hb, hs⟩ ?_
  rintro b₁ w₃ ⟨hb₁, hs⟩
  refine wp_mono (hbody hb₁ hs) ?_ fun _ _ h => h
  rintro (b₂ | a) w₄ ⟨hr, key, hp, hk, hs'⟩
  · exact ⟨hr.remaining, key, hp, hk, hvalid hb₁ hk, hs'⟩
  · exact ⟨hr.remaining, key, hp, hk, hs'⟩

/-! ## AppSelector -/

namespace AppSelector

/-- A selection that `show` can find: none moved yet, or an index of the list. -/
def Valid (self : AppSelector) : Prop :=
  self.selectedIndex = 0 ∨ self.selectedIndex < self.items.length

/-- What a key does: the selector after it, or how `show` ends, and with which selector. -/
def onKey (self : AppSelector) (key : Nat) : AppSelector ⊕ Except PyError (Option Nat × AppSelector) :=
  if key = 108 then
    wrapKey self.items.length (self.selectedIndex + 1) fun i => { self with selectedIndex := i }
  else if key = 103 then
    wrapKey self.items.length (self.selectedIndex - 1) fun i => { self with selectedIndex := i }
  else if key = 28 then .inr (.ok (some self.selectedIndex, self))
  else if key = 14 then .inr (.ok (none, self))
  else .inl self

/-- `show`, with the selector as it leaves it: its `selected_index` is kept from one call to the
next. -/
def showKept (ui : Ui) (self : AppSelector) : UI (Option Nat × AppSelector) := do
  flushInput
  self.draw ui
  loop (fun self => do
    match ← showBody ui self with
    | .inl self' => pure (.inl self')
    | .inr r => pure (.inr (r, self))) self

theorem showModal_eq (ui : Ui) (self : AppSelector) :
    self.showModal ui = Prod.fst <$> self.showKept ui := by
  unfold showModal showKept
  rw [map_bind]
  congr 1
  funext _
  rw [map_bind]
  congr 1
  funext _
  refine loop_map Prod.fst ?_ self
  intro b
  rw [map_bind]
  refine (bind_pure _).symm.trans ?_
  congr 1
  funext r
  cases r <;> rfl

theorem drawOps_ok (ui : Ui) {self : AppSelector} (h : self.Valid) :
    ∃ ops, self.drawOps ui = .ok ops := by
  unfold drawOps
  by_cases hnil : self.items = []
  · rw [if_pos hnil]
    exact ⟨_, rfl⟩
  · rw [if_neg hnil]
    have hpos := List.length_pos_of_ne_nil hnil
    have hlt : self.selectedIndex < self.items.length := by
      rcases h with h | h <;> omega
    rw [List.getElem?_eq_getElem hlt]
    exact ⟨_, rfl⟩

theorem onKey_eq (self : AppSelector) (key : Nat) : self.onKey key = selectorKey
    (fun i => wrapKey self.items.length i fun j => { self with selectedIndex := j })
    self.selectedIndex self key := rfl

/-- How `show` ends, on a list with items. -/
theorem onKey_end {self : AppSelector} {key : Nat} {res : Except PyError (Option Nat × AppSelector)}
    (hne : self.items ≠ []) (hk : self.onKey key = .inr res) :
    (key = 28 ∧ res = .ok (some self.selectedIndex, self)) ∨ (key = 14 ∧ res = .ok (none, self)) := by
  rw [onKey_eq] at hk
  refine selectorKey_inr ?_ hk
  intro i
  exact wrapKey_ne_inr (by simpa using hne) _ _ _

theorem move_shows (ui : Ui) (self : AppSelector) (i : ℤ) (w : World) :
    wp (self.move ui i)
      (fun b w' => (∃ j, wrapIndex i self.items.length = .ok j ∧ b = { self with selectedIndex := j }) ∧
        Drawn w w' ∧ ShowsOk (b.drawOps ui) w')
      (fun h _ => ∃ e, h = .raised e ∧ wrapIndex i self.items.length = .error e) w := by
  have hok : ∀ j < self.items.length, ∃ ops,
      drawOps ui { self with selectedIndex := j } = .ok ops := by
    intro j hj
    exact drawOps_ok ui (Or.inr hj)
  exact wrap_spec hok i w

theorem onKey_valid {self self' : AppSelector} {key : Nat} (h : self.Valid)
    (hk : self.onKey key = .inl self') : self'.Valid ∧ self'.items = self.items := by
  have moved : ∀ {i}, wrapKey self.items.length i (fun i => { self with selectedIndex := i }) =
      (.inl self' : AppSelector ⊕ Except PyError (Option Nat × AppSelector)) →
      self'.Valid ∧ self'.items = self.items := by
    intro i hi
    obtain ⟨j, hj, rfl⟩ := wrapKey_select hi
    exact ⟨Or.inr (wrapIndex_lt hj), rfl⟩
  rw [onKey_eq] at hk
  rcases selectorKey_inl hk with ⟨-, hmove⟩ | ⟨-, hmove⟩ | ⟨-, -, rfl⟩
  · exact moved hmove
  · exact moved hmove
  · exact ⟨h, rfl⟩

theorem showBody_shows (ui : Ui) {self : AppSelector} {w : World}
    (hshows : ShowsOk (self.drawOps ui) w) :
    wp (showBody ui self)
      (fun r w' => KeyTaken onKey (drawOps ui) self w (r.map id fun r => (r, self)) w')
      (fun h _ => KeyFailed onKey self w h) w := by
  unfold showBody
  refine wp_seq (waitForKey_shows _ w hshows) (fun _ _ h => Or.inl ⟨h.1, h.2.1⟩) ?_
  rintro key w₁ ⟨hr, hp, hs⟩
  have moved : ∀ i, self.onKey key = wrapKey self.items.length i
      (fun i => { self with selectedIndex := i }) →
      wp (do pure (.inl (← self.move ui i)) : UI (AppSelector ⊕ Option Nat))
        (fun r w' => KeyTaken onKey (drawOps ui) self w (r.map id fun r => (r, self)) w')
        (fun h _ => KeyFailed onKey self w h) w₁ := by
    intro i hkey
    refine wp_mono (wrapKey_taken (move_shows ui self i w₁) hkey hr hp) ?_ fun _ _ h => h
    rintro _ w₂ ⟨b, rfl, htaken⟩
    exact htaken
  by_cases h108 : key = 108
  · subst h108
    exact moved _ rfl
  rw [if_neg h108]
  by_cases h103 : key = 103
  · subst h103
    exact moved _ rfl
  rw [if_neg h103]
  by_cases h28 : key = 28
  · subst h28
    exact ⟨hr, 28, hp, rfl, hs⟩
  rw [if_neg h28]
  by_cases h14 : key = 14
  · subst h14
    exact ⟨hr, 14, hp, rfl, hs⟩
  · rw [if_neg h14]
    refine ⟨hr, key, hp, ?_, hs⟩
    unfold onKey
    rw [if_neg h108, if_neg h103, if_neg h28, if_neg h14]
    rfl

/-- What `show` returns: the keys pressed after the flush are fed to `onKey`. -/
theorem showKept_spec (ui : Ui) {self : AppSelector} (h : self.Valid) (w : World) :
    wp (self.showKept ui)
      (fun r w' => ∃ ks key b, keysAfterFlush w = ks ++ key :: presses w'.io.input ∧
        feed onKey self ks = .inl b ∧ b.onKey key = .inr (.ok r) ∧ ShowsOk (b.drawOps ui) w')
      (fun h _ => (h = .waiting ∧ ∃ b, feed onKey self (keysAfterFlush w) = .inl b) ∨
        ∃ e rest, h = .raised e ∧ feed onKey self (keysAfterFlush w) = .inr (.error e, rest)) w := by
  refine modal_spec Valid (drawOps_ok ui) (fun h hk => (onKey_valid h hk).1) ?_ h w
  intro b w₁ _ hs
  refine wp_seq (showBody_shows ui hs) (fun _ _ h => h) ?_
  rintro (b' | r) w₂ htaken
  · exact htaken
  · exact htaken

end AppSelector

/-! ## PagedList -/

namespace PagedList

/-- When `_wrap_to_lines` has words left, it has lines. -/
theorem wrapLoop_left (fits : Text → Bool) (maxLines : Nat) (words lines : List Text) (cur : Text)
    (h : (wrapLoop fits maxLines words lines cur).1 ≠ []) :
    maxLines ≤ (wrapLoop fits maxLines words lines cur).2.1.length := by
  fun_induction wrapLoop fits maxLines words lines cur with
  | case1 => exact absurd rfl h
  | case2 _ _ _ _ _ _ _ ih => exact ih h
  | case3 _ _ _ _ _ _ _ _ ih => exact ih h
  | case4 _ _ _ _ _ _ _ _ _ _ ih => exact ih h
  | case5 _ _ _ _ hlt => exact Nat.le_of_not_lt hlt

/-- `_wrap_to_lines` never assigns to a line it does not have. -/
theorem wrapToLines_ok (fits : Text → Bool) (text : Text) {maxLines : Nat} (hmax : 0 < maxLines) :
    ∃ lines, wrapToLines fits text maxLines = .ok lines := by
  unfold wrapToLines
  by_cases hwords : split text = []
  · exact ⟨_, if_pos hwords⟩
  simp only []
  rw [if_neg hwords]
  set res := wrapLoop fits maxLines (split text) [] [] with hres
  set lines := if res.2.1.length < maxLines ∧ res.2.2 ≠ [] then res.2.1 ++ [res.2.2] else res.2.1
  by_cases hleft : res.1 = []
  · exact ⟨_, if_pos hleft⟩
  rw [if_neg hleft]
  have hfull : maxLines ≤ res.2.1.length := wrapLoop_left fits maxLines _ _ _ hleft
  have hlast : lines.getLast? ≠ none := by
    intro hnone
    have hnil : lines = [] := List.getLast?_eq_none_iff.mp hnone
    have hlines : lines = res.2.1 := if_neg fun h => absurd h.1 (by omega)
    rw [hlines] at hnil
    rw [hnil, List.length_nil] at hfull
    omega
  cases hl : lines.getLast? with
  | none => exact absurd hl hlast
  | some last =>
    by_cases hdots : "...".toList <:+ last
    · exact ⟨_, if_pos hdots⟩
    · exact ⟨_, if_neg hdots⟩

/-- A selection that `show` can find. -/
def Valid (self : PagedList) : Prop :=
  self.selectedIndex = 0 ∨ self.selectedIndex < self.items.length

/-- What a key does: the list after it, or how `show` ends, and with which list. -/
def onKey (self : PagedList) (key : Nat) : PagedList ⊕ Except PyError (Option Nat × PagedList) :=
  if key = 108 then
    if self.items ≠ [] then
      wrapKey self.items.length (self.selectedIndex + 1) fun i => { self with selectedIndex := i }
    else .inl self
  else if key = 103 then
    if self.items ≠ [] then
      wrapKey self.items.length (self.selectedIndex - 1) fun i => { self with selectedIndex := i }
    else .inl self
  else if key = 28 then .inr (.ok (some self.selectedIndex, self))
  else if key = 14 then .inr (.ok (none, self))
  else .inl self

theorem drawOps_ok (ui : Ui) {self : PagedList} (h : self.Valid) :
    ∃ ops, self.drawOps ui = .ok ops := by
  unfold drawOps
  cases hitems : self.items with
  | nil => exact ⟨_, rfl⟩
  | cons item items =>
    have hlt : self.selectedIndex < (item :: items).length := by
      rw [← hitems]
      have hpos : 0 < self.items.length := by simp [hitems]
      rcases h with h | h <;> omega
    rw [List.getElem?_eq_getElem hlt]
    obtain ⟨lines, hlines⟩ := wrapToLines_ok (fun s => (ui.getTextSize s .xl).1 ≤ (210 : ℤ))
      (item :: items)[self.selectedIndex] (Nat.zero_lt_two)
    simp only [hlines]
    exact ⟨_, rfl⟩

theorem move_shows (ui : Ui) (self : PagedList) (i : ℤ) (w : World) :
    wp (self.move ui i)
      (fun b w' => (∃ j, wrapIndex i self.items.length = .ok j ∧ b = { self with selectedIndex := j }) ∧
        Drawn w w' ∧ ShowsOk (b.drawOps ui) w')
      (fun h _ => ∃ e, h = .raised e ∧ wrapIndex i self.items.length = .error e) w := by
  have hok : ∀ j < self.items.length, ∃ ops,
      drawOps ui { self with selectedIndex := j } = .ok ops := by
    intro j hj
    exact drawOps_ok ui (Or.inr hj)
  exact wrap_spec hok i w

theorem onKey_eq (self : PagedList) (key : Nat) : self.onKey key = selectorKey
    (fun i => if self.items ≠ [] then
      wrapKey self.items.length i fun j => { self with selectedIndex := j } else .inl self)
    self.selectedIndex self key := rfl

/-- How `show` ends. -/
theorem onKey_end {self : PagedList} {key : Nat} {res : Except PyError (Option Nat × PagedList)}
    (hk : self.onKey key = .inr res) :
    (key = 28 ∧ res = .ok (some self.selectedIndex, self)) ∨ (key = 14 ∧ res = .ok (none, self)) := by
  rw [onKey_eq] at hk
  refine selectorKey_inr ?_ hk
  intro i
  split
  · next hne => exact wrapKey_ne_inr (by simpa using hne) _ _ _
  · simp

theorem onKey_valid {self self' : PagedList} {key : Nat} (h : self.Valid)
    (hk : self.onKey key = .inl self') : self'.Valid ∧ self'.items = self.items := by
  have moved : ∀ {i}, (if self.items ≠ [] then
      wrapKey self.items.length i (fun i => { self with selectedIndex := i }) else .inl self) =
      (.inl self' : PagedList ⊕ Except PyError (Option Nat × PagedList)) →
      self'.Valid ∧ self'.items = self.items := by
    intro i hi
    split at hi
    · obtain ⟨j, hj, rfl⟩ := wrapKey_select hi
      exact ⟨Or.inr (wrapIndex_lt hj), rfl⟩
    · cases hi
      exact ⟨h, rfl⟩
  rw [onKey_eq] at hk
  rcases selectorKey_inl hk with ⟨-, hmove⟩ | ⟨-, hmove⟩ | ⟨-, -, rfl⟩
  · exact moved hmove
  · exact moved hmove
  · exact ⟨h, rfl⟩

theorem showBody_shows (ui : Ui) {self : PagedList} {w : World}
    (hshows : ShowsOk (self.drawOps ui) w) :
    wp (showBody ui self) (KeyTaken onKey (drawOps ui) self w) (fun h _ => KeyFailed onKey self w h)
      w := by
  unfold showBody
  refine wp_seq (waitForKey_shows _ w hshows) (fun _ _ h => Or.inl ⟨h.1, h.2.1⟩) ?_
  rintro key w₁ ⟨hr, hp, hs⟩
  have moved : ∀ i, self.onKey key = (if self.items ≠ [] then wrapKey self.items.length i
      (fun i => { self with selectedIndex := i }) else .inl self) →
      wp (if self.items ≠ [] then do pure (.inl (← self.move ui i)) else pure (.inl self) :
          UI (PagedList ⊕ (Option Nat × PagedList)))
        (KeyTaken onKey (drawOps ui) self w) (fun h _ => KeyFailed onKey self w h) w₁ := by
    intro i hkey
    by_cases hne : self.items ≠ []
    · rw [if_pos hne] at hkey ⊢
      refine wp_mono (wrapKey_taken (move_shows ui self i w₁) hkey hr hp) ?_ fun _ _ h => h
      rintro _ w₂ ⟨b, rfl, htaken⟩
      exact htaken
    · rw [if_neg hne] at hkey ⊢
      exact ⟨hr, key, hp, hkey, hs⟩
  by_cases h108 : key = 108
  · subst h108
    exact moved _ rfl
  rw [if_neg h108]
  by_cases h103 : key = 103
  · subst h103
    exact moved _ rfl
  rw [if_neg h103]
  by_cases h28 : key = 28
  · subst h28
    exact ⟨hr, 28, hp, rfl, hs⟩
  rw [if_neg h28]
  by_cases h14 : key = 14
  · subst h14
    exact ⟨hr, 14, hp, rfl, hs⟩
  · rw [if_neg h14]
    refine ⟨hr, key, hp, ?_, hs⟩
    unfold onKey
    rw [if_neg h108, if_neg h103, if_neg h28, if_neg h14]

/-- What `show` returns. -/
theorem showModal_keys (ui : Ui) {self : PagedList} (h : self.Valid) (w : World) :
    wp (self.showModal ui)
      (fun r w' => ∃ ks key b, keysAfterFlush w = ks ++ key :: presses w'.io.input ∧
        feed onKey self ks = .inl b ∧ b.onKey key = .inr (.ok r) ∧ ShowsOk (b.drawOps ui) w')
      (fun h _ => (h = .waiting ∧ ∃ b, feed onKey self (keysAfterFlush w) = .inl b) ∨
        ∃ e rest, h = .raised e ∧ feed onKey self (keysAfterFlush w) = .inr (.error e, rest)) w := by
  have hstart : (if self.items.length ≤ self.selectedIndex then { self with selectedIndex := 0 }
      else self) = self := by
    rcases h with h | h
    · split
      · obtain ⟨title, items, rootId, hint, sel⟩ := self
        simp only [] at h
        rw [h]
      · rfl
    · rw [if_neg (by omega)]
  unfold showModal
  simp only [hstart]
  exact modal_spec Valid (drawOps_ok ui) (fun h hk => (onKey_valid h hk).1)
    (fun _ hs => showBody_shows ui hs) h w

end PagedList

/-! ## Safety -/

/-- `show` does not raise, and an index it returns is one of `n` items. -/
def SafeSelection {α : Type} (p : UI α) (index : α → Option Nat) (n : Nat) (w : World) : Prop :=
  raised? p w = none ∧ ∀ a i, returned? p w = some a → index a = some i → i < n

theorem safeSelection_map {β : Type} (p : UI (Option Nat × β)) (n : Nat) (w : World) :
    SafeSelection (Prod.fst <$> p) id n w ↔ SafeSelection p Prod.fst n w := by
  unfold SafeSelection
  rw [raised?_map, returned?_map]
  constructor
  · rintro ⟨hraise, hlt⟩
    refine ⟨hraise, fun r i hr hi => hlt r.1 i ?_ hi⟩
    rw [hr]
    rfl
  · rintro ⟨hraise, hlt⟩
    refine ⟨hraise, fun a i ha hi => ?_⟩
    obtain ⟨r, hr, rfl⟩ := Option.map_eq_some_iff.mp ha
    exact hlt r i hr hi

/-- Of these keys the first one pressed is BACKSPACE, or none of them is pressed. -/
def LeavesFirst (keys : List Nat) (pressed : List Nat) : Prop :=
  ∀ key, pressed.find? keys.contains = some key → key = 14

/-- Whether a modal widget is safe depends on what the keys lead to. -/
theorem safeSelection_iff {β : Type} {p : UI (Option Nat × β)}
    {onKey : β → Nat → β ⊕ Except PyError (Option Nat × β)} {b : β} {pressed : List Nat} {n : Nat}
    {w : World} {R : β → World → Prop}
    (hp : wp p
      (fun r w' => ∃ ks key b', pressed = ks ++ key :: presses w'.io.input ∧
        feed onKey b ks = .inl b' ∧ onKey b' key = .inr (.ok r) ∧ R b' w')
      (fun h _ => (h = .waiting ∧ ∃ b', feed onKey b pressed = .inl b') ∨
        ∃ e rest, h = .raised e ∧ feed onKey b pressed = .inr (.error e, rest)) w) :
    SafeSelection p Prod.fst n w ↔
      ∀ res rest, feed onKey b pressed = .inr (res, rest) →
        ∃ r, res = .ok r ∧ ∀ i, r.1 = some i → i < n := by
  unfold SafeSelection
  rcases wp_cases hp with ⟨r, hret, hraise, ks, key, b', hkeys, hfeed, hkey, -⟩ |
    ⟨e, hret, hraise, ⟨rfl, b', hfeed⟩ | ⟨e, rest, rfl, hfeed⟩⟩
  · have hres : feed onKey b pressed = .inr (.ok r, presses (finalState p w).io.input) := by
      rw [hkeys, feed_snoc hfeed, hkey]
    rw [hret, hres]
    constructor
    · rintro ⟨-, hlt⟩ res rest h
      cases h
      exact ⟨r, rfl, fun i hi => hlt r i rfl hi⟩
    · intro h
      obtain ⟨_, hr, hlt⟩ := h _ _ rfl
      cases hr
      refine ⟨hraise, ?_⟩
      rintro a i ha hi
      cases ha
      exact hlt i hi
  · rw [hret, hfeed]
    constructor
    · intro _ res rest h
      cases h
    · intro _
      refine ⟨hraise, ?_⟩
      intro a i h
      cases h
  · rw [hret, hfeed, hraise]
    constructor
    · rintro ⟨h, -⟩
      cases h
    · intro h
      obtain ⟨_, hr, -⟩ := h _ _ rfl
      cases hr

/-- On a list with items a run of keys keeps the selection valid, raises nothing and returns only
indices of the list; so does every widget whose keys do. -/
theorem feed_valid {β : Type} {onKey : β → Nat → β ⊕ Except PyError (Option Nat × β)}
    (Valid : β → Prop) {n : Nat}
    (hstep : ∀ {b b' key}, Valid b → onKey b key = .inl b' → Valid b')
    (hend : ∀ {b key res}, Valid b → onKey b key = .inr res →
      ∃ r, res = .ok r ∧ ∀ i, r.1 = some i → i < n)
    {b : β} (hb : Valid b) {keys rest : List Nat} {res : Except PyError (Option Nat × β)}
    (h : feed onKey b keys = .inr (res, rest)) : ∃ r, res = .ok r ∧ ∀ i, r.1 = some i → i < n := by
  induction keys generalizing b with
  | nil => cases h
  | cons key keys ih =>
    rw [feed] at h
    cases hk : onKey b key with
    | inl b' =>
      rw [hk] at h
      exact ih (hstep hb hk) h
    | inr a =>
      rw [hk] at h
      cases h
      exact hend hb hk

/-- On a list without items one of the `closing` keys ends `show`: BACKSPACE returns -1, any other
raises or returns 0. -/
theorem feed_empty {β : Type} {onKey : β → Nat → β ⊕ Except PyError (Option Nat × β)} {b : β}
    {closing : List Nat} (hfixed : ∀ key, key ∉ closing → onKey b key = .inl b)
    (hback : onKey b 14 = .inr (.ok (none, b)))
    (hother : ∀ key ∈ closing, key ≠ 14 → (∃ e, onKey b key = .inr (.error e)) ∨
      ∃ i b', onKey b key = .inr (.ok (some i, b'))) (keys : List Nat) :
    (∀ res rest, feed onKey b keys = .inr (res, rest) → ∃ r, res = .ok r ∧ ∀ i, r.1 = some i → i < 0) ↔
      LeavesFirst closing keys := by
  have hstays : ∀ k, closing.contains k = false → onKey b k = .inl b :=
    fun k hk => hfixed k (by simpa using hk)
  have hf := feed_fixed hstays keys
  unfold LeavesFirst
  cases hfind : keys.find? closing.contains with
  | none =>
    rw [hfind] at hf
    rw [hf]
    constructor
    · intro _ key h
      cases h
    · intro _ res rest h
      cases h
  | some key =>
    rw [hfind] at hf
    have hmem : key ∈ closing := by simpa using List.find?_some hfind
    by_cases h14 : key = 14
    · subst h14
      simp only [feed, hback] at hf
      rw [hf]
      constructor
      · intro _ key h
        cases h
        rfl
      · intro _ res rest h
        cases h
        refine ⟨_, rfl, ?_⟩
        intro i hi
        cases hi
    · constructor
      · intro h
        rcases hother key hmem h14 with ⟨e, he⟩ | ⟨i, b', hi⟩
        · simp only [feed, he] at hf
          obtain ⟨_, hr, -⟩ := h _ _ hf
          cases hr
        · simp only [feed, hi] at hf
          obtain ⟨_, hr, hlt⟩ := h _ _ hf
          cases hr
          exact absurd (hlt i rfl) (Nat.not_lt_zero i)
      · intro h
        exact absurd (h key rfl) h14

/-- The selection of a list that has items. -/
theorem valid_lt {i n : Nat} (h : i = 0 ∨ i < n) (hn : n ≠ 0) : i < n := by
  rcases h with h | h <;> omega

/-- The keys are safe on a list with items; on one without, as far as its `closing` keys are. -/
theorem feed_safe_iff {β ι : Type} {onKey : β → Nat → β ⊕ Except PyError (Option Nat × β)}
    (Valid : β → Prop) (items : β → List ι)
    (hstep : ∀ {b b' key}, Valid b → onKey b key = .inl b' → Valid b' ∧ items b' = items b)
    (hend : ∀ {b key res}, Valid b → items b ≠ [] → onKey b key = .inr res →
      ∃ r, res = .ok r ∧ ∀ i, r.1 = some i → i < (items b).length)
    {b : β} (hb : Valid b) {closing keys : List Nat}
    (hempty : items b = [] → ((∀ res rest, feed onKey b keys = .inr (res, rest) →
      ∃ r, res = .ok r ∧ ∀ i, r.1 = some i → i < 0) ↔ LeavesFirst closing keys)) :
    (∀ res rest, feed onKey b keys = .inr (res, rest) →
        ∃ r, res = .ok r ∧ ∀ i, r.1 = some i → i < (items b).length) ↔
      items b ≠ [] ∨ LeavesFirst closing keys := by
  by_cases hnil : items b = []
  · rw [hnil, List.length_nil, hempty hnil]
    exact ⟨Or.inr, fun h => h.resolve_left fun hne => hne rfl⟩
  · refine ⟨fun _ => Or.inl hnil, fun _ res rest hfeed => ?_⟩
    refine feed_valid (fun b' => Valid b' ∧ items b' = items b) ?_ ?_ ⟨hb, rfl⟩ hfeed
    · rintro b₁ b₂ key ⟨hb₁, hitems⟩ hk
      obtain ⟨hb₂, hitems'⟩ := hstep hb₁ hk
      exact ⟨hb₂, hitems'.trans hitems⟩
    · rintro b₁ key res ⟨hb₁, hitems⟩ hk
      rw [← hitems] at hnil ⊢
      exact hend hb₁ hnil hk

/-- ENTER returns an index of the list, BACKSPACE returns none. -/
theorem end_lt {β : Type} {b : β} {i n key : Nat} {res : Except PyError (Option Nat × β)} (hlt : i < n)
    (h : (key = 28 ∧ res = .ok (some i, b)) ∨ (key = 14 ∧ res = .ok (none, b))) :
    ∃ r, res = .ok r ∧ ∀ j, r.1 = some j → j < n := by
  rcases h with ⟨-, rfl⟩ | ⟨-, rfl⟩
  · refine ⟨_, rfl, ?_⟩
    intro j hj
    cases hj
    exact hlt
  · refine ⟨_, rfl, ?_⟩
    intro j hj
    cases hj

/-- Whether an `AppSelector` is safe. -/
theorem AppSelector.safe_iff (ui : Ui) {self : AppSelector} (h : self.Valid) (w : World) :
    SafeSelection (self.showModal ui) id self.items.length w ↔
      self.items ≠ [] ∨ LeavesFirst [108, 103, 28, 14] (keysAfterFlush w) := by
  rw [showModal_eq, safeSelection_map, safeSelection_iff (showKept_spec ui h w)]
  refine feed_safe_iff Valid items onKey_valid ?_ h fun hnil => feed_empty ?_ rfl ?_ _
  · intro b key res hb hne hk
    exact end_lt (valid_lt hb (by simpa using hne)) (onKey_end hne hk)
  · intro key hkey
    simp only [List.mem_cons, List.not_mem_nil, or_false, not_or] at hkey
    unfold onKey
    rw [if_neg hkey.1, if_neg hkey.2.1, if_neg hkey.2.2.1, if_neg hkey.2.2.2]
  · have hzero : ∀ i, wrapIndex i self.items.length = .error .zeroDivisionError := by
      intro i
      rw [hnil]
      rfl
    intro key hkey h14
    simp only [List.mem_cons, List.not_mem_nil, or_false] at hkey
    rcases hkey with rfl | rfl | rfl | rfl
    · exact Or.inl ⟨.zeroDivisionError, by simp only [onKey, if_true, wrapKey, hzero]⟩
    · exact Or.inl ⟨.zeroDivisionError, by simp only [onKey, wrapKey, hzero]; rfl⟩
    · exact Or.inr ⟨_, _, rfl⟩
    · exact absurd rfl h14

/-- Whether a `PagedList` is safe. -/
theorem PagedList.safe_iff (ui : Ui) {self : PagedList} (h : self.Valid) (w : World) :
    SafeSelection (self.showModal ui) Prod.fst self.items.length w ↔
      self.items ≠ [] ∨ LeavesFirst [28, 14] (keysAfterFlush w) := by
  rw [safeSelection_iff (showModal_keys ui h w)]
  refine feed_safe_iff Valid items onKey_valid ?_ h fun hnil => feed_empty ?_ rfl ?_ _
  · intro b key res hb hne hk
    exact end_lt (valid_lt hb (by simpa using hne)) (onKey_end hk)
  · intro key hkey
    simp only [List.mem_cons, List.not_mem_nil, or_false, not_or] at hkey
    unfold onKey
    simp [hnil, hkey.1, hkey.2]
  · intro key hkey h14
    simp only [List.mem_cons, List.not_mem_nil, or_false] at hkey
    rcases hkey with rfl | rfl
    · exact Or.inr ⟨_, _, rfl⟩
    · exact absurd rfl h14

namespace VerticalList

/-- A selection that `show` can find. -/
def Valid (self : VerticalList) : Prop :=
  self.selectedIndex = 0 ∨ self.selectedIndex < self.items.length

/-- `onKey`, with the list as `show` leaves it. -/
def onKeyKept (self : VerticalList) (key : Nat) :
    VerticalList ⊕ Except PyError (Option Nat × VerticalList) :=
  (self.onKey key).map id fun r => .ok (r, self)

theorem onKey_valid {self self' : VerticalList} {key : Nat} (h : self.Valid)
    (hk : self.onKey key = .inl self') : self'.Valid ∧ self'.items = self.items := by
  have hitems := (onKey_sameList hk).2.1
  refine ⟨?_, hitems⟩
  unfold Valid at h ⊢
  rw [hitems]
  unfold onKey down up at hk
  grind

/-- What a kept key does is what the key does. -/
theorem onKeyKept_cases (self : VerticalList) (key : Nat) :
    (∃ self', self.onKey key = .inl self' ∧ self.onKeyKept key = .inl self') ∨
      ∃ sel, self.onKey key = .inr sel ∧ self.onKeyKept key = .inr (.ok (sel, self)) := by
  unfold onKeyKept
  cases self.onKey key with
  | inl self' => exact Or.inl ⟨self', rfl, rfl⟩
  | inr sel => exact Or.inr ⟨sel, rfl, rfl⟩

/-- On an empty list only two keys do something. -/
theorem onKeyKept_empty {self : VerticalList} (h : self.Valid) (hnil : self.items = []) {key : Nat}
    (hkey : key ∉ [28, 14]) : self.onKeyKept key = .inl self := by
  have hdown : self.down = self := by
    unfold down
    rw [if_neg (by simp [hnil])]
  have hzero : self.selectedIndex = 0 := by
    rcases h with h | h
    · exact h
    · simp [hnil] at h
  have hup : self.up = self := by
    unfold up
    rw [if_neg (by omega)]
  simp only [List.mem_cons, List.not_mem_nil, or_false, not_or] at hkey
  unfold onKeyKept onKey
  rw [hdown, hup]
  by_cases hnum : 2 ≤ key ∧ key ≤ 10
  · have hno : ¬ key - 2 < self.items.length := by simp [hnil]
    rw [if_pos hnum, if_neg hno]
    split <;> (try split) <;> rfl
  · rw [if_neg hnum, if_neg hkey.1, if_neg hkey.2]
    split <;> (try split) <;> rfl

/-- What is selected is on the list. -/
theorem onKey_lt {self : VerticalList} {key : Nat} {sel : Option Nat}
    (hlt : self.selectedIndex < self.items.length) (hk : self.onKey key = .inr sel) :
    ∀ i, sel = some i → i < self.items.length := by
  intro i hi
  unfold onKey at hk
  grind

/-- Whether a `VerticalList` is safe. -/
theorem safe_iff (ui : Ui) {self : VerticalList} (h : self.Valid) (w : World) :
    SafeSelection (self.showModal ui) Prod.fst self.items.length w ↔
      self.items ≠ [] ∨ LeavesFirst [28, 14] (presses w.io.input) := by
  have hspec : wp (self.showModal ui)
      (fun r w' => ∃ ks key b, presses w.io.input = ks ++ key :: presses w'.io.input ∧
        feed onKeyKept self ks = .inl b ∧ b.onKeyKept key = .inr (.ok r) ∧ True)
      (fun h _ => (h = .waiting ∧ ∃ b, feed onKeyKept self (presses w.io.input) = .inl b) ∨
        ∃ e rest, h = .raised e ∧ feed onKeyKept self (presses w.io.input) = .inr (.error e, rest))
      w := by
    refine wp_mono (showModal_spec ui self w) ?_ ?_
    · rintro ⟨r, b⟩ w' ⟨⟨ks, key, hp, hfeed, hkey⟩, -⟩
      refine ⟨ks, key, b, hp, feed_map_inl _ hfeed, ?_, trivial⟩
      unfold onKeyKept
      rw [hkey]
      rfl
    · rintro _ w' ⟨rfl, -, b, hfeed⟩
      exact Or.inl ⟨rfl, b, feed_map_inl _ hfeed⟩
  rw [safeSelection_iff hspec]
  refine feed_safe_iff Valid items ?_ ?_ h fun hnil => feed_empty ?_ rfl ?_ _
  · intro b b' key hb hk
    rcases onKeyKept_cases b key with ⟨b₁, hk', heq⟩ | ⟨sel, -, heq⟩
    · cases heq.symm.trans hk
      exact onKey_valid hb hk'
    · cases heq.symm.trans hk
  · intro b key res hb hne hk
    have hlt : b.selectedIndex < b.items.length := valid_lt hb (by simpa using hne)
    rcases onKeyKept_cases b key with ⟨b₁, -, heq⟩ | ⟨sel, hk', heq⟩
    · cases heq.symm.trans hk
    · cases heq.symm.trans hk
      exact ⟨_, rfl, onKey_lt hlt hk'⟩
  · exact fun key hkey => onKeyKept_empty h hnil hkey
  · intro key hkey h14
    simp only [List.mem_cons, List.not_mem_nil, or_false] at hkey
    rcases hkey with rfl | rfl
    · exact Or.inr ⟨_, _, rfl⟩
    · exact absurd rfl h14

end VerticalList

/-- **Which selections are safe.** -/
theorem selection_safe_iff (ui : Ui) (w : World) (apps : AppSelector) (list : VerticalList)
    (paged : PagedList) (happs : apps.Valid) (hlist : list.Valid) (hpaged : paged.Valid) :
    (SafeSelection (apps.showModal ui) id apps.items.length w ↔
      apps.items ≠ [] ∨ LeavesFirst [108, 103, 28, 14] (keysAfterFlush w)) ∧
    (SafeSelection (list.showModal ui) Prod.fst list.items.length w ↔
      list.items ≠ [] ∨ LeavesFirst [28, 14] (presses w.io.input)) ∧
    (SafeSelection (paged.showModal ui) Prod.fst paged.items.length w ↔
      paged.items ≠ [] ∨ LeavesFirst [28, 14] (keysAfterFlush w)) := by
  refine ⟨?_, ?_, ?_⟩
  · exact apps.safe_iff ui happs w
  · exact list.safe_iff ui hlist w
  · exact paged.safe_iff ui hpaged w

/-- An empty launcher, after a flush, with this key pressed. -/
def emptyWorld (key : Nat) : World :=
  World.boot (initDatabases none none none) [⟨0, none⟩, .press 1 key]

theorem selection_safe_iff_back :
    SafeSelection (AppSelector.showModal Ui.plain { items := [], background := false }) id 0
      (emptyWorld 14) :=
  (selection_safe_iff Ui.plain (emptyWorld 14) { items := [], background := false }
    { title := [], items := [], appId := [] } { title := [], items := [], rootId := [] }
    (Or.inl rfl) (Or.inl rfl) (Or.inl rfl)).1.mpr (Or.inr (by unfold LeavesFirst; decide +kernel))

/-- DOWN on an empty launcher divides by zero, and ENTER on an empty list returns 0. -/
theorem not_selection_safe :
    raised? (AppSelector.showModal Ui.plain { items := [], background := false }) (emptyWorld 108) =
      some .zeroDivisionError ∧
    (returned? (VerticalList.showModal Ui.plain { title := [], items := [], appId := [] })
      (emptyWorld 28)).map Prod.fst = some (some 0) ∧
    ¬ ∀ (ui : Ui) (w : World) (apps : AppSelector),
      apps.Valid → SafeSelection (apps.showModal ui) id apps.items.length w := by
  have hraise : raised? (AppSelector.showModal Ui.plain { items := [], background := false })
      (emptyWorld 108) = some .zeroDivisionError := by decide +kernel
  refine ⟨hraise, by decide +kernel, ?_⟩
  intro hall
  have hsafe := (hall Ui.plain (emptyWorld 108) { items := [], background := false } (Or.inl rfl)).1
  rw [hraise] at hsafe
  cases hsafe

end NeoDCT
