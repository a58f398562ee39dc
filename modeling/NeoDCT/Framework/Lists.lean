import NeoDCT.Framework.Bars
import NeoDCT.Lib.PyText

/-!
# The selection widgets

`VerticalList`, `AppSelector` and `PagedList` (ui/framework.py).  Each `show` is a key loop; what
one key does to the widget is a function of its own (`onKey`), and `none` stands for the -1 that
`show` returns on Backspace.  A `VerticalList` keeps its selection from one `show` to the next, so
`show` also returns the widget.
-/

namespace NeoDCT

open PyText Interactive

/-! ## VerticalList -/

structure VerticalList where
  title : Text
  items : List Text
  appId : Text
  selectedIndex : Nat := 0
  windowStart : Nat := 0
  maxLines : Nat := 3

namespace VerticalList

/-- The row drawn in slot `i`, if there is one. -/
def rowOps (self : VerticalList) (i : Nat) : List DrawOp :=
  let itemIdx := self.windowStart + i
  match self.items[itemIdx]? with
  | none => []
  | some itemText =>
    let y : ℚ := 45 + i * 55
    if itemIdx = self.selectedIndex then
      [fillBox 0 y 225 (y + 50) "white", drawText 10 (y + 10) itemText .n "black"]
    else [drawText 10 (y + 10) itemText .n "white"]

def drawOps (ui : Ui) (self : VerticalList) : List DrawOp :=
  let notch := notchY 45 self.selectedIndex self.items.length
  [fillBox 0 0 240 210 "black", drawText 5 5 self.title .xl "white"] ++
    headerOps ui self.appId (some (self.selectedIndex + 1)) ++
    [.line 0 35 240 35 (.named "white")] ++
    (List.range self.maxLines).flatMap self.rowOps ++
    [.line 235 45 235 205 (.named "gray"), fillBox 232 (notch - 3) 238 (notch + 3) "white"]

def draw (ui : Ui) (self : VerticalList) : UI Unit := do
  paint (self.drawOps ui)
  present

/-- DOWN. -/
def down (self : VerticalList) : VerticalList :=
  if self.selectedIndex + 1 < self.items.length then
    let self := { self with selectedIndex := self.selectedIndex + 1 }
    if self.windowStart + self.maxLines ≤ self.selectedIndex then
      { self with windowStart := self.windowStart + 1 }
    else self
  else self

/-- UP. -/
def up (self : VerticalList) : VerticalList :=
  if 0 < self.selectedIndex then
    let self := { self with selectedIndex := self.selectedIndex - 1 }
    if self.selectedIndex < self.windowStart then
      { self with windowStart := self.windowStart - 1 }
    else self
  else self

/-- What a key does: the list after it, or the index `show` returns. -/
def onKey (self : VerticalList) (key : Nat) : VerticalList ⊕ Option Nat :=
  if key = 108 then .inl self.down
  else if key = 103 then .inl self.up
  else if 2 ≤ key ∧ key ≤ 10 then
    if key - 2 < self.items.length then .inr (some (key - 2)) else .inl self
  else if key = 28 then .inr (some self.selectedIndex)
  else if key = 14 then .inr none
  else .inl self

/-- The journal entry of a `show` that returned `r`. -/
def closed (self : VerticalList) : Option Nat → Event
  | some i => .chose self.title self.items i
  | none => .back self.title self.items

/-- One iteration of `show`. -/
def showBody (ui : Ui) (self : VerticalList) : UI (VerticalList ⊕ (Option Nat × VerticalList)) := do
  let key ← waitForKey
  match self.onKey key with
  | .inl self' =>
    if key = 108 ∨ key = 103 then self'.draw ui else pure ()
    pure (.inl self')
  | .inr r =>
    record (self.closed r)
    pure (.inr (r, self))

/-- `VerticalList.show`. -/
def showModal (ui : Ui) (self : VerticalList) : UI (Option Nat × VerticalList) := do
  self.draw ui
  loop (showBody ui) self

theorem draw_spec (ui : Ui) (self : VerticalList) (w : World) {E : Halt PyError → World → Prop} :
    wp (self.draw ui) (fun _ w' => Drawn w w') E w :=
  show_spec _ w

/-- The fields the user does not move. -/
def SameList (self self' : VerticalList) : Prop :=
  self'.title = self.title ∧ self'.items = self.items ∧ self'.appId = self.appId

theorem SameList.closed {self self' : VerticalList} (h : SameList self self') (r : Option Nat) :
    self'.closed r = self.closed r := by
  cases r <;> simp only [VerticalList.closed, h.1, h.2.1]

theorem onKey_sameList {self self' : VerticalList} {key : Nat} (h : self.onKey key = .inl self') :
    SameList self self' := by
  unfold onKey down up at h
  grind [SameList]

theorem showBody_spec (ui : Ui) (self : VerticalList) (w : World) :
    wp (showBody ui self) (fun r w' => ∃ key ks, presses w.io.input = key :: ks ∧ match r with
      | .inl self' => self.onKey key = .inl self' ∧ Reads w w' ∧ presses w'.io.input = ks
      | .inr (r, self') => self.onKey key = .inr r ∧ self' = self ∧ presses w'.io.input = ks ∧
        ∃ w₁, Reads w w₁ ∧ w' = w₁.journal [self.closed r])
      (fun h w' => h = .waiting ∧ presses w.io.input = [] ∧ Quiet w w') w := by
  unfold showBody
  refine wp_seq (waitForKey_spec w) (fun _ _ h => h) ?_
  rintro key w₁ ⟨hr, hp⟩
  cases hk : self.onKey key with
  | inr r =>
    refine wp_seq (record_spec (self.closed r) w₁) (fun _ _ h => h) ?_
    rintro _ _ rfl
    exact ⟨key, _, hp, hk, rfl, rfl, w₁, hr, rfl⟩
  | inl self' =>
    simp only []
    by_cases hd : key = 108 ∨ key = 103
    · rw [if_pos hd]
      refine wp_seq (draw_spec ui self' w₁) (fun _ _ h => h) ?_
      intro _ w₂ hd
      exact ⟨key, _, hp, hk, hr.trans_quiet hd.quiet, by rw [hd.input]⟩
    · rw [if_neg hd]
      exact ⟨key, _, hp, hk, hr, rfl⟩

/-- **What `show` returns**: the keys pressed are fed to `onKey` until it returns, on the list that
is returned too. -/
theorem showModal_spec (ui : Ui) (self : VerticalList) (w : World) :
    wp (self.showModal ui) (fun r w' =>
        (∃ ks k, presses w.io.input = ks ++ k :: presses w'.io.input ∧
          feed onKey self ks = .inl r.2 ∧ r.2.onKey k = .inr r.1) ∧
        SameList self r.2 ∧ ∃ w₁, Reads w w₁ ∧ w' = w₁.journal [self.closed r.1])
      (fun h w' => h = .waiting ∧ Quiet w w' ∧
        ∃ self', feed onKey self (presses w.io.input) = .inl self') w := by
  refine wp_seq (draw_spec ui self w) (fun _ _ h => h) ?_
  intro _ w₀ hd
  refine wp_loop (fun b w' => Quiet w w' ∧ SameList self b ∧
    ∃ ks, presses w.io.input = ks ++ presses w'.io.input ∧ feed onKey self ks = .inl b)
    ⟨hd.quiet, ⟨rfl, rfl, rfl⟩, [], by rw [hd.input]; rfl, rfl⟩ ?_
  rintro b w₁ ⟨hq, hs, ks, hks, hf⟩
  refine wp_mono (showBody_spec ui b w₁) ?_ ?_
  · rintro (b' | ⟨r, b'⟩) w₂ ⟨key, rest, hp, h⟩
    · obtain ⟨hk, hr, hrest⟩ := h
      have hs' := onKey_sameList hk
      refine ⟨⟨hq.trans hr.quiet, ⟨hs'.1.trans hs.1, hs'.2.1.trans hs.2.1, hs'.2.2.trans hs.2.2⟩,
        ks ++ [key], ?_, ?_⟩, ?_⟩
      · rw [hks, hp, hrest, List.append_assoc]
        rfl
      · rw [feed_snoc hf, hk]
        rfl
      · exact hr.remaining
    · obtain ⟨hk, rfl, hrest, w₃, hr, rfl⟩ := h
      refine ⟨⟨ks, key, ?_, hf, hk⟩, hs, w₃, hq.trans_reads hr, by rw [hs.closed]⟩
      rw [hks, hp, hrest]
  · rintro _ w₂ ⟨rfl, hnil, hq'⟩
    refine ⟨rfl, hq.trans hq', b, ?_⟩
    rw [hks, hnil, List.append_nil, hf]

/-- An index that `show` returns is one of the list, if the selection was. -/
theorem index_lt {self : VerticalList} {ks rest : List Nat} {i : Nat}
    (hsel : self.selectedIndex < self.items.length)
    (hf : feed onKey self ks = .inr (some i, rest)) : i < self.items.length := by
  induction ks generalizing self with
  | nil => cases hf
  | cons k ks ih =>
    rw [feed] at hf
    cases hk : self.onKey k with
    | inl self' =>
      rw [hk] at hf
      rw [← (onKey_sameList hk).2.1]
      refine ih ?_ hf
      unfold onKey down up at hk
      grind
    | inr r =>
      rw [hk] at hf
      obtain ⟨rfl, -⟩ : r = some i ∧ ks = rest := by simpa using hf
      unfold onKey at hk
      grind

/-- `show` leaves one journal entry, and has read a key when it returns. -/
theorem showModal_logged (ui : Ui) (self : VerticalList) (w : World) :
    wp (self.showModal ui) (fun r w' => Logged [self.closed r.1] w w' ∧ SameList self r.2 ∧
        w'.io.input.length < w.io.input.length)
      (fun h w' => h = .waiting ∧ Quiet w w') w := by
  refine wp_mono (showModal_spec ui self w) ?_ fun _ _ h => ⟨h.1, h.2.1⟩
  rintro r _ ⟨-, hs, w₁, hr, rfl⟩
  refine ⟨Logged.single hr.quiet _, hs, ?_⟩
  exact hr.remaining

end VerticalList

/-! ## AppSelector -/

/-- `i % n`. -/
def wrapIndex (i : ℤ) (n : Nat) : Except PyError Nat :=
  if n = 0 then .error .zeroDivisionError else .ok (i % n).toNat

/-- Moving a selection draws the widget that has it. -/
theorem move_drawn {β : Type} {n : Nat} {i : ℤ} {select : Nat → β} {draw : β → UI Unit}
    (hdraw : ∀ b w, wp (draw b) (fun _ w' => Drawn w w') (fun _ w' => Drawn w w') w) (w : World) :
    wp (do let j ← attempt (wrapIndex i n); draw (select j); pure (select j) : UI β)
      (fun _ w' => Drawn w w') (fun _ w' => Drawn w w') w := by
  refine wp_seq (attempt_spec _ w) ?_ ?_
  · rintro _ _ ⟨e, -, rfl⟩
    exact Drawn.refl _
  · rintro j _ ⟨-, rfl⟩
    exact wp_seq (hdraw _ _) (fun _ _ h => h) fun _ _ h => h

/-- An iteration that has read a key and moves the selection. -/
theorem moved_reads {β γ : Type} {move : UI β} {w w₁ : World} (hr : Reads w w₁)
    (hmove : wp move (fun _ w' => Drawn w₁ w') (fun _ w' => Drawn w₁ w') w₁) :
    wp (do pure (.inl (← move)) : UI (β ⊕ γ)) (fun _ w' => Reads w w') (fun _ w' => Quiet w w') w₁ := by
  refine wp_seq hmove ?_ ?_
  · intro _ w₂ hd
    exact (hr.trans_quiet hd.quiet).quiet
  · intro _ w₂ hd
    exact hr.trans_quiet hd.quiet

structure AppSelector where
  items : List AppEntry
  background : Bool
  selectedIndex : Nat := 0

namespace AppSelector

def drawOps (ui : Ui) (self : AppSelector) : Except PyError (List DrawOp) :=
  let background :=
    if self.background then DrawOp.paste "wallpaper".toList 0 0 else fillBox 0 0 240 240 "black"
  if self.items = [] then .ok [background, drawText 80 100 "No Apps".toList .n "white"]
  else
    match self.items[self.selectedIndex]? with
    | none => .error .indexError
    | some app =>
      let centered (s : Text) (y : ℚ) (font : Font) :=
        drawText ((240 - (ui.getTextSize s font).1) / 2 : ℤ) y s font "white"
      let icon :=
        if app.icon = [] then []
        else
          match ui.getImage app.icon with
          | some (width, _) => [.paste app.icon ((240 - width) / 2 : ℤ) 90]
          | none => [.rectangle 95 90 145 140 none (some (.named "white")),
              drawText 105 105 "?".toList .xl "white"]
      let notch := notchY 40 self.selectedIndex self.items.length
      .ok ([background, centered app.name 40 .xl] ++ icon ++
        [centered "Select".toList 210 .n, .line 230 40 230 200 (.named "white"),
          fillBox 226 (notch - 3) 232 (notch + 3) "white",
          drawText 220 10 (toString (self.selectedIndex + 1)).toList .n "white"])

def draw (ui : Ui) (self : AppSelector) : UI Unit := do
  let ops ← attempt (self.drawOps ui)
  paint ops
  present

/-- `self.selected_index = i % len(self.items); self.draw()`. -/
def move (ui : Ui) (self : AppSelector) (i : ℤ) : UI AppSelector := do
  let i ← attempt (wrapIndex i self.items.length)
  let self := { self with selectedIndex := i }
  self.draw ui
  pure self

def showBody (ui : Ui) (self : AppSelector) : UI (AppSelector ⊕ Option Nat) := do
  let key ← waitForKey
  if key = 108 then
    pure (.inl (← self.move ui (self.selectedIndex + 1)))
  else if key = 103 then
    pure (.inl (← self.move ui (self.selectedIndex - 1)))
  else if key = 28 then pure (.inr (some self.selectedIndex))
  else if key = 14 then pure (.inr none)
  else pure (.inl self)

/-- `AppSelector.show`: flush the keypad, draw, then the key loop. -/
def showModal (ui : Ui) (self : AppSelector) : UI (Option Nat) := do
  flushInput
  self.draw ui
  loop (showBody ui) self

theorem draw_spec (ui : Ui) (self : AppSelector) (w : World) :
    wp (self.draw ui) (fun _ w' => Drawn w w') (fun _ w' => Drawn w w') w :=
  attemptShow_spec _ w

theorem move_spec (ui : Ui) (self : AppSelector) (i : ℤ) (w : World) :
    wp (self.move ui i) (fun _ w' => Drawn w w') (fun _ w' => Drawn w w') w :=
  move_drawn (draw_spec ui) w

theorem showBody_spec (ui : Ui) (self : AppSelector) (w : World) :
    wp (showBody ui self) (fun _ w' => Reads w w') (fun _ w' => Quiet w w') w := by
  unfold showBody
  refine wp_seq (waitForKey_spec w) (fun _ _ h => h.2.2) ?_
  rintro key w₁ ⟨hr, -⟩
  split
  · exact moved_reads hr (move_spec ui self _ w₁)
  · split
    · exact moved_reads hr (move_spec ui self _ w₁)
    · split
      · exact hr
      · split <;> exact hr

theorem showModal_spec (ui : Ui) (self : AppSelector) (w : World) :
    wp (self.showModal ui) (fun _ w' => Reads w w') (fun _ w' => Quiet w w') w :=
  modal_reads (draw_spec ui self) (showBody_spec ui) self w

end AppSelector

/-! ## PagedList -/

structure PagedList where
  title : Text
  items : List Text
  rootId : Text
  showSelectHint : Bool := true
  selectedIndex : Nat := 0

namespace PagedList

/-- The prefixes of a word, longest first, until one fits with `...` after it; the word is given
reversed, so that `trimmed[:-1]` drops its head. -/
def trimReversed (fits : Text → Bool) : Text → Text
  | [] => []
  | c :: cs =>
    if fits ((c :: cs).reverse ++ "...".toList) then (c :: cs).reverse else trimReversed fits cs

/-- `while trimmed and not fits(trimmed + "..."): trimmed = trimmed[:-1]`. -/
def trimToFit (fits : Text → Bool) (word : Text) : Text := trimReversed fits word.reverse

theorem trimToFit_prefix (fits : Text → Bool) (word : Text) : trimToFit fits word <+: word := by
  have h : ∀ cs : Text, trimReversed fits cs <+: cs.reverse := by
    intro cs
    induction cs with
    | nil => exact List.prefix_rfl
    | cons c cs ih =>
      rw [trimReversed]
      split
      · exact List.prefix_rfl
      · exact ih.trans (by rw [List.reverse_cons]; exact List.prefix_append _ _)
  simpa [trimToFit] using h word.reverse

/-- What is left fits with `...` after it, unless nothing is left. -/
theorem trimToFit_fits (fits : Text → Bool) (word : Text) (h : trimToFit fits word ≠ []) :
    fits (trimToFit fits word ++ "...".toList) = true := by
  have hrev : ∀ cs : Text, trimReversed fits cs ≠ [] →
      fits (trimReversed fits cs ++ "...".toList) = true := by
    intro cs
    induction cs with
    | nil => exact fun hnil => absurd rfl hnil
    | cons c cs ih =>
      intro hne
      rw [trimReversed] at hne ⊢
      by_cases hfit : fits ((c :: cs).reverse ++ "...".toList) = true
      · rwa [if_pos hfit]
      · rw [if_neg hfit] at hne ⊢
        exact ih hne
  exact hrev word.reverse h

/-- No longer beginning fits with `...` after it. -/
theorem trimToFit_longest (fits : Text → Bool) {p word : Text} (hp : p <+: word)
    (hfit : fits (p ++ "...".toList) = true) : p.length ≤ (trimToFit fits word).length := by
  have hrev : ∀ cs : Text, p <+: cs.reverse → p.length ≤ (trimReversed fits cs).length := by
    intro cs
    induction cs with
    | nil => exact fun h => h.length_le
    | cons c cs ih =>
      intro h
      rw [trimReversed]
      by_cases hall : fits ((c :: cs).reverse ++ "...".toList) = true
      · rw [if_pos hall]
        exact h.length_le
      · rw [if_neg hall]
        rw [List.reverse_cons] at h hall
        rcases List.prefix_concat_iff.mp h with heq | h
        · rw [heq] at hfit
          exact absurd hfit hall
        · exact ih h
  exact hrev word.reverse (by rwa [List.reverse_reverse])

/-- The loop of `_wrap_to_lines`: the words left, the lines and the current line when it ends. -/
def wrapLoop (fits : Text → Bool) (maxLines : Nat) (words lines : List Text) (cur : Text) :
    List Text × List Text × Text :=
  match words with
  | [] => ([], lines, cur)
  | w :: ws =>
    if lines.length < maxLines then
      let candidate := if cur ≠ [] then strip (cur ++ [' '] ++ w) else w
      if fits candidate then wrapLoop fits maxLines ws lines candidate
      else if cur ≠ [] then wrapLoop fits maxLines (w :: ws) (lines ++ [cur]) []
      else
        let trimmed := trimToFit fits w
        let line :=
          if trimmed ≠ [] then (if ws ≠ [] then trimmed ++ "...".toList else trimmed)
          else "...".toList
        wrapLoop fits maxLines ws (lines ++ [line]) cur
    else (w :: ws, lines, cur)
termination_by (words.length, cur.length)
decreasing_by
  all_goals simp_wf
  · exact Prod.Lex.left _ _ (Nat.lt_succ_self _)
  · next h => exact Prod.Lex.right _ (List.length_pos_of_ne_nil h)
  · exact Prod.Lex.left _ _ (Nat.lt_succ_self _)

/-- `_wrap_to_lines`; assigning `lines[-1]` of an empty list raises. -/
def wrapToLines (fits : Text → Bool) (text : Text) (maxLines : Nat) : Except PyError (List Text) :=
  let words := split text
  if words = [] then .ok [[]]
  else
    let (left, lines, cur) := wrapLoop fits maxLines words [] []
    let lines := if lines.length < maxLines ∧ cur ≠ [] then lines ++ [cur] else lines
    if left = [] then .ok (lines.take maxLines)
    else
      match lines.getLast? with
      | none => .error .indexError
      | some last =>
        if "...".toList <:+ last then .ok lines
        else
          let trimmed := trimToFit fits last
          let last := if trimmed ≠ [] then trimmed ++ "...".toList else "...".toList
          .ok ((lines.dropLast ++ [last]).take maxLines)

def drawOps (ui : Ui) (self : PagedList) : Except PyError (List DrawOp) :=
  let top := [fillBox 0 0 240 240 "black", drawText 5 5 self.title .xl "white",
    .line 0 35 240 35 (.named "white")]
  let hint (text : Option Text) :=
    if self.showSelectHint then SoftKeyBar.app.drawOps ui text else []
  match self.items with
  | [] => .ok (top ++ headerOps ui self.rootId none ++
      [drawText 70 110 "No Items".toList .n "white"] ++ hint none)
  | _ =>
    match self.items[self.selectedIndex]? with
    | none => .error .indexError
    | some name => do
      let maxW : ℤ := 210
      let lines ← wrapToLines (fun s => (ui.getTextSize s .xl).1 ≤ maxW) name 2
      let lineH := (ui.getTextSize "Ag".toList .xl).2
      let totalH := lines.length * (lineH + 6) - 6
      let y0 := 40 + max 0 ((200 - 40 - totalH) / 2)
      let body := lines.mapIdx fun li line =>
        drawText (max 5 ((maxW - (ui.getTextSize line .xl).1) / 2) : ℤ)
          (y0 + li * (lineH + 6) : ℤ) line .xl "white"
      let notch := notchY 40 self.selectedIndex self.items.length
      pure (top ++ headerOps ui self.rootId (some (self.selectedIndex + 1)) ++ body ++
        [.line 235 40 235 200 (.named "white"), fillBox 231 (notch - 3) 237 (notch + 3) "white"] ++
        hint (some "Select".toList))

def draw (ui : Ui) (self : PagedList) : UI Unit := do
  let ops ← attempt (self.drawOps ui)
  paint ops
  present

/-- `self.selected_index = i % len(self.items); self.draw()`. -/
def move (ui : Ui) (self : PagedList) (i : ℤ) : UI PagedList := do
  let i ← attempt (wrapIndex i self.items.length)
  let self := { self with selectedIndex := i }
  self.draw ui
  pure self

def showBody (ui : Ui) (self : PagedList) : UI (PagedList ⊕ (Option Nat × PagedList)) := do
  let key ← waitForKey
  if key = 108 then
    if self.items ≠ [] then
      pure (.inl (← self.move ui (self.selectedIndex + 1)))
    else pure (.inl self)
  else if key = 103 then
    if self.items ≠ [] then
      pure (.inl (← self.move ui (self.selectedIndex - 1)))
    else pure (.inl self)
  else if key = 28 then pure (.inr (some self.selectedIndex, self))
  else if key = 14 then pure (.inr (none, self))
  else pure (.inl self)

/-- `PagedList.show`. -/
def showModal (ui : Ui) (self : PagedList) : UI (Option Nat × PagedList) := do
  flushInput
  let self := if self.items.length ≤ self.selectedIndex then { self with selectedIndex := 0 } else self
  self.draw ui
  loop (showBody ui) self

theorem draw_spec (ui : Ui) (self : PagedList) (w : World) :
    wp (self.draw ui) (fun _ w' => Drawn w w') (fun _ w' => Drawn w w') w :=
  attemptShow_spec _ w

theorem move_spec (ui : Ui) (self : PagedList) (i : ℤ) (w : World) :
    wp (self.move ui i) (fun _ w' => Drawn w w') (fun _ w' => Drawn w w') w :=
  move_drawn (draw_spec ui) w

theorem showBody_spec (ui : Ui) (self : PagedList) (w : World) :
    wp (showBody ui self) (fun _ w' => Reads w w') (fun _ w' => Quiet w w') w := by
  unfold showBody
  refine wp_seq (waitForKey_spec w) (fun _ _ h => h.2.2) ?_
  rintro key w₁ ⟨hr, -⟩
  split
  · split
    · exact moved_reads hr (move_spec ui self _ w₁)
    · exact hr
  · split
    · split
      · exact moved_reads hr (move_spec ui self _ w₁)
      · exact hr
    · split
      · exact hr
      · split <;> exact hr

theorem showModal_spec (ui : Ui) (self : PagedList) (w : World) :
    wp (self.showModal ui) (fun _ w' => Reads w w') (fun _ w' => Quiet w w') w :=
  modal_reads (draw_spec ui _) (showBody_spec ui) _ w

end PagedList

end NeoDCT
