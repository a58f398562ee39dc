import NeoDCT.Framework.Bars
import NeoDCT.Wrap

/-!
# The text widgets

`TextInput`, the one-line prompt, and `TextInputLong`, the message editor (ui/framework.py).

`TextInput.show` blocks until OK or until Backspace is pressed on an empty text; what one key does
is `TextInput.onKey`.  `TextInputLong` is driven by its caller, key by key, through `handleKey`; it
keeps a cursor, and three fields that recognise a held Backspace.
-/

namespace NeoDCT

open PyText Interactive

/-- The characters both widgets' `DEV_KEYMAP` offer. -/
def qwertyKeymap : List (Nat × Char) :=
  [(2, '1'), (3, '2'), (4, '3'), (5, '4'), (6, '5'), (7, '6'), (8, '7'), (9, '8'), (10, '9'),
    (11, '0'), (16, 'q'), (17, 'w'), (18, 'e'), (19, 'r'), (20, 't'), (21, 'y'), (22, 'u'),
    (23, 'i'), (24, 'o'), (25, 'p'), (30, 'a'), (31, 's'), (32, 'd'), (33, 'f'), (34, 'g'),
    (35, 'h'), (36, 'j'), (37, 'k'), (38, 'l'), (44, 'z'), (45, 'x'), (46, 'c'), (47, 'v'),
    (48, 'b'), (49, 'n'), (50, 'm'), (57, ' '), (52, '.'), (51, ','), (12, '-')]

/-- The character a key types: upper case when the text is empty. -/
def typedChar (text : Text) (char : Char) : Char := if text = [] then char.toUpper else char

/-! ## TextInput -/

structure TextInput where
  title : Text
  prompt : Text
  text : Text := []
deriving DecidableEq

namespace TextInput

def devKeymap : List (Nat × Char) := qwertyKeymap

def drawOps (self : TextInput) (blinkState : Bool) : List DrawOp :=
  [fillBox 0 0 240 210 "black", drawText 5 5 self.title .xl "white",
    .line 0 35 240 35 (.named "white"), drawText 10 55 self.prompt .n "white",
    .rectangle 10 85 230 125 none (some (.named "white")),
    drawText 15 95 (self.text ++ if blinkState then ['_'] else []) .n "white"]

def draw (self : TextInput) (blinkState : Bool) : UI Unit := do
  paint (self.drawOps blinkState)
  present

/-- What a key does: the widget after it, or what `show` returns. -/
def onKey (self : TextInput) (key : Nat) : TextInput ⊕ Option Text :=
  if key = 28 ∨ key = 96 then .inr (some self.text)
  else if key = 14 then
    if 0 < self.text.length then .inl { self with text := self.text.dropLast } else .inr none
  else
    match devKeymap.lookup key with
    | some char => .inl { self with text := self.text ++ [typedChar self.text char] }
    | none => .inl self

/-- The journal entry of a `show` that returned `r`. -/
def closed (self : TextInput) : Option Text → Event
  | some text => .confirmed self.title self.prompt text
  | none => .cancelled self.title self.prompt

/-- The widget, `cursor_on` and `last_blink`. -/
abbrev ShowState := TextInput × Bool × ℚ

/-- The blink logic at the head of the loop. -/
def blink : ShowState → UI ShowState
  | (self, cursorOn, lastBlink) => do
    let t ← now
    if 1 / 2 < t - lastBlink then
      self.draw !cursorOn
      pure (self, !cursorOn, t)
    else pure (self, cursorOn, lastBlink)

/-- One iteration of `show`. -/
def showBody (st : ShowState) : UI (ShowState ⊕ Option Text) := do
  let (self, cursorOn, lastBlink) ← blink st
  let key ← waitForKey
  match self.onKey key with
  | .inl self' =>
    if key = 14 ∨ (devKeymap.lookup key).isSome then self'.draw cursorOn else pure ()
    pure (.inl (self', cursorOn, lastBlink))
  | .inr r =>
    record (self.closed r)
    pure (.inr r)

/-- `TextInput.show`. -/
def showModal (ui : Ui) (self : TextInput) : UI (Option Text) := do
  SoftKeyBar.app.update ui (some "OK".toList) true
  let lastBlink ← now
  self.draw true
  loop showBody (self, true, lastBlink)

theorem draw_spec (self : TextInput) (b : Bool) (w : World) {E : Halt PyError → World → Prop} :
    wp (self.draw b) (fun _ w' => Drawn w w') E w :=
  show_spec _ w

theorem blink_spec (st : ShowState) (w : World) {E : Halt PyError → World → Prop} :
    wp (blink st) (fun st' w' => st'.1 = st.1 ∧ Drawn w w') E w := by
  obtain ⟨self, cursorOn, lastBlink⟩ := st
  refine wp_seq (now_spec w) (fun _ _ h => h) ?_
  rintro t _ ⟨-, rfl⟩
  split
  · exact wp_seq (draw_spec self _ _) (fun _ _ h => h) fun _ _ h => ⟨rfl, h⟩
  · exact ⟨rfl, Drawn.refl _⟩

/-- The title and the prompt stay. -/
def SamePrompt (self self' : TextInput) : Prop :=
  self'.title = self.title ∧ self'.prompt = self.prompt

theorem SamePrompt.closed {self self' : TextInput} (h : SamePrompt self self') (r : Option Text) :
    self'.closed r = self.closed r := by
  cases r <;> simp only [TextInput.closed, h.1, h.2]

theorem onKey_samePrompt {self self' : TextInput} {key : Nat} (h : self.onKey key = .inl self') :
    SamePrompt self self' := by
  unfold onKey at h
  grind [SamePrompt]

theorem showBody_spec (st : ShowState) (w : World) :
    wp (showBody st) (fun r w' => ∃ key ks, presses w.io.input = key :: ks ∧ match r with
      | .inl st' => st.1.onKey key = .inl st'.1 ∧ Reads w w' ∧ presses w'.io.input = ks
      | .inr r => st.1.onKey key = .inr r ∧ presses w'.io.input = ks ∧
        ∃ w₁, Reads w w₁ ∧ w' = w₁.journal [st.1.closed r])
      (fun h w' => h = .waiting ∧ presses w.io.input = [] ∧ Quiet w w') w := by
  unfold showBody
  refine wp_seq (blink_spec st w) (fun _ _ h => h) ?_
  rintro ⟨self, cursorOn, lastBlink⟩ w₀ ⟨hself, hd₀⟩
  simp only [← hself]
  refine wp_seq (waitForKey_spec w₀) ?_ ?_
  · rintro _ _ ⟨rfl, hnil, hq⟩
    exact ⟨rfl, by rw [← hd₀.input, hnil], hd₀.quiet.trans hq⟩
  rintro key w₁ ⟨hr, hp⟩
  rw [hd₀.input] at hp
  have hr' := hd₀.quiet.trans_reads hr
  cases hk : self.onKey key with
  | inr r =>
    refine wp_seq (record_spec (self.closed r) w₁) (fun _ _ h => h) ?_
    rintro _ _ rfl
    exact ⟨key, _, hp, hk, rfl, w₁, hr', rfl⟩
  | inl self' =>
    simp only []
    split
    · refine wp_seq (draw_spec self' cursorOn w₁) (fun _ _ h => h) ?_
      intro _ w₂ hd
      exact ⟨key, _, hp, hk, hr'.trans_quiet hd.quiet, by rw [hd.input]⟩
    · exact ⟨key, _, hp, hk, hr', rfl⟩

/-- **What `show` returns**: the keys pressed are fed to `onKey` until it returns. -/
theorem showModal_spec (ui : Ui) (self : TextInput) (w : World) :
    wp (self.showModal ui) (fun r w' =>
        feed onKey self (presses w.io.input) = .inr (r, presses w'.io.input) ∧
        ∃ w₁, Reads w w₁ ∧ w' = w₁.journal [self.closed r])
      (fun h w' => h = .waiting ∧ Quiet w w' ∧
        ∃ self', feed onKey self (presses w.io.input) = .inl self') w := by
  refine wp_seq (SoftKeyBar.update_spec ui _ _ _ w) (fun _ _ h => h) ?_
  intro _ w₀ hd₀
  refine wp_seq (now_spec w₀) (fun _ _ h => h) ?_
  rintro t _ ⟨-, rfl⟩
  refine wp_seq (draw_spec self true _) (fun _ _ h => h) ?_
  intro _ w₁ hd₁
  have hd := hd₀.trans hd₁
  refine wp_loop (fun st w' => Quiet w w' ∧ SamePrompt self st.1 ∧
    feed onKey self (presses w.io.input) = feed onKey st.1 (presses w'.io.input))
    ⟨hd.quiet, ⟨rfl, rfl⟩, by rw [hd.input]⟩ ?_
  rintro st w₂ ⟨hq, hs, hf⟩
  refine wp_mono (showBody_spec st w₂) ?_ ?_
  · rintro (st' | r) w₃ ⟨key, ks, hp, h⟩
    · obtain ⟨hk, hr, hks⟩ := h
      have hs' := onKey_samePrompt hk
      refine ⟨⟨hq.trans hr.quiet, ⟨hs'.1.trans hs.1, hs'.2.trans hs.2⟩, ?_⟩, ?_⟩
      · rw [hf, hp, hks, feed, hk]
      · exact hr.remaining
    · obtain ⟨hk, hks, w₄, hr, rfl⟩ := h
      refine ⟨?_, w₄, hq.trans_reads hr, by rw [hs.closed]⟩
      rw [hf, hp, hks, feed, hk]
  · rintro _ w₃ ⟨rfl, hnil, hq'⟩
    refine ⟨rfl, hq.trans hq', st.1, ?_⟩
    rw [hf, hnil]
    rfl

/-- `show` leaves one journal entry. -/
theorem showModal_logged (ui : Ui) (self : TextInput) (w : World) :
    wp (self.showModal ui) (fun r w' => Logged [self.closed r] w w')
      (fun h w' => h = .waiting ∧ Quiet w w') w := by
  refine wp_mono (showModal_spec ui self w) ?_ fun _ _ h => ⟨h.1, h.2.1⟩
  rintro r _ ⟨-, w₁, hr, rfl⟩
  exact Logged.single hr.quiet _

end TextInput

/-! ## TextInputLong -/

/-- What `handle_key` reports. -/
inductive KeyResult where
  | emptyBackspace | cleared | backspace | typed
deriving DecidableEq, Repr

structure TextInputLong where
  title : Text
  text : Text := []
  cursor : Nat := text.length
  lastBackspaceTime : ℚ := 0
  backspaceHoldStart : Option ℚ := none
  backspaceRepeatCount : Nat := 0

namespace TextInputLong

def devKeymap : List (Nat × Char) := qwertyKeymap

def backspaceHoldGap : ℚ := 18 / 100
def backspaceHoldDuration : ℚ := 8 / 10
def backspaceHoldRepeats : Nat := 8

/-- `set_text`. -/
def setText (self : TextInputLong) (text : Text) : TextInputLong :=
  { self with text := text, cursor := text.length }

/-- `clear_text`. -/
def clearText (self : TextInputLong) : TextInputLong := { self with text := [], cursor := 0 }

/-- `self._backspace_hold_start and now - self._backspace_hold_start >= …`: 0.0 is falsy. -/
def heldLongEnough (self : TextInputLong) (now : ℚ) : Bool :=
  match self.backspaceHoldStart with
  | some start => start ≠ 0 && backspaceHoldDuration ≤ now - start
  | none => false

/-- The end of the Backspace branch: drop the character before the cursor. -/
def dropBeforeCursor (self : TextInputLong) (now : ℚ) : TextInputLong :=
  if 0 < self.cursor then
    { self with
      text := self.text.take (self.cursor - 1) ++ self.text.drop self.cursor
      cursor := self.cursor - 1
      lastBackspaceTime := now }
  else { self with lastBackspaceTime := now }

/-- `handle_key`, called at time `now`. -/
def handleKey (self : TextInputLong) (now : ℚ) (key : Nat) : TextInputLong × Option KeyResult :=
  if key = 14 then
    if self.text.length = 0 then (self, some .emptyBackspace)
    else if backspaceHoldGap < now - self.lastBackspaceTime then
      ({ self with backspaceHoldStart := some now, backspaceRepeatCount := 1 }.dropBeforeCursor now,
        some .backspace)
    else
      let self := { self with backspaceRepeatCount := self.backspaceRepeatCount + 1 }
      if self.heldLongEnough now ∧ backspaceHoldRepeats ≤ self.backspaceRepeatCount then
        ({ self.clearText with
            backspaceHoldStart := none, backspaceRepeatCount := 0, lastBackspaceTime := now },
          some .cleared)
      else (self.dropBeforeCursor now, some .backspace)
  else
    match devKeymap.lookup key with
    | some char =>
      ({ self with
          backspaceHoldStart := none
          backspaceRepeatCount := 0
          text := self.text.take self.cursor ++ [typedChar self.text char] ++
            self.text.drop self.cursor
          cursor := self.cursor + 1 }, some .typed)
    | none => (self, none)

/-- The lines `draw` shows: the last ones that fit between 45 and 210. -/
def visibleLines (ui : Ui) (self : TextInputLong) (blinkState : Bool) :
    Except PyError (List Text × ℤ) :=
  let displayText := self.text ++ if blinkState then ['_'] else []
  let lines := wrapText (fun s => (ui.getTextSize s .s).1) 220 displayText
  let lineH := (ui.getTextSize "Ag".toList .s).2 + 3
  if lineH = 0 then .error .zeroDivisionError
  else
    let maxLines := (max 1 (Int.tdiv (210 - 45) lineH)).toNat
    .ok (((lines.drop (lines.length - maxLines)).take maxLines), lineH)

def drawOps (ui : Ui) (self : TextInputLong) (blinkState : Bool) :
    Except PyError (List DrawOp) := do
  let charCount := (toString self.text.length).toList
  let (lines, lineH) ← self.visibleLines ui blinkState
  pure ([fillBox 0 0 240 210 "black", drawText 5 5 self.title .xl "white",
      drawText (235 - (ui.getTextSize charCount .n).1 : ℤ) 5 charCount .n "white",
      .line 0 35 240 35 (.named "white")] ++
    lines.mapIdx fun i line => drawText 10 (45 + i * lineH : ℤ) line .s "white")

/-- `TextInputLong.draw`. -/
def draw (ui : Ui) (self : TextInputLong) (blinkState : Bool) : UI Unit := do
  let ops ← attempt (self.drawOps ui blinkState)
  paint ops
  present
  record (.editing self.title self.text)

theorem draw_spec (ui : Ui) (self : TextInputLong) (b : Bool) (w : World) :
    wp (self.draw ui b)
      (fun _ w' => ∃ w₁, Drawn w w₁ ∧ w' = w₁.journal [.editing self.title self.text])
      (fun h w' => (∃ e, h = .raised e) ∧ Drawn w w') w := by
  refine wp_seq (attempt_spec _ w) ?_ ?_
  · rintro _ _ ⟨e, rfl, rfl⟩
    exact ⟨⟨e, rfl⟩, Drawn.refl _⟩
  rintro ops _ ⟨-, rfl⟩
  exact recordShow_spec ops _ _

end TextInputLong

end NeoDCT
