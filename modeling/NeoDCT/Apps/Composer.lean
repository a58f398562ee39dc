import NeoDCT.Apps.Messages
import NeoDCT.Framework.Editors

/-!
# Holding Backspace in the composer

`read_keypress` lets presses through and drops the kernel's autorepeat events, while the editor counts
the Backspaces of a hold.  So a held key reaches the editor as one press:

    the text is empty after the hold  ↔  it had one character at most,
                                         or that one press completes a hold   (held_backspace)

`drive` runs the decoder and the editor over a stream of polls; the composer's screen shows what it
computes (`composer_drive`).
-/

namespace NeoDCT

open PyText Interactive

namespace Messages

/-! ## The editor over a stream of polls -/

/-- `read_keypress` and `handle_key` over a stream of polls. -/
def drive (self : TextInputLong) (input : List Poll) : TextInputLong :=
  (self.typeKeys (timedPresses input)).1

theorem drive_of_nil {self : TextInputLong} {input : List Poll} (h : timedPresses input = []) :
    drive self input = self := by
  unfold drive
  rw [h]
  rfl

theorem drive_of_cons {self : TextInputLong} {input rest : List Poll} {t : ℚ} {key : Nat}
    (h : timedPresses input = (t, key) :: timedPresses rest) :
    drive self input = drive (self.handleKey t key).1 rest := by
  unfold drive
  rw [h]
  rfl

/-! ## The composer is that editor -/

theorem Composer.draw_spec (ui : Ui) (self : Composer) (w : World) :
    wp (self.draw ui)
      (fun _ w' => Logged [.editing self.widget.title self.widget.text] w w' ∧
        w'.io.input = w.io.input)
      (fun h w' => (∃ e, h = .raised e) ∧ Drawn w w') w := by
  refine wp_seq (TextInputLong.draw_spec ui _ _ w) (fun _ _ h => h) ?_
  rintro _ _ ⟨w₁, hd, rfl⟩
  have h₁ : Logged [.editing self.widget.title self.widget.text] w _ := Logged.single hd.quiet _
  refine wp_mono (SoftKeyBar.update_spec ui _ _ _ _) (fun _ w₂ hd₂ => ?_) fun _ _ h => h
  exact ⟨h₁.trans_quiet hd₂.quiet, hd₂.input.trans hd.input⟩

theorem Composer.blink_spec (ui : Ui) (self : Composer) (w : World) :
    wp (self.blink ui)
      (fun self' w' => self'.widget = self.widget ∧ w'.io.input = w.io.input ∧
        (w' = w ∨ Logged [.editing self.widget.title self.widget.text] w w'))
      (fun h w' => (∃ e, h = .raised e) ∧ Drawn w w') w := by
  unfold Composer.blink
  refine wp_seq (now_spec w) (fun _ _ h => h) ?_
  rintro t _ ⟨-, rfl⟩
  split
  · exact wp_seq (Composer.draw_spec ui _ _) (fun _ _ h => h) fun _ _ h => ⟨rfl, h.2, Or.inr h.1⟩
  · exact ⟨rfl, rfl, Or.inl rfl⟩

/-- The last thing shown is the composer with this text. -/
def LastShown (text : Text) (w : World) : Prop :=
  ∃ l title, w.log = l ++ [.editing title text]

theorem LastShown.of_logged {w w' : World} {title text : Text}
    (h : Logged [.editing title text] w w') : LastShown text w' := ⟨w.log, title, h.log⟩

/-- **The composer shows what `drive` computes**, once it has read a stream without OK. -/
theorem composer_drive (ui : Ui) (self : Composer) (w : World)
    (hok : ∀ k ∈ timedPresses w.io.input, ¬ (k.2 = 28 ∨ k.2 = 96))
    (hshown : LastShown self.widget.text w) :
    wp (loop (composerBody ui) self) (fun _ _ => True)
      (fun h w' => h = .waiting → LastShown (drive self.widget w.io.input).text w') w := by
  have raised : ∀ (h : Halt PyError) (w₁ w' : World), (∃ e, h = .raised e) ∧ Drawn w₁ w' →
      h = .waiting → LastShown (drive self.widget w.io.input).text w' := by
    rintro _ _ _ ⟨⟨e, rfl⟩, -⟩ h
    cases h
  refine wp_loop (fun c w' => LastShown c.widget.text w' ∧
    drive c.widget w'.io.input = drive self.widget w.io.input ∧
    ∀ k ∈ timedPresses w'.io.input, ¬ (k.2 = 28 ∨ k.2 = 96)) ⟨hshown, rfl, hok⟩ ?_
  rintro c w₁ ⟨hshown₁, hdrive, hok₁⟩
  refine wp_seq (Composer.blink_spec ui c w₁) (fun h w' => raised h w₁ w') ?_
  rintro c' w₂ ⟨hwidget, hin, hblink⟩
  have hshown₂ : LastShown c.widget.text w₂ := by
    rcases hblink with rfl | hblink
    · exact hshown₁
    · exact .of_logged hblink
  rw [← hin, ← hwidget] at hdrive
  rw [← hin] at hok₁
  refine wp_seq (waitForKey_timed w₂) ?_ ?_
  · rintro _ w₃ ⟨rfl, hnil, hq⟩ -
    rw [← hdrive, drive_of_nil hnil, hwidget]
    obtain ⟨l, title, hlog⟩ := hshown₂
    exact ⟨l, title, by rw [hq.logged.log, hlog, List.append_nil]⟩
  rintro key w₃ ⟨hr, hkey⟩
  rw [hkey] at hok₁
  rw [drive_of_cons hkey] at hdrive
  have hlt : w₃.io.input.length < w₁.io.input.length := by
    rw [← hin]
    exact hr.remaining
  rw [if_neg (hok₁ _ List.mem_cons_self)]
  refine wp_seq (now_spec w₃) (fun _ _ h => h) ?_
  rintro t w' ⟨rfl, hw'⟩
  rw [hw']
  simp only []
  split
  · trivial
  · refine wp_seq (Composer.draw_spec ui _ w₃) (fun h w' => raised h w₃ w') ?_
    rintro _ w₄ ⟨hlog₄, hin₄⟩
    refine ⟨⟨.of_logged hlog₄, by rw [hin₄]; exact hdrive, fun k hk => ?_⟩, ?_⟩
    · rw [hin₄] at hk
      exact hok₁ k (List.mem_cons_of_mem _ hk)
    · rw [remaining_world, hin₄]
      exact hlt

/-! ## A held key -/

/-- The `EV_KEY` events in a stream of polls, with the clock when each is read. -/
def keyEvents (input : List Poll) : List (ℚ × InputEvent) :=
  input.filterMap fun p => (p.event.filter fun ev => ev.etype = 1).map fun ev => (p.time, ev)

/-- What the kernel sends for a held Backspace: a press, at least eight repeats, a release.  Other
events and polls without one may come in between. -/
structure HeldBackspace (input : List Poll) (press : ℚ) (repeats : List ℚ) (release : ℚ) : Prop where
  events : keyEvents input = (press, ⟨1, 14, 1⟩) :: repeats.map (fun t => (t, ⟨1, 14, 2⟩)) ++
    [(release, ⟨1, 14, 0⟩)]
  count : 8 ≤ repeats.length
  gaps : (press :: repeats).IsChain fun t t' => t' - t ≤ 18 / 100
  long : ∃ last ∈ repeats.getLast?, 8 / 10 ≤ last - press

/-- `read_keypress` keeps the `EV_KEY` events with value 1. -/
theorem timedPresses_eq (input : List Poll) : timedPresses input =
    (keyEvents input).filterMap fun te => if te.2.val = 1 then some (te.1, te.2.code) else none := by
  unfold timedPresses keyEvents
  rw [List.filterMap_filterMap]
  congr 1
  funext p
  rw [Poll.key_eq]
  cases p.event with
  | none => rfl
  | some ev => by_cases h : ev.etype = 1 <;> by_cases h' : ev.val = 1 <;> simp [h, h', Option.filter]

/-- The editor gets one Backspace. -/
theorem HeldBackspace.timedPresses {input : List Poll} {press release : ℚ} {repeats : List ℚ}
    (h : HeldBackspace input press repeats release) : timedPresses input = [(press, 14)] := by
  have hrepeats : (repeats.map fun t => (t, (⟨1, 14, 2⟩ : InputEvent))).filterMap
      (fun te => if te.2.val = 1 then some (te.1, te.2.code) else none) = [] := by
    rw [List.filterMap_eq_nil_iff]
    intro te hte
    obtain ⟨t, -, rfl⟩ := List.mem_map.mp hte
    rfl
  rw [timedPresses_eq, h.events, List.cons_append, List.filterMap_cons]
  simp only [if_true]
  rw [List.filterMap_append, hrepeats]
  rfl

/-- A press at 1 s, eight repeats 0.1 s apart, a release. -/
def heldRepeats : List ℚ := (List.range 8).map fun n => 11 / 10 + n / 10

def heldStream : List Poll :=
  Poll.press 1 14 :: heldRepeats.map (fun t => ⟨t, some (packEvent ⟨1, 14, 2⟩)⟩) ++
    [⟨19 / 10, some (packEvent ⟨1, 14, 0⟩)⟩]

theorem heldStream_held : HeldBackspace heldStream 1 heldRepeats (19 / 10) where
  events := by decide +kernel
  count := by decide
  gaps := by decide +kernel
  long := ⟨18 / 10, by decide +kernel, by norm_num⟩

end Messages

end NeoDCT
