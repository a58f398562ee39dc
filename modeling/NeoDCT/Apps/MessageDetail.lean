import NeoDCT.Apps.Mail
import NeoDCT.Apps.MessageLines

/-!
# What the detail view shows of a message

The view has no way to scroll: whatever keys are pressed, it shows one frame (`detail_frames`).  The
frame has room for six lines of the body, or seven when there is no sender; the words of the wrapped
lines are the words of the message, in order, except that those before the first that fits on a line are
cut:

    words in the frame = words of the first 6 (7) lines                       (detail_shows)
-/

namespace NeoDCT

open PyText Interactive Greedy

namespace Messages

/-! ## The words of the wrapped lines -/

/-- The words as the lines have them: those before the first that fits on a line of its own are cut, and
from there on every word is whole. -/
def shownWords (fits : Text → Bool) : List Text → List Text
  | [] => []
  | word :: words =>
    if fits word then word :: words else cutWord fits word :: shownWords fits words

/-- A word cut to its longest beginning that fits with `...` after it, if there is one. -/
def IsCut (fits : Text → Bool) (word shown : Text) : Prop :=
  ∃ p, p <+: word ∧ shown = p ++ "...".toList ∧ (p ≠ [] → fits shown = true) ∧
    ∀ q, q <+: word → fits (q ++ "...".toList) = true → q.length ≤ p.length

theorem isCut_cutWord (fits : Text → Bool) (word : Text) : IsCut fits word (cutWord fits word) := by
  refine ⟨PagedList.trimToFit fits word, PagedList.trimToFit_prefix fits word, ?_, ?_, ?_⟩
  · unfold cutWord
    by_cases h : PagedList.trimToFit fits word = [] <;> simp [h]
  · intro h
    simpa [cutWord, h] using PagedList.trimToFit_fits fits word h
  · exact fun q hq hfit => PagedList.trimToFit_longest fits hq hfit

theorem isWord_cutWord (fits : Text → Bool) {word : Text} (h : IsWord word) :
    IsWord (cutWord fits word) := by
  obtain ⟨p, hp, heq, -⟩ := isCut_cutWord fits word
  rw [heq]
  refine ⟨by simp, fun c hc => ?_⟩
  rcases List.mem_append.mp hc with hc | hc
  · exact h.2 c (hp.subset hc)
  · rcases (by simpa using hc : c = '.') with rfl
    decide

theorem shownWords_eq (fits : Text → Bool) (words : List Text) :
    shownWords fits words =
      (words.takeWhile fun w => !fits w).map (cutWord fits) ++ fromFitting fits words := by
  induction words with
  | nil => rfl
  | cons w words ih =>
    unfold fromFitting
    rw [shownWords, List.takeWhile_cons, List.dropWhile_cons]
    by_cases hfit : fits w = true
    · simp [hfit]
    · simpa [hfit, fromFitting] using ih

/-- **The wrapped lines keep the words**: those cut at the beginning, and the others as they are. -/
theorem words_wrapLoop (fits : Text → Bool) {words : List Text} (hwords : ∀ w ∈ words, IsWord w) :
    (∀ l ∈ wrapLoop fits words [], split l ≠ []) ∧
    (wrapLoop fits words []).flatMap split = shownWords fits words := by
  set wide := words.takeWhile fun w => !fits w with hwide
  have hsplit : words = wide ++ fromFitting fits words := List.takeWhile_append_dropWhile.symm
  have hcut : ∀ w ∈ wide, split (cutWord fits w) = [cutWord fits w] := by
    intro w hw
    have hword := hwords w (by rw [hsplit]; exact List.mem_append_left _ hw)
    exact split_word (isWord_cutWord fits hword)
  have hline : ∀ g ∈ pack (FitsOn fits) (fromFitting fits words), split (joinSpace g) = g := by
    intro g hg
    apply split_joinSpace
    intro w hw
    exact hwords w (by rw [hsplit]; exact List.mem_append_right _ (mem_of_mem_pack hg hw))
  rw [wrapLoop_eq fits hwords, ← hwide]
  constructor
  · intro l hl
    rcases List.mem_append.mp hl with hl | hl
    · obtain ⟨w, hw, rfl⟩ := List.mem_map.mp hl
      rw [hcut w hw]
      exact List.cons_ne_nil _ _
    · obtain ⟨g, hg, rfl⟩ := List.mem_map.mp hl
      rw [hline g hg]
      exact pack_ne_nil _ g hg
  · rw [shownWords_eq, ← hwide, List.flatMap_append, List.flatMap_map, List.flatMap_map,
      List.flatMap_congr hcut, List.flatMap_congr hline, ← List.map_eq_flatMap, List.flatMap_id',
      flatten_pack]

/-! ## Room on the screen -/

/-- The body lines that fit above 210. -/
def Detail.visible (self : Detail) : Nat :=
  match self.sender with
  | some (_ :: _) => 6
  | _ => 7

theorem bodyOps_eq (n : Nat) : ∀ (y : ℚ) (lines : List Text),
    (∀ i < n, y + i * 22 ≤ 210) → 210 < y + n * 22 →
    Detail.bodyOps y lines =
      (lines.take n).mapIdx fun i line => drawText 10 (y + i * 22) line .n "white" := by
  induction n with
  | zero =>
    intro y lines _ hlow
    cases lines with
    | nil => rfl
    | cons line lines =>
      rw [Detail.bodyOps, if_pos (by simpa using hlow)]
      rfl
  | succ n ih =>
    intro y lines hfit hlow
    cases lines with
    | nil => rfl
    | cons line lines =>
      have h0 : y ≤ 210 := by simpa using hfit 0 (Nat.succ_pos n)
      have hstep : ∀ k : Nat, y + 22 + k * 22 = y + (k + 1 : ℕ) * 22 := by
        intro k; push_cast; ring
      rw [Detail.bodyOps, if_neg (not_lt.mpr h0), List.take_succ_cons, List.mapIdx_cons,
        ih (y + 22) lines (fun k hk => by rw [hstep]; exact hfit (k + 1) (by omega))
          (by rw [hstep]; exact hlow)]
      simp only [hstep, Nat.cast_zero, zero_mul, add_zero]

theorem Detail.bodyTop_eq (ui : Ui) (self : Detail) :
    self.bodyTop ui = if self.visible = 6 then 85 else 67 := by
  unfold Detail.bodyTop Detail.metaLines Detail.visible
  rcases self.sender with _ | _ | ⟨c, cs⟩ <;> norm_num

/-- The body starts high enough for `visible` lines, and no more. -/
theorem Detail.room (ui : Ui) (self : Detail) :
    (∀ i < self.visible, self.bodyTop ui + (i : ℚ) * 22 ≤ 210) ∧
      210 < self.bodyTop ui + self.visible * 22 := by
  have hcases : self.visible = 6 ∨ self.visible = 7 := by
    unfold Detail.visible
    split <;> simp
  rw [Detail.bodyTop_eq]
  rcases hcases with h | h
  · rw [h]
    refine ⟨fun i hi => ?_, by norm_num⟩
    have : (i : ℚ) ≤ 5 := by exact_mod_cast Nat.le_of_lt_succ hi
    norm_num
    linarith
  · rw [h]
    refine ⟨fun i hi => ?_, by norm_num⟩
    have : (i : ℚ) ≤ 6 := by exact_mod_cast Nat.le_of_lt_succ hi
    norm_num
    linarith

/-! ## One frame -/

/-- An entry that shows no message. -/
def NoDetail (evs : List Event) : Prop := ∀ title id frame, .detail title id frame ∉ evs

/-- The view showed its frame, and no other. -/
def OneFrame (ui : Ui) (self : Detail) (evs : List Event) : Prop :=
  ∀ title id frame, .detail title id frame ∈ evs → frame = self.drawOps ui

/-- What the options of the view leave in the journal. -/
def Overlay (w w' : World) : Prop :=
  (∃ evs, w'.log = w.log ++ evs ∧ NoDetail evs) ∧ w'.io.input.length ≤ w.io.input.length

theorem Logged.overlay {evs : List Event} {w w' : World} (h : Logged evs w w')
    (hevs : NoDetail evs) : Overlay w w' := ⟨⟨evs, h.log, hevs⟩, h.input⟩

theorem Overlay.trans {w w' w'' : World} (h : Overlay w w') (h' : Overlay w' w'') :
    Overlay w w'' := by
  obtain ⟨⟨evs, hlog, hevs⟩, hin⟩ := h
  obtain ⟨⟨evs', hlog', hevs'⟩, hin'⟩ := h'
  refine ⟨⟨evs ++ evs', by rw [hlog', hlog, List.append_assoc], fun t i f hmem => ?_⟩,
    hin'.trans hin⟩
  exact (List.mem_append.mp hmem).elim (hevs t i f) (hevs' t i f)

theorem noDetail_closed (list : VerticalList) (r : Option Nat) : NoDetail [list.closed r] := by
  intro t i f h
  cases r <;> simp [VerticalList.closed] at h

theorem overlay_quiet {w w' : World} (h : Quiet w w') : Overlay w w' :=
  Logged.overlay h.logged (by simp [NoDetail])

theorem overlay_dialog (ui : Ui) (self : MessageDialog) (w : World) :
    wp (self.showModal ui) (fun _ w' => Overlay w w') (fun _ w' => Overlay w w') w :=
  wp_mono (MessageDialog.showModal_spec ui self w) (fun _ _ h => overlay_quiet h.quiet)
    fun _ _ h => overlay_quiet h

theorem overlay_execute (stmt : Stmt) (w : World) {E : Halt PyError → World → Prop} :
    wp (execute stmt) (fun _ w' => Overlay w w') E w := by
  refine wp_mono (execute_spec stmt w) ?_ fun _ _ h => h
  rintro _ _ rfl
  exact ⟨⟨[.sql stmt], rfl, by simp [NoDetail]⟩, le_rfl⟩

theorem overlay_deleteInbox (id : ℤ) (w : World) {E : Halt PyError → World → Prop} :
    wp (deleteInboxMessage id) (fun _ w' => Overlay w w') E w := by
  unfold deleteInboxMessage
  rw [wp_bind, wp_get]
  split
  · exact overlay_quiet (Quiet.refl w)
  · exact overlay_execute _ w

theorem overlay_deleteOutbox (id : ℤ) (w : World) {E : Halt PyError → World → Prop} :
    wp (deleteOutboxMessage id) (fun _ w' => Overlay w w') E w := by
  unfold deleteOutboxMessage
  rw [wp_bind, wp_get]
  split
  · exact overlay_quiet (Quiet.refl w)
  · exact overlay_execute _ w

section
variable (ui : Ui) (self : Detail) (w : World)

theorem overlay_inboxChoice : wp (self.inboxChoice ui) (fun _ w' => Overlay w w')
    (fun _ w' => Overlay w w') w := by
  unfold Detail.inboxChoice
  refine wp_seq (VerticalList.showModal_logged ui _ w) (fun _ _ h => overlay_quiet h.2) ?_
  rintro ⟨sel, list'⟩ w₁ ⟨h, -, -⟩
  have h₁ := Logged.overlay h (noDetail_closed _ _)
  simp only []
  split
  · refine wp_seq (overlay_deleteInbox _ w₁) (fun _ _ h => h) ?_
    intro _ w₂ h₂
    exact wp_seq (overlay_dialog ui _ w₂) (fun _ _ h => (h₁.trans h₂).trans h)
      fun _ _ h => (h₁.trans h₂).trans h
  · exact h₁

theorem overlay_outboxChoice : wp (self.outboxChoice ui) (fun _ w' => Overlay w w')
    (fun _ w' => Overlay w w') w := by
  unfold Detail.outboxChoice
  refine wp_seq (VerticalList.showModal_logged ui _ w) (fun _ _ h => overlay_quiet h.2) ?_
  rintro ⟨sel, list'⟩ w₁ ⟨h, -, -⟩
  have h₁ := Logged.overlay h (noDetail_closed _ _)
  simp only []
  split
  · refine wp_seq (overlay_deleteOutbox _ w₁) (fun _ _ h => h) ?_
    intro _ w₂ h₂
    exact wp_seq (overlay_dialog ui _ w₂) (fun _ _ h => (h₁.trans h₂).trans h)
      fun _ _ h => (h₁.trans h₂).trans h
  · exact wp_seq (overlay_dialog ui _ w₁) (fun _ _ h => h₁.trans h) fun _ _ h => h₁.trans h
  · exact h₁

/-- What a run of the view shows: its frame, and no other. -/
def Showed (w w' : World) : Prop :=
  ∃ evs, w'.log = w.log ++ evs ∧ .detail self.title self.messageId (self.drawOps ui) ∈ evs ∧
    OneFrame ui self evs

theorem showModal_showed :
    wp (self.showModal ui) (fun _ w' => Showed ui self w w') (fun _ w' => Showed ui self w w') w := by
  refine wp_loop (fun _ w' => ∃ evs, w'.log = w.log ++ evs ∧ OneFrame ui self evs)
    ⟨[], (List.append_nil _).symm, by simp [OneFrame]⟩ ?_
  rintro - w₁ ⟨evs, hlog, hone⟩
  unfold Detail.showBody
  refine wp_seq (Detail.draw_spec ui self w₁) (fun _ _ h => h) ?_
  intro _ w₂ h₂
  -- from the first drawing on, whatever the keys are
  have more : ∀ {w₃}, Overlay w₂ w₃ → Showed ui self w w₃ := by
    rintro w₃ ⟨⟨evs', hlog', hevs'⟩, -⟩
    refine ⟨evs ++ [.detail self.title self.messageId (self.drawOps ui)] ++ evs', ?_, by simp, ?_⟩
    · rw [hlog', h₂.log, hlog]
      simp
    · intro t i f hmem
      rw [List.mem_append, List.mem_append, List.mem_singleton] at hmem
      rcases hmem with (hmem | hmem) | hmem
      · exact hone t i f hmem
      · cases hmem
        rfl
      · exact absurd hmem (hevs' t i f)
  refine wp_seq (waitForKey_spec w₂) (fun _ _ h => more (overlay_quiet h.2.2)) ?_
  rintro key w₃ ⟨hr, -⟩
  have h₃ := overlay_quiet hr.quiet
  have hlt : w₃.io.input.length < w₁.io.input.length := by
    exact lt_of_lt_of_le hr.remaining h₂.input
  have again : ∀ w₄, Overlay w₃ w₄ →
      (∃ evs, w₄.log = w.log ++ evs ∧ OneFrame ui self evs) ∧
        w₄.io.input.length < w₁.io.input.length := fun w₄ h => by
    obtain ⟨evs', hlog', -, hone'⟩ := more (h₃.trans h)
    exact ⟨⟨evs', hlog', hone'⟩, lt_of_le_of_lt h.2 hlt⟩
  have choice : ∀ {p : UI Bool}, wp p (fun _ w' => Overlay w₃ w') (fun _ w' => Overlay w₃ w') w₃ →
      wp (do if ← p then pure (.inr true) else pure (.inl ()) : UI (Unit ⊕ Bool))
        (fun r w' => r.elim (fun _ => (∃ evs, w'.log = w.log ++ evs ∧ OneFrame ui self evs) ∧
          w'.io.input.length < w₁.io.input.length) fun _ => Showed ui self w w')
        (fun _ w' => Showed ui self w w') w₃ := by
    intro p hp
    refine wp_seq hp (fun _ _ h => more (h₃.trans h)) ?_
    intro r w₄ h₄
    cases r with
    | true => exact more (h₃.trans h₄)
    | false => exact again w₄ h₄
  split
  · exact more h₃
  · split
    · split
      · exact choice (overlay_inboxChoice ui self w₃)
      · split
        · exact choice (overlay_outboxChoice ui self w₃)
        · exact again w₃ (overlay_quiet (Quiet.refl w₃))
    · exact again w₃ (overlay_quiet (Quiet.refl w₃))

/-- **The view shows one frame**, in every run and whatever keys are pressed. -/
theorem detail_frames (frame : Frame) :
    (∃ title id, .detail title id frame ∈ newEvents (self.showModal ui) w) ↔
      frame = self.drawOps ui := by
  obtain ⟨evs, hlog, hmem, hone⟩ : Showed ui self w (finalState (self.showModal ui) w) :=
    finalState_of_wp (showModal_showed ui self w)
  rw [newEvents_eq hlog]
  refine ⟨fun ⟨title, id, h⟩ => hone title id frame h, ?_⟩
  rintro rfl
  exact ⟨_, _, hmem⟩

/-! ## Top theorem -/

/-- The body of the frame: the first lines that fit, with where each is drawn. -/
def Detail.body : List DrawOp :=
  ((self.bodyLines ui).take self.visible).mapIdx fun i line =>
    drawText 10 (self.bodyTop ui + i * 22) line .n "white"

/-- `fits` of `_wrap_text` in the view. -/
def fitsBody (line : Text) : Bool := (ui.getTextSize line .n).1 ≤ 220

/-- The words of the message, as the wrapped lines have them. -/
theorem words_bodyLines :
    (∀ l ∈ self.bodyLines ui, self.bodyLines ui = [[]] ∨ split l ≠ []) ∧
    (self.bodyLines ui).flatMap split = shownWords (fitsBody ui) (split self.message) := by
  unfold Detail.bodyLines wrapText
  by_cases h : split self.message = []
  · simp only [h]
    exact ⟨fun _ _ => Or.inl rfl, rfl⟩
  · simp only [if_neg h]
    obtain ⟨hne, hshown⟩ := words_wrapLoop (fitsBody ui) (fun w hw => isWord_of_mem_split hw)
    exact ⟨fun l hl => Or.inr (hne l hl), hshown⟩

/-- **What can be read of a message.**  One frame is shown in every run; its body is the first six
(seven) wrapped lines, all above 210.  The words of the lines are those of the message in order, cut
before the first that fits on a line and whole from there on; the frame has all of them exactly when the
lines are no more. -/
theorem detail_shows :
    (∀ frame, (∃ title id, .detail title id frame ∈ newEvents (self.showModal ui) w) ↔
      frame = self.drawOps ui) ∧
    self.drawOps ui = titleOps ui self.title self.rootId (some self.subIndex) ++
      Detail.metaOps 45 (self.metaLines ui) ++ self.body ui ++
      SoftKeyBar.app.drawOps ui (some "Options".toList) ∧
    (∀ i < self.visible, self.bodyTop ui + (i : ℚ) * 22 ≤ 210) ∧
    ((self.bodyLines ui).take self.visible).flatMap split <+:
      shownWords (fitsBody ui) (split self.message) ∧
    (((self.bodyLines ui).take self.visible).flatMap split =
      shownWords (fitsBody ui) (split self.message) ↔ (self.bodyLines ui).length ≤ self.visible) ∧
    ∀ word, IsCut (fitsBody ui) word (cutWord (fitsBody ui) word) := by
  obtain ⟨hfit, hlow⟩ := self.room ui
  refine ⟨detail_frames ui self w, ?_, hfit, ?_⟩
  · rw [Detail.drawOps, bodyOps_eq self.visible _ _ hfit hlow]
    rfl
  obtain ⟨hne, hflat⟩ := words_bodyLines ui self
  set n := self.visible
  set lines := self.bodyLines ui
  have hsplit : lines.flatMap split = (lines.take n).flatMap split ++ (lines.drop n).flatMap split := by
    rw [← List.flatMap_append, List.take_append_drop]
  have hn : 0 < n := by
    unfold n Detail.visible
    split <;> decide
  refine ⟨?_, ⟨?_, ?_⟩, isCut_cutWord _⟩
  · rw [← hflat, hsplit]
    exact List.prefix_append _ _
  · intro heq
    rw [← hflat, hsplit] at heq
    have hnil : (lines.drop n).flatMap split = [] := by simpa using heq
    by_contra hlong
    have hlt : n < lines.length := by omega
    have hmem : lines[n] ∈ lines := List.getElem_mem hlt
    rcases hne _ hmem with h1 | hword
    · rw [h1] at hlong
      exact hlong hn
    · rw [List.flatMap_eq_nil_iff] at hnil
      exact hword (hnil _ (List.mem_drop_iff_getElem.mpr ⟨0, by omega, by simp⟩))
  · intro hle
    rw [← hflat, List.take_of_length_le hle]

end

/-- Whether a frame shows a word, no lower than 210. -/
def drawsWord (frame : Frame) (word : Text) : Bool :=
  frame.any fun
    | .text _ y s _ _ => decide (y ≤ 210) && (split s).contains word
    | _ => false

/-- Seven words of twelve letters, each on a line of its own, from a known sender. -/
def sevenLines : Detail where
  title := "Inbox".toList
  rootId := "2-1".toList
  subIndex := 1
  message := ("aaaaaaaaaaaa aaaaaaaaaaaa aaaaaaaaaaaa aaaaaaaaaaaa aaaaaaaaaaaa aaaaaaaaaaaa " ++
    "bbbbbbbbbbbb").toList
  messageId := some 1
  sender := some "Mum".toList
  timestamp := some 1

/-- The last word of that message is in no frame of any run. -/
theorem detail_shows_not : ¬ ∀ word ∈ split sevenLines.message, ∃ w title id frame,
    .detail title id frame ∈ newEvents (sevenLines.showModal Ui.plain) w ∧
      drawsWord frame word = true := by
  intro h
  obtain ⟨w, title, id, frame, hmem, hdraws⟩ := h "bbbbbbbbbbbb".toList (by decide)
  rw [(detail_frames Ui.plain sevenLines w frame).mp ⟨title, id, hmem⟩] at hdraws
  revert hdraws
  decide +kernel

end Messages

end NeoDCT
