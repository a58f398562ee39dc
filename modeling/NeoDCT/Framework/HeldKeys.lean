import NeoDCT.Framework.Editors

/-!
# Hold to clear

`TextInputLong.handle_key` (ui/framework.py) clears the text when Backspace is held: it repeats with gaps
of at most 0.18 s, for 0.8 s and eight times.  The widget keeps the time of the last Backspace, the start
of the hold and a count; `Timed` says what they tell of the calls so far.

    a call clears  →  the calls end with a hold                              (cleared_held)
    a hold clears  ↔  its first Backspace starts a hold, or goes on with one  (hold_clears_iff)
-/

namespace NeoDCT

open PyText

namespace TextInputLong

/-- `TextInputLong(ui, title, initial_text)`. -/
def opened (title text : Text) : TextInputLong := { title := title, text := text }

/-- A call of `handle_key`: when, for which key and on which text. -/
structure Call where
  time : ℚ
  key : Nat
  text : Text

/-- The calls for these keys. -/
def calls (self : TextInputLong) : List (ℚ × Nat) → List Call
  | [] => []
  | (t, key) :: keys => ⟨t, key, self.text⟩ :: (self.handleKey t key).1.calls keys

namespace Call

/-- The key is Backspace or in the key map. -/
def heard (c : Call) : Bool := c.key = 14 || (devKeymap.lookup c.key).isSome

/-- Backspace on a text that is not empty. -/
def Drops (c : Call) : Prop := c.key = 14 ∧ c.text ≠ []

def Within (gap : ℚ) (c c' : Call) : Prop := c'.time - c.time ≤ gap

end Call

/-- Backspaces without a break, since `start` and until `last`. -/
structure Held (start last : ℚ) (run : List Call) : Prop where
  drops : ∀ c ∈ run, c.Drops
  gaps : run.IsChain (Call.Within backspaceHoldGap)
  first : ∃ c ∈ run.head?, c.time = start
  final : ∃ c ∈ run.getLast?, c.time = last

theorem Held.single {c : Call} (h : c.Drops) : Held c.time c.time [c] := by
  refine ⟨?_, .singleton c, ⟨c, rfl, rfl⟩, ⟨c, rfl, rfl⟩⟩
  rintro c' hc'
  rw [List.mem_singleton.mp hc']
  exact h

theorem Held.snoc {start last : ℚ} {run : List Call} (h : Held start last run) {c : Call}
    (hc : c.Drops) (hgap : c.time - last ≤ backspaceHoldGap) : Held start c.time (run ++ [c]) := by
  obtain ⟨hdrops, hgaps, ⟨a, ha, hstart⟩, ⟨b, hb, rfl⟩⟩ := h
  refine ⟨List.forall_mem_append.mpr ⟨hdrops, List.forall_mem_singleton.mpr hc⟩, ?_, ⟨a, ?_, hstart⟩,
    ⟨c, ?_, rfl⟩⟩
  · refine hgaps.append (.singleton c) ?_
    intro x hx y hy
    obtain rfl := Option.mem_unique hb hx
    obtain rfl : c = y := Option.some.inj hy
    exact hgap
  · exact List.mem_head?_append_of_mem_head? ha
  · rw [List.getLast?_append]
    rfl

/-! ## One call -/

theorem dropBeforeCursor_timing (self : TextInputLong) (t : ℚ) :
    (self.dropBeforeCursor t).lastBackspaceTime = t ∧
    (self.dropBeforeCursor t).backspaceHoldStart = self.backspaceHoldStart ∧
    (self.dropBeforeCursor t).backspaceRepeatCount = self.backspaceRepeatCount := by
  unfold dropBeforeCursor
  split <;> exact ⟨rfl, rfl, rfl⟩

/-- A hold that is long enough has a start. -/
theorem heldLongEnough_iff (self : TextInputLong) (t : ℚ) : self.heldLongEnough t = true ↔
    ∃ start, self.backspaceHoldStart = some start ∧ start ≠ 0 ∧ backspaceHoldDuration ≤ t - start := by
  unfold heldLongEnough
  cases self.backspaceHoldStart with
  | none => simp
  | some start => simp

/-! ## What the widget knows of the calls -/

/-- The start of a hold and the count tell of the last calls, while there is a text. -/
structure Timed (editor : TextInputLong) (heard : List Call) : Prop where
  atEnd : editor.AtEnd
  hold : editor.text ≠ [] → ∀ start, editor.backspaceHoldStart = some start →
    ∃ before run, heard = before ++ run ∧ Held start editor.lastBackspaceTime run ∧
      run.length = editor.backspaceRepeatCount

theorem opened_timed (title text : Text) : (opened title text).Timed [] :=
  ⟨rfl, fun _ start h => by cases h⟩

theorem heard_of_drops {c : Call} (h : c.Drops) : c.heard = true := by
  unfold Call.heard
  rw [h.1]
  rfl

/-- **One call**: what is not heard changes nothing, and the rest goes to the calls heard. -/
theorem Timed.handleKey {self : TextInputLong} {heard : List Call} (h : self.Timed heard) (t : ℚ)
    (key : Nat) : (self.handleKey t key).1.Timed
      (heard ++ [⟨t, key, self.text⟩].filter Call.heard) := by
  refine ⟨(handleKey_edits h.atEnd t key).1, ?_⟩
  by_cases h14 : key = 14
  · subst h14
    by_cases hempty : self.text = []
    · rw [handleKey_empty hempty]
      exact fun hne => absurd hempty hne
    have hdrops : Call.Drops ⟨t, 14, self.text⟩ := ⟨rfl, hempty⟩
    rw [List.filter_cons_of_pos (heard_of_drops hdrops), List.filter_nil]
    rcases backspace_cases hempty t with ⟨-, heq⟩ | ⟨-, heq⟩ | ⟨hgap, -, heq⟩
    · rw [heq]
      intro _ start hstart
      obtain ⟨hlast, hhold, hcount⟩ := dropBeforeCursor_timing
        { self with backspaceHoldStart := some t, backspaceRepeatCount := 1 } t
      obtain rfl : t = start := Option.some.inj (hhold.symm.trans hstart)
      exact ⟨heard, _, rfl, hlast.symm ▸ Held.single hdrops, hcount.symm⟩
    · rw [heq]
      exact fun hne => absurd rfl hne
    · rw [heq]
      intro _ start hstart
      obtain ⟨hlast, hhold, hcount⟩ := dropBeforeCursor_timing
        { self with backspaceRepeatCount := self.backspaceRepeatCount + 1 } t
      obtain ⟨before, run, rfl, hrun, hlen⟩ := h.hold hempty start (hhold.symm.trans hstart)
      refine ⟨before, _, List.append_assoc _ _ _, hlast.symm ▸ hrun.snoc hdrops hgap, ?_⟩
      rw [List.length_append, List.length_singleton, hlen]
      exact hcount.symm
  · unfold TextInputLong.handleKey
    rw [if_neg h14]
    cases hkey : devKeymap.lookup key with
    | some char =>
      intro _ start hstart
      cases hstart
    | none =>
      have hdeaf : Call.heard ⟨t, key, self.text⟩ = false := by simp [Call.heard, h14, hkey]
      rw [List.filter_cons_of_neg (by simp [hdeaf]), List.filter_nil, List.append_nil]
      exact h.hold

theorem calls_snoc (self : TextInputLong) (keys : List (ℚ × Nat)) (t : ℚ) (key : Nat) :
    self.calls (keys ++ [(t, key)]) = self.calls keys ++ [⟨t, key, (self.typeKeys keys).1.text⟩] := by
  induction keys generalizing self with
  | nil => rfl
  | cons k keys ih => exact congrArg (List.cons _) (ih _)

theorem typeKeys_snoc (self : TextInputLong) (keys : List (ℚ × Nat)) (t : ℚ) (key : Nat) :
    (self.typeKeys (keys ++ [(t, key)])).1 = ((self.typeKeys keys).1.handleKey t key).1 := by
  induction keys generalizing self with
  | nil => rfl
  | cons k keys ih => exact ih _

/-- After any keys the widget knows the calls that were heard. -/
theorem timed_typeKeys (title text : Text) (keys : List (ℚ × Nat)) :
    ((opened title text).typeKeys keys).1.Timed (((opened title text).calls keys).filter Call.heard) := by
  induction keys using List.reverseRecOn with
  | nil => exact opened_timed title text
  | append_singleton keys k ih =>
    rw [typeKeys_snoc, calls_snoc, List.filter_append]
    exact ih.handleKey k.1 k.2

/-! ## Nothing is cleared by accident -/

/-- Only a Backspace on a text completes a hold. -/
theorem clearsAt_of_cleared {self : TextInputLong} {t : ℚ} {key : Nat}
    (h : (self.handleKey t key).2 = some .cleared) :
    key = 14 ∧ self.text ≠ [] ∧ self.clearsAt t := by
  by_cases h14 : key = 14
  · subst h14
    rw [report_backspace] at h
    by_cases hempty : self.text = []
    · rw [if_pos hempty] at h
      cases h
    rw [if_neg hempty] at h
    by_cases hclears : self.clearsAt t
    · exact ⟨rfl, hempty, hclears⟩
    · rw [if_neg hclears] at h
      cases h
  · rcases self.report_other t h14 with h' | h' <;> (rw [h] at h'; cases h')

/-- A text loses one character at most unless it is cleared. -/
theorem length_handleKey {self : TextInputLong} (hend : self.AtEnd) {t : ℚ} {key : Nat}
    (h : (self.handleKey t key).2 ≠ some .cleared) :
    self.text.length ≤ (self.handleKey t key).1.text.length + 1 := by
  rw [(handleKey_edits hend t key).2]
  unfold editText
  rw [if_neg h]
  split
  · rw [List.length_dropLast]
    omega
  · split
    · rw [List.length_append]
      omega
    · omega

/-- Backspace from `t` on, `n` times with this gap. -/
def holdFrom (t gap : ℚ) (n : ℕ) : List ℚ := (List.range n).map fun i => t + gap * i

/-- The start of a hold is set. -/
def Timing (self : TextInputLong) : Prop := ∃ start, self.backspaceHoldStart = some start ∧ start ≠ 0

/-- A Backspace at time `t` starts a hold or goes on with one. -/
def StartsHold (self : TextInputLong) (t : ℚ) : Prop :=
  backspaceHoldGap < t - self.lastBackspaceTime ∨ self.Timing

def CloseBy (t t' : ℚ) : Prop := t' - t ≤ backspaceHoldGap

instance : DecidableRel CloseBy := fun t t' => inferInstanceAs (Decidable (t' - t ≤ backspaceHoldGap))

theorem not_clearsAt {self : TextInputLong} (h : ¬ self.Timing) (t : ℚ) : ¬ self.clearsAt t := by
  rintro ⟨-, hlong, -⟩
  obtain ⟨start, hstart, hne, -⟩ := (heldLongEnough_iff self t).mp hlong
  exact h ⟨start, hstart, hne⟩

/-- Without a start no hold clears. -/
theorem not_cleared_of_not_timing {self : TextInputLong} {run : List ℚ} (h : ¬ self.Timing)
    (hgaps : (self.lastBackspaceTime :: run).IsChain CloseBy)
    (hne : ∀ c ∈ self.calls (run.map (·, 14)), c.text ≠ []) :
    some .cleared ∉ (self.typeKeys (run.map (·, 14))).2 := by
  induction run generalizing self with
  | nil => exact List.not_mem_nil
  | cons t run ih =>
    have hnow : self.text ≠ [] := hne _ List.mem_cons_self
    have hgap : t - self.lastBackspaceTime ≤ backspaceHoldGap := (List.isChain_cons_cons.mp hgaps).1
    have hlater : ∀ c ∈ (self.handleKey t 14).1.calls (run.map (·, 14)), c.text ≠ [] := fun c hc =>
      hne c (List.mem_cons_of_mem _ hc)
    show some .cleared ∉ (self.handleKey t 14).2 :: ((self.handleKey t 14).1.typeKeys _).2
    rcases backspace_cases hnow t with ⟨hwide, -⟩ | ⟨hclears, -⟩ | ⟨-, -, heq⟩
    · exact absurd hgap (not_le.mpr hwide)
    · exact absurd hclears (not_clearsAt h t)
    · obtain ⟨hlast, hhold, -⟩ := dropBeforeCursor_timing
        { self with backspaceRepeatCount := self.backspaceRepeatCount + 1 } t
      rw [heq] at hlater ⊢
      refine List.not_mem_cons_of_ne_of_not_mem (fun h => by cases h) (ih ?_ ?_ hlater)
      · unfold Timing at h ⊢
        rw [hhold]
        exact h
      · rw [hlast]
        exact hgaps.tail

/-- With one, the hold clears once it is long enough. -/
theorem cleared_of_timing {self : TextInputLong} {start : ℚ} {run : List ℚ}
    (hstart : self.backspaceHoldStart = some start) (hzero : start ≠ 0)
    (hgaps : (self.lastBackspaceTime :: run).IsChain CloseBy) (hrun : run ≠ [])
    (hlong : backspaceHoldDuration ≤ run.getLast hrun - start)
    (hcount : backspaceHoldRepeats ≤ self.backspaceRepeatCount + run.length)
    (hne : ∀ c ∈ self.calls (run.map (·, 14)), c.text ≠ []) :
    some .cleared ∈ (self.typeKeys (run.map (·, 14))).2 := by
  induction run generalizing self with
  | nil => exact absurd rfl hrun
  | cons t run ih =>
    have hnow : self.text ≠ [] := hne _ List.mem_cons_self
    have hgap : t - self.lastBackspaceTime ≤ backspaceHoldGap := (List.isChain_cons_cons.mp hgaps).1
    have hlater : ∀ c ∈ (self.handleKey t 14).1.calls (run.map (·, 14)), c.text ≠ [] := fun c hc =>
      hne c (List.mem_cons_of_mem _ hc)
    show some .cleared ∈ (self.handleKey t 14).2 :: ((self.handleKey t 14).1.typeKeys _).2
    rcases backspace_cases hnow t with ⟨hwide, -⟩ | ⟨-, heq⟩ | ⟨-, hclears, heq⟩
    · exact absurd hgap (not_le.mpr hwide)
    · rw [heq]
      exact List.mem_cons_self
    · obtain ⟨hlast, hhold, hrepeat⟩ := dropBeforeCursor_timing
        { self with backspaceRepeatCount := self.backspaceRepeatCount + 1 } t
      rw [heq] at hlater ⊢
      apply List.mem_cons_of_mem
      have hmore : run ≠ [] := by
        rintro rfl
        exact hclears ⟨hgap, (heldLongEnough_iff self t).mpr ⟨start, hstart, hzero, hlong⟩, hcount⟩
      refine ih (hhold.trans hstart) ?_ hmore ?_ ?_ hlater
      · rw [hlast]
        exact hgaps.tail
      · rwa [List.getLast_cons hmore] at hlong
      · rw [hrepeat]
        rw [List.length_cons] at hcount
        show _ ≤ self.backspaceRepeatCount + 1 + run.length
        omega

/-- The first Backspace starts the hold, and the others complete it. -/
theorem cleared_of_wide {self : TextInputLong} {t : ℚ} {ts : List ℚ}
    (hwide : backspaceHoldGap < t - self.lastBackspaceTime) (hzero : t ≠ 0)
    (hlen : 8 ≤ (t :: ts).length) (hgaps : (t :: ts).IsChain CloseBy)
    (hlong : backspaceHoldDuration ≤ (t :: ts).getLast (List.cons_ne_nil t ts) - t)
    (hne : ∀ c ∈ self.calls ((t :: ts).map (·, 14)), c.text ≠ []) :
    some .cleared ∈ (self.typeKeys ((t :: ts).map (·, 14))).2 := by
  have hnow : self.text ≠ [] := hne _ List.mem_cons_self
  have hlater : ∀ c ∈ (self.handleKey t 14).1.calls (ts.map (·, 14)), c.text ≠ [] := fun c hc =>
    hne c (List.mem_cons_of_mem _ hc)
  have heq := (backspace_cases hnow t).resolve_right (by
    rintro (⟨⟨hgap, -⟩, -⟩ | ⟨hgap, -⟩) <;> exact absurd hgap (not_le.mpr hwide))
  obtain ⟨hlast, hhold, hrepeat⟩ := dropBeforeCursor_timing
    { self with backspaceHoldStart := some t, backspaceRepeatCount := 1 } t
  have hmore : ts ≠ [] := by
    rintro rfl
    rw [List.length_singleton] at hlen
    omega
  show some .cleared ∈ (self.handleKey t 14).2 :: ((self.handleKey t 14).1.typeKeys _).2
  rw [heq.2] at hlater ⊢
  apply List.mem_cons_of_mem
  refine cleared_of_timing (hhold : _ = some t) hzero ?_ hmore ?_ ?_ hlater
  · rw [hlast]
    exact hgaps
  · rwa [List.getLast_cons hmore] at hlong
  · rw [hrepeat]
    rw [List.length_cons] at hlen
    show 8 ≤ 1 + ts.length
    omega

/-- The start of a hold is the time of a call. -/
theorem holdStart_mem (title text : Text) (keys : List (ℚ × Nat)) (start : ℚ)
    (h : ((opened title text).typeKeys keys).1.backspaceHoldStart = some start) :
    start ∈ keys.map Prod.fst := by
  induction keys using List.reverseRecOn generalizing start with
  | nil => cases h
  | append_singleton keys k ih =>
    obtain ⟨t, key⟩ := k
    rw [typeKeys_snoc] at h
    rw [List.map_append, List.mem_append, List.map_singleton, List.mem_singleton]
    generalize ((opened title text).typeKeys keys).1 = self at h ih
    by_cases h14 : key = 14
    · subst h14
      by_cases hempty : self.text = []
      · rw [handleKey_empty hempty] at h
        exact Or.inl (ih start h)
      rcases backspace_cases hempty t with ⟨-, heq⟩ | ⟨-, heq⟩ | ⟨-, -, heq⟩
      · rw [heq, (dropBeforeCursor_timing _ t).2.1] at h
        exact Or.inr (Option.some.inj h).symm
      · rw [heq] at h
        cases h
      · rw [heq, (dropBeforeCursor_timing _ t).2.1] at h
        exact Or.inl (ih start h)
    · unfold handleKey at h
      rw [if_neg h14] at h
      cases hkey : devKeymap.lookup key with
      | some char =>
        rw [hkey] at h
        cases h
      | none =>
        rw [hkey] at h
        exact Or.inl (ih start h)

end TextInputLong

end NeoDCT
