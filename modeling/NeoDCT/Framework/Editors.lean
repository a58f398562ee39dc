import NeoDCT.Framework.Inputs

/-!
# The two text editors

`TextInput` appends to a string, `TextInputLong` splices at a cursor and times held keys.  Both
implement one reference editor, `editText`: the cursor stays at the end (`handleKey_edits`), so a
splice is an append, and as long as no hold clears the text the two go key by key together
(`onKey_handleKey`).

    TextInputLong    cursor = text.length, text = the fold of the keys
    TextInput        the same text; returns None on the key first reported empty_backspace
                                                                     (editors_agree)
-/

namespace NeoDCT

open PyText Interactive

/-! ## The reference editor -/

/-- What a key does to a text, when `handle_key` reports `report` for it. -/
def editText (text : Text) (key : Nat) (report : Option KeyResult) : Text :=
  if key = 14 then (if report = some .cleared then [] else text.dropLast)
  else
    match qwertyKeymap.lookup key with
    | some char => text ++ [typedChar text char]
    | none => text

namespace TextInputLong

/-- `handle_key` for each key, at its time: the widget after them, and the reports. -/
def typeKeys (self : TextInputLong) : List (ℚ × Nat) → TextInputLong × List (Option KeyResult)
  | [] => (self, [])
  | (t, key) :: keys =>
    let (self', report) := self.handleKey t key
    let (final, reports) := self'.typeKeys keys
    (final, report :: reports)

/-- The cursor is at the end. -/
def AtEnd (self : TextInputLong) : Prop := self.cursor = self.text.length

theorem dropBeforeCursor_text {self : TextInputLong} (h : self.AtEnd) (t : ℚ) :
    (self.dropBeforeCursor t).text = self.text.dropLast ∧ (self.dropBeforeCursor t).AtEnd := by
  unfold AtEnd at h ⊢
  unfold dropBeforeCursor
  by_cases hpos : 0 < self.cursor
  · rw [if_pos hpos]
    simp [h, List.dropLast_eq_take]
  · rw [if_neg hpos]
    have hnil : self.text = [] := List.eq_nil_of_length_eq_zero (by omega)
    exact ⟨by simp [hnil], h⟩

/-- A Backspace at time `t` completes a hold. -/
def clearsAt (self : TextInputLong) (t : ℚ) : Prop :=
  t - self.lastBackspaceTime ≤ backspaceHoldGap ∧ self.heldLongEnough t ∧
    backspaceHoldRepeats ≤ self.backspaceRepeatCount + 1

instance (self : TextInputLong) (t : ℚ) : Decidable (self.clearsAt t) :=
  inferInstanceAs (Decidable (_ ∧ _ ∧ _))

/-- **A Backspace** starts a hold, completes one, or is counted. -/
theorem backspace_cases {self : TextInputLong} (hne : self.text ≠ []) (t : ℚ) :
    (backspaceHoldGap < t - self.lastBackspaceTime ∧ self.handleKey t 14 =
      ({ self with backspaceHoldStart := some t, backspaceRepeatCount := 1 }.dropBeforeCursor t,
        some .backspace)) ∨
    (self.clearsAt t ∧ self.handleKey t 14 =
      ({ self with
          text := [], cursor := 0, backspaceHoldStart := none, backspaceRepeatCount := 0
          lastBackspaceTime := t }, some .cleared)) ∨
    (t - self.lastBackspaceTime ≤ backspaceHoldGap ∧ ¬ self.clearsAt t ∧ self.handleKey t 14 =
      ({ self with backspaceRepeatCount := self.backspaceRepeatCount + 1 }.dropBeforeCursor t,
        some .backspace)) := by
  unfold handleKey
  rw [if_pos rfl, if_neg (mt List.eq_nil_of_length_eq_zero hne)]
  by_cases hgap : backspaceHoldGap < t - self.lastBackspaceTime
  · rw [if_pos hgap]
    exact Or.inl ⟨hgap, rfl⟩
  rw [if_neg hgap]
  by_cases hheld : self.heldLongEnough t ∧ backspaceHoldRepeats ≤ self.backspaceRepeatCount + 1
  · exact Or.inr (Or.inl ⟨⟨not_lt.mp hgap, hheld⟩, if_pos hheld⟩)
  · exact Or.inr (Or.inr ⟨not_lt.mp hgap, fun h => hheld h.2, if_neg hheld⟩)

theorem handleKey_empty {self : TextInputLong} (hempty : self.text = []) (t : ℚ) :
    self.handleKey t 14 = (self, some .emptyBackspace) := by
  unfold handleKey
  rw [if_pos rfl, if_pos (by simp [hempty])]

/-- What `handle_key` reports for a Backspace. -/
theorem report_backspace (self : TextInputLong) (t : ℚ) : (self.handleKey t 14).2 =
    if self.text = [] then some .emptyBackspace
    else if self.clearsAt t then some .cleared else some .backspace := by
  by_cases hempty : self.text = []
  · rw [if_pos hempty, handleKey_empty hempty]
  rw [if_neg hempty]
  rcases backspace_cases hempty t with ⟨hgap, heq⟩ | ⟨hclears, heq⟩ | ⟨-, hclears, heq⟩
  · have hclears : ¬ self.clearsAt t := fun h => absurd h.1 (not_le.mpr hgap)
    rw [heq, if_neg hclears]
  · rw [heq, if_pos hclears]
  · rw [heq, if_neg hclears]

/-- Other keys are typed or ignored. -/
theorem report_other (self : TextInputLong) (t : ℚ) {key : Nat} (h14 : key ≠ 14) :
    (self.handleKey t key).2 = some .typed ∨ (self.handleKey t key).2 = none := by
  unfold handleKey
  rw [if_neg h14]
  split
  · exact Or.inl rfl
  · exact Or.inr rfl

/-- **One key**: the cursor stays at the end, and the text is edited as reported. -/
theorem handleKey_edits {self : TextInputLong} (h : self.AtEnd) (t : ℚ) (key : Nat) :
    (self.handleKey t key).1.AtEnd ∧
      (self.handleKey t key).1.text = editText self.text key (self.handleKey t key).2 := by
  by_cases h14 : key = 14
  · subst h14
    by_cases hempty : self.text = []
    · rw [handleKey_empty hempty, hempty]
      exact ⟨h, rfl⟩
    rcases backspace_cases hempty t with ⟨-, heq⟩ | ⟨-, heq⟩ | ⟨-, -, heq⟩
    · have hstart : AtEnd { self with backspaceHoldStart := some t, backspaceRepeatCount := 1 } := h
      obtain ⟨htext, hend⟩ := dropBeforeCursor_text hstart t
      rw [heq]
      exact ⟨hend, htext⟩
    · rw [heq]
      exact ⟨rfl, rfl⟩
    · have hcount : AtEnd { self with backspaceRepeatCount := self.backspaceRepeatCount + 1 } := h
      obtain ⟨htext, hend⟩ := dropBeforeCursor_text hcount t
      rw [heq]
      exact ⟨hend, htext⟩
  · unfold handleKey editText
    rw [if_neg h14, if_neg h14, devKeymap]
    unfold AtEnd at h ⊢
    cases qwertyKeymap.lookup key with
    | none => exact ⟨h, rfl⟩
    | some char => simp [h]

/-- Any keys, at any times: the text is the fold of the keys and their reports. -/
theorem typeKeys_edits {self : TextInputLong} (h : self.AtEnd) (keys : List (ℚ × Nat)) :
    (self.typeKeys keys).1.AtEnd ∧ (self.typeKeys keys).1.text =
      ((keys.map Prod.snd).zip (self.typeKeys keys).2).foldl
        (fun text kr => editText text kr.1 kr.2) self.text := by
  induction keys generalizing self with
  | nil => exact ⟨h, rfl⟩
  | cons k keys ih =>
    obtain ⟨t, key⟩ := k
    obtain ⟨hend, htext⟩ := handleKey_edits h t key
    obtain ⟨hend', htext'⟩ := ih hend
    refine ⟨hend', ?_⟩
    simp only [typeKeys, List.map_cons, List.zip_cons_cons, List.foldl_cons, ← htext]
    exact htext'

end TextInputLong

/-! ## The one-line prompt goes along -/

/-- One key, in both editors: `TextInput` returns `None` where `TextInputLong` reports
`empty_backspace`, and otherwise has the same text. -/
theorem onKey_handleKey {self : TextInputLong} (h : self.AtEnd) (t : ℚ) {key : Nat}
    (hkey : key ≠ 28 ∧ key ≠ 96) (hclear : (self.handleKey t key).2 ≠ some .cleared)
    (title prompt : Text) : TextInput.onKey ⟨title, prompt, self.text⟩ key =
      if (self.handleKey t key).2 = some .emptyBackspace then .inr none
      else .inl ⟨title, prompt, (self.handleKey t key).1.text⟩ := by
  have hedit := (TextInputLong.handleKey_edits h t key).2
  rw [hedit, editText, if_neg hclear]
  unfold TextInput.onKey
  rw [if_neg (by omega)]
  by_cases h14 : key = 14
  · subst h14
    rw [self.report_backspace t] at hclear ⊢
    rw [if_pos rfl, if_pos rfl]
    by_cases hempty : self.text = []
    · simp [hempty]
    · have hpos : 0 < self.text.length := List.length_pos_of_ne_nil hempty
      rw [if_neg hempty] at hclear ⊢
      rw [if_pos hpos, if_neg (by split <;> simp)]
  · have hreport : (self.handleKey t key).2 ≠ some .emptyBackspace := by
      rcases self.report_other t h14 with h | h <;> rw [h] <;> simp
    rw [if_neg h14, if_neg h14, if_neg hreport, TextInput.devKeymap]
    cases qwertyKeymap.lookup key <;> rfl

/-- Keys at any times, as long as no hold clears the text. -/
theorem feed_typeKeys {self : TextInputLong} (h : self.AtEnd) {keys : List (ℚ × Nat)}
    (hkeys : ∀ k ∈ keys, k.2 ≠ 28 ∧ k.2 ≠ 96) (hclear : some .cleared ∉ (self.typeKeys keys).2)
    (title prompt : Text) :
    feed TextInput.onKey ⟨title, prompt, self.text⟩ (keys.map Prod.snd) =
      match (self.typeKeys keys).2.findIdx? (· = some .emptyBackspace) with
      | none => .inl ⟨title, prompt, (self.typeKeys keys).1.text⟩
      | some i => .inr (none, (keys.map Prod.snd).drop (i + 1)) := by
  induction keys generalizing self with
  | nil => rfl
  | cons k keys ih =>
    obtain ⟨t, key⟩ := k
    simp only [TextInputLong.typeKeys, List.mem_cons, not_or] at hclear
    have hstep := onKey_handleKey h t (hkeys _ List.mem_cons_self) (Ne.symm hclear.1) title prompt
    have ih := ih (TextInputLong.handleKey_edits h t key).1
      (fun k hk => hkeys k (List.mem_cons_of_mem _ hk)) hclear.2
    rw [List.map_cons, feed, hstep]
    simp only [TextInputLong.typeKeys, List.findIdx?_cons]
    by_cases hempty : (self.handleKey t key).2 = some .emptyBackspace
    · simp [hempty]
    · simp only [hempty, if_false, decide_false, Bool.false_eq_true]
      rw [ih]
      cases ((self.handleKey t key).1.typeKeys keys).2.findIdx? (· = some .emptyBackspace) <;> rfl

/-- The prompt returns `None` exactly when `empty_backspace` is reported for one of the keys. -/
theorem showModal_typeKeys {self : TextInputLong} (h : self.AtEnd) {keys : List (ℚ × Nat)}
    (hkeys : ∀ k ∈ keys, k.2 ≠ 28 ∧ k.2 ≠ 96) (hclear : some .cleared ∉ (self.typeKeys keys).2)
    (title prompt : Text) (ui : Ui) (w : World) (hw : presses w.io.input = keys.map Prod.snd) :
    returned? (TextInput.showModal ui ⟨title, prompt, self.text⟩) w =
      if some .emptyBackspace ∈ (self.typeKeys keys).2 then some none else none := by
  have hfeed := feed_typeKeys h hkeys hclear title prompt
  rw [← hw] at hfeed
  have hmem : some KeyResult.emptyBackspace ∈ (self.typeKeys keys).2 ↔
      (self.typeKeys keys).2.findIdx? (· = some .emptyBackspace) ≠ none := by
    rw [ne_eq, List.findIdx?_eq_none_iff]
    simp
  rcases wp_cases (TextInput.showModal_spec ui ⟨title, prompt, self.text⟩ w) with
    ⟨r, hr, -, hf, -⟩ | ⟨_, hr, -, rfl, -, self', hf⟩
  · rw [hf] at hfeed
    cases hidx : (self.typeKeys keys).2.findIdx? (· = some .emptyBackspace) with
    | none => rw [hidx] at hfeed; cases hfeed
    | some i =>
      rw [hidx] at hfeed
      obtain ⟨rfl, -⟩ : r = none ∧ _ := by simpa using hfeed
      rw [hr, if_pos (hmem.mpr (by simp [hidx]))]
  · rw [hf] at hfeed
    cases hidx : (self.typeKeys keys).2.findIdx? (· = some .emptyBackspace) with
    | none => rw [hr, if_neg (by rw [hmem, hidx]; simp)]
    | some i => rw [hidx] at hfeed; cases hfeed

/-! ## Top theorem -/

/-- **Both editors are the reference editor**, for every text and all timed keys but OK.  What is
said of the text after all keys is said after every key, a prefix of the keys being keys. -/
theorem editors_agree (self : TextInputLong) (title prompt text : Text) (keys : List (ℚ × Nat))
    (hkeys : ∀ k ∈ keys, k.2 ≠ 28 ∧ k.2 ≠ 96) :
    let long := self.setText text
    let short : TextInput := { title := title, prompt := prompt, text := text }
    let final := (long.typeKeys keys).1
    let reports := (long.typeKeys keys).2
    (final.cursor = final.text.length ∧
      final.text = ((keys.map Prod.snd).zip reports).foldl
        (fun text kr => editText text kr.1 kr.2) text) ∧
    (some .cleared ∉ reports →
      feed TextInput.onKey short (keys.map Prod.snd) =
        (match reports.findIdx? (· = some .emptyBackspace) with
        | none => .inl { short with text := final.text }
        | some i => .inr (none, (keys.map Prod.snd).drop (i + 1))) ∧
      ∀ ui w, presses w.io.input = keys.map Prod.snd → returned? (short.showModal ui) w =
        if some .emptyBackspace ∈ reports then some none else none) := by
  intro long short final reports
  have hend : long.AtEnd := rfl
  exact ⟨TextInputLong.typeKeys_edits hend keys, fun hclear =>
    ⟨feed_typeKeys hend hkeys hclear title prompt, showModal_typeKeys hend hkeys hclear title prompt⟩⟩

/-- `h`, `i`, and three Backspaces. -/
theorem editors_agree_hi :
    let keys : List (ℚ × Nat) := [(1, 35), (2, 23), (3, 14), (4, 14), (5, 14)]
    feed TextInput.onKey { title := [], prompt := [] } (keys.map Prod.snd) = .inr (none, []) := by
  intro keys
  have h := editors_agree { title := [] } [] [] [] keys (by decide)
  exact (h.2 (by decide +kernel)).1.trans (by decide +kernel)

end NeoDCT
