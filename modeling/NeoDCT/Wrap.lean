import NeoDCT.Lib.PyText

/-!
# The framework's word wrapper

`TextInputLong._wrap_text` and `MessageDialog._wrap_text` (ui/framework.py) are one loop with two
endings.  A paragraph is wrapped greedily at single spaces; a word wider than the line is cut
character by character.  Widths are values of any linear order: `text_w` need not be monotone.

    textW [] ≤ maxW →
      every line fits in maxW or is one character, and
      the lines without spaces are the text without spaces and line breaks      (wrapText_sound)
-/

namespace NeoDCT

open PyText

section
variable {W : Type} [LinearOrder W] (textW : Text → W) (maxW : W)

/-! ## Algorithm -/

/-- The loop of `break_long_word`, from the line `cur`. -/
def breakLoop : Text → Text → List Text
  | [], cur => if cur ≠ [] then [cur] else []
  | ch :: chs, cur =>
    let nxt := cur ++ [ch]
    if cur ≠ [] ∧ maxW < textW nxt then cur :: breakLoop chs [ch]
    else breakLoop chs nxt

/-- `break_long_word`: `return out or [word]`. -/
def breakLongWord (word : Text) : List Text :=
  match breakLoop textW maxW word [] with
  | [] => [word]
  | out => out

/-- `cand`: the line `cur` with one more word. -/
def addWord (cur w : Text) : Text := if cur = [] then w else cur ++ [' '] ++ w

/-- The loop over the words of one paragraph, from the line `cur`: the lines it appends. -/
def wrapWords : List Text → Text → List Text
  | [], cur => [cur]
  | w :: ws, cur =>
    if w = [] then wrapWords ws cur
    else if maxW < textW w then
      (if cur ≠ [] then [cur] else []) ++ breakLongWord textW maxW w ++ wrapWords ws []
    else
      let cand := addWord cur w
      if textW cand ≤ maxW then wrapWords ws cand
      else (if cur ≠ [] then [cur] else []) ++ wrapWords ws w

/-- `(text or "").splitlines() or [""]`. -/
def paragraphs (text : Text) : List Text :=
  match splitlines text with
  | [] => [[]]
  | ls => ls

/-- The lines both `_wrap_text` methods collect. -/
def wrapLines (text : Text) : List Text :=
  (paragraphs text).flatMap fun raw => wrapWords textW maxW (splitSpace raw) []

/-- `TextInputLong._wrap_text`. -/
def TextInputLong.wrapText (text : Text) : List Text :=
  match wrapLines textW maxW text with
  | [] => [[]]
  | lines => lines

/-- `while lines and lines[-1] == "": lines.pop()`. -/
def popEmpty (lines : List Text) : List Text := (lines.reverse.dropWhile (· = [])).reverse

/-- `MessageDialog._wrap_text`. -/
def MessageDialog.wrapText (text : Text) : List Text := popEmpty (wrapLines textW maxW text)

/-! ## Every line fits -/

/-- A line as the claim allows it: it fits, or it is a single character. -/
def LineOk (line : Text) : Prop := textW line ≤ maxW ∨ line.length = 1

theorem lineOk_breakLoop (chs : Text) : ∀ cur, (cur ≠ [] → LineOk textW maxW cur) →
    ∀ l ∈ breakLoop textW maxW chs cur, LineOk textW maxW l := by
  induction chs with
  | nil =>
    intro cur hc l hl
    unfold breakLoop at hl
    split at hl
    · next hne => rw [List.mem_singleton] at hl; subst hl; exact hc hne
    · cases hl
  | cons ch chs ih =>
    intro cur hc l hl
    simp only [breakLoop] at hl
    split at hl
    · next h =>
      rcases List.mem_cons.mp hl with rfl | hl
      · exact hc h.1
      · exact ih [ch] (fun _ => Or.inr rfl) l hl
    · next h =>
      refine ih _ (fun _ => ?_) l hl
      by_cases hcur : cur = []
      · subst hcur; exact Or.inr rfl
      · exact Or.inl (not_lt.mp fun hlt => h ⟨hcur, hlt⟩)

theorem breakLoop_ne_nil (chs : Text) : ∀ cur, cur ≠ [] → breakLoop textW maxW chs cur ≠ [] := by
  induction chs with
  | nil => intro cur hc; simp [breakLoop, hc]
  | cons ch chs ih =>
    intro cur hc
    simp only [breakLoop]
    split
    · simp
    · exact ih _ (by simp)

/-- On a word `break_long_word` never falls back to `[word]`. -/
theorem breakLongWord_eq {word : Text} (h : word ≠ []) :
    breakLongWord textW maxW word = breakLoop textW maxW word [] := by
  obtain ⟨ch, chs, rfl⟩ := List.exists_cons_of_ne_nil h
  have hne : breakLoop textW maxW (ch :: chs) [] ≠ [] := by
    simpa [breakLoop] using breakLoop_ne_nil textW maxW chs [ch] (by simp)
  unfold breakLongWord
  split
  · next he => exact absurd he hne
  · rfl

theorem lineOk_flush {cur : Text} (hc : LineOk textW maxW cur) :
    ∀ l ∈ (if cur ≠ [] then [cur] else []), LineOk textW maxW l := by
  intro l hl
  split at hl
  · rw [List.mem_singleton] at hl; subst hl; exact hc
  · cases hl

theorem lineOk_wrapWords (h0 : textW [] ≤ maxW) (ws : List Text) : ∀ cur, textW cur ≤ maxW →
    ∀ l ∈ wrapWords textW maxW ws cur, LineOk textW maxW l := by
  induction ws with
  | nil =>
    intro cur hc l hl
    rw [wrapWords, List.mem_singleton] at hl
    subst hl
    exact Or.inl hc
  | cons w ws ih =>
    intro cur hc l hl
    simp only [wrapWords] at hl
    split at hl
    · exact ih cur hc l hl
    · next hw =>
      split at hl
      · rw [List.append_assoc, List.mem_append, List.mem_append] at hl
        rcases hl with hl | hl | hl
        · exact lineOk_flush textW maxW (Or.inl hc) l hl
        · rw [breakLongWord_eq textW maxW hw] at hl
          exact lineOk_breakLoop textW maxW w [] (fun h => absurd rfl h) l hl
        · exact ih [] h0 l hl
      · next hfit =>
        split at hl
        · next hcand => exact ih _ hcand l hl
        · rw [List.mem_append] at hl
          rcases hl with hl | hl
          · exact lineOk_flush textW maxW (Or.inl hc) l hl
          · exact ih w (not_lt.mp hfit) l hl

theorem lineOk_wrapLines (h0 : textW [] ≤ maxW) (text : Text) :
    ∀ l ∈ wrapLines textW maxW text, LineOk textW maxW l := by
  intro l hl
  obtain ⟨raw, _, hl⟩ := List.mem_flatMap.mp hl
  exact lineOk_wrapWords textW maxW h0 (splitSpace raw) [] h0 l hl

/-! ## No character is lost or repeated -/

/-- The characters of a text other than spaces. -/
def nonSpace (text : Text) : Text := text.filter (· ≠ ' ')

theorem nonSpace_append (a b : Text) : nonSpace (a ++ b) = nonSpace a ++ nonSpace b :=
  List.filter_append ..

theorem flatten_breakLoop (chs : Text) :
    ∀ cur, (breakLoop textW maxW chs cur).flatten = cur ++ chs := by
  induction chs with
  | nil => intro cur; by_cases h : cur = [] <;> simp [breakLoop, h]
  | cons ch chs ih =>
    intro cur
    simp only [breakLoop]
    split
    · rw [List.flatten_cons, ih, List.singleton_append]
    · rw [ih, List.append_assoc, List.singleton_append]

theorem nonSpace_addWord (cur w : Text) : nonSpace (addWord cur w) = nonSpace (cur ++ w) := by
  unfold addWord
  by_cases h : cur = [] <;> simp [h, nonSpace]

theorem flatten_flush (cur : Text) : (if cur ≠ [] then [cur] else []).flatten = cur := by
  by_cases h : cur = [] <;> simp [h]

theorem nonSpace_wrapWords (ws : List Text) : ∀ cur,
    nonSpace (wrapWords textW maxW ws cur).flatten = nonSpace (cur ++ ws.flatten) := by
  induction ws with
  | nil => intro cur; simp [wrapWords]
  | cons w ws ih =>
    intro cur
    simp only [wrapWords]
    split
    · next hw => rw [ih, hw]; simp
    · next hw =>
      split
      · rw [List.flatten_append, List.flatten_append, nonSpace_append, ih, flatten_flush,
          breakLongWord_eq textW maxW hw, flatten_breakLoop]
        simp [nonSpace_append]
      · split
        · rw [ih, nonSpace_append, nonSpace_addWord, ← nonSpace_append]
          simp
        · rw [List.flatten_append, nonSpace_append, ih, flatten_flush]
          simp [nonSpace_append]

theorem flatten_paragraphs (text : Text) :
    (paragraphs text).flatten = text.filter fun c => !isLineBreak c := by
  rw [← flatten_splitlines]
  unfold paragraphs
  split
  · next h => rw [h]; rfl
  · rfl

theorem nonSpace_paragraphs (ps : List Text) :
    nonSpace (ps.flatMap fun raw => wrapWords textW maxW (splitSpace raw) []).flatten =
      nonSpace ps.flatten := by
  induction ps with
  | nil => rfl
  | cons p ps ih =>
    rw [List.flatMap_cons, List.flatten_append, List.flatten_cons, nonSpace_append, nonSpace_append,
      ih, nonSpace_wrapWords, List.nil_append, flatten_splitSpace]
    congr 1
    exact List.filter_filter.trans (by simp [nonSpace])

theorem nonSpace_wrapLines (text : Text) : nonSpace (wrapLines textW maxW text).flatten =
    text.filter fun c => c ≠ ' ' && !isLineBreak c := by
  rw [wrapLines, nonSpace_paragraphs, flatten_paragraphs, nonSpace, List.filter_filter]

theorem flatten_popEmpty (lines : List Text) : (popEmpty lines).flatten = lines.flatten := by
  have h : ∀ ls : List Text, (ls.dropWhile (· = [])).reverse.flatten = ls.reverse.flatten := by
    intro ls
    induction ls with
    | nil => rfl
    | cons l ls ih =>
      rw [List.dropWhile_cons]
      split
      · next hl => simp [ih, of_decide_eq_true hl]
      · rfl
  rw [popEmpty, h, List.reverse_reverse]

theorem mem_of_mem_popEmpty {lines : List Text} {l : Text} (h : l ∈ popEmpty lines) : l ∈ lines := by
  rw [popEmpty, List.mem_reverse] at h
  exact List.mem_reverse.mp ((List.dropWhile_sublist _).subset h)

/-- A paragraph always appends a line, so the `[""]` fallback of the composer is never needed. -/
theorem wrapText_eq_wrapLines (text : Text) :
    TextInputLong.wrapText textW maxW text = wrapLines textW maxW text := by
  have hne : ∀ (ws : List Text) (cur : Text), wrapWords textW maxW ws cur ≠ [] := by
    intro ws
    induction ws with
    | nil => simp [wrapWords]
    | cons w ws ih =>
      intro cur
      simp only [wrapWords]
      split
      · exact ih cur
      · split
        · simp [ih]
        · split
          · exact ih _
          · simp [ih]
  have hp : paragraphs text ≠ [] := by
    unfold paragraphs
    split
    · simp
    · next h => simpa using h
  obtain ⟨p, ps, hps⟩ := List.exists_cons_of_ne_nil hp
  unfold TextInputLong.wrapText
  split
  · next he => simp [wrapLines, hps, hne] at he
  · rfl

/-! ## Top theorem -/

/-- **Word wrapping is sound**, for both wrappers and every width function. -/
theorem wrapText_sound (text : Text) (h0 : textW [] ≤ maxW) :
    ((∀ l ∈ TextInputLong.wrapText textW maxW text, textW l ≤ maxW ∨ l.length = 1) ∧
      (TextInputLong.wrapText textW maxW text).flatten.filter (· ≠ ' ') =
        text.filter fun c => c ≠ ' ' && !isLineBreak c) ∧
    ((∀ l ∈ MessageDialog.wrapText textW maxW text, textW l ≤ maxW ∨ l.length = 1) ∧
      (MessageDialog.wrapText textW maxW text).flatten.filter (· ≠ ' ') =
        text.filter fun c => c ≠ ' ' && !isLineBreak c) := by
  rw [wrapText_eq_wrapLines]
  have hok := lineOk_wrapLines textW maxW h0 text
  have hns := nonSpace_wrapLines textW maxW text
  refine ⟨⟨hok, hns⟩, fun l hl => hok l (mem_of_mem_popEmpty hl), ?_⟩
  rw [MessageDialog.wrapText, flatten_popEmpty]
  exact hns

end

/-- With one pixel a character and lines of three: a long word, two spaces and a line break. -/
theorem wrapText_sound_abcd :
    (0 : ℤ) ≤ 3 ∧
    ((∀ l ∈ TextInputLong.wrapText (fun s => (s.length : ℤ)) 3 "abcd  e\nf".toList,
        (l.length : ℤ) ≤ 3 ∨ l.length = 1) ∧
      (TextInputLong.wrapText (fun s => (s.length : ℤ)) 3 "abcd  e\nf".toList).flatten.filter
        (· ≠ ' ') = "abcd  e\nf".toList.filter fun c => c ≠ ' ' && !isLineBreak c) :=
  ⟨by decide, (wrapText_sound (fun s => (s.length : ℤ)) 3 "abcd  e\nf".toList (by decide)).1⟩

end NeoDCT
