import NeoDCT.WrapGreedy

/-!
# Blank lines, and wrapping twice

How many blank lines the framework's wrapper gives: one for each paragraph without a word, and one more
for each paragraph that ends with a word too wide for a line, so that

    blank lines = paragraphs without words  ↔  no paragraph ends with a word too wide   (count_blank_iff)

And what `MessageDialog` has wrapped stays as it is when it is wrapped again (`wrapText_idem`).
-/

namespace NeoDCT

open PyText Greedy

section
variable {W : Type} [LinearOrder W] (textW : Text → W) (maxW : W)

/-! ## Blank lines -/

theorem ne_nil_breakLoop (chs : Text) (cur : Text) : ∀ l ∈ breakLoop textW maxW chs cur, l ≠ [] := by
  induction chs generalizing cur with
  | nil =>
    intro l hl
    rw [breakLoop] at hl
    split at hl
    · next hne => rwa [List.mem_singleton.mp hl]
    · cases hl
  | cons ch chs ih =>
    intro l hl
    simp only [breakLoop] at hl
    split at hl
    · next h =>
      rcases List.mem_cons.mp hl with rfl | hl
      · exact h.1
      · exact ih _ l hl
    · exact ih _ l hl

theorem count_breakLongWord {word : Text} (h : word ≠ []) :
    (breakLongWord textW maxW word).count [] = 0 := by
  rw [breakLongWord_eq textW maxW h, List.count_eq_zero]
  exact fun hmem => ne_nil_breakLoop textW maxW word [] [] hmem rfl

theorem count_flush (cur : Text) : (if cur ≠ [] then [cur] else []).count [] = 0 := by
  by_cases h : cur = [] <;> simp [h]

/-- The blank lines after the words `ws`, from the line `cur`: it is the last word that matters. -/
def blanks (ws : List Text) (cur : Text) : Nat :=
  match ws.getLast? with
  | none => if cur = [] then 1 else 0
  | some w => if maxW < textW w then 1 else 0

theorem blanks_cons (w : Text) (ws : List Text) (cur : Text) :
    blanks textW maxW (w :: ws) cur =
      if ws = [] then (if maxW < textW w then 1 else 0) else blanks textW maxW ws cur := by
  cases ws with
  | nil => rfl
  | cons v ws => simp [blanks, List.getLast?_cons_cons]

/-- Once there is a word, it does not matter which line is begun. -/
theorem blanks_of_ne_nil {ws : List Text} (h : ws ≠ []) (cur cur' : Text) :
    blanks textW maxW ws cur = blanks textW maxW ws cur' := by
  obtain ⟨ws, w, rfl⟩ := (List.eq_nil_or_concat' ws).resolve_left h
  simp [blanks]

theorem count_wrapWords {ws : List Text} (hws : ∀ w ∈ ws, w ≠ []) (cur : Text) :
    (wrapWords textW maxW ws cur).count [] = blanks textW maxW ws cur := by
  induction ws generalizing cur with
  | nil =>
    rw [wrapWords]
    by_cases h : cur = [] <;> simp [blanks, h]
  | cons w ws ih =>
    have hw := hws w List.mem_cons_self
    have ih := ih fun v hv => hws v (List.mem_cons_of_mem w hv)
    rw [wrapWords, if_neg hw, blanks_cons]
    by_cases hwide : maxW < textW w
    · rw [if_pos hwide, List.count_append, List.count_append, count_flush,
        count_breakLongWord textW maxW hw, ih, if_pos hwide]
      by_cases hlast : ws = []
      · rw [if_pos hlast, hlast]
        rfl
      · rw [if_neg hlast, blanks_of_ne_nil textW maxW hlast [] cur]
        omega
    · -- the line that holds `w` is not blank
      have hline : ∀ line, line ≠ [] → blanks textW maxW ws line =
          if ws = [] then 0 else blanks textW maxW ws cur := by
        intro line hne
        by_cases hlast : ws = []
        · rw [if_pos hlast, hlast]
          exact if_neg hne
        · rw [if_neg hlast, blanks_of_ne_nil textW maxW hlast]
      have hcand : addWord cur w ≠ [] := by
        unfold addWord
        split
        · exact hw
        · simp
      rw [if_neg hwide, if_neg hwide]
      simp only []
      split
      · rw [ih, hline _ hcand]
      · rw [List.count_append, count_flush, ih, hline w hw, Nat.zero_add]

/-- A paragraph without a word. -/
def Wordless (raw : Text) : Prop := wordsOf raw = []

instance : DecidablePred Wordless := fun raw => inferInstanceAs (Decidable (wordsOf raw = []))

/-- The last word of the paragraph is too wide for a line. -/
def EndsWide (raw : Text) : Prop := ∃ w ∈ (wordsOf raw).getLast?, maxW < textW w

instance : DecidablePred (EndsWide textW maxW) := fun raw =>
  inferInstanceAs (Decidable (∃ w ∈ (wordsOf raw).getLast?, maxW < textW w))

theorem count_wrapParagraph (raw : Text) : (wrapParagraph textW maxW raw).count [] =
    (if Wordless raw then 1 else 0) + if EndsWide textW maxW raw then 1 else 0 := by
  rw [wrapParagraph_eq, count_wrapWords textW maxW fun w hw => wordsOf_ne_nil hw]
  unfold blanks Wordless EndsWide
  rcases List.eq_nil_or_concat' (wordsOf raw) with hnil | ⟨ws, w, hsnoc⟩
  · simp [hnil]
  · simp [hsnoc]

theorem count_wrapLines (ps : List Text) : (ps.flatMap (wrapParagraph textW maxW)).count [] =
    ps.countP (fun raw => Wordless raw) + ps.countP fun raw => EndsWide textW maxW raw := by
  induction ps with
  | nil => rfl
  | cons raw ps ih =>
    rw [List.flatMap_cons, List.count_append, ih, count_wrapParagraph, List.countP_cons,
      List.countP_cons]
    simp only [decide_eq_true_eq]
    omega

/-- **Blank lines.**  There are as many as paragraphs without a word exactly when no paragraph ends with
a word that is too wide; each paragraph that does adds one. -/
theorem count_blank_iff (text : Text) :
    ((TextInputLong.wrapText textW maxW text).count [] =
        (paragraphs text).countP (fun raw => Wordless raw) ↔
      ∀ raw ∈ paragraphs text, ¬ EndsWide textW maxW raw) ∧
    (TextInputLong.wrapText textW maxW text).count [] =
      (paragraphs text).countP (fun raw => Wordless raw) +
        (paragraphs text).countP fun raw => EndsWide textW maxW raw := by
  have hcount := count_wrapLines textW maxW (paragraphs text)
  rw [wrapText_eq_wrapLines]
  refine ⟨?_, hcount⟩
  rw [show (wrapLines textW maxW text).count [] = _ from hcount, Nat.add_eq_left, List.countP_eq_zero]
  simp only [decide_eq_true_eq]

end

/-- One word of four characters on lines of three: `abc`, `d` and a blank line. -/
theorem count_blank_abcd :
    (TextInputLong.wrapText (fun s => (s.length : ℤ)) 3 "abcd".toList).count [] ≠
      (paragraphs "abcd".toList).countP fun raw => Wordless raw := by
  decide

/-! ## Wrapping twice -/

section
variable {W : Type} [LinearOrder W] (textW : Text → W) (maxW : W)

/-- A line as the wrapper builds it up: words that fit, and so does every beginning of the line. -/
structure Grown (group : List Text) : Prop where
  words : ∀ w ∈ group, w ≠ [] ∧ ' ' ∉ w ∧ textW w ≤ maxW
  prefixes : ∀ p, p <+: group → p ≠ [] → FitsLine textW maxW p

theorem grown_nil : Grown textW maxW [] :=
  ⟨List.forall_mem_nil _, fun _ hp hne => absurd (List.prefix_nil.mp hp) hne⟩

theorem grown_singleton {w : Text} (hw : w ≠ [] ∧ ' ' ∉ w ∧ textW w ≤ maxW) : Grown textW maxW [w] := by
  constructor
  · simpa using hw
  · intro p hp hne
    obtain ⟨q, hq⟩ := hp
    obtain ⟨v, p, rfl⟩ := List.exists_cons_of_ne_nil hne
    obtain ⟨rfl, hnil⟩ := List.cons.inj hq
    rw [(List.append_eq_nil_iff.mp hnil).1]
    simpa [FitsLine, joinSpace] using hw.2.2

theorem grown_snoc {group : List Text} (hgroup : Grown textW maxW group) {w : Text}
    (hw : w ≠ [] ∧ ' ' ∉ w ∧ textW w ≤ maxW) (hfit : FitsLine textW maxW (group ++ [w])) :
    Grown textW maxW (group ++ [w]) := by
  constructor
  · exact List.forall_mem_append.mpr ⟨hgroup.words, List.forall_mem_singleton.mpr hw⟩
  · intro p hp hne
    rcases List.prefix_concat_iff.mp hp with rfl | hp
    · exact hfit
    · exact hgroup.prefixes p hp hne

/-- A line that was built up so is wrapped to itself. -/
theorem wrapParagraph_grown {group : List Text} (h : Grown textW maxW group) :
    wrapParagraph textW maxW (joinSpace group) = [joinSpace group] := by
  cases group with
  | nil => rfl
  | cons w ws =>
    have hsplit : splitSpace (joinSpace (w :: ws)) = w :: ws :=
      List.splitOn_intercalate _ (fun v hv => (h.words v hv).2.1) (List.cons_ne_nil w ws)
    have hwords : wordsOf (joinSpace (w :: ws)) = w :: ws := by
      rw [wordsOf, hsplit, List.filter_eq_self]
      exact fun v hv => by simpa using (h.words v hv).1
    have htake : ∀ p, p <+: ws → p ≠ [] → FitsLine textW maxW ([w] ++ p) := fun p hp _ =>
      h.prefixes _ (List.cons_prefix_cons.mpr ⟨rfl, hp⟩) (List.cons_ne_nil w p)
    rw [wrapParagraph_pack, hwords, pack]
    · have hpack : packFrom (FitsLine textW maxW) [w] (ws ++ []) = _ := packFrom_append [] htake
      rw [List.append_nil] at hpack
      rw [hpack]
      rfl
    · rw [hwords]
      exact fun v hv => (h.words v hv).2.2
    · rw [hwords]
      exact List.cons_ne_nil w ws

variable {textW maxW}

/-- A piece of a broken word fits if single characters do. -/
theorem grown_breakLongWord (hchar : ∀ c, textW [c] ≤ maxW) {w : Text} (hw : w ≠ []) (hspace : ' ' ∉ w) :
    ∀ l ∈ breakLongWord textW maxW w, Grown textW maxW [l] := by
  intro l hl
  rw [breakLongWord_eq textW maxW hw] at hl
  apply grown_singleton
  refine ⟨ne_nil_breakLoop textW maxW w [] l hl, ?_, ?_⟩
  · intro hmem
    have hflat := flatten_breakLoop textW maxW w []
    rw [List.nil_append] at hflat
    apply hspace
    rw [← hflat]
    exact List.mem_flatten.mpr ⟨l, hl, hmem⟩
  · rcases lineOk_breakLoop textW maxW w [] (fun h => absurd rfl h) l hl with hfit | hlen
    · exact hfit
    · obtain ⟨c, rfl⟩ := List.length_eq_one_iff.mp hlen
      exact hchar c

theorem grown_wrapWords (hchar : ∀ c, textW [c] ≤ maxW) {ws : List Text}
    (hws : ∀ w ∈ ws, w ≠ [] ∧ ' ' ∉ w) {group : List Text} (hgroup : Grown textW maxW group) :
    ∀ l ∈ wrapWords textW maxW ws (joinSpace group), ∃ g, Grown textW maxW g ∧ l = joinSpace g := by
  induction ws generalizing group with
  | nil =>
    intro l hl
    rw [wrapWords, List.mem_singleton] at hl
    exact ⟨group, hgroup, hl⟩
  | cons w ws ih =>
    obtain ⟨hw, hspace⟩ := hws w List.mem_cons_self
    have ih := @ih fun v hv => hws v (List.mem_cons_of_mem w hv)
    have hflush : ∀ l ∈ (if joinSpace group ≠ [] then [joinSpace group] else []), l = joinSpace group := by
      intro l hl
      split at hl
      · exact List.mem_singleton.mp hl
      · cases hl
    intro l hl
    rw [wrapWords, if_neg hw] at hl
    simp only [addWord_joinSpace fun v hv => (hgroup.words v hv).1] at hl
    split at hl
    · rw [List.mem_append, List.mem_append] at hl
      rcases hl with (hl | hl) | hl
      · exact ⟨group, hgroup, hflush l hl⟩
      · exact ⟨[l], grown_breakLongWord hchar hw hspace l hl, by simp [joinSpace]⟩
      · exact ih (grown_nil textW maxW) l hl
    · next hfit =>
      have hword : w ≠ [] ∧ ' ' ∉ w ∧ textW w ≤ maxW := ⟨hw, hspace, not_lt.mp hfit⟩
      split at hl
      · next hcand => exact ih (grown_snoc textW maxW hgroup hword hcand) l hl
      · rcases List.mem_append.mp hl with hl | hl
        · exact ⟨group, hgroup, hflush l hl⟩
        · exact ih (grown_singleton textW maxW hword) l (by simpa [joinSpace] using hl)

/-- Every line was built up word by word. -/
theorem grown_wrapLines (hchar : ∀ c, textW [c] ≤ maxW) {text l : Text}
    (hl : l ∈ wrapLines textW maxW text) : ∃ g, Grown textW maxW g ∧ l = joinSpace g := by
  obtain ⟨raw, -, hl⟩ := List.mem_flatMap.mp hl
  have hraw : l ∈ wrapWords textW maxW (wordsOf raw) (joinSpace []) := by
    show l ∈ wrapWords textW maxW (wordsOf raw) []
    rw [← wrapParagraph_eq textW maxW raw]
    exact hl
  exact grown_wrapWords hchar (fun w hw => ⟨wordsOf_ne_nil hw, wordsOf_no_space hw⟩)
    (grown_nil textW maxW) l hraw

/-- Every line is wrapped to itself. -/
theorem wrapParagraph_line (hchar : ∀ c, textW [c] ≤ maxW) {text l : Text}
    (hl : l ∈ wrapLines textW maxW text) : wrapParagraph textW maxW l = [l] := by
  obtain ⟨g, hg, rfl⟩ := grown_wrapLines hchar hl
  exact wrapParagraph_grown textW maxW hg

/-- Every line that is not blank fits. -/
theorem fits_wrapLines (hchar : ∀ c, textW [c] ≤ maxW) {text l : Text}
    (hl : l ∈ wrapLines textW maxW text) (hne : l ≠ []) : textW l ≤ maxW := by
  obtain ⟨g, hg, rfl⟩ := grown_wrapLines hchar hl
  apply hg.prefixes g List.prefix_rfl
  rintro rfl
  exact hne rfl

/-- No line has a line break in it. -/
theorem no_break_wrapLines {text l : Text} (hl : l ∈ wrapLines textW maxW text) :
    ∀ c ∈ l, isLineBreak c = false := by
  intro c hc
  by_cases hspace : c = ' '
  · rw [hspace]
    decide
  · have hmem : c ∈ nonSpace (wrapLines textW maxW text).flatten := by
      unfold nonSpace
      rw [List.mem_filter]
      exact ⟨List.mem_flatten.mpr ⟨l, hl, hc⟩, by simpa using hspace⟩
    rw [nonSpace_wrapLines, List.mem_filter] at hmem
    simpa [hspace] using hmem.2

theorem getLast?_popEmpty (lines : List Text) : (popEmpty lines).getLast? ≠ some [] := by
  intro h
  have hne : popEmpty lines ≠ [] := by
    intro hnil
    rw [hnil] at h
    cases h
  have hlast := List.rdropWhile_last_not (fun l : Text => decide (l = [])) lines hne
  rw [List.getLast?_eq_some_getLast hne, Option.some.injEq] at h
  exact hlast (decide_eq_true h)

theorem popEmpty_eq_self {lines : List Text} (h : lines.getLast? ≠ some []) : popEmpty lines = lines := by
  apply List.rdropWhile_eq_self_iff.mpr
  intro hne hnil
  apply h
  rw [List.getLast?_eq_some_getLast hne]
  simpa using hnil

/-- **Wrapping is idempotent**: the wrapped lines of a dialog, joined by line feeds, are wrapped to
themselves. -/
theorem wrapText_idem (text : Text) (hchar : ∀ c, textW [c] ≤ maxW) :
    MessageDialog.wrapText textW maxW (joinLines (MessageDialog.wrapText textW maxW text)) =
      MessageDialog.wrapText textW maxW text := by
  have hlast := getLast?_popEmpty (wrapLines textW maxW text)
  have hmem : ∀ l ∈ popEmpty (wrapLines textW maxW text), l ∈ wrapLines textW maxW text :=
    fun l hl => mem_of_mem_popEmpty hl
  unfold MessageDialog.wrapText
  generalize popEmpty (wrapLines textW maxW text) = lines at hlast hmem ⊢
  by_cases hnil : lines = []
  · subst hnil
    rfl
  have hparas : paragraphs (joinLines lines) = lines := by
    unfold paragraphs
    rw [splitlines_joinLines (fun l hl => no_break_wrapLines (hmem l hl)) hlast]
    split
    · exact absurd rfl hnil
    · rfl
  have hself : wrapLines textW maxW (joinLines lines) = lines := by
    rw [wrapLines, hparas]
    show lines.flatMap (wrapParagraph textW maxW) = lines
    calc lines.flatMap (wrapParagraph textW maxW) = lines.flatMap fun l => [l] :=
          List.flatMap_congr fun l hl => wrapParagraph_line hchar (hmem l hl)
      _ = lines := List.flatMap_singleton' lines
  rw [hself]
  exact popEmpty_eq_self hlast

end

/-- A broken word, a blank paragraph and blanks at the end, on lines of three characters. -/
theorem wrapText_idem_abcd :
    (∀ c : Char, ([c].length : ℤ) ≤ 3) ∧
    MessageDialog.wrapText (fun s => (s.length : ℤ)) 3 "abcd\n\ne f\n \n".toList =
      ["abc".toList, "d".toList, [], [], "e f".toList] ∧
    MessageDialog.wrapText (fun s => (s.length : ℤ)) 3
        (joinLines (MessageDialog.wrapText (fun s => (s.length : ℤ)) 3 "abcd\n\ne f\n \n".toList)) =
      MessageDialog.wrapText (fun s => (s.length : ℤ)) 3 "abcd\n\ne f\n \n".toList := by
  have hchar : ∀ c : Char, ([c].length : ℤ) ≤ 3 := fun c => by simp
  exact ⟨hchar, by decide, wrapText_idem _ hchar⟩

end NeoDCT
