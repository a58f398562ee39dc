import NeoDCT.Apps.Messages
import NeoDCT.WrapLines

/-!
# The lines of a message

`Messages._wrap_text` cuts the words too wide for a line at the beginning of a message, each to a line
of its own, and packs the words from the first that fits on greedily (`wrapLoop_eq`).  So it wraps like
the composer where every word fits (`wrapText_eq_composer`), and

    every line fits  ↔  no greedy line is opened by a word too wide for it       (wrapText_fits_iff)
-/

namespace NeoDCT

open PyText Greedy

namespace Messages

/-! ## The loop is greedy -/

theorem wrapLoop_packFrom (fits : Text → Bool) {words : List Text} (hwords : ∀ w ∈ words, IsWord w)
    {group : List Text} (hne : group ≠ []) (hgroup : ∀ w ∈ group, IsWord w) :
    wrapLoop fits words (joinSpace group) = (packFrom (FitsOn fits) group words).map joinSpace := by
  induction words generalizing group with
  | nil =>
    rw [wrapLoop, if_pos (joinSpace_ne_nil hne fun w hw => (hgroup w hw).1)]
    rfl
  | cons w words ih =>
    have hw := hwords w List.mem_cons_self
    have ih := @ih fun v hv => hwords v (List.mem_cons_of_mem w hv)
    have hone : ∀ v ∈ [w], IsWord v := List.forall_mem_singleton.mpr hw
    have hsnoc : ∀ v ∈ group ++ [w], IsWord v := List.forall_mem_append.mpr ⟨hgroup, hone⟩
    rw [wrapLoop, packFrom]
    simp only [strip_candidate hsnoc]
    by_cases hfit : fits (joinSpace (group ++ [w])) = true
    · have hline : FitsOn fits (group ++ [w]) := hfit
      rw [if_pos hfit, if_pos hline]
      exact ih (by simp) hsnoc
    · have hline : ¬ FitsOn fits (group ++ [w]) := hfit
      rw [if_neg hfit, if_neg hline, if_pos (joinSpace_ne_nil hne fun v hv => (hgroup v hv).1),
        List.map_cons]
      have hnext := ih (List.cons_ne_nil w []) hone
      exact congrArg (joinSpace group :: ·) (by simpa [joinSpace] using hnext)

/-- The words from the first that fits on a line of its own. -/
def fromFitting (fits : Text → Bool) (words : List Text) : List Text := words.dropWhile fun w => !fits w

/-- **What the loop computes.** -/
theorem wrapLoop_eq (fits : Text → Bool) {words : List Text} (hwords : ∀ w ∈ words, IsWord w) :
    wrapLoop fits words [] = (words.takeWhile fun w => !fits w).map (cutWord fits) ++
      (pack (FitsOn fits) (fromFitting fits words)).map joinSpace := by
  induction words with
  | nil => rfl
  | cons w words ih =>
    have hw := hwords w List.mem_cons_self
    have hrest : ∀ v ∈ words, IsWord v := fun v hv => hwords v (List.mem_cons_of_mem w hv)
    have hone : ∀ v ∈ [w], IsWord v := List.forall_mem_singleton.mpr hw
    unfold fromFitting
    rw [wrapLoop, List.takeWhile_cons, List.dropWhile_cons]
    by_cases hfit : fits w = true
    · have hpack := wrapLoop_packFrom fits hrest (List.cons_ne_nil w []) hone
      simpa [hfit, pack, joinSpace] using hpack
    · simpa [hfit, fromFitting] using ih hrest

theorem wrapLoop_pack (fits : Text → Bool) {words : List Text} (hwords : ∀ w ∈ words, IsWord w)
    (hfit : ∀ w ∈ words, fits w = true) :
    wrapLoop fits words [] = (pack (FitsOn fits) words).map joinSpace := by
  rw [wrapLoop_eq fits hwords]
  cases words with
  | nil => rfl
  | cons w words => simp [fromFitting, hfit w List.mem_cons_self]

/-! ## Composer and viewer -/

theorem isSpace_of_isLineBreak {c : Char} (h : isLineBreak c = true) : isSpace c = true := by
  unfold isLineBreak at h
  unfold isSpace
  simp only [decide_eq_true_eq, List.mem_cons, List.not_mem_nil, or_false] at h ⊢
  omega

/-- Where the only whitespace is U+0020, `split()` and `split(" ")` give the same words. -/
theorem wordsOf_eq_split {text : Text} (hspace : ∀ c ∈ text, isSpace c = true → c = ' ') :
    wordsOf text = split text := by
  have hsplit : ∀ cs : Text, (∀ c ∈ cs, isSpace c = true → c = ' ') →
      cs.splitOnP (· == ' ') = cs.splitOnP isSpace := by
    intro cs
    induction cs with
    | nil => exact fun _ => rfl
    | cons c cs ih =>
      intro h
      have hc : (c == ' ') = isSpace c := by
        rw [Bool.eq_iff_iff, beq_iff_eq]
        constructor
        · rintro rfl
          decide
        · exact h c List.mem_cons_self
      rw [List.splitOnP_cons_eq_if_modifyHead, List.splitOnP_cons_eq_if_modifyHead, hc,
        ih fun d hd => h d (List.mem_cons_of_mem c hd)]
  unfold wordsOf splitSpace split
  rw [List.splitOn_eq_splitOnP, hsplit text hspace]

theorem paragraphs_eq {text : Text} (hspace : ∀ c ∈ text, isSpace c = true → c = ' ') :
    paragraphs text = [text] := by
  have hbreak : ∀ c ∈ text, isLineBreak c = false := by
    intro c hc
    rw [Bool.eq_false_iff]
    intro h
    rw [hspace c hc (isSpace_of_isLineBreak h)] at h
    revert h
    decide
  cases text with
  | nil => rfl
  | cons c cs =>
    unfold paragraphs
    rw [splitlines_last (List.cons_ne_nil c cs) hbreak]

/-- **The composer and the viewer wrap alike** a text whose only whitespace is U+0020 and whose words
all fit. -/
theorem wrapText_eq_composer (ui : Ui) (text : Text) (maxWidth : ℤ) (font : Font)
    (hspace : ∀ c ∈ text, isSpace c = true → c = ' ')
    (hwords : ∀ w ∈ split text, (ui.getTextSize w font).1 ≤ maxWidth) :
    wrapText ui text maxWidth font =
      TextInputLong.wrapText (fun s => (ui.getTextSize s font).1) maxWidth text := by
  have hsplit := wordsOf_eq_split hspace
  rw [wrapText_eq_wrapLines, wrapLines, paragraphs_eq hspace, List.flatMap_singleton]
  show _ = wrapParagraph (fun s => (ui.getTextSize s font).1) maxWidth text
  unfold wrapText
  by_cases hnil : split text = []
  · simp only [hnil, if_true]
    exact (wrapParagraph_empty _ _ (hsplit.trans hnil)).symm
  · simp only [if_neg hnil]
    rw [wrapLoop_pack _ (fun w hw => isWord_of_mem_split hw) (by simpa using hwords),
      wrapParagraph_pack, hsplit]
    · congr 1
      exact pack_congr _ (fun g => decide_eq_true_iff) _
    · rw [hsplit]
      exact hwords
    · rw [hsplit]
      exact hnil

/-- Blanks at both ends and between the words, on lines of ten characters. -/
theorem wrapText_eq_composer_plain :
    (∀ c ∈ "  hello  my friend ".toList, isSpace c = true → c = ' ') ∧
    (∀ w ∈ split "  hello  my friend ".toList, (Ui.plain.getTextSize w .n).1 ≤ 100) ∧
    wrapText Ui.plain "  hello  my friend ".toList 100 .n =
      TextInputLong.wrapText (fun s => (Ui.plain.getTextSize s .n).1) 100 "  hello  my friend ".toList := by
  have hspace : ∀ c ∈ "  hello  my friend ".toList, isSpace c = true → c = ' ' := by
    have hall : ("  hello  my friend ".toList.all fun c => !isSpace c || c == ' ') = true := by
      decide +kernel
    intro c hc
    simpa [imp_iff_not_or] using List.all_eq_true.mp hall c hc
  have hwords : ∀ w ∈ split "  hello  my friend ".toList, (Ui.plain.getTextSize w .n).1 ≤ 100 := by
    decide +kernel
  exact ⟨hspace, hwords, wrapText_eq_composer Ui.plain _ 100 .n hspace hwords⟩

/-! ## Every line fits -/

theorem fits_cutWord {fits : Text → Bool} (hdots : fits "...".toList = true) (word : Text) :
    fits (cutWord fits word) = true := by
  unfold cutWord
  by_cases h : PagedList.trimToFit fits word = []
  · simpa [h] using hdots
  · simpa [h] using PagedList.trimToFit_fits fits word h

/-- No line is opened by a word too wide for it, when the words from the first that fits on are packed
greedily. -/
def NoWideOpener (fits : Text → Bool) (words : List Text) : Prop :=
  ∀ group ∈ pack (FitsOn fits) (fromFitting fits words), ∀ w ∈ group.head?, fits w = true

instance (fits : Text → Bool) (words : List Text) : Decidable (NoWideOpener fits words) :=
  inferInstanceAs (Decidable (∀ group ∈ pack (FitsOn fits) (fromFitting fits words),
    ∀ w ∈ group.head?, fits w = true))

/-- The first word of a line of words is a beginning of it. -/
theorem head_begins {group : List Text} {w : Text} (h : w ∈ group.head?) : w <+: joinSpace group := by
  cases group with
  | nil => cases h
  | cons v group =>
    obtain rfl : v = w := Option.some.inj h
    cases group with
    | nil => simp [joinSpace]
    | cons u group =>
      rw [joinSpace_cons_cons]
      exact List.prefix_append _ _

/-- Greedy lines fit when the words that open them do. -/
theorem fits_pack_iff {fits : Text → Bool}
    (hmono : ∀ p s : Text, p <+: s → fits s = true → fits p = true) (words : List Text) :
    (∀ group ∈ pack (FitsOn fits) words, fits (joinSpace group) = true) ↔
      ∀ group ∈ pack (FitsOn fits) words, ∀ w ∈ group.head?, fits w = true := by
  constructor
  · intro h group hgroup w hw
    exact hmono w _ (head_begins hw) (h group hgroup)
  · have hopen : ∀ group ∈ pack (FitsOn fits) words,
        (∀ w ∈ group.head?, fits w = true) → fits (joinSpace group) = true := by
      apply pack_forall
      · intro w _ hw
        simpa [joinSpace] using hw w rfl
      · exact fun _ _ hfit _ => hfit
    exact fun h group hgroup => hopen group hgroup (h group hgroup)

theorem wrapLoop_fits_iff {fits : Text → Bool}
    (hmono : ∀ p s : Text, p <+: s → fits s = true → fits p = true) (hdots : fits "...".toList = true)
    {words : List Text} (hwords : ∀ w ∈ words, IsWord w) :
    (∀ l ∈ wrapLoop fits words [], fits l = true) ↔ NoWideOpener fits words := by
  rw [wrapLoop_eq fits hwords, NoWideOpener, ← fits_pack_iff hmono]
  constructor
  · intro h group hgroup
    exact h _ (List.mem_append_right _ (List.mem_map_of_mem hgroup))
  · intro h l hl
    rcases List.mem_append.mp hl with hl | hl
    · obtain ⟨w, -, rfl⟩ := List.mem_map.mp hl
      exact fits_cutWord hdots w
    · obtain ⟨group, hgroup, rfl⟩ := List.mem_map.mp hl
      exact h group hgroup

/-- **Every line fits** exactly when no greedy line is opened by a word too wide for it. -/
theorem wrapText_fits_iff (ui : Ui) (text : Text) (maxWidth : ℤ) (font : Font)
    (hmono : ∀ p s : Text, p <+: s → (ui.getTextSize p font).1 ≤ (ui.getTextSize s font).1)
    (hdots : (ui.getTextSize "...".toList font).1 ≤ maxWidth) :
    (∀ l ∈ wrapText ui text maxWidth font, (ui.getTextSize l font).1 ≤ maxWidth) ↔
      NoWideOpener (fun s => (ui.getTextSize s font).1 ≤ maxWidth) (split text) := by
  have hfits : ∀ p s : Text, p <+: s → decide ((ui.getTextSize s font).1 ≤ maxWidth) = true →
      decide ((ui.getTextSize p font).1 ≤ maxWidth) = true := by
    intro p s hp hs
    rw [decide_eq_true_iff] at hs ⊢
    exact le_trans (hmono p s hp) hs
  have hloop := wrapLoop_fits_iff hfits (decide_eq_true hdots)
    (fun w hw => isWord_of_mem_split hw : ∀ w ∈ split text, IsWord w)
  unfold wrapText
  by_cases hnil : split text = []
  · simp only [hnil, if_true]
    constructor
    · intro _ group hgroup
      cases hgroup
    · intro _ l hl
      rw [List.mem_singleton.mp hl]
      exact le_trans (hmono [] _ List.nil_prefix) hdots
  · simp only [if_neg hnil]
    rw [← hloop]
    simp only [decide_eq_true_eq]

/-- It is enough that no word too wide for a line comes after one that fits. -/
theorem noWideOpener_of_pairwise {fits : Text → Bool} {words : List Text}
    (h : words.Pairwise fun v w => fits v = true → fits w = true) : NoWideOpener fits words := by
  have hall : ∀ w ∈ fromFitting fits words, fits w = true := by
    have hsub : (fromFitting fits words).Pairwise fun v w => fits v = true → fits w = true :=
      h.sublist (List.dropWhile_sublist _)
    have hhead := List.head?_dropWhile_not (fun w => !fits w) words
    unfold fromFitting at hsub ⊢
    cases hws : words.dropWhile (fun w => !fits w) with
    | nil => exact List.forall_mem_nil _
    | cons v ws =>
      rw [hws] at hsub hhead
      have hv : fits v = true := by simpa using hhead
      intro w hw
      rcases List.mem_cons.mp hw with rfl | hw
      · exact hv
      · exact List.rel_of_pairwise_cons hsub hw hv
  intro group hgroup w hw
  exact hall w (mem_of_mem_pack hgroup (List.mem_of_mem_head? hw))

/-- Where dropping the first characters does not widen a text either, it is also necessary. -/
theorem noWideOpener_iff_pairwise {fits : Text → Bool}
    (hmono : ∀ p s : Text, p <:+: s → fits s = true → fits p = true) (words : List Text) :
    NoWideOpener fits words ↔ words.Pairwise fun v w => fits v = true → fits w = true := by
  refine ⟨fun h => ?_, noWideOpener_of_pairwise⟩
  have hlines := (fits_pack_iff (fun p s hp => hmono p s hp.isInfix) (fromFitting fits words)).mpr h
  have hall : ∀ w ∈ fromFitting fits words, fits w = true := by
    intro w hw
    rw [← flatten_pack (FitsOn fits) (fromFitting fits words)] at hw
    obtain ⟨group, hgroup, hw⟩ := List.mem_flatten.mp hw
    obtain ⟨left, right, rfl⟩ := List.append_of_mem hw
    apply hmono w _ _ (hlines _ hgroup)
    have hinfix := joinSpace_inside left right (List.cons_ne_nil w [])
    simpa [joinSpace] using hinfix
  rw [← List.takeWhile_append_dropWhile (p := fun w => !fits w) (l := words), List.pairwise_append]
  refine ⟨?_, ?_, ?_⟩
  · apply List.pairwise_of_forall_mem_list
    intro v hv w _ hfit
    have hwide := List.mem_takeWhile_imp hv
    simp [hfit] at hwide
  · apply List.pairwise_of_forall_mem_list
    exact fun v _ w hw _ => hall w hw
  · exact fun v _ w hw _ => hall w hw

/-- In a fixed-pitch font a text gets no wider by dropping its last characters. -/
theorem plain_mono (font : Font) (p s : Text) (h : p <+: s) :
    (Ui.plain.getTextSize p font).1 ≤ (Ui.plain.getTextSize s font).1 := by
  have hlen := h.length_le
  show (10 * p.length : ℤ) ≤ 10 * s.length
  omega

/-- Lines of ten characters: the long word comes first, and is cut. -/
theorem wrapText_fits_plain :
    (∀ p s : Text, p <+: s → (Ui.plain.getTextSize p .n).1 ≤ (Ui.plain.getTextSize s .n).1) ∧
    (Ui.plain.getTextSize "...".toList .n).1 ≤ 100 ∧
    ∀ l ∈ wrapText Ui.plain "abcdefghijkl mn".toList 100 .n, (Ui.plain.getTextSize l .n).1 ≤ 100 := by
  have hdots : (Ui.plain.getTextSize "...".toList .n).1 ≤ 100 := by decide
  have hiff := wrapText_fits_iff Ui.plain "abcdefghijkl mn".toList 100 .n (plain_mono .n) hdots
  exact ⟨plain_mono .n, hdots, hiff.mpr (by decide +kernel)⟩

/-- The long word comes second, and is a line as it is. -/
theorem wrapText_fits_not :
    (∀ p s : Text, p <+: s → (Ui.plain.getTextSize p .n).1 ≤ (Ui.plain.getTextSize s .n).1) ∧
    (Ui.plain.getTextSize "...".toList .n).1 ≤ 100 ∧
    ¬ ∀ l ∈ wrapText Ui.plain "mn abcdefghijkl".toList 100 .n, (Ui.plain.getTextSize l .n).1 ≤ 100 :=
  ⟨plain_mono .n, by decide, by decide +kernel⟩

end Messages

end NeoDCT
