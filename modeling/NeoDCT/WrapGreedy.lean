import NeoDCT.Wrap
import NeoDCT.Lib.Greedy

/-!
# Wrapping is greedy packing

Where every word fits on a line of its own, `_wrap_text` packs the words of a paragraph greedily into
lines; if a line never gets wider by dropping words from its ends, that is optimal:

    the lines of a paragraph are as few as can hold its words, and one if it has none   (wrapText_least)
-/

namespace NeoDCT

open PyText Greedy

/-! ## Words and lines -/

/-- The words of a paragraph: `raw.split(" ")` without the empty strings. -/
def wordsOf (raw : Text) : List Text := (splitSpace raw).filter (· ≠ [])

theorem wordsOf_ne_nil {raw w : Text} (h : w ∈ wordsOf raw) : w ≠ [] := by
  simpa using (List.mem_filter.mp h).2

theorem wordsOf_no_space {raw w : Text} (h : w ∈ wordsOf raw) : ' ' ∉ w := by
  intro hspace
  have hw := (List.mem_filter.mp h).1
  unfold splitSpace at hw
  rw [List.splitOn_eq_splitOnP] at hw
  simpa using splitOnP_no_sep (· == ' ') raw w hw ' ' hspace

/-- Words that fit on a line together, when `fits` says what fits. -/
def FitsOn (fits : Text → Bool) (group : List Text) : Prop := fits (joinSpace group) = true

instance (fits : Text → Bool) : DecidablePred (FitsOn fits) := fun group =>
  inferInstanceAs (Decidable (fits (joinSpace group) = true))

section
variable {W : Type} [LinearOrder W] (textW : Text → W) (maxW : W)

/-- Words that fit on a line together. -/
def FitsLine (group : List Text) : Prop := textW (joinSpace group) ≤ maxW

instance : DecidablePred (FitsLine textW maxW) := fun group =>
  inferInstanceAs (Decidable (textW (joinSpace group) ≤ maxW))

/-- The lines of one paragraph. -/
def wrapParagraph (raw : Text) : List Text := wrapWords textW maxW (splitSpace raw) []

/-- The empty strings between two spaces are passed over. -/
theorem wrapWords_filter (ws : List Text) (cur : Text) :
    wrapWords textW maxW ws cur = wrapWords textW maxW (ws.filter (· ≠ [])) cur := by
  induction ws generalizing cur with
  | nil => rfl
  | cons w ws ih =>
    by_cases hw : w = []
    · rw [wrapWords, if_pos hw, ih, List.filter_cons_of_neg (by simpa using hw)]
    · rw [List.filter_cons_of_pos (by simpa using hw), wrapWords, wrapWords, if_neg hw, if_neg hw]
      simp only [ih]

theorem wrapParagraph_eq (raw : Text) :
    wrapParagraph textW maxW raw = wrapWords textW maxW (wordsOf raw) [] :=
  wrapWords_filter textW maxW (splitSpace raw) []

theorem addWord_joinSpace {group : List Text} (h : ∀ w ∈ group, w ≠ []) (w : Text) :
    addWord (joinSpace group) w = joinSpace (group ++ [w]) := by
  unfold addWord
  cases group with
  | nil => simp [joinSpace]
  | cons v group =>
    rw [if_neg (joinSpace_ne_nil (List.cons_ne_nil v group) h), joinSpace_snoc (List.cons_ne_nil v group),
      List.append_assoc, List.singleton_append]

/-- From a line that holds a group of words, the wrapper packs greedily. -/
theorem wrapWords_packFrom {ws : List Text} (hws : ∀ w ∈ ws, w ≠ [] ∧ textW w ≤ maxW)
    {group : List Text} (hne : group ≠ []) (hgroup : ∀ w ∈ group, w ≠ []) :
    wrapWords textW maxW ws (joinSpace group) =
      (packFrom (FitsLine textW maxW) group ws).map joinSpace := by
  induction ws generalizing group with
  | nil => rfl
  | cons w ws ih =>
    obtain ⟨hw, hfit⟩ := hws w List.mem_cons_self
    have hrest : ∀ v ∈ ws, v ≠ [] ∧ textW v ≤ maxW := fun v hv => hws v (List.mem_cons_of_mem w hv)
    have hone : ∀ v ∈ [w], v ≠ [] := List.forall_mem_singleton.mpr hw
    have hsnoc : ∀ v ∈ group ++ [w], v ≠ [] := List.forall_mem_append.mpr ⟨hgroup, hone⟩
    rw [wrapWords, if_neg hw, if_neg (not_lt.mpr hfit), packFrom]
    simp only [addWord_joinSpace hgroup]
    by_cases hcand : textW (joinSpace (group ++ [w])) ≤ maxW
    · have hline : FitsLine textW maxW (group ++ [w]) := hcand
      rw [if_pos hcand, if_pos hline]
      exact ih hrest (by simp) hsnoc
    · have hline : ¬ FitsLine textW maxW (group ++ [w]) := hcand
      rw [if_neg hcand, if_neg hline, if_pos (joinSpace_ne_nil hne hgroup), List.map_cons,
        List.singleton_append]
      have hnext := ih hrest (List.cons_ne_nil w []) hone
      exact congrArg (joinSpace group :: ·) (by simpa [joinSpace] using hnext)

/-- The lines of a paragraph whose words all fit. -/
theorem wrapParagraph_pack {raw : Text} (hws : ∀ w ∈ wordsOf raw, textW w ≤ maxW)
    (hne : wordsOf raw ≠ []) :
    wrapParagraph textW maxW raw = (pack (FitsLine textW maxW) (wordsOf raw)).map joinSpace := by
  rw [wrapParagraph_eq]
  obtain ⟨w, ws, hraw⟩ := List.exists_cons_of_ne_nil hne
  have hall : ∀ v ∈ w :: ws, v ≠ [] ∧ textW v ≤ maxW := by
    rw [← hraw]
    exact fun v hv => ⟨wordsOf_ne_nil hv, hws v hv⟩
  obtain ⟨hw, hfit⟩ := hall w List.mem_cons_self
  have hone : ∀ v ∈ [w], v ≠ [] := List.forall_mem_singleton.mpr hw
  have hpack := wrapWords_packFrom textW maxW (fun v hv => hall v (List.mem_cons_of_mem w hv))
    (List.cons_ne_nil w []) hone
  rw [hraw, pack, ← hpack, wrapWords, if_neg hw, if_neg (not_lt.mpr hfit)]
  simp [addWord, joinSpace, hfit]

theorem wrapParagraph_empty {raw : Text} (h : wordsOf raw = []) : wrapParagraph textW maxW raw = [[]] := by
  rw [wrapParagraph_eq, h]
  rfl

/-! ## Fewest lines -/

/-- A line gets no wider when words are dropped from its ends. -/
def DropsNarrow : Prop :=
  ∀ left group right : List Text, (∀ w ∈ left ++ group ++ right, w ≠ [] ∧ ' ' ∉ w) → group ≠ [] →
    textW (joinSpace group) ≤ textW (joinSpace (left ++ group ++ right))

variable {textW}

theorem hereditary_fitsLine (hdrop : DropsNarrow textW) {ws : List Text}
    (hws : ∀ w ∈ ws, w ≠ [] ∧ ' ' ∉ w) : Hereditary (FitsLine textW maxW) ws := by
  rintro _ part hg ⟨left, right, rfl⟩ hne hfit
  exact le_trans (hdrop left part right (fun w hw => hws w (hg.subset hw)) hne) hfit

/-- **Wrapping is optimal.**  Each paragraph with words has the least number of lines that any cut of
its words into lines that fit has, and its lines are such a cut. -/
theorem wrapText_least (text : Text) (hdrop : DropsNarrow textW)
    (hwords : ∀ raw ∈ paragraphs text, ∀ w ∈ wordsOf raw, textW w ≤ maxW) :
    TextInputLong.wrapText textW maxW text = (paragraphs text).flatMap (wrapParagraph textW maxW) ∧
    ∀ raw ∈ paragraphs text,
      (wordsOf raw = [] → wrapParagraph textW maxW raw = [[]]) ∧
      (wordsOf raw ≠ [] →
        (∃ groups, IsCut (FitsLine textW maxW) (wordsOf raw) groups ∧
          wrapParagraph textW maxW raw = groups.map joinSpace) ∧
        IsLeast {n | ∃ groups, IsCut (FitsLine textW maxW) (wordsOf raw) groups ∧ groups.length = n}
          (wrapParagraph textW maxW raw).length) := by
  refine ⟨wrapText_eq_wrapLines textW maxW text, fun raw hraw => ?_⟩
  refine ⟨wrapParagraph_empty textW maxW, fun hne => ?_⟩
  have hone : ∀ w ∈ wordsOf raw, FitsLine textW maxW [w] := by
    intro w hw
    have hfit := hwords raw hraw w hw
    simpa [FitsLine, joinSpace] using hfit
  have hher : Hereditary (FitsLine textW maxW) (wordsOf raw) :=
    hereditary_fitsLine maxW hdrop fun w hw => ⟨wordsOf_ne_nil hw, wordsOf_no_space hw⟩
  rw [wrapParagraph_pack textW maxW (hwords raw hraw) hne, List.length_map]
  exact ⟨⟨_, isCut_pack hone, rfl⟩, isLeast_pack hone hher⟩

end

/-- With one pixel a character, words are no wider than the line they are dropped from. -/
theorem dropsNarrow_length : DropsNarrow fun s => (s.length : ℤ) := by
  intro left group right _ hne
  exact Int.ofNat_le.mpr (joinSpace_inside left right hne).length_le

/-- Three words on lines of five characters, a blank paragraph, and one more word. -/
theorem wrapText_least_abc :
    DropsNarrow (fun s => (s.length : ℤ)) ∧
    (∀ raw ∈ paragraphs "ab cd efg\n \nh".toList, ∀ w ∈ wordsOf raw, (w.length : ℤ) ≤ 5) ∧
    wrapParagraph (fun s => (s.length : ℤ)) 5 " ".toList = [[]] ∧
    IsLeast {n | ∃ groups, IsCut (FitsLine (fun s => (s.length : ℤ)) 5) (wordsOf "ab cd efg".toList)
      groups ∧ groups.length = n} 2 := by
  have hwords : ∀ raw ∈ paragraphs "ab cd efg\n \nh".toList, ∀ w ∈ wordsOf raw,
      (w.length : ℤ) ≤ 5 := by decide
  obtain ⟨-, hleast⟩ := wrapText_least (5 : ℤ) "ab cd efg\n \nh".toList dropsNarrow_length hwords
  obtain ⟨hblank, -⟩ := hleast " ".toList (by decide)
  obtain ⟨-, hwide⟩ := hleast "ab cd efg".toList (by decide)
  exact ⟨dropsNarrow_length, hwords, hblank (by decide), (hwide (by decide)).2⟩

end NeoDCT
