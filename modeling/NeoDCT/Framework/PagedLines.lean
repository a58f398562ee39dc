import NeoDCT.Framework.Selection
import NeoDCT.WrapGreedy

/-!
# The lines of a PagedList

`PagedList._wrap_to_lines` gives at least one line and at most `max_lines`, and each fits
(`wrapToLines_room`).  Where it cuts the text it marks a line with `...`, but for one place: a word too
wide for a line is cut without a mark when it is the last one.

    no silent cut  ↔  not (the last word is cut, on a line of its own, below unmarked lines)
                                                                      (wrapToLines_marked_iff)
-/

namespace NeoDCT

open PyText Greedy

namespace PagedList

/-! ## The loop -/

/-- `(trimmed + "...") if trimmed else "..."`. -/
def markLine (fits : Text → Bool) (last : Text) : Text :=
  let trimmed := trimToFit fits last
  if trimmed ≠ [] then trimmed ++ "...".toList else "...".toList

theorem dots_suffix_markLine (fits : Text → Bool) (last : Text) :
    "...".toList <:+ markLine fits last := by
  unfold markLine
  simp only []
  split
  · exact List.suffix_append _ _
  · exact List.suffix_rfl

theorem markLine_or (fits : Text → Bool) (last : Text) :
    markLine fits last = "...".toList ∨ fits (markLine fits last) = true := by
  unfold markLine
  simp only []
  split
  · next h => exact Or.inr (trimToFit_fits fits last h)
  · exact Or.inl rfl

/-- The line of a word that is too wide for one; `ws` are the words after it. -/
def cutLine (fits : Text → Bool) (w : Text) (ws : List Text) : Text :=
  let trimmed := trimToFit fits w
  if trimmed ≠ [] then (if ws ≠ [] then trimmed ++ "...".toList else trimmed) else "...".toList

theorem cutLine_of_ne_nil (fits : Text → Bool) (w : Text) {ws : List Text} (h : ws ≠ []) :
    cutLine fits w ws = markLine fits w := by
  simp [cutLine, markLine, h]

/-- The current line with one more word. -/
def candidate (cur w : Text) : Text := if cur ≠ [] then strip (cur ++ [' '] ++ w) else w

theorem wrapLoop_cons (fits : Text → Bool) {maxLines : Nat} (w : Text) (ws : List Text)
    {lines : List Text} (cur : Text) (hroom : lines.length < maxLines) :
    wrapLoop fits maxLines (w :: ws) lines cur =
      if fits (candidate cur w) then wrapLoop fits maxLines ws lines (candidate cur w)
      else if cur ≠ [] then wrapLoop fits maxLines (w :: ws) (lines ++ [cur]) []
      else wrapLoop fits maxLines ws (lines ++ [cutLine fits w ws]) cur := by
  rw [wrapLoop, if_pos hroom]
  rfl

theorem wrapLoop_full (fits : Text → Bool) {maxLines : Nat} (words : List Text) {lines : List Text}
    (cur : Text) (hfull : ¬ lines.length < maxLines) :
    wrapLoop fits maxLines words lines cur = (words, lines, cur) := by
  cases words with
  | nil => rw [wrapLoop]
  | cons w ws => rw [wrapLoop, if_neg hfull]

theorem candidate_ne_nil (cur : Text) {w : Text} (hw : IsWord w) : candidate cur w ≠ [] := by
  unfold candidate
  split
  · intro hnil
    have hset : SetOff w (strip (cur ++ ' ' :: w)) :=
      (SetOff.space_append cur w).strip hw.1 (fun c hc => hw.2 c (List.mem_of_mem_head? hc))
        fun c hc => hw.2 c (List.mem_of_getLast? hc)
    rw [List.append_assoc, List.singleton_append] at hnil
    rw [hnil] at hset
    exact hw.1 (List.infix_nil.mp hset.infix)
  · exact hw.1

/-- What the loop keeps: the lines fit and are no more than `max_lines`, and nothing is lost entirely. -/
structure Wrapping (fits : Text → Bool) (maxLines : Nat) (words lines : List Text) (cur : Text) :
    Prop where
  linesFit : ∀ l ∈ lines, fits l = true
  curFits : cur ≠ [] → fits cur = true
  room : lines.length ≤ maxLines
  kept : words ≠ [] ∨ lines ≠ [] ∨ cur ≠ []

theorem fits_cutLine {fits : Text → Bool} (hmono : ∀ p s : Text, p <+: s → fits s = true → fits p = true)
    (hdots : fits "...".toList = true) (w : Text) (ws : List Text) : fits (cutLine fits w ws) = true := by
  unfold cutLine
  by_cases h : trimToFit fits w = []
  · simpa [h] using hdots
  · have hfit := trimToFit_fits fits w h
    simp only [ne_eq, h, not_false_eq_true, if_true]
    split
    · exact hfit
    · exact hmono _ _ (List.prefix_append _ _) hfit

theorem Wrapping.add_line {fits : Text → Bool} {maxLines : Nat} {words lines : List Text} {cur : Text}
    (h : Wrapping fits maxLines words lines cur) (hroom : lines.length < maxLines) {line : Text}
    (hline : fits line = true) (words' : List Text) :
    Wrapping fits maxLines words' (lines ++ [line]) [] := by
  constructor
  · exact List.forall_mem_append.mpr ⟨h.linesFit, List.forall_mem_singleton.mpr hline⟩
  · exact fun hne => absurd rfl hne
  · rw [List.length_append]
    exact hroom
  · exact Or.inr (Or.inl (by simp))

theorem wrapLoop_wrapping {fits : Text → Bool}
    (hmono : ∀ p s : Text, p <+: s → fits s = true → fits p = true) (hdots : fits "...".toList = true)
    (maxLines : Nat) (words lines : List Text) (cur : Text) (hwords : ∀ w ∈ words, IsWord w)
    (h : Wrapping fits maxLines words lines cur) :
    let r := wrapLoop fits maxLines words lines cur
    Wrapping fits maxLines r.1 r.2.1 r.2.2 := by
  fun_induction wrapLoop fits maxLines words lines cur with
  | case1 => exact h
  | case2 lines cur w ws hroom cand hfit ih =>
    apply ih fun v hv => hwords v (List.mem_cons_of_mem w hv)
    have hne : cand ≠ [] := candidate_ne_nil cur (hwords w List.mem_cons_self)
    exact ⟨h.linesFit, fun _ => hfit, h.room, Or.inr (Or.inr hne)⟩
  | case3 lines cur w ws hroom cand hfit hcur ih =>
    exact ih hwords (h.add_line hroom (h.curFits hcur) _)
  | case4 lines cur w ws hroom cand hfit hcur trimmed line ih =>
    apply ih fun v hv => hwords v (List.mem_cons_of_mem w hv)
    rw [not_not.mp hcur]
    exact h.add_line hroom (fits_cutLine hmono hdots w ws) _
  | case5 => exact h

/-! ## After the loop -/

/-- What `_wrap_to_lines` does after its loop, with the words `left`. -/
def closeLines (fits : Text → Bool) (maxLines : Nat) (left lines : List Text) (cur : Text) :
    Except PyError (List Text) :=
  let lines := if lines.length < maxLines ∧ cur ≠ [] then lines ++ [cur] else lines
  if left = [] then .ok (lines.take maxLines)
  else
    match lines.getLast? with
    | none => .error .indexError
    | some last =>
      if "...".toList <:+ last then .ok lines
      else
        let trimmed := trimToFit fits last
        let last := if trimmed ≠ [] then trimmed ++ "...".toList else "...".toList
        .ok ((lines.dropLast ++ [last]).take maxLines)

/-- The lines of some words. -/
def linesOf (fits : Text → Bool) (maxLines : Nat) (words : List Text) : Except PyError (List Text) :=
  let r := wrapLoop fits maxLines words [] []
  closeLines fits maxLines r.1 r.2.1 r.2.2

theorem wrapToLines_eq (fits : Text → Bool) {text : Text} (maxLines : Nat) (h : split text ≠ []) :
    wrapToLines fits text maxLines = linesOf fits maxLines (split text) := by
  unfold wrapToLines
  rw [if_neg h]
  rfl

/-- All words are shown: the current line is the last. -/
theorem closeLines_nil (fits : Text → Bool) {maxLines : Nat} {lines : List Text} (cur : Text)
    (hroom : lines.length ≤ maxLines) : closeLines fits maxLines [] lines cur =
      .ok (if lines.length < maxLines ∧ cur ≠ [] then lines ++ [cur] else lines) := by
  unfold closeLines
  simp only [if_true]
  rw [List.take_of_length_le]
  split
  · next h =>
    rw [List.length_append]
    exact h.1
  · exact hroom

/-- Words are left: the last line is marked. -/
theorem closeLines_left (fits : Text → Bool) {maxLines : Nat} {left lines : List Text} (cur : Text)
    (hleft : left ≠ []) (hmax : 0 < maxLines) (hfull : lines.length = maxLines) :
    ∃ front last, closeLines fits maxLines left lines cur = .ok (front ++ [last]) ∧
      front = lines.dropLast ∧ "...".toList <:+ last ∧
      (last ∈ lines ∨ last = "...".toList ∨ fits last = true) := by
  have hne : lines ≠ [] := by
    intro hnil
    rw [hnil] at hfull
    exact absurd hfull.symm hmax.ne'
  obtain ⟨front, last, rfl⟩ := (List.eq_nil_or_concat' lines).resolve_left hne
  have hroom : ¬ ((front ++ [last]).length < maxLines ∧ cur ≠ []) := fun h => by omega
  unfold closeLines
  simp only [if_neg hroom, if_neg hleft, List.getLast?_concat, List.dropLast_concat]
  by_cases hmark : "...".toList <:+ last
  · rw [if_pos hmark]
    exact ⟨front, last, rfl, rfl, hmark, Or.inl (by simp)⟩
  · rw [if_neg hmark]
    refine ⟨front, markLine fits last, ?_, rfl, dots_suffix_markLine fits last, ?_⟩
    · rw [List.take_of_length_le]
      · rfl
      · rw [List.length_append] at hfull ⊢
        exact hfull.le
    · exact Or.inr (markLine_or fits last)

/-- What the loop keeps is enough to close with. -/
theorem Wrapping.close {fits : Text → Bool} {maxLines : Nat} {left lines : List Text} {cur : Text}
    (h : Wrapping fits maxLines left lines cur) (hmax : 1 ≤ maxLines) (hdots : fits "...".toList = true)
    (hleft : left ≠ [] → maxLines ≤ lines.length) :
    ∃ shown, closeLines fits maxLines left lines cur = .ok shown ∧
      1 ≤ shown.length ∧ shown.length ≤ maxLines ∧ ∀ l ∈ shown, fits l = true := by
  by_cases hnil : left = []
  · subst hnil
    refine ⟨_, closeLines_nil _ cur h.room, ?_⟩
    split
    · next hcur =>
      rw [List.length_append]
      refine ⟨Nat.le_add_left 1 _, hcur.1, fun l hl => ?_⟩
      rcases List.mem_append.mp hl with hl | hl
      · exact h.linesFit l hl
      · rw [List.mem_singleton.mp hl]
        exact h.curFits hcur.2
    · next hcur =>
      have hne : lines ≠ [] := by
        intro hlnil
        rcases h.kept with hk | hk | hk
        · exact hk rfl
        · exact hk hlnil
        · exact hcur ⟨by rw [hlnil]; exact hmax, hk⟩
      exact ⟨List.length_pos_of_ne_nil hne, h.room, h.linesFit⟩
  · have hfull := le_antisymm h.room (hleft hnil)
    obtain ⟨front, last, heq, rfl, -, hlast⟩ := closeLines_left fits cur hnil hmax hfull
    refine ⟨_, heq, by simp, ?_, ?_⟩
    · rw [List.length_append, List.length_dropLast, hfull, List.length_singleton]
      omega
    · intro l hl
      rcases List.mem_append.mp hl with hl | hl
      · exact h.linesFit l (List.mem_of_mem_dropLast hl)
      · rw [List.mem_singleton.mp hl]
        rcases hlast with hmem | rfl | hfit
        · exact h.linesFit last hmem
        · exact hdots
        · exact hfit

/-- **The lines of an item.**  There is at least one and there are at most `max_lines`, and each fits. -/
theorem wrapToLines_room {W : Type} [LinearOrder W] (textW : Text → W) (maxW : W) (text : Text)
    {maxLines : Nat} (hmax : 1 ≤ maxLines) (hmono : ∀ p s : Text, p <+: s → textW p ≤ textW s)
    (hdots : textW "...".toList ≤ maxW) :
    ∃ lines, wrapToLines (fun s => textW s ≤ maxW) text maxLines = .ok lines ∧
      1 ≤ lines.length ∧ lines.length ≤ maxLines ∧ ∀ l ∈ lines, textW l ≤ maxW := by
  by_cases hwords : split text = []
  · refine ⟨[[]], ?_, le_rfl, hmax, ?_⟩
    · unfold wrapToLines
      rw [if_pos hwords]
    · intro l hl
      rw [List.mem_singleton.mp hl]
      exact le_trans (hmono [] _ List.nil_prefix) hdots
  have hfits : ∀ p s : Text, p <+: s → decide (textW s ≤ maxW) = true →
      decide (textW p ≤ maxW) = true := by
    intro p s hp hs
    rw [decide_eq_true_iff] at hs ⊢
    exact le_trans (hmono p s hp) hs
  have hinv := wrapLoop_wrapping hfits (decide_eq_true hdots) maxLines (split text) [] []
    (fun w hw => isWord_of_mem_split hw)
    ⟨List.forall_mem_nil _, fun hne => absurd rfl hne, Nat.zero_le _, Or.inl hwords⟩
  have hleft := wrapLoop_left (fun s => textW s ≤ maxW) maxLines (split text) [] []
  obtain ⟨lines, hclose, hpos, hlen, hall⟩ := hinv.close hmax (decide_eq_true hdots) hleft
  refine ⟨lines, ?_, hpos, hlen, fun l hl => of_decide_eq_true (hall l hl)⟩
  rw [wrapToLines_eq _ maxLines hwords, linesOf]
  exact hclose

/-- Three words too wide for lines of six characters: the last line is marked. -/
theorem wrapToLines_room_abc :
    (∀ p s : Text, p <+: s → (p.length : ℤ) ≤ s.length) ∧ ("...".toList.length : ℤ) ≤ 6 ∧
    ∃ lines, wrapToLines (fun s => (s.length : ℤ) ≤ 6) "ab cdefghij kl mn".toList 2 = .ok lines ∧
      1 ≤ lines.length ∧ lines.length ≤ 2 ∧ ∀ l ∈ lines, (l.length : ℤ) ≤ 6 := by
  have hmono : ∀ p s : Text, p <+: s → (p.length : ℤ) ≤ s.length := fun p s h =>
    Int.ofNat_le.mpr h.length_le
  exact ⟨hmono, by decide, wrapToLines_room (fun s => (s.length : ℤ)) 6 _ (by decide) hmono (by decide)⟩

/-! ## Marks -/

/-- A line that says it was cut. -/
def Marked (l : Text) : Prop := "...".toList <:+ l

instance : DecidablePred Marked := fun l => inferInstanceAs (Decidable ("...".toList <:+ l))

/-- The loop only appends lines. -/
theorem wrapLoop_appends (fits : Text → Bool) (maxLines : Nat) (words lines : List Text) (cur : Text) :
    lines <+: (wrapLoop fits maxLines words lines cur).2.1 := by
  fun_induction wrapLoop fits maxLines words lines cur with
  | case1 => exact List.prefix_rfl
  | case2 _ _ _ _ _ _ _ ih => exact ih
  | case3 _ _ _ _ _ _ _ _ ih => exact (List.prefix_append _ _).trans ih
  | case4 _ _ _ _ _ _ _ _ _ _ ih => exact (List.prefix_append _ _).trans ih
  | case5 => exact List.prefix_rfl

theorem wrapLoop_length (fits : Text → Bool) {maxLines : Nat} (words lines : List Text) (cur : Text)
    (h : lines.length ≤ maxLines) : (wrapLoop fits maxLines words lines cur).2.1.length ≤ maxLines := by
  fun_induction wrapLoop fits maxLines words lines cur with
  | case1 => exact h
  | case2 _ _ _ _ _ _ _ ih => exact ih h
  | case3 _ _ _ _ hroom _ _ _ ih =>
    apply ih
    rw [List.length_append]
    exact hroom
  | case4 _ _ _ _ hroom _ _ _ _ _ ih =>
    apply ih
    rw [List.length_append]
    exact hroom
  | case5 => exact h

/-- The loop ends with words left, or with a marked line: the lines will be marked. -/
def WillMark (r : List Text × List Text × Text) : Prop := r.1 ≠ [] ∨ ∃ l ∈ r.2.1, Marked l

theorem linesOf_willMark (fits : Text → Bool) {maxLines : Nat} (hmax : 1 ≤ maxLines) {words : List Text}
    (h : WillMark (wrapLoop fits maxLines words [] [])) :
    ∃ lines, linesOf fits maxLines words = .ok lines ∧ ∃ l ∈ lines, Marked l := by
  have hroom := wrapLoop_length fits words [] [] (Nat.zero_le maxLines)
  have hfull := wrapLoop_left fits maxLines words [] []
  unfold linesOf
  generalize wrapLoop fits maxLines words [] [] = r at h hroom hfull ⊢
  obtain ⟨left, lines, cur⟩ := r
  by_cases hleft : left = []
  · subst hleft
    obtain ⟨l, hl, hmark⟩ := h.resolve_left (fun hne => hne rfl)
    refine ⟨_, closeLines_nil fits cur hroom, l, ?_, hmark⟩
    split
    · exact List.mem_append_left _ hl
    · exact hl
  · obtain ⟨front, last, heq, -, hmark, -⟩ :=
      closeLines_left fits cur hleft hmax (le_antisymm hroom (hfull hleft))
    exact ⟨_, heq, last, by simp, hmark⟩

/-- The lines when the loop ends without words left. -/
theorem linesOf_done {fits : Text → Bool} {maxLines : Nat} {words lines : List Text} {cur : Text}
    (h : wrapLoop fits maxLines words [] [] = ([], lines, cur)) (hroom : lines.length ≤ maxLines) :
    linesOf fits maxLines words =
      .ok (if lines.length < maxLines ∧ cur ≠ [] then lines ++ [cur] else lines) := by
  unfold linesOf
  rw [h]
  exact closeLines_nil fits cur hroom

/-! ## All words but the last -/

/-- The word that opens a line fits on it. -/
def Opened (fits : Text → Bool) (groups : List (List Text)) : Prop :=
  ∀ group ∈ groups, ∀ w ∈ group.head?, fits w = true

theorem forall_isWord_snoc {group : List Text} {w : Text} (hgroup : ∀ v ∈ group, IsWord v)
    (hw : IsWord w) : ∀ v ∈ group ++ [w], IsWord v :=
  List.forall_mem_append.mpr ⟨hgroup, List.forall_mem_singleton.mpr hw⟩

theorem candidate_joinSpace {group : List Text} {w : Text} (hgroup : ∀ v ∈ group, IsWord v)
    (hw : IsWord w) : candidate (joinSpace group) w = joinSpace (group ++ [w]) :=
  strip_candidate (forall_isWord_snoc hgroup hw)

theorem wrapLoop_extend (fits : Text → Bool) {maxLines : Nat} {w : Text} (hw : IsWord w) (ws : List Text)
    {lines group : List Text} (hgroup : ∀ v ∈ group, IsWord v) (hroom : lines.length < maxLines)
    (hfit : FitsOn fits (group ++ [w])) :
    wrapLoop fits maxLines (w :: ws) lines (joinSpace group) =
      wrapLoop fits maxLines ws lines (joinSpace (group ++ [w])) := by
  have hcand : fits (joinSpace (group ++ [w])) = true := hfit
  rw [wrapLoop_cons fits w ws _ hroom, candidate_joinSpace hgroup hw, if_pos hcand]

theorem wrapLoop_open (fits : Text → Bool) {maxLines : Nat} (w : Text) (ws : List Text)
    {lines : List Text} (hroom : lines.length < maxLines) :
    wrapLoop fits maxLines (w :: ws) lines [] =
      if fits w then wrapLoop fits maxLines ws lines (joinSpace [w])
      else wrapLoop fits maxLines ws (lines ++ [cutLine fits w ws]) [] := by
  have hone : joinSpace [w] = w := by simp [joinSpace]
  rw [wrapLoop_cons fits w ws _ hroom, hone]
  rfl

/-- The line is full, and the word comes again. -/
theorem wrapLoop_push (fits : Text → Bool) {maxLines : Nat} {w : Text} (hw : IsWord w) (ws : List Text)
    {lines group : List Text} (hne : group ≠ []) (hgroup : ∀ v ∈ group, IsWord v)
    (hroom : lines.length < maxLines) (hfit : ¬ FitsOn fits (group ++ [w])) :
    wrapLoop fits maxLines (w :: ws) lines (joinSpace group) =
      wrapLoop fits maxLines (w :: ws) (lines ++ [joinSpace group]) [] := by
  have hcand : ¬ fits (joinSpace (group ++ [w])) = true := hfit
  rw [wrapLoop_cons fits w ws _ hroom, candidate_joinSpace hgroup hw, if_neg hcand,
    if_pos (joinSpace_ne_nil hne fun v hv => (hgroup v hv).1)]

/-- While there is room and no word opens a line that is too narrow for it, the loop packs greedily. -/
theorem wrapLoop_packFrom (fits : Text → Bool) {maxLines : Nat} (rest : List Text) {init : List Text}
    (hinit : ∀ w ∈ init, IsWord w) {group : List Text} (hne : group ≠ [])
    (hgroup : ∀ w ∈ group, IsWord w) {lines : List Text} {full : List (List Text)} {last : List Text}
    (hpack : packFrom (FitsOn fits) group init = full ++ [last])
    (hopen : Opened fits (packFrom (FitsOn fits) group init))
    (hroom : lines.length + full.length < maxLines) :
    wrapLoop fits maxLines (init ++ rest) lines (joinSpace group) =
      wrapLoop fits maxLines rest (lines ++ full.map joinSpace) (joinSpace last) := by
  induction init generalizing group lines full with
  | nil =>
    have hone : [] ++ [group] = full ++ [last] := hpack
    obtain ⟨rfl, hlast⟩ := List.append_inj' hone rfl
    obtain rfl : group = last := by simpa using hlast
    simp
  | cons w init ih =>
    have hw := hinit w List.mem_cons_self
    have ih := @ih fun v hv => hinit v (List.mem_cons_of_mem w hv)
    have hlen : lines.length < maxLines := by omega
    rw [packFrom] at hpack hopen
    rw [List.cons_append]
    by_cases hfit : FitsOn fits (group ++ [w])
    · rw [if_pos hfit] at hpack hopen
      rw [wrapLoop_extend fits hw _ hgroup hlen hfit]
      exact ih (by simp) (forall_isWord_snoc hgroup hw) hpack hopen hroom
    · rw [if_neg hfit] at hpack hopen
      rw [wrapLoop_push fits hw _ hne hgroup hlen hfit]
      cases full with
      | nil => exact absurd (List.cons.inj hpack).2 (packFrom_ne_nil _ init [w])
      | cons g full =>
        obtain ⟨rfl, htail⟩ := List.cons.inj hpack
        have hopen' : Opened fits (packFrom (FitsOn fits) [w] init) :=
          fun g hg => hopen g (List.mem_cons_of_mem _ hg)
        have hwfit : fits w = true := by
          obtain ⟨taken, rest', -, heq⟩ := packFrom_split (FitsOn fits) init [w]
          rw [heq] at hopen'
          exact hopen' _ List.mem_cons_self w rfl
        rw [List.length_cons] at hroom
        have hlen' : (lines ++ [joinSpace group]).length + full.length < maxLines := by
          rw [List.length_append, List.length_singleton]
          omega
        rw [wrapLoop_open fits w _ (by omega), if_pos hwfit, ih (List.cons_ne_nil w [])
          (by simpa using hw) htail hopen' hlen', List.append_assoc]
        rfl

/-- A word that is cut while others follow it gives a marked line. -/
theorem willMark_cut (fits : Text → Bool) (maxLines : Nat) (w : Text) {ws : List Text} (hws : ws ≠ [])
    (lines : List Text) : WillMark (wrapLoop fits maxLines ws (lines ++ [cutLine fits w ws]) []) := by
  refine Or.inr ⟨cutLine fits w ws, ?_, ?_⟩
  · apply (wrapLoop_appends fits maxLines ws _ []).subset
    simp
  · rw [cutLine_of_ne_nil fits w hws]
    exact dots_suffix_markLine fits w

/-- Otherwise there are marks, if a word is to follow. -/
theorem wrapLoop_willMark (fits : Text → Bool) {maxLines : Nat} {rest : List Text} (hrest : rest ≠ [])
    {init : List Text} (hinit : ∀ w ∈ init, IsWord w) {group : List Text} (hne : group ≠ [])
    (hgroup : ∀ w ∈ group, IsWord w) (hhead : ∀ w ∈ group.head?, fits w = true) {lines : List Text}
    (hbad : ¬ (Opened fits (packFrom (FitsOn fits) group init) ∧
      lines.length + (packFrom (FitsOn fits) group init).length ≤ maxLines)) :
    WillMark (wrapLoop fits maxLines (init ++ rest) lines (joinSpace group)) := by
  have hleft : ∀ ws : List Text, ws ++ rest ≠ [] := fun ws => by simp [hrest]
  induction init generalizing group lines with
  | nil =>
    have hfull : ¬ lines.length < maxLines := by
      intro hlen
      apply hbad
      constructor
      · intro g hg
        rw [List.mem_singleton.mp hg]
        exact hhead
      · exact hlen
    rw [wrapLoop_full fits _ _ hfull]
    exact Or.inl (hleft [])
  | cons w init ih =>
    have hw := hinit w List.mem_cons_self
    have ih := @ih fun v hv => hinit v (List.mem_cons_of_mem w hv)
    by_cases hlen : lines.length < maxLines
    swap
    · rw [wrapLoop_full fits _ _ hlen]
      exact Or.inl (hleft _)
    rw [packFrom] at hbad
    rw [List.cons_append]
    by_cases hfit : FitsOn fits (group ++ [w])
    · rw [if_pos hfit] at hbad
      rw [wrapLoop_extend fits hw _ hgroup hlen hfit]
      refine ih (by simp) (forall_isWord_snoc hgroup hw) ?_ hbad
      rwa [List.head?_append_of_ne_nil _ hne]
    rw [if_neg hfit] at hbad
    rw [wrapLoop_push fits hw _ hne hgroup hlen hfit]
    by_cases hlen' : (lines ++ [joinSpace group]).length < maxLines
    swap
    · rw [wrapLoop_full fits _ _ hlen']
      exact Or.inl (List.cons_ne_nil w _)
    rw [wrapLoop_open fits w _ hlen']
    split
    · next hwfit =>
      refine ih (List.cons_ne_nil w []) (by simpa using hw) (by simpa using hwfit) ?_
      rintro ⟨hopen, hroom⟩
      apply hbad
      constructor
      · intro g hg
        rcases List.mem_cons.mp hg with rfl | hg
        · exact hhead
        · exact hopen g hg
      · rw [List.length_append, List.length_singleton] at hroom
        rw [List.length_cons]
        omega
    · exact willMark_cut fits maxLines w (hleft init) _

/-! ## The last word -/

/-- The loop comes to the last word with the others packed greedily. -/
theorem wrapLoop_init (fits : Text → Bool) {maxLines : Nat} (hmax : 1 ≤ maxLines) {init : List Text}
    (hinit : ∀ v ∈ init, IsWord v) (w : Text) (hopen : Opened fits (pack (FitsOn fits) init))
    (hroom : (pack (FitsOn fits) init).length ≤ maxLines) :
    wrapLoop fits maxLines (init ++ [w]) [] [] =
      wrapLoop fits maxLines [w] ((pack (FitsOn fits) init).dropLast.map joinSpace)
        (joinSpace ((pack (FitsOn fits) init).getLast?.getD [])) := by
  cases init with
  | nil => rfl
  | cons v init =>
    have hv : fits v = true := by
      obtain ⟨taken, rest, -, heq⟩ := packFrom_split (FitsOn fits) init [v]
      rw [pack, heq] at hopen
      exact hopen _ List.mem_cons_self v rfl
    obtain ⟨full, last, hpack⟩ :=
      (List.eq_nil_or_concat' _).resolve_left (packFrom_ne_nil (FitsOn fits) init [v])
    rw [pack] at hopen hroom ⊢
    rw [hpack, List.length_append, List.length_singleton] at hroom
    rw [List.cons_append, wrapLoop_open fits v _ hmax, if_pos hv,
      wrapLoop_packFrom fits [w] (fun u hu => hinit u (List.mem_cons_of_mem v hu))
        (List.cons_ne_nil v []) (by simpa using hinit v List.mem_cons_self) hpack hopen
        (by rw [List.length_nil]; omega), hpack]
    simp

theorem wrapLoop_init_willMark (fits : Text → Bool) {maxLines : Nat} (hmax : 1 ≤ maxLines)
    {init : List Text} (hinit : ∀ v ∈ init, IsWord v) (w : Text)
    (hbad : ¬ (Opened fits (pack (FitsOn fits) init) ∧ (pack (FitsOn fits) init).length ≤ maxLines)) :
    WillMark (wrapLoop fits maxLines (init ++ [w]) [] []) := by
  cases init with
  | nil => exact absurd ⟨List.forall_mem_nil _, Nat.zero_le _⟩ hbad
  | cons v init =>
    rw [List.cons_append, wrapLoop_open fits v _ hmax]
    split
    · next hv =>
      apply wrapLoop_willMark fits (List.cons_ne_nil w [])
        (fun u hu => hinit u (List.mem_cons_of_mem v hu)) (List.cons_ne_nil v [])
        (by simpa using hinit v List.mem_cons_self) (by simpa using hv)
      rwa [List.length_nil, Nat.zero_add]
    · exact willMark_cut fits maxLines v (by simp) []

/-- The lines show all the words, or one of them is marked. -/
def Shown (lines words : List Text) : Prop :=
  joinSpace lines = joinSpace words ∨ ∃ l ∈ lines, Marked l

/-- The last word `w` is cut without a mark: it is too wide for a line and finds one of its own, below
the other words, which fill lines that are not marked. -/
structure SilentCut (fits : Text → Bool) (maxLines : Nat) (init : List Text) (w : Text) : Prop where
  opened : Opened fits (pack (FitsOn fits) init)
  room : (pack (FitsOn fits) init).length < maxLines
  unmarked : ∀ group ∈ pack (FitsOn fits) init, ¬ Marked (joinSpace group)
  apart : ∀ group ∈ (pack (FitsOn fits) init).getLast?, ¬ FitsOn fits (group ++ [w])
  wide : fits w = false
  trimmed : trimToFit fits w ≠ [] ∧ trimToFit fits w ≠ w ∧ ¬ Marked (trimToFit fits w)

/-- The last word, when it does not go on the line before it. -/
theorem wrapLoop_apart (fits : Text → Bool) {maxLines : Nat} {groups : List (List Text)} {w : Text}
    (hgroups : ∀ g ∈ groups, g ≠ [] ∧ ∀ v ∈ g, IsWord v) (hw : IsWord w)
    (hroom : groups.length ≤ maxLines) (hapart : ∀ g ∈ groups.getLast?, ¬ FitsOn fits (g ++ [w])) :
    wrapLoop fits maxLines [w] (groups.dropLast.map joinSpace) (joinSpace (groups.getLast?.getD [])) =
      wrapLoop fits maxLines [w] (groups.map joinSpace) [] := by
  rcases List.eq_nil_or_concat' groups with rfl | ⟨full, last, rfl⟩
  · rfl
  · obtain ⟨hne, hlast⟩ := hgroups last (by simp)
    have hfit : ¬ FitsOn fits (last ++ [w]) := hapart last (by simp)
    rw [List.length_append, List.length_singleton] at hroom
    have hlen : (full.map joinSpace).length < maxLines := by
      rw [List.length_map]
      exact hroom
    simp only [List.dropLast_concat, List.getLast?_concat, Option.getD_some, List.map_append]
    exact wrapLoop_push fits hw [] hne hlast hlen hfit

theorem joinSpace_lines_snoc {groups : List (List Text)} (h : ∀ g ∈ groups, g ≠ []) (line : Text) :
    joinSpace (groups.map joinSpace ++ [line]) = joinSpace (groups.flatten ++ [line]) := by
  have hone : ∀ g ∈ [[line]], g ≠ [] := List.forall_mem_singleton.mpr (List.cons_ne_nil line [])
  have hall : ∀ g ∈ groups ++ [[line]], g ≠ [] := List.forall_mem_append.mpr ⟨h, hone⟩
  have hjoin := joinSpace_map_joinSpace hall
  rw [List.map_append, List.flatten_append] at hjoin
  simpa [joinSpace] using hjoin

theorem shown_snoc_iff {groups : List (List Text)} (h : ∀ g ∈ groups, g ≠ []) (line w : Text) :
    Shown (groups.map joinSpace ++ [line]) (groups.flatten ++ [w]) ↔
      (line = w ∨ Marked line) ∨ ∃ g ∈ groups, Marked (joinSpace g) := by
  unfold Shown
  rw [joinSpace_lines_snoc h, joinSpace_snoc_inj]
  simp only [List.mem_append, List.mem_map, List.mem_singleton, or_and_right, exists_or,
    exists_exists_and_eq_and, exists_eq_left]
  rw [or_comm (a := ∃ g ∈ groups, Marked (joinSpace g)), or_assoc]

/-- What becomes of a last word that is too wide for a line. -/
theorem cutLine_last (fits : Text → Bool) (w : Text) :
    (cutLine fits w [] = w ∨ Marked (cutLine fits w [])) ↔
      ¬ (trimToFit fits w ≠ [] ∧ trimToFit fits w ≠ w ∧ ¬ Marked (trimToFit fits w)) := by
  unfold cutLine
  by_cases h : trimToFit fits w = []
  · have hdots : Marked "...".toList := List.suffix_rfl
    simp only [h, ne_eq, not_true, if_false, false_and, not_false_eq_true, iff_true]
    exact Or.inr hdots
  · simp only [ne_eq, h, not_false_eq_true, if_true, not_true, if_false, true_and]
    rw [not_and_not_right]
    exact or_iff_not_imp_left

section
variable (fits : Text → Bool) {maxLines : Nat} {init : List Text} {w : Text}
  (hmax : 1 ≤ maxLines) (hinit : ∀ v ∈ init, IsWord v) (hw : IsWord w)
  (hopen : Opened fits (pack (FitsOn fits) init))

theorem pack_words (hinit : ∀ v ∈ init, IsWord v) :
    ∀ g ∈ pack (FitsOn fits) init, g ≠ [] ∧ ∀ v ∈ g, IsWord v := by
  intro g hg
  exact ⟨pack_ne_nil init g hg, fun v hv => hinit v (mem_of_mem_pack hg hv)⟩

include hmax hinit hw hopen

/-- The last word goes on the line before it. -/
theorem linesOf_joined {full : List (List Text)} {last : List Text}
    (hpack : pack (FitsOn fits) init = full ++ [last]) (hroom : full.length < maxLines)
    (hfit : FitsOn fits (last ++ [w])) :
    linesOf fits maxLines (init ++ [w]) = .ok ((full ++ [last ++ [w]]).map joinSpace) := by
  have hlast := (pack_words fits hinit last (by simp [hpack])).2
  have hlen : (full.map joinSpace).length < maxLines := by rwa [List.length_map]
  have hloop := wrapLoop_init fits hmax hinit w hopen (by rw [hpack, List.length_append]; exact hroom)
  simp only [hpack, List.dropLast_concat, List.getLast?_concat, Option.getD_some] at hloop
  rw [wrapLoop_extend fits hw [] hlast hlen hfit, wrapLoop] at hloop
  have hline : joinSpace (last ++ [w]) ≠ [] :=
    joinSpace_ne_nil (by simp) fun v hv => (forall_isWord_snoc hlast hw v hv).1
  rw [linesOf_done hloop hlen.le, if_pos ⟨hlen, hline⟩]
  simp

/-- The last word finds a line of its own. -/
theorem linesOf_apart (hroom : (pack (FitsOn fits) init).length < maxLines)
    (hapart : ∀ g ∈ (pack (FitsOn fits) init).getLast?, ¬ FitsOn fits (g ++ [w])) :
    linesOf fits maxLines (init ++ [w]) =
      .ok ((pack (FitsOn fits) init).map joinSpace ++ [if fits w then w else cutLine fits w []]) := by
  have hone : joinSpace [w] = w := by simp [joinSpace]
  have hlen : ((pack (FitsOn fits) init).map joinSpace).length < maxLines := by rwa [List.length_map]
  have hloop := wrapLoop_init fits hmax hinit w hopen hroom.le
  rw [wrapLoop_apart fits (pack_words fits hinit) hw hroom.le hapart, wrapLoop_open fits w [] hlen] at hloop
  by_cases hwide : fits w = true
  · rw [if_pos hwide, wrapLoop, hone] at hloop
    rw [linesOf_done hloop hlen.le, if_pos ⟨hlen, hw.1⟩, if_pos hwide]
  · rw [if_neg hwide, wrapLoop] at hloop
    rw [linesOf_done hloop (by rw [List.length_append]; exact hlen), if_neg (fun h => h.2 rfl),
      if_neg hwide]

/-- No line is left for the last word. -/
theorem willMark_full (hroom : (pack (FitsOn fits) init).length = maxLines)
    (hapart : ∀ g ∈ (pack (FitsOn fits) init).getLast?, ¬ FitsOn fits (g ++ [w])) :
    WillMark (wrapLoop fits maxLines (init ++ [w]) [] []) := by
  have hfull : ¬ ((pack (FitsOn fits) init).map joinSpace).length < maxLines := by
    rw [List.length_map]
    omega
  rw [wrapLoop_init fits hmax hinit w hopen hroom.le,
    wrapLoop_apart fits (pack_words fits hinit) hw hroom.le hapart, wrapLoop_full fits _ _ hfull]
  exact Or.inl (List.cons_ne_nil w [])

end

/-- The lines of some words and a last one. -/
theorem linesOf_shown_iff (fits : Text → Bool) {maxLines : Nat} (hmax : 1 ≤ maxLines)
    {init : List Text} (hinit : ∀ v ∈ init, IsWord v) {w : Text} (hw : IsWord w) :
    (∃ lines, linesOf fits maxLines (init ++ [w]) = .ok lines ∧ Shown lines (init ++ [w])) ↔
      ¬ SilentCut fits maxLines init w := by
  have hflat := flatten_pack (FitsOn fits) init
  have hne : ∀ g ∈ pack (FitsOn fits) init, g ≠ [] := pack_ne_nil init
  have hmarked : WillMark (wrapLoop fits maxLines (init ++ [w]) [] []) →
      ∃ lines, linesOf fits maxLines (init ++ [w]) = .ok lines ∧ Shown lines (init ++ [w]) := by
    intro hwill
    obtain ⟨lines, hok, hmark⟩ := linesOf_willMark fits hmax hwill
    exact ⟨lines, hok, Or.inr hmark⟩
  by_cases hgood : Opened fits (pack (FitsOn fits) init) ∧ (pack (FitsOn fits) init).length ≤ maxLines
  swap
  · exact iff_of_true (hmarked (wrapLoop_init_willMark fits hmax hinit w hgood))
      fun h => hgood ⟨h.opened, h.room.le⟩
  obtain ⟨hopen, hroom⟩ := hgood
  by_cases hapart : ∀ g ∈ (pack (FitsOn fits) init).getLast?, ¬ FitsOn fits (g ++ [w])
  swap
  · obtain ⟨last, hlast, hfit⟩ : ∃ g ∈ (pack (FitsOn fits) init).getLast?, FitsOn fits (g ++ [w]) := by
      simpa using hapart
    obtain ⟨full, hpack⟩ := List.getLast?_eq_some_iff.mp hlast
    rw [hpack, List.length_append] at hroom
    refine iff_of_true ⟨_, linesOf_joined fits hmax hinit hw hopen hpack hroom hfit, Or.inl ?_⟩
      fun h => hapart h.apart
    rw [joinSpace_map_joinSpace, ← hflat, hpack]
    · simp
    · intro g hg
      rcases List.mem_append.mp hg with hg | hg
      · exact hne g (by simp [hpack, hg])
      · rw [List.mem_singleton.mp hg]
        simp
  rcases hroom.eq_or_lt with hfull | hlt
  · exact iff_of_true (hmarked (willMark_full fits hmax hinit hw hopen hfull hapart))
      fun h => absurd h.room (by omega)
  have hlines := linesOf_apart fits hmax hinit hw hopen hlt hapart
  have hshown := shown_snoc_iff hne (if fits w then w else cutLine fits w []) w
  rw [hflat] at hshown
  have hex : (∃ lines, linesOf fits maxLines (init ++ [w]) = .ok lines ∧ Shown lines (init ++ [w])) ↔
      Shown ((pack (FitsOn fits) init).map joinSpace ++ [if fits w then w else cutLine fits w []])
        (init ++ [w]) := by
    rw [hlines]
    simp
  rw [hex, hshown]
  by_cases hwide : fits w = true
  · rw [if_pos hwide]
    refine iff_of_true (Or.inl (Or.inl rfl)) fun h => ?_
    rw [h.wide] at hwide
    cases hwide
  · rw [if_neg hwide, cutLine_last]
    constructor
    · rintro (hcut | ⟨g, hg, hmark⟩) h
      · exact hcut h.trimmed
      · exact h.unmarked g hg hmark
    · intro hnot
      by_contra hall
      rw [not_or, not_not] at hall
      exact hnot ⟨hopen, hlt, fun g hg hmark => hall.2 ⟨g, hg, hmark⟩, hapart,
        eq_false_of_ne_true hwide, hall.1⟩

/-- **When text is cut silently.**  The lines show all words, or one of them ends in `...`, except when
the last word is cut on a line of its own below lines without a mark. -/
theorem wrapToLines_marked_iff (fits : Text → Bool) (text : Text) {maxLines : Nat} (hmax : 1 ≤ maxLines) :
    (∃ lines, wrapToLines fits text maxLines = .ok lines ∧ Shown lines (split text)) ↔
      ¬ ∃ init w, split text = init ++ [w] ∧ SilentCut fits maxLines init w := by
  rcases List.eq_nil_or_concat' (split text) with hnil | ⟨init, w, hsplit⟩
  · refine iff_of_true ⟨[[]], ?_, Or.inl ?_⟩ ?_
    · unfold wrapToLines
      rw [if_pos hnil]
    · rw [hnil]
      rfl
    · rintro ⟨init, w, hsplit, -⟩
      rw [hnil] at hsplit
      exact absurd hsplit.symm (by simp)
  have hwords : ∀ v ∈ init ++ [w], IsWord v := by
    rw [← hsplit]
    exact fun v hv => isWord_of_mem_split hv
  have hlast : (∃ init' w', split text = init' ++ [w'] ∧ SilentCut fits maxLines init' w') ↔
      SilentCut fits maxLines init w := by
    rw [hsplit]
    constructor
    · rintro ⟨init', w', heq, h⟩
      obtain ⟨rfl, hw⟩ := List.append_inj' heq rfl
      obtain rfl : w = w' := by simpa using hw
      exact h
    · exact fun h => ⟨init, w, rfl, h⟩
  rw [hlast, wrapToLines_eq fits maxLines (by rw [hsplit]; simp), hsplit]
  exact linesOf_shown_iff fits hmax (fun v hv => hwords v (List.mem_append_left _ hv))
    (hwords w (by simp))

/-- A cut word and a word that fits, on lines of six characters. -/
theorem wrapToLines_marked_abc :
    1 ≤ 2 ∧ ∃ lines, wrapToLines (fun s => (s.length : ℤ) ≤ 6) "abcdefgh ij".toList 2 = .ok lines ∧
      Shown lines (split "abcdefgh ij".toList) := by
  refine ⟨by decide, (wrapToLines_marked_iff _ _ (by decide)).mpr ?_⟩
  rintro ⟨init, w, hsplit, h⟩
  have hlast : (split "abcdefgh ij".toList).getLast? = some "ij".toList := by decide
  rw [hsplit, List.getLast?_concat, Option.some.injEq] at hlast
  have hwide := h.wide
  rw [hlast] at hwide
  cases hwide

/-- `ab` and `abc` are all that is shown of `ab abcdefgh`. -/
theorem wrapToLines_marked_not :
    ¬ ∃ lines, wrapToLines (fun s => (s.length : ℤ) ≤ 6) "ab abcdefgh".toList 2 = .ok lines ∧
      Shown lines (split "ab abcdefgh".toList) := by
  have hsplit : split "ab abcdefgh".toList = ["ab".toList] ++ ["abcdefgh".toList] := by decide
  have hwords : ∀ w ∈ split "ab abcdefgh".toList, IsWord w := fun w hw => isWord_of_mem_split hw
  rw [hsplit] at hwords
  rw [wrapToLines_eq _ _ (by rw [hsplit]; simp), hsplit,
    linesOf_shown_iff _ (by decide) (fun v hv => hwords v (List.mem_append_left _ hv))
      (hwords _ (by simp)), not_not]
  exact ⟨by unfold Opened; decide, by decide, by decide, by decide, by decide, by decide⟩

end PagedList

end NeoDCT
