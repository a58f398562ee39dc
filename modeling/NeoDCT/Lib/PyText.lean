import Mathlib

/-!
# Python strings

A string is the list of its code points.  The methods are the ones of `str`, on all code points:
`splitlines`, `split()` and `split(" ")`, `strip`, `replace` for a one-character pattern.
-/

namespace PyText

abbrev Text := List Char

/-- A line boundary of `str.splitlines`. -/
def isLineBreak (c : Char) : Bool :=
  c.toNat ∈ [0x0A, 0x0B, 0x0C, 0x0D, 0x1C, 0x1D, 0x1E, 0x85, 0x2028, 0x2029]

/-- `str.isspace` of one character. -/
def isSpace (c : Char) : Bool :=
  c.toNat ∈ [0x09, 0x0A, 0x0B, 0x0C, 0x0D, 0x1C, 0x1D, 0x1E, 0x1F, 0x20, 0x85, 0xA0, 0x1680,
    0x2000, 0x2001, 0x2002, 0x2003, 0x2004, 0x2005, 0x2006, 0x2007, 0x2008, 0x2009, 0x200A,
    0x2028, 0x2029, 0x202F, 0x205F, 0x3000]

theorem not_isAlphanum_of_space {c : Char} (h : isSpace c = true) : c.isAlphanum = false := by
  unfold isSpace at h
  simp only [List.mem_cons, List.not_mem_nil, or_false, decide_eq_true_eq] at h
  rw [Bool.eq_false_iff]
  intro halnum
  simp only [Char.isAlphanum, Char.isAlpha, Char.isUpper, Char.isLower, Char.isDigit, ge_iff_le,
    Bool.or_eq_true, Bool.and_eq_true, decide_eq_true_eq, UInt32.le_iff_toNat_le] at halnum
  change (((65 ≤ c.toNat ∧ c.toNat ≤ 90) ∨ (97 ≤ c.toNat ∧ c.toNat ≤ 122)) ∨
    (48 ≤ c.toNat ∧ c.toNat ≤ 57)) at halnum
  omega

theorem toNat_of_isDigit {c : Char} (h : c.isDigit = true) : 48 ≤ c.toNat ∧ c.toNat ≤ 57 := by
  simp only [Char.isDigit, Bool.and_eq_true, decide_eq_true_eq, UInt32.le_iff_toNat_le] at h
  exact h

/-- The line that starts with `c` when the rest of the text has the lines `ls`. -/
def consLine (c : Char) : List Text → List Text
  | [] => [[c]]
  | l :: ls => (c :: l) :: ls

/-- `text.splitlines()`: `\r\n` is one boundary, and a final boundary starts no line. -/
def splitlines : Text → List Text
  | [] => []
  | '\r' :: '\n' :: cs => [] :: splitlines cs
  | c :: cs => if isLineBreak c then [] :: splitlines cs else consLine c (splitlines cs)

/-- `text.split(" ")`. -/
def splitSpace (text : Text) : List Text := text.splitOn ' '

/-- `text.split()`. -/
def split (text : Text) : List Text := (text.splitOnP isSpace).filter (· ≠ [])

/-- `text.strip()`. -/
def strip (text : Text) : Text := ((text.dropWhile isSpace).reverse.dropWhile isSpace).reverse

/-- `text.replace(c, s)` for a single character `c`. -/
def replace (c : Char) (s : Text) (text : Text) : Text :=
  text.flatMap fun d => if d = c then s else [d]

/-- `" ".join(words)`. -/
def joinSpace (words : List Text) : Text := [' '].intercalate words

/-! ## Splitting keeps the characters -/

theorem flatten_consLine (c : Char) (ls : List Text) :
    (consLine c ls).flatten = c :: ls.flatten := by
  cases ls <;> rfl

/-- The lines of a text are the text without its line breaks. -/
theorem flatten_splitlines (text : Text) :
    (splitlines text).flatten = text.filter fun c => !isLineBreak c := by
  fun_induction splitlines text with
  | case1 => rfl
  | case2 cs ih =>
    have hr : isLineBreak '\r' = true := by decide
    have hn : isLineBreak '\n' = true := by decide
    simp [hr, hn, ih]
  | case3 c cs _ hc ih => simp [hc, ih]
  | case4 c cs _ hc ih =>
    rw [flatten_consLine, ih]
    simp [hc]

/-! ## Lines -/

/-- `"\n".join(lines)`. -/
def joinLines (lines : List Text) : Text := ['\n'].intercalate lines

theorem joinLines_cons_cons (l l' : Text) (lines : List Text) :
    joinLines (l :: l' :: lines) = l ++ '\n' :: joinLines (l' :: lines) := by
  simp [joinLines, List.intercalate]

theorem splitlines_cons {c : Char} (h : isLineBreak c = false) (cs : Text) :
    splitlines (c :: cs) = consLine c (splitlines cs) := by
  have hr : c ≠ '\r' := by
    rintro rfl
    cases h
  rw [splitlines]
  · rw [if_neg (by rw [h]; exact Bool.false_ne_true)]
  · rintro cs' rfl
    exact absurd rfl hr

theorem splitlines_newline (cs : Text) : splitlines ('\n' :: cs) = [] :: splitlines cs := by
  rw [splitlines]
  · exact if_pos rfl
  · rintro cs' h
    cases h

/-- A line that ends at a line feed. -/
theorem splitlines_line {l : Text} (h : ∀ c ∈ l, isLineBreak c = false) (cs : Text) :
    splitlines (l ++ '\n' :: cs) = l :: splitlines cs := by
  induction l with
  | nil => exact splitlines_newline cs
  | cons c l ih =>
    rw [List.cons_append, splitlines_cons (h c List.mem_cons_self),
      ih fun d hd => h d (List.mem_cons_of_mem c hd)]
    rfl

/-- The last line. -/
theorem splitlines_last {l : Text} (hne : l ≠ []) (h : ∀ c ∈ l, isLineBreak c = false) :
    splitlines l = [l] := by
  induction l with
  | nil => exact absurd rfl hne
  | cons c l ih =>
    rw [splitlines_cons (h c List.mem_cons_self)]
    cases l with
    | nil => rfl
    | cons d l =>
      rw [ih (List.cons_ne_nil d l) fun e he => h e (List.mem_cons_of_mem c he)]
      rfl

/-- Lines joined by line feeds are the lines of the text, if the last one is not empty. -/
theorem splitlines_joinLines {lines : List Text} (h : ∀ l ∈ lines, ∀ c ∈ l, isLineBreak c = false)
    (hlast : lines.getLast? ≠ some []) : splitlines (joinLines lines) = lines := by
  induction lines with
  | nil => rfl
  | cons l lines ih =>
    have hl := h l List.mem_cons_self
    cases lines with
    | nil =>
      have hne : l ≠ [] := fun hnil => hlast (by rw [hnil]; rfl)
      simpa [joinLines] using splitlines_last hne hl
    | cons l' lines =>
      rw [joinLines_cons_cons, splitlines_line hl, ih fun m hm => h m (List.mem_cons_of_mem l hm)]
      rwa [List.getLast?_cons_cons] at hlast

theorem flatten_modifyHead_cons (c : Char) {ls : List Text} (h : ls ≠ []) :
    (ls.modifyHead (List.cons c)).flatten = c :: ls.flatten := by
  cases ls with
  | nil => exact absurd rfl h
  | cons l ls => rfl

theorem flatten_splitOnP (p : Char → Bool) (text : Text) :
    (text.splitOnP p).flatten = text.filter fun c => !p c := by
  induction text with
  | nil => rfl
  | cons c cs ih =>
    rw [List.splitOnP_cons_eq_if_modifyHead]
    cases hc : p c with
    | true => simp [hc, ih]
    | false =>
      rw [if_neg (by simp), flatten_modifyHead_cons c (List.splitOnP_ne_nil p cs), ih]
      simp [hc]

/-- The pieces between spaces are the text without its spaces. -/
theorem flatten_splitSpace (text : Text) :
    (splitSpace text).flatten = text.filter (· ≠ ' ') := by
  unfold splitSpace
  rw [List.splitOn_eq_splitOnP, flatten_splitOnP]
  congr 1
  funext c
  by_cases h : c = ' ' <;> simp [h]

/-! ## Words -/

/-- A word of `split()`: not empty, no whitespace in it. -/
def IsWord (w : Text) : Prop := w ≠ [] ∧ ∀ c ∈ w, isSpace c = false

theorem splitOnP_no_sep (p : Char → Bool) (text : Text) :
    ∀ w ∈ text.splitOnP p, ∀ c ∈ w, p c = false := by
  induction text with
  | nil => simp
  | cons c cs ih =>
    rw [List.splitOnP_cons_eq_if_modifyHead]
    cases hc : p c with
    | true => simpa using ih
    | false =>
      rw [if_neg (by simp)]
      intro w hw d hd
      cases hs : cs.splitOnP p with
      | nil => exact absurd hs (List.splitOnP_ne_nil p cs)
      | cons l ls =>
        rw [hs] at hw ih
        rcases List.mem_cons.mp hw with rfl | hw
        · rcases List.mem_cons.mp hd with rfl | hd
          · exact hc
          · exact ih l List.mem_cons_self d hd
        · exact ih w (List.mem_cons_of_mem _ hw) d hd

theorem isWord_of_mem_split {text w : Text} (h : w ∈ split text) : IsWord w := by
  unfold split at h
  rw [List.mem_filter] at h
  exact ⟨by simpa using h.2, splitOnP_no_sep isSpace text w h.1⟩

theorem split_word {w : Text} (h : IsWord w) : split w = [w] := by
  unfold split
  rw [List.splitOnP_eq_singleton h.2]
  simp [h.1]

theorem split_word_space {w : Text} (h : IsWord w) (text : Text) :
    split (w ++ ' ' :: text) = w :: split text := by
  unfold split
  rw [List.splitOnP_append_cons _ _ (by decide), List.splitOnP_eq_singleton h.2]
  simp [h.1]

theorem joinSpace_cons_cons (w v : Text) (ws : List Text) :
    joinSpace (w :: v :: ws) = w ++ ' ' :: joinSpace (v :: ws) := by
  simp [joinSpace, List.intercalate]

/-- Words joined by spaces split into these words. -/
theorem split_joinSpace {ws : List Text} (h : ∀ w ∈ ws, IsWord w) : split (joinSpace ws) = ws := by
  induction ws with
  | nil => rfl
  | cons w ws ih =>
    have hw := h w List.mem_cons_self
    cases ws with
    | nil => simpa [joinSpace] using split_word hw
    | cons v ws =>
      rw [joinSpace_cons_cons, split_word_space hw, ih fun u hu => h u (List.mem_cons_of_mem _ hu)]

theorem dropWhile_of_head {p : Char → Bool} {c : Char} {cs : Text} (h : p c = false) :
    (c :: cs).dropWhile p = c :: cs := by
  simp [List.dropWhile, h]

/-- A text that begins and ends with non-space characters is its own `strip`. -/
theorem strip_eq_self {text : Text} (hh : ∀ c ∈ text.head?, isSpace c = false)
    (hl : ∀ c ∈ text.getLast?, isSpace c = false) : strip text = text := by
  have h1 : text.dropWhile isSpace = text := by
    cases text with
    | nil => rfl
    | cons c cs => exact dropWhile_of_head (hh c rfl)
  have h2 : text.reverse.dropWhile isSpace = text.reverse := by
    cases hr : text.reverse with
    | nil => rfl
    | cons c cs =>
      refine dropWhile_of_head (hl c ?_)
      rw [← List.head?_reverse, hr]
      rfl
  unfold strip
  rw [h1, h2, List.reverse_reverse]

/-! ## Joined words -/

theorem joinSpace_append {a b : List Text} (ha : a ≠ []) (hb : b ≠ []) :
    joinSpace (a ++ b) = joinSpace a ++ ' ' :: joinSpace b := by
  induction a with
  | nil => exact absurd rfl ha
  | cons w a ih =>
    cases a with
    | nil =>
      obtain ⟨v, b, rfl⟩ := List.exists_cons_of_ne_nil hb
      exact (joinSpace_cons_cons w v b).trans (by simp [joinSpace])
    | cons v a =>
      rw [List.cons_append, List.cons_append, joinSpace_cons_cons, joinSpace_cons_cons,
        ← List.cons_append, ih (by simp), List.append_assoc, List.cons_append]

theorem joinSpace_snoc {group : List Text} (h : group ≠ []) (w : Text) :
    joinSpace (group ++ [w]) = joinSpace group ++ ' ' :: w :=
  (joinSpace_append h (List.cons_ne_nil w [])).trans (by simp [joinSpace])

theorem joinSpace_snoc_inj {group : List Text} {v w : Text} :
    joinSpace (group ++ [v]) = joinSpace (group ++ [w]) ↔ v = w := by
  by_cases h : group = []
  · simp [h, joinSpace]
  · rw [joinSpace_snoc h, joinSpace_snoc h, List.append_cancel_left_eq, List.cons.injEq]
    exact ⟨fun h => h.2, fun h => ⟨rfl, h⟩⟩

/-- Lines of words joined are the words joined. -/
theorem joinSpace_map_joinSpace {groups : List (List Text)} (h : ∀ g ∈ groups, g ≠ []) :
    joinSpace (groups.map joinSpace) = joinSpace groups.flatten := by
  induction groups with
  | nil => rfl
  | cons g groups ih =>
    have ih := ih fun g' hg' => h g' (List.mem_cons_of_mem g hg')
    cases groups with
    | nil => simp [joinSpace]
    | cons g' groups =>
      have hne : (g' :: groups).flatten ≠ [] := by simp [h g' (by simp)]
      rw [List.flatten_cons, joinSpace_append (h g List.mem_cons_self) hne, ← ih]
      exact joinSpace_cons_cons _ _ _

/-- A group of words stands in any line they are part of. -/
theorem joinSpace_inside (left right : List Text) {group : List Text} (h : group ≠ []) :
    joinSpace group <:+: joinSpace (left ++ group ++ right) := by
  have hright : joinSpace group <+: joinSpace (group ++ right) := by
    by_cases hr : right = []
    · rw [hr, List.append_nil]
    · rw [joinSpace_append h hr]
      exact List.prefix_append _ _
  have hleft : joinSpace (group ++ right) <:+ joinSpace (left ++ (group ++ right)) := by
    by_cases hl : left = []
    · rw [hl, List.nil_append]
    · rw [joinSpace_append hl (by simp [h])]
      exact (List.suffix_cons _ _).trans (List.suffix_append _ _)
  rw [List.append_assoc]
  exact hright.isInfix.trans hleft.isInfix

theorem joinSpace_ne_nil {group : List Text} (hne : group ≠ []) (h : ∀ w ∈ group, w ≠ []) :
    joinSpace group ≠ [] := by
  cases group with
  | nil => exact absurd rfl hne
  | cons w group =>
    cases group with
    | nil => simpa [joinSpace] using h w List.mem_cons_self
    | cons v group =>
      rw [joinSpace_cons_cons]
      simp

/-- Joined words begin and end with a character that is no space. -/
theorem strip_joinSpace {group : List Text} (h : ∀ w ∈ group, IsWord w) :
    strip (joinSpace group) = joinSpace group := by
  refine strip_eq_self ?_ ?_
  · cases group with
    | nil => simp [joinSpace]
    | cons g group =>
      obtain ⟨hne, hg⟩ := h g List.mem_cons_self
      obtain ⟨c, cs, rfl⟩ := List.exists_cons_of_ne_nil hne
      intro d hd
      have : d = c := by
        cases group with
        | nil => simpa [joinSpace, eq_comm] using hd
        | cons g' group => rw [joinSpace_cons_cons] at hd; simpa [eq_comm] using hd
      rw [this]
      exact hg c List.mem_cons_self
  · induction group using List.reverseRecOn with
    | nil => simp [joinSpace]
    | append_singleton group w ih =>
      obtain ⟨hne, hw⟩ := h w (List.mem_append_right _ (List.mem_singleton_self w))
      intro d hd
      refine hw d (List.mem_of_getLast? (?_ : w.getLast? = some d))
      cases group with
      | nil => simpa [joinSpace] using hd
      | cons g group =>
        rw [joinSpace_snoc (by simp), List.getLast?_append_of_ne_nil _ (by simp)] at hd
        rwa [← List.singleton_append, List.getLast?_append_of_ne_nil _ hne] at hd

/-- `(line + " " + w).strip() if line else w`: a line of words with one more word. -/
theorem strip_candidate {group : List Text} {w : Text} (h : ∀ v ∈ group ++ [w], IsWord v) :
    (if joinSpace group ≠ [] then strip (joinSpace group ++ [' '] ++ w) else w) =
      joinSpace (group ++ [w]) := by
  by_cases hnil : group = []
  · subst hnil
    simp [joinSpace]
  · have hne := joinSpace_ne_nil hnil fun v hv => (h v (List.mem_append_left _ hv)).1
    rw [if_pos hne, List.append_assoc, List.singleton_append, ← joinSpace_snoc hnil,
      strip_joinSpace h]

/-! ## Between neighbours -/

/-- `part` stands in `text` with characters of a kind, or nothing, on either side of it. -/
def Flanked (p : Char → Prop) (part text : Text) : Prop :=
  ∃ left right, text = left ++ part ++ right ∧ (∀ c ∈ left.getLast?, p c) ∧ ∀ c ∈ right.head?, p c

/-- `part` stands in `text` with whitespace, or nothing, on either side of it. -/
def SetOff (part text : Text) : Prop :=
  ∃ left right, text = left ++ part ++ right ∧ (∀ c ∈ left.getLast?, isSpace c = true) ∧
    ∀ c ∈ right.head?, isSpace c = true

namespace Flanked

variable {p q : Char → Prop}

theorem refl (text : Text) : Flanked p text text := ⟨[], [], by simp, by simp, by simp⟩

theorem mono (hpq : ∀ c, p c → q c) {part text : Text} (h : Flanked p part text) :
    Flanked q part text := by
  obtain ⟨left, right, rfl, hl, hr⟩ := h
  exact ⟨left, right, rfl, fun c hc => hpq c (hl c hc), fun c hc => hpq c (hr c hc)⟩

theorem trans {a b c : Text} (h₁ : Flanked p a b) (h₂ : Flanked p b c) : Flanked p a c := by
  obtain ⟨left₁, right₁, rfl, hl₁, hr₁⟩ := h₁
  obtain ⟨left₂, right₂, rfl, hl₂, hr₂⟩ := h₂
  refine ⟨left₂ ++ left₁, right₁ ++ right₂, by simp only [List.append_assoc], ?_, ?_⟩
  · intro d hd
    rw [List.getLast?_append] at hd
    cases h : left₁.getLast? with
    | none =>
      rw [h] at hd
      exact hl₂ d hd
    | some e =>
      rw [h] at hd
      exact hl₁ d (h.trans hd)
  · intro d hd
    rw [List.head?_append] at hd
    cases h : right₁.head? with
    | none =>
      rw [h] at hd
      exact hr₂ d hd
    | some e =>
      rw [h] at hd
      exact hr₁ d (h.trans hd)

theorem append {c : Char} (hc : p c) (part text : Text) : Flanked p part (part ++ c :: text) := by
  refine ⟨[], c :: text, rfl, by simp, ?_⟩
  rintro d ⟨⟩
  exact hc

theorem prepend {c : Char} (hc : p c) (text part : Text) : Flanked p part (text ++ c :: part) := by
  refine ⟨text ++ [c], [], by simp, ?_, by simp⟩
  intro d hd
  rw [List.getLast?_concat] at hd
  obtain rfl := Option.some.inj hd
  exact hc

end Flanked

theorem Flanked.infix {p : Char → Prop} {part text : Text} (h : Flanked p part text) :
    part <:+: text := by
  obtain ⟨left, right, rfl, -⟩ := h
  exact ⟨left, right, rfl⟩

theorem SetOff.append_space (part text : Text) : SetOff part (part ++ ' ' :: text) :=
  Flanked.append (by decide) part text

theorem SetOff.space_append (text part : Text) : SetOff part (text ++ ' ' :: part) :=
  Flanked.prepend (by decide) text part

theorem SetOff.infix {part text : Text} (h : SetOff part text) : part <:+: text := Flanked.infix h

/-- The whitespace that `strip` takes off. -/
theorem setOff_strip (text : Text) : SetOff (strip text) text := by
  refine ⟨text.takeWhile isSpace, (text.dropWhile isSpace).rtakeWhile isSpace, ?_, ?_, ?_⟩
  · show text = text.takeWhile isSpace ++ (text.dropWhile isSpace).rdropWhile isSpace ++ _
    rw [List.append_assoc, List.rdropWhile_append_rtakeWhile, List.takeWhile_append_dropWhile]
  · intro c hc
    exact List.mem_takeWhile_imp (List.mem_of_getLast? hc)
  · intro c hc
    exact List.mem_rtakeWhile_imp (List.mem_of_head? hc)

theorem getLast?_strip {text : Text} : ∀ c ∈ (strip text).getLast?, isSpace c = false := by
  intro c hc
  have hne : (text.dropWhile isSpace).rdropWhile isSpace ≠ [] := by
    intro hnil
    change ((text.dropWhile isSpace).rdropWhile isSpace).getLast? = some c at hc
    rw [hnil] at hc
    cases hc
  have hlast := List.rdropWhile_last_not isSpace (text.dropWhile isSpace) hne
  change ((text.dropWhile isSpace).rdropWhile isSpace).getLast? = some c at hc
  rw [List.getLast?_eq_some_getLast hne, Option.some.injEq] at hc
  rw [hc] at hlast
  exact eq_false_of_ne_true hlast

theorem head?_strip {text : Text} : ∀ c ∈ (strip text).head?, isSpace c = false := by
  intro c hc
  have hdrop : (text.dropWhile isSpace).head? = some c := by
    obtain ⟨rest, hrest⟩ := List.rdropWhile_prefix isSpace (text.dropWhile isSpace)
    rw [← hrest, List.head?_append]
    exact congrArg (·.or rest.head?) hc
  have hnot := List.head?_dropWhile_not isSpace text
  rw [hdrop] at hnot
  exact hnot

theorem dropWhile_append_of_head {p : Char → Bool} {c : Char} {l cs : Text} (h : p c = false) :
    (l ++ c :: cs).dropWhile p = l.dropWhile p ++ c :: cs := by
  rw [List.dropWhile_append, dropWhile_of_head h]
  split
  next hnil => rw [List.isEmpty_iff.mp hnil, List.nil_append]
  next => rfl

/-- `strip` stops at a part that neither begins nor ends with whitespace. -/
theorem strip_around (left right : Text) {part : Text} (hne : part ≠ [])
    (hh : ∀ c ∈ part.head?, isSpace c = false) (hl : ∀ c ∈ part.getLast?, isSpace c = false) :
    strip (left ++ part ++ right) = left.dropWhile isSpace ++ part ++ right.rdropWhile isSpace := by
  have hdrop : (left ++ part ++ right).dropWhile isSpace = left.dropWhile isSpace ++ part ++ right := by
    cases part with
    | nil => exact absurd rfl hne
    | cons c cs =>
      rw [List.append_assoc, List.append_assoc, List.cons_append, dropWhile_append_of_head (hh c rfl)]
  have hrdrop : ∀ l : Text, (l ++ part ++ right).rdropWhile isSpace =
      l ++ part ++ right.rdropWhile isSpace := by
    intro l
    obtain ⟨cs, c, rfl⟩ := (List.eq_nil_or_concat' part).resolve_left hne
    have hc := hl c List.getLast?_concat
    unfold List.rdropWhile
    simp only [List.reverse_append, List.reverse_cons, List.nil_append,
      List.append_assoc, List.cons_append, dropWhile_append_of_head hc, List.reverse_reverse]
  show ((left ++ part ++ right).dropWhile isSpace).rdropWhile isSpace = _
  rw [hdrop, hrdrop]

theorem getLast?_dropWhile {p : Char → Bool} {text : Text} :
    ∀ c ∈ (text.dropWhile p).getLast?, c ∈ text.getLast? := by
  intro c hc
  obtain ⟨dropped, hdropped⟩ := List.dropWhile_suffix (l := text) p
  rw [← hdropped, List.getLast?_append, hc]
  rfl

theorem head?_rdropWhile {p : Char → Bool} {text : Text} :
    ∀ c ∈ (text.rdropWhile p).head?, c ∈ text.head? := by
  intro c hc
  obtain ⟨dropped, hdropped⟩ := List.rdropWhile_prefix p text
  rw [← hdropped, List.head?_append, hc]
  rfl

/-- A part that neither begins nor ends with whitespace is in the stripped text too. -/
theorem Flanked.strip {p : Char → Prop} {part text : Text} (h : Flanked p part text) (hne : part ≠ [])
    (hh : ∀ c ∈ part.head?, isSpace c = false) (hl : ∀ c ∈ part.getLast?, isSpace c = false) :
    Flanked p part (strip text) := by
  obtain ⟨left, right, rfl, hleft, hright⟩ := h
  exact ⟨left.dropWhile isSpace, right.rdropWhile isSpace, strip_around left right hne hh hl,
    fun c hc => hleft c (getLast?_dropWhile c hc), fun c hc => hright c (head?_rdropWhile c hc)⟩

theorem SetOff.strip {part text : Text} (h : SetOff part text) (hne : part ≠ [])
    (hh : ∀ c ∈ part.head?, isSpace c = false) (hl : ∀ c ∈ part.getLast?, isSpace c = false) :
    SetOff part (strip text) :=
  Flanked.strip h hne hh hl

end PyText
