import NeoDCT.Lib.PyRegex
import NeoDCT.Lib.RegexShape

/-!
# What the Unicode tables say of patterns

`CharTables.Unicode` is what is documented of the tables that `re` uses: they are ASCII's for ASCII, a
character that IGNORECASE takes for a letter is alphanumeric, and a character without case is taken for
itself alone.  Of an atom that is built from such characters it can then be told

* that all it stands for are word characters (`word`);
* that it stands for nothing that a certain character does (`excludes`);
* that it is ASCII (`isAscii`), and stands for the same of ASCII as by ASCII's tables;

and so whether the words of `\b(…|…)\b` are found where they stand (`find_bounded_iff`).
-/

namespace PyRegex

open PyText Regex

/-! ## The tables -/

/-- ASCII that is no letter, and the pound sign: characters without case. -/
def uncased (d : Char) : Bool := (d.toNat < 128 && !d.isAlpha) || d = '£'

/-- What is documented of the tables. -/
structure CharTables.Unicode (u : CharTables) : Prop where
  alnum_ascii : ∀ c : Char, c.toNat < 128 → u.isAlnum c = c.isAlphanum
  not_alnum_pound : u.isAlnum '£' = false
  decimal_ascii : ∀ c : Char, c.toNat < 128 → u.isDecimal c = c.isDigit
  alnum_of_decimal : ∀ c, u.isDecimal c = true → u.isAlnum c = true
  /-- Of two ASCII characters one is taken for the other if they differ in case. -/
  variants_ascii : ∀ c d : Char, c.toNat < 128 → d.toNat < 128 →
    (d ∈ u.variants c ↔ c.toLower = d.toLower)
  variants_uncased : ∀ c d, uncased d = true → (d ∈ u.variants c ↔ d = c)
  /-- What is taken for a letter is one (`ſ` for `s`, `K` for `k`). -/
  alnum_of_letter : ∀ c d : Char, d.isAlpha = true → d ∈ u.variants c → u.isAlnum c = true
  not_decimal_of_letter : ∀ c d : Char, d.isAlpha = true → d ∈ u.variants c → u.isDecimal c = false
  letter_unique : ∀ c d e : Char, d.isAlpha = true → e.isAlpha = true →
    d ∈ u.variants c → e ∈ u.variants c → d.toLower = e.toLower

theorem toLower_of_mem_variants {c d : Char} (h : d ∈ CharTables.ascii.variants c) :
    d.toLower = c.toLower := by
  have h : d ∈ [c, c.toLower, c.toUpper] := h
  simp only [List.mem_cons, List.not_mem_nil, or_false] at h
  rcases h with rfl | rfl | rfl <;> simp

theorem isAlpha_eq_of_toLower {c d : Char} (h : d.toLower = c.toLower) : d.isAlpha = c.isAlpha := by
  rw [← Char.isAlpha_toLower_eq_isAlpha d, h, Char.isAlpha_toLower_eq_isAlpha]

theorem mem_variants_of_toLower {c d : Char} (h : c.toLower = d.toLower) :
    d ∈ CharTables.ascii.variants c := by
  show d ∈ [c, c.toLower, c.toUpper]
  by_cases hupper : d.isUpper = true
  · have hd : d.toUpper = d := Char.toUpper_eq_of_not_isLower (Char.not_isLower_of_isUpper hupper)
    have hc : d = c.toUpper := by
      rw [← Char.toUpper_toLower_eq_toUpper c, h, Char.toUpper_toLower_eq_toUpper, hd]
    simp [← hc]
  · have hd : d.toLower = d := Char.toLower_eq_of_not_isUpper hupper
    simp [h, hd]

theorem not_isAlpha_of_uncased {d : Char} (h : uncased d = true) : d.isAlpha = false := by
  unfold uncased at h
  simp only [Bool.or_eq_true, Bool.and_eq_true, decide_eq_true_eq, Bool.not_eq_true'] at h
  rcases h with h | rfl
  · exact h.2
  · decide

theorem toLower_of_not_isAlpha {c : Char} (h : c.isAlpha = false) : c.toLower = c := by
  apply Char.toLower_eq_of_not_isUpper
  intro hupper
  unfold Char.isAlpha at h
  rw [hupper] at h
  cases h

/-- The codes of the letters. -/
theorem toNat_of_isAlpha {c : Char} (h : c.isAlpha = true) : 65 ≤ c.toNat ∧ c.toNat ≤ 122 := by
  simp only [Char.isAlpha, Char.isUpper, Char.isLower, Bool.or_eq_true, Bool.and_eq_true,
    decide_eq_true_eq, UInt32.le_iff_toNat_le] at h
  change (65 ≤ c.toNat ∧ c.toNat ≤ 90) ∨ (97 ≤ c.toNat ∧ c.toNat ≤ 122) at h
  omega

theorem not_isDigit_of_isAlpha {c : Char} (h : c.isAlpha = true) : c.isDigit = false := by
  rw [Bool.eq_false_iff]
  intro hdigit
  have halpha := toNat_of_isAlpha h
  have hdigit := toNat_of_isDigit hdigit
  omega

/-- The tables as they are for ASCII are such tables. -/
theorem CharTables.ascii_unicode : CharTables.ascii.Unicode where
  alnum_ascii _ _ := rfl
  not_alnum_pound := by decide
  decimal_ascii _ _ := rfl
  alnum_of_decimal c h := Bool.or_eq_true_iff.mpr (Or.inr h)
  variants_ascii c d _ _ := ⟨fun h => (toLower_of_mem_variants h).symm, mem_variants_of_toLower⟩
  variants_uncased c d hd := by
    refine ⟨fun h => ?_, fun h => h ▸ List.mem_cons_self⟩
    have hlower := toLower_of_mem_variants h
    have hda : d.isAlpha = false := not_isAlpha_of_uncased hd
    have hca : c.isAlpha = false := by rw [← isAlpha_eq_of_toLower hlower, hda]
    rwa [toLower_of_not_isAlpha hda, toLower_of_not_isAlpha hca] at hlower
  alnum_of_letter c d hd h := by
    have hc : c.isAlpha = true := by rw [← isAlpha_eq_of_toLower (toLower_of_mem_variants h), hd]
    exact Bool.or_eq_true_iff.mpr (Or.inl hc)
  not_decimal_of_letter c d hd h := by
    have hc : c.isAlpha = true := by rw [← isAlpha_eq_of_toLower (toLower_of_mem_variants h), hd]
    exact not_isDigit_of_isAlpha hc
  letter_unique c d e _ _ hd he := by
    rw [toLower_of_mem_variants hd, toLower_of_mem_variants he]

/-! ## What atoms stand for -/

/-- The characters whose variants are known. -/
def known (d : Char) : Bool := d.isAlpha || uncased d

def Item.word : Item → Bool
  | .char d => d.isAlphanum
  | .digit => true
  | _ => false

/-- Nothing that the item stands for is taken for `d`. -/
def Item.excludes (d : Char) : Item → Bool
  | .char e => known e && d.toLower ≠ e.toLower
  | .digit => !d.isDigit
  | .space => !isSpace d
  | .range _ _ => false

/-- All that an atom stands for are word characters. -/
def Atom.word : Atom → Bool
  | .oneOf items => items.all Item.word
  | _ => false

/-- The first atom is a character, and the second stands for nothing that is taken for it. -/
def Atom.excludes : Atom → Atom → Bool
  | .oneOf [.char d], .oneOf items => known d && items.all (Item.excludes d)
  | _, _ => false

section
variable {u : CharTables} (hu : u.Unicode)
include hu

theorem isDecimal_of_uncased {d : Char} (hd : uncased d = true) : u.isDecimal d = d.isDigit := by
  unfold uncased at hd
  simp only [Bool.or_eq_true, Bool.and_eq_true, decide_eq_true_eq] at hd
  rcases hd with hd | rfl
  · exact hu.decimal_ascii d hd.1
  · show u.isDecimal '£' = false
    rw [Bool.eq_false_iff]
    intro hdecimal
    have halnum := hu.alnum_of_decimal '£' hdecimal
    rw [hu.not_alnum_pound] at halnum
    cases halnum

/-- No letter is taken for a character without case. -/
theorem letter_not_mem_variants {c d : Char} (hc : uncased c = true) (hd : d.isAlpha = true) :
    d ∉ u.variants c := by
  intro hmem
  have halpha := not_isAlpha_of_uncased hc
  unfold uncased at hc
  simp only [Bool.or_eq_true, Bool.and_eq_true, decide_eq_true_eq] at hc
  rcases hc with hc | rfl
  · have hascii : d.toNat < 128 := by
      have hle := toNat_of_isAlpha hd
      omega
    have hlower := (hu.variants_ascii c d hc.1 hascii).mp hmem
    rw [isAlpha_eq_of_toLower hlower, hd] at halpha
    cases halpha
  · have halnum := hu.alnum_of_letter '£' d hd hmem
    rw [hu.not_alnum_pound] at halnum
    cases halnum

/-- What is taken for two characters whose variants are known has them in one case. -/
theorem toLower_eq_of_variants {c d e : Char} (hd : known d = true) (he : known e = true)
    (hmemd : d ∈ u.variants c) (hmeme : e ∈ u.variants c) : d.toLower = e.toLower := by
  rcases Bool.or_eq_true_iff.mp hd with hd | hd
  · rcases Bool.or_eq_true_iff.mp he with he | he
    · exact hu.letter_unique c d e hd he hmemd hmeme
    · obtain rfl := (hu.variants_uncased c e he).mp hmeme
      exact absurd hmemd (letter_not_mem_variants hu he hd)
  · obtain rfl := (hu.variants_uncased c d hd).mp hmemd
    rcases Bool.or_eq_true_iff.mp he with he | he
    · exact absurd hmeme (letter_not_mem_variants hu hd he)
    · rw [(hu.variants_uncased d e he).mp hmeme]

theorem Item.isWord_of_sat {i : Item} (hi : i.word = true) {c : Char}
    (hsat : i.sat u (u.variants c) c = true) : u.isWord c = true := by
  refine Bool.or_eq_true_iff.mpr (Or.inl ?_)
  cases i with
  | char d =>
    have hmem : d ∈ u.variants c := of_decide_eq_true hsat
    have hd : d.isAlphanum = true := hi
    by_cases halpha : d.isAlpha = true
    · exact hu.alnum_of_letter c d halpha hmem
    · rw [Bool.not_eq_true] at halpha
      have hdigit : d.isDigit = true := by
        unfold Char.isAlphanum at hd
        rwa [halpha, Bool.false_or] at hd
      have hascii : d.toNat < 128 := by
        have hle := toNat_of_isDigit hdigit
        omega
      have huncased : uncased d = true := by simp [uncased, hascii, halpha]
      rw [← (hu.variants_uncased c d huncased).mp hmem, hu.alnum_ascii d hascii, hd]
  | digit => exact hu.alnum_of_decimal c hsat
  | range => cases hi
  | space => cases hi

theorem Item.not_sat_of_excludes {d : Char} (hd : known d = true) {i : Item}
    (hi : i.excludes d = true) {c : Char} (hmem : d ∈ u.variants c) :
    i.sat u (u.variants c) c = false := by
  rw [Bool.eq_false_iff]
  intro hsat
  cases i with
  | char e =>
    have hmeme : e ∈ u.variants c := of_decide_eq_true hsat
    simp only [Item.excludes, Bool.and_eq_true, decide_eq_true_eq] at hi
    exact hi.2 (toLower_eq_of_variants hu hd hi.1 hmem hmeme)
  | range => cases hi
  | space =>
    have hspace : isSpace c = true := hsat
    rcases Bool.or_eq_true_iff.mp hd with hd | hd
    · have halnum := hu.alnum_of_letter c d hd hmem
      rw [u.not_alnum_of_space c hspace] at halnum
      cases halnum
    · obtain rfl := (hu.variants_uncased c d hd).mp hmem
      simp [Item.excludes, hspace] at hi
  | digit =>
    have hdecimal : u.isDecimal c = true := hsat
    rcases Bool.or_eq_true_iff.mp hd with hd | hd
    · rw [hu.not_decimal_of_letter c d hd hmem] at hdecimal
      cases hdecimal
    · obtain rfl := (hu.variants_uncased c d hd).mp hmem
      rw [isDecimal_of_uncased hu hd] at hdecimal
      simp [Item.excludes, hdecimal] at hi

theorem Atom.isWord_of_sat {a : Atom} (ha : a.word = true) {c : Char}
    (hsat : a.sat u true c = true) : u.isWord c = true := by
  cases a with
  | oneOf items =>
    obtain ⟨i, hi, hsat⟩ := List.any_eq_true.mp hsat
    exact Item.isWord_of_sat hu (List.all_eq_true.mp ha i hi) hsat
  | any => cases ha
  | noneOf items => cases ha

theorem Atom.not_sat_of_excludes {a b : Atom} (h : a.excludes b = true) {c : Char}
    (hsat : b.sat u true c = true) : a.sat u true c = false := by
  unfold Atom.excludes at h
  split at h
  next d items =>
    obtain ⟨hd, hitems⟩ := Bool.and_eq_true_iff.mp h
    obtain ⟨i, hi, hsat⟩ := List.any_eq_true.mp hsat
    rw [Bool.eq_false_iff]
    intro hchar
    have hmem : d ∈ u.variants c := by simpa [Atom.sat, Item.sat] using hchar
    have hnot := Item.not_sat_of_excludes hu hd (List.all_eq_true.mp hitems i hi) hmem
    exact absurd (hnot.symm.trans hsat) Bool.false_ne_true
  next => cases h

end

/-! ## ASCII -/

def Item.isAscii : Item → Bool
  | .char d => d.toNat < 128
  | .range _ _ => false
  | _ => true

def Atom.isAscii : Atom → Bool
  | .any => true
  | .oneOf items => items.all Item.isAscii
  | .noneOf items => items.all Item.isAscii

section
variable {u : CharTables} (hu : u.Unicode) {c : Char} (hc : c.toNat < 128)
include hu hc

theorem isWord_ascii : u.isWord c = CharTables.ascii.isWord c := by
  unfold CharTables.isWord
  rw [hu.alnum_ascii c hc]
  rfl

theorem Item.sat_ascii {i : Item} (hi : i.isAscii = true) :
    i.sat u (u.variants c) c = i.sat .ascii (CharTables.ascii.variants c) c := by
  cases i with
  | char d =>
    have hd : d.toNat < 128 := of_decide_eq_true hi
    show decide (d ∈ u.variants c) = decide (d ∈ CharTables.ascii.variants c)
    rw [decide_eq_decide, hu.variants_ascii c d hc hd,
      CharTables.ascii_unicode.variants_ascii c d hc hd]
  | range => cases hi
  | space => rfl
  | digit => exact hu.decimal_ascii c hc

theorem any_sat_ascii {items : List Item} (h : items.all Item.isAscii = true) :
    (items.any fun i => i.sat u (u.variants c) c) =
      items.any fun i => i.sat .ascii (CharTables.ascii.variants c) c := by
  induction items with
  | nil => rfl
  | cons i items ih =>
    obtain ⟨hi, hitems⟩ := Bool.and_eq_true_iff.mp h
    rw [List.any_cons, List.any_cons, Item.sat_ascii hu hc hi, ih hitems]

theorem Atom.sat_ascii {a : Atom} (ha : a.isAscii = true) :
    a.sat u true c = a.sat .ascii true c := by
  cases a with
  | any => rfl
  | oneOf items => exact any_sat_ascii hu hc ha
  | noneOf items => exact congrArg (!·) (any_sat_ascii hu hc ha)

end

/-- A pattern that is ASCII finds in a text that is ASCII what ASCII's tables find. -/
theorem find_ascii {u : CharTables} (hu : u.Unicode) {r : Pattern}
    (hr : r.atoms.all Atom.isAscii = true) {text : Text} (htext : ∀ c ∈ text, c.toNat < 128) :
    (find u true r text).isSome = (find .ascii true r text).isSome := by
  rw [find_isSome, find_isSome]
  refine search_congr (fun a ha c hc => ?_) fun c hc => isWord_ascii hu (htext c hc)
  exact Atom.sat_ascii hu (htext c hc) (List.all_eq_true.mp hr a ha)

/-! ## Words between boundaries -/

/-- What decides whether the words of an alternative are found: they end with a word character; they
begin with one too, or the alternatives all need what the rest of them cannot have. -/
def settled (g a : Pattern) : Bool :=
  a.plain && !a.nullable && a.lasts.all Atom.word && (a.firsts.all Atom.word || opens a)
where
  opens : Pattern → Bool
    | .seq (.atom _) rest =>
      g.alternatives.all fun b => b.needs.any fun n => rest.atoms.all n.excludes
    | _ => false

theorem fullmatch_iff {u : CharTables} {ignoreCase : Bool} {a : Pattern} {w : Text} :
    fullmatch u ignoreCase a w = true ↔
      Matches (Atom.sat u ignoreCase) u.isWord a ⟨[], w⟩ ⟨w.reverse, []⟩ := by
  unfold fullmatch
  rw [decide_eq_true_eq]
  exact mem_ends _ _

/-- A full match is a word. -/
theorem mem_words_of_fullmatch {u : CharTables} {ignoreCase : Bool} {a : Pattern} {w : Text}
    (h : fullmatch u ignoreCase a w = true) : w ∈ words (Atom.sat u ignoreCase) a := by
  obtain ⟨v, hv, hc⟩ := (fullmatch_iff.mp h).consumes
  have hw : w = v ++ [] := hc.after
  rwa [hw, List.append_nil]

section
variable {u : CharTables} (hu : u.Unicode) {g a : Pattern} (hsettled : settled g a = true) {w : Text}
  (hw : w ∈ words (Atom.sat u true) a)
include hsettled hw

theorem ne_nil_of_settled : w ≠ [] := by
  rintro rfl
  unfold settled at hsettled
  simp [nullable_of_nil_mem hw] at hsettled

include hu

theorem endsWord_of_settled : startsWord u.isWord w.reverse = true := by
  obtain ⟨init, c, rfl⟩ := (List.eq_nil_or_concat' w).resolve_left (ne_nil_of_settled hsettled hw)
  obtain ⟨b, hb, hsat⟩ := (collects_lasts _).exists_sat hw List.getLast?_concat
  unfold settled at hsettled
  simp only [Bool.and_eq_true] at hsettled
  rw [List.reverse_concat]
  exact Atom.isWord_of_sat hu (List.all_eq_true.mp hsettled.1.2 b hb) hsat

/-- **A word of `\b(…|…)\b` is found where it stands exactly if it begins with a word character.** -/
theorem find_bounded_iff (ha : a ∈ g.alternatives) :
    (find u true g.bounded w).isSome = startsWord u.isWord w := by
  have hne := ne_nil_of_settled hsettled hw
  have hlast := endsWord_of_settled hu hsettled hw
  unfold settled at hsettled
  simp only [Bool.and_eq_true, Bool.or_eq_true] at hsettled
  obtain ⟨⟨⟨hplain, -⟩, -⟩, hfirst⟩ := hsettled
  rw [find_isSome]
  cases hstarts : startsWord u.isWord w with
  | true => exact search_bounded ha hplain hw hstarts hlast
  | false =>
    rcases hfirst with hfirst | hopens
    · obtain ⟨c, cs, rfl⟩ := List.exists_cons_of_ne_nil hne
      obtain ⟨b, hb, hsat⟩ := (collects_firsts c).exists_sat hw rfl
      have hword := Atom.isWord_of_sat hu (List.all_eq_true.mp hfirst b hb) hsat
      have hnot : u.isWord c = false := hstarts
      rw [hword] at hnot
      cases hnot
    · unfold settled.opens at hopens
      split at hopens
      next x rest =>
        simp only [List.all_eq_true, List.any_eq_true] at hopens
        obtain ⟨y, ⟨c, -, rfl⟩, v, hv, rfl⟩ := Language.mem_mul.mp hw
        have hc : u.isWord c = false := hstarts
        refine search_bounded_none hc fun b hb => ?_
        obtain ⟨n, hn, hlacks⟩ := hopens b hb
        refine ⟨n, hn, fun z hz => ?_⟩
        obtain ⟨m, hm, hsat⟩ := (collects_atoms _).exists_sat hv hz
        exact Atom.not_sat_of_excludes hu (hlacks m hm) hsat
      next => cases hopens

end

end PyRegex
