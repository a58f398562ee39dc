import NeoDCT.Lib.PyUnicode
import NeoDCT.Spam.Dataset

/-!
# Two evaluators

`read_labelled_csv` and `evaluate_dataset` of tests/spam-filter/main.py, and `main` of evalfilter.py, on
the rows of a CSV file.  The first joins all the fields after the label to a message, and takes a row
without any for an empty one; the second takes the second field, and skips such a row.  They count the
same

    ↔  every labelled row has a message, and what flags it is in its second field     (evaluators_iff)

for what flags the second field flags the joined ones (`flagged_joined`).
-/

namespace NeoDCT.SpamFilter

open PyText PyRegex

/-! ## The rows of a CSV file -/

section
variable (lower : Text → Text)

/-- The label of a row; a row with another, the header's too, is skipped. -/
def readLabel (field : Text) : Option Label :=
  let label := lower (strip field)
  if label = "ham".toList then some .ham
  else if label = "spam".toList then some .spam
  else none

/-- The fields after the label, joined again. -/
def joinedText (row : List Text) : Text :=
  if 2 ≤ row.length then strip (List.intercalate [','] row.tail) else []

def readRow (row : List Text) : Option (Label × Text) :=
  match row with
  | [] => none
  | field :: _ => (readLabel lower field).map fun label => (label, joinedText row)

/-- `read_labelled_csv`, of the rows that `csv.reader` yields. -/
def readLabelledCsv (rows : List (List Text)) : List (Label × Text) := rows.filterMap (readRow lower)

end

/-! ## evalfilter.py -/

inductive Verdict where
  | ham
  | spam
  | unknown
deriving DecidableEq, Repr

def normalizeLabel (lower : Text → Text) (label : Text) : Verdict :=
  let label := lower (strip label)
  if label = "ham".toList then .ham
  else if label = "spam".toList then .spam
  else .unknown

def evalAction (action : Action) : Verdict :=
  if "INBOX".toList <+: action.text then .ham else .spam

/-- `SILENCE_THRESHOLD`. -/
def silenceThreshold : ℤ := 20

/-- `SPAM_THRESHOLD`. -/
def spamThreshold : ℤ := 50

/-- An entry of `failures`. -/
structure Failure where
  text : Text
  score : ℤ
  action : Action
  hits : List Hit
deriving DecidableEq

/-- What the loop of `main` keeps. -/
structure Tally where
  total : ℕ
  /-- Labels with what was predicted. -/
  confusion : Verdict × Verdict → ℕ
  failures : Verdict → List Failure

def Tally.zero : Tally := ⟨0, fun _ => 0, fun _ => []⟩

/-- The loop's body. -/
def tallyRow (re : Re) (lower : Text → Text) (t : Tally) (row : List Text) : Tally :=
  match row with
  | label :: text :: _ =>
    let label := normalizeLabel lower label
    let scored := scoreMessage re text defaultRules
    let action := decideAction scored.1 silenceThreshold spamThreshold
    let predicted := evalAction action
    { total := t.total + 1
      confusion := Function.update t.confusion (label, predicted) (t.confusion (label, predicted) + 1)
      failures :=
        if label ≠ predicted then
          Function.update t.failures label (t.failures label ++ [⟨text, scored.1, action, scored.2⟩])
        else t.failures }
  | _ => t

structure Metrics where
  tp : ℕ
  tn : ℕ
  fp : ℕ
  fn : ℕ
  precision : ℚ
  recallRate : ℚ
  accuracy : ℚ
deriving DecidableEq

def Tally.metrics (t : Tally) : Metrics :=
  let tp := t.confusion (.spam, .spam)
  let tn := t.confusion (.ham, .ham)
  let fp := t.confusion (.ham, .spam)
  let fn := t.confusion (.spam, .ham)
  { tp, tn, fp, fn
    precision := if tp + fp = 0 then 0 else tp / (tp + fp : ℕ)
    recallRate := if tp + fn = 0 then 0 else tp / (tp + fn : ℕ)
    accuracy := if t.total = 0 then 0 else (tp + tn : ℕ) / t.total }

/-- `main`, up to what it prints. -/
def evalMain (re : Re) (lower : Text → Text) (rows : List (List Text)) : Tally × Metrics :=
  let t := rows.foldl (tallyRow re lower) .zero
  (t, t.metrics)

/-! ## What is counted -/

/-- The label of a row, if it is one. -/
def rowLabel (lower : Text → Text) (row : List Text) : Option Label := row.head?.bind (readLabel lower)

def flags (u : CharTables) (text : Text) : Bool :=
  flagged (pyRe u) defaultRules silenceThreshold spamThreshold text

/-- What evalfilter.py makes of a row. -/
def verdict (u : CharTables) (lower : Text → Text) (row : List Text) : Option (Verdict × Verdict) :=
  match row with
  | label :: text :: _ => some (normalizeLabel lower label, if flags u text then .spam else .ham)
  | _ => none

/-- A verdict is one of two, by what is flagged. -/
theorem evalAction_eq (re : Re) (text : Text) :
    evalAction (actionOf re defaultRules silenceThreshold spamThreshold text) =
      if flagged re defaultRules silenceThreshold spamThreshold text then .spam else .ham := by
  unfold flagged
  cases actionOf re defaultRules silenceThreshold spamThreshold text <;> decide

theorem tallyRow_confusion (u : CharTables) (lower : Text → Text) (t : Tally) (row : List Text)
    (key : Verdict × Verdict) : (tallyRow (pyRe u) lower t row).confusion key =
      t.confusion key + if verdict u lower row = some key then 1 else 0 := by
  unfold tallyRow verdict
  split
  next label text rest =>
    have hpredicted := evalAction_eq (pyRe u) text
    unfold actionOf at hpredicted
    simp only [hpredicted, Option.some.injEq, Function.update_apply]
    unfold flags
    by_cases hkey : key = (normalizeLabel lower label,
        if flagged (pyRe u) defaultRules silenceThreshold spamThreshold text then .spam else .ham)
    · rw [if_pos hkey, if_pos hkey.symm, hkey]
    · rw [if_neg hkey, if_neg (Ne.symm hkey), Nat.add_zero]
  next => simp

/-- **The `Counter` counts rows.** -/
theorem evalMain_confusion (u : CharTables) (lower : Text → Text) (rows : List (List Text))
    (key : Verdict × Verdict) : (evalMain (pyRe u) lower rows).1.confusion key =
      rows.countP fun row => verdict u lower row = some key := by
  show (rows.foldl (tallyRow (pyRe u) lower) .zero).confusion key = _
  induction rows using List.reverseRecOn with
  | nil => rfl
  | append_singleton rows row ih =>
    simp only [List.foldl_append, List.foldl_cons, List.foldl_nil, tallyRow_confusion, ih,
      List.countP_append, List.countP_cons, List.countP_nil, decide_eq_true_eq, Nat.zero_add]

def Label.verdict : Label → Verdict
  | .ham => .ham
  | .spam => .spam

theorem normalizeLabel_eq_iff {lower : Text → Text} {field : Text} {l : Label} :
    normalizeLabel lower field = l.verdict ↔ readLabel lower field = some l := by
  have hne : "spam".toList ≠ "ham".toList := by simp
  unfold normalizeLabel readLabel
  by_cases hham : lower (strip field) = "ham".toList
  · simp only [hham, if_true]
    cases l <;> simp [Label.verdict]
  · by_cases hspam : lower (strip field) = "spam".toList
    · simp only [hspam, if_neg hne, if_true]
      cases l <;> simp [Label.verdict]
    · simp only [if_neg hham, if_neg hspam]
      cases l <;> simp [Label.verdict]

theorem verdict_eq_iff {u : CharTables} {lower : Text → Text} {row : List Text} {l : Label} {b : Bool} :
    verdict u lower row = some (l.verdict, if b then .spam else .ham) ↔
      rowLabel lower row = some l ∧ ∃ text ∈ row[1]?, flags u text = b := by
  unfold verdict rowLabel
  split
  next label text rest =>
    have hflag : (if flags u text = true then Verdict.spam else .ham) = (if b = true then .spam else .ham) ↔
        flags u text = b := by
      cases flags u text <;> cases b <;> decide
    simp [hflag, normalizeLabel_eq_iff]
  next hshort =>
    match row with
    | [] => simp
    | [_] => simp
    | _ :: _ :: _ => exact absurd rfl (hshort _ _ _)

theorem readRow_eq (lower : Text → Text) (row : List Text) :
    readRow lower row = (rowLabel lower row).map fun label => (label, joinedText row) := by
  cases row <;> rfl

theorem countP_readLabelledCsv (lower : Text → Text) (rows : List (List Text)) (flag : Text → Bool)
    (l : Label) (b : Bool) :
    ((readLabelledCsv lower rows).countP fun row => row.1 = l ∧ flag row.2 = b) =
      rows.countP fun row => rowLabel lower row = some l ∧ flag (joinedText row) = b := by
  unfold readLabelledCsv
  rw [List.countP_filterMap]
  apply List.countP_congr
  intro row _
  rw [readRow_eq]
  cases rowLabel lower row <;> simp

/-! ## Agreement -/

theorem strip_strip (text : Text) : strip (strip text) = strip text :=
  strip_eq_self head?_strip getLast?_strip

theorem scoreMessage_strip (re : Re) (text : Text) (rules : List Rule) :
    (scoreMessage re (strip text) rules).1 = (scoreMessage re text rules).1 := by
  rw [scoreMessage_total, scoreMessage_total]
  unfold normalize
  rw [strip_strip]

/-- A comma is no word character, so the first of the joined fields stands apart. -/
theorem flanked_intercalate {u : CharTables} (hu : u.Unicode) (text : Text) (rest : List Text) :
    Flanked (u.isWord · = false) text (List.intercalate [','] (text :: rest)) := by
  cases rest with
  | nil =>
    rw [List.intercalate_singleton]
    exact .refl text
  | cons next rest =>
    have hcomma : u.isWord ',' = false := isWord_ascii hu (by decide)
    rw [List.intercalate_cons_cons]
    simpa using Flanked.append hcomma text (List.intercalate [','] (next :: rest))

/-- What flags the second field flags the joined fields. -/
theorem flagged_joined {u : CharTables} (hu : u.Unicode) {row : List Text} {text : Text}
    (htext : row[1]? = some text) (hflag : flags u text = true) : flags u (joinedText row) = true := by
  match row with
  | [] => cases htext
  | [_] => cases htext
  | label :: first :: rest =>
    obtain rfl : first = text := Option.some.inj htext
    have hlong : 2 ≤ (label :: first :: rest).length := by simp
    unfold joinedText
    rw [if_pos hlong]
    unfold flags at hflag ⊢
    rw [flagged_iff] at hflag ⊢
    rw [scoreMessage_strip]
    exact hflag.trans (scoreMessage_flanked defaultRules_weight (flanked_intercalate hu first rest))

/-- A row without a second field has an empty message, which is not flagged. -/
theorem not_flagged_short (u : CharTables) {row : List Text} (hrow : row[1]? = none) :
    flags u (joinedText row) = false := by
  rw [List.getElem?_eq_none_iff] at hrow
  have hshort : ¬ 2 ≤ row.length := by omega
  unfold joinedText
  rw [if_neg hshort, Bool.eq_false_iff]
  intro hflag
  unfold flags at hflag
  rw [flagged_iff, scoreMessage_total, if_pos (by decide)] at hflag
  revert hflag
  decide

/-- Counts of a condition and of a weaker one are the same if it is no weaker. -/
theorem countP_eq_iff {α : Type} {p q : α → Prop} [DecidablePred p] [DecidablePred q] {l : List α}
    (h : ∀ x ∈ l, p x → q x) :
    (l.countP fun x => p x) = (l.countP fun x => q x) ↔ ∀ x ∈ l, q x → p x := by
  induction l with
  | nil => simp
  | cons x l ih =>
    rw [List.forall_mem_cons] at h
    have hle : (l.countP fun x => p x) ≤ l.countP fun x => q x := by
      apply List.countP_mono_left
      intro y hy hp
      exact decide_eq_true (h.2 y hy (of_decide_eq_true hp))
    rw [List.forall_mem_cons, ← ih h.2, List.countP_cons, List.countP_cons]
    by_cases hp : p x
    · simp [hp, h.1 hp]
    · by_cases hq : q x
      · simp only [hp, hq, decide_false, decide_true, if_true]
        constructor
        · intro heq
          simp only [Bool.false_eq_true, if_false] at heq
          omega
        · rintro ⟨himp, -⟩
          cases himp trivial
      · simp [hp, hq]

section
variable {u : CharTables} (hu : u.Unicode) {lower : Text → Text} {rows : List (List Text)}
include hu

/-- A row whose second field is flagged if its message is. -/
theorem flags_eq_joined {row : List Text} {text : Text} (htext : text ∈ row[1]?)
    (hflag : flags u (joinedText row) = true → flags u text = true) :
    flags u text = flags u (joinedText row) :=
  Bool.eq_iff_iff.mpr ⟨flagged_joined hu htext, hflag⟩

theorem countP_verdict {l : Label} (b : Bool)
    (hall : ∀ row ∈ rows, rowLabel lower row = some l →
      ∃ text ∈ row[1]?, flags u (joinedText row) = true → flags u text = true) :
    (rows.countP fun row => verdict u lower row = some (l.verdict, if b then .spam else .ham)) =
      rows.countP fun row => rowLabel lower row = some l ∧ flags u (joinedText row) = b := by
  apply List.countP_congr
  intro row hrow
  rw [decide_eq_true_eq, decide_eq_true_eq, verdict_eq_iff]
  refine and_congr_right fun hl => ?_
  obtain ⟨text, htext, hflag⟩ := hall row hrow hl
  rw [← flags_eq_joined hu htext hflag]
  constructor
  · rintro ⟨text', htext', hflag'⟩
    obtain rfl : text = text' := Option.some.inj (htext.symm.trans htext')
    exact hflag'
  · intro hflag'
    exact ⟨text, htext, hflag'⟩

/-- The rows with one label are counted alike if they have messages, flagged by their second fields. -/
theorem counts_iff (l : Label) :
    ((rows.countP fun row => verdict u lower row = some (l.verdict, .spam)) =
        (rows.countP fun row => rowLabel lower row = some l ∧ flags u (joinedText row) = true) ∧
      (rows.countP fun row => verdict u lower row = some (l.verdict, .ham)) =
        rows.countP fun row => rowLabel lower row = some l ∧ flags u (joinedText row) = false) ↔
    ∀ row ∈ rows, rowLabel lower row = some l →
      ∃ text ∈ row[1]?, flags u (joinedText row) = true → flags u text = true := by
  have hspam : ∀ row, verdict u lower row = some (l.verdict, .spam) ↔
      rowLabel lower row = some l ∧ ∃ text ∈ row[1]?, flags u text = true :=
    fun _ => verdict_eq_iff (b := true)
  have hham : ∀ row, verdict u lower row = some (l.verdict, .ham) ↔
      rowLabel lower row = some l ∧ ∃ text ∈ row[1]?, flags u text = false :=
    fun _ => verdict_eq_iff (b := false)
  have himp : ∀ row ∈ rows, verdict u lower row = some (l.verdict, .spam) →
      rowLabel lower row = some l ∧ flags u (joinedText row) = true := by
    intro row _ hverdict
    obtain ⟨hl, text, htext, hflag⟩ := (hspam row).mp hverdict
    exact ⟨hl, flagged_joined hu htext hflag⟩
  constructor
  · rintro ⟨hflagged, hmissed⟩
    have hflagged := (countP_eq_iff himp).mp hflagged
    have himp' : ∀ row ∈ rows, verdict u lower row = some (l.verdict, .ham) →
        rowLabel lower row = some l ∧ flags u (joinedText row) = false := by
      intro row hrow hverdict
      have hl := ((hham row).mp hverdict).1
      refine ⟨hl, ?_⟩
      rw [Bool.eq_false_iff]
      intro hjoined
      have hother := hflagged row hrow ⟨hl, hjoined⟩
      rw [hverdict] at hother
      cases hother
    have hmissed := (countP_eq_iff himp').mp hmissed
    intro row hrow hl
    cases hjoined : flags u (joinedText row) with
    | true =>
      obtain ⟨-, text, htext, hflag⟩ := (hspam row).mp (hflagged row hrow ⟨hl, hjoined⟩)
      exact ⟨text, htext, fun _ => hflag⟩
    | false =>
      obtain ⟨-, text, htext, -⟩ := (hham row).mp (hmissed row hrow ⟨hl, hjoined⟩)
      exact ⟨text, htext, fun hfalse => nomatch hfalse⟩
  · intro hall
    exact ⟨countP_verdict hu true hall, countP_verdict hu false hall⟩

end

/-- **When the two evaluators agree**: every labelled row has a message, and what is flagged of the
fields joined is flagged of the second alone. -/
theorem evaluators_iff (u : CharTables) (hu : u.Unicode) (lower : Text → Text)
    (rows : List (List Text)) :
    let s := (evaluateDataset (pyRe u) defaultRules silenceThreshold spamThreshold
      (readLabelledCsv lower rows)).1.stats
    let m := (evalMain (pyRe u) lower rows).2
    (m.tp = s.spamFlagged ∧ m.fp = s.hamFlagged ∧ m.tn = s.hamAllowed ∧ m.fn = s.spamMissed) ↔
      ∀ row ∈ rows, (rowLabel lower row).isSome = true →
        ∃ text ∈ row[1]?, flags u (joinedText row) = true → flags u text = true := by
  intro s m
  have hs : Counted (flags u) (readLabelledCsv lower rows) s :=
    evaluateDataset_counted (pyRe u) defaultRules silenceThreshold spamThreshold _
  have hlabels : (∀ row ∈ rows, (rowLabel lower row).isSome = true →
      ∃ text ∈ row[1]?, flags u (joinedText row) = true → flags u text = true) ↔
      ∀ l : Label, ∀ row ∈ rows, rowLabel lower row = some l →
        ∃ text ∈ row[1]?, flags u (joinedText row) = true → flags u text = true := by
    constructor
    · intro hall l row hrow hl
      exact hall row hrow (Option.isSome_iff_exists.mpr ⟨l, hl⟩)
    · intro hall row hrow hsome
      obtain ⟨l, hl⟩ := Option.isSome_iff_exists.mp hsome
      exact hall l row hrow hl
  rw [hlabels, hs.spamFlagged, hs.hamFlagged, hs.hamAllowed, hs.spamMissed]
  simp only [countP_readLabelledCsv]
  have hconf : ∀ key, (evalMain (pyRe u) lower rows).1.confusion key =
      rows.countP fun row => verdict u lower row = some key := evalMain_confusion u lower rows
  constructor
  · rintro ⟨htp, hfp, htn, hfn⟩ l
    cases l with
    | ham => exact (counts_iff hu .ham).mp ⟨(hconf _).symm.trans hfp, (hconf _).symm.trans htn⟩
    | spam => exact (counts_iff hu .spam).mp ⟨(hconf _).symm.trans htp, (hconf _).symm.trans hfn⟩
  · intro hall
    obtain ⟨htp, hfn⟩ := (counts_iff hu .spam).mpr (hall .spam)
    obtain ⟨hfp, htn⟩ := (counts_iff hu .ham).mpr (hall .ham)
    exact ⟨(hconf _).trans htp, (hconf _).trans hfp, (hconf _).trans htn, (hconf _).trans hfn⟩

/-- A header and a row of two fields. -/
theorem evaluators_iff_two :
    (evalMain (pyRe .ascii) (List.map Char.toLower)
      [["Label".toList, "Text".toList], ["Spam".toList, "Stop".toList]]).2.tp =
    (evaluateDataset (pyRe .ascii) defaultRules silenceThreshold spamThreshold
      (readLabelledCsv (List.map Char.toLower)
        [["Label".toList, "Text".toList], ["Spam".toList, "Stop".toList]])).1.stats.spamFlagged := by
  refine ((evaluators_iff .ascii CharTables.ascii_unicode (List.map Char.toLower)
    [["Label".toList, "Text".toList], ["Spam".toList, "Stop".toList]]).mpr ?_).1
  intro row hrow _
  rcases List.mem_pair.mp hrow with rfl | rfl
  · exact ⟨"Text".toList, rfl, fun hflag => hflag⟩
  · exact ⟨"Stop".toList, rfl, fun hflag => hflag⟩

/-- A row with nothing but its label. -/
theorem evaluators_differ : ¬ ∀ rows : List (List Text),
    let s := (evaluateDataset (pyRe .ascii) defaultRules silenceThreshold spamThreshold
      (readLabelledCsv (List.map Char.toLower) rows)).1.stats
    let m := (evalMain (pyRe .ascii) (List.map Char.toLower) rows).2
    m.tp = s.spamFlagged ∧ m.fp = s.hamFlagged ∧ m.tn = s.hamAllowed ∧ m.fn = s.spamMissed := by
  intro hall
  have hs := evaluateDataset_counted (pyRe .ascii) defaultRules silenceThreshold spamThreshold
    (readLabelledCsv (List.map Char.toLower) [["spam".toList]])
  obtain ⟨-, -, -, hfn⟩ := hall [["spam".toList]]
  have hlabel : rowLabel (List.map Char.toLower) ["spam".toList] = some .spam := by decide
  have hflag : flagged (pyRe .ascii) defaultRules silenceThreshold spamThreshold
      (joinedText ["spam".toList]) = false := not_flagged_short .ascii rfl
  rw [hs.spamMissed, countP_readLabelledCsv] at hfn
  simp only [List.countP_singleton, hlabel, hflag] at hfn
  cases hfn

end NeoDCT.SpamFilter
