import NeoDCT.SpamFilter

/-!
# Evaluating a data set

`evaluate_dataset` of tests/spam-filter/main.py: seven counters and two lists of examples, which a loop
over the labelled rows keeps.  The counters are counts of rows (`Counted`), one row at a time, and what
they count is said by the score alone:

    flagged  ↔  min silence spam ≤ score       (flagged_iff)
-/

namespace NeoDCT.SpamFilter

open PyText PyRegex

inductive Label where
  | ham
  | spam
deriving DecidableEq, Repr

/-- What `decide_action` returns. -/
def Action.text : Action → Text
  | .inboxNotify => "INBOX_NOTIFY".toList
  | .silence => "SILENCE (keep in inbox)".toList
  | .spamFolder => "SPAM_FOLDER (silent)".toList

/-- The counters of `stats`. -/
structure Stats where
  total : ℕ
  ham : ℕ
  spam : ℕ
  hamFlagged : ℕ
  spamMissed : ℕ
  spamFlagged : ℕ
  hamAllowed : ℕ
deriving DecidableEq, Repr

def Stats.zero : Stats := ⟨0, 0, 0, 0, 0, 0, 0⟩

/-- A row that went wrong. -/
structure Mistake where
  score : ℤ
  action : Action
  text : Text
deriving DecidableEq

/-- What the loop keeps. -/
structure Evaluation where
  stats : Stats
  /-- Ham, but flagged. -/
  fpExamples : List Mistake
  /-- Spam, but not flagged. -/
  fnExamples : List Mistake
deriving DecidableEq

/-- The first twenty are kept. -/
def keepExample (examples : List Mistake) (m : Mistake) : List Mistake :=
  if examples.length < 20 then examples ++ [m] else examples

section
variable (re : Re) (rules : List Rule) (silenceThreshold spamThreshold : ℤ)

def actionOf (text : Text) : Action :=
  decideAction (scoreMessage re text rules).1 silenceThreshold spamThreshold

def flagged (text : Text) : Bool :=
  (actionOf re rules silenceThreshold spamThreshold text).text ≠ "INBOX_NOTIFY".toList

/-- The loop's body. -/
def evaluateRow (e : Evaluation) (row : Label × Text) : Evaluation :=
  let mistake : Mistake :=
    ⟨(scoreMessage re row.2 rules).1, actionOf re rules silenceThreshold spamThreshold row.2, row.2⟩
  match row.1, flagged re rules silenceThreshold spamThreshold row.2 with
  | .ham, true =>
    { e with
      stats := { e.stats with
        total := e.stats.total + 1, ham := e.stats.ham + 1, hamFlagged := e.stats.hamFlagged + 1 }
      fpExamples := keepExample e.fpExamples mistake }
  | .ham, false =>
    { e with
      stats := { e.stats with
        total := e.stats.total + 1, ham := e.stats.ham + 1, hamAllowed := e.stats.hamAllowed + 1 } }
  | .spam, true =>
    { e with
      stats := { e.stats with
        total := e.stats.total + 1, spam := e.stats.spam + 1, spamFlagged := e.stats.spamFlagged + 1 } }
  | .spam, false =>
    { e with
      stats := { e.stats with
        total := e.stats.total + 1, spam := e.stats.spam + 1, spamMissed := e.stats.spamMissed + 1 }
      fnExamples := keepExample e.fnExamples mistake }

/-- The derived metrics. -/
structure Rates where
  falsePositiveRate : ℚ
  falseNegativeRate : ℚ
  spamRecall : ℚ
  hamSpecificity : ℚ
deriving DecidableEq

/-- `stats["ham"] or 1`, and the same for spam. -/
def Stats.rates (s : Stats) : Rates :=
  let ham : ℚ := if s.ham = 0 then 1 else s.ham
  let spam : ℚ := if s.spam = 0 then 1 else s.spam
  ⟨s.hamFlagged / ham, s.spamMissed / spam, s.spamFlagged / spam, s.hamAllowed / ham⟩

def evaluateDataset (rows : List (Label × Text)) : Evaluation × Rates :=
  let e := rows.foldl (evaluateRow re rules silenceThreshold spamThreshold) ⟨.zero, [], []⟩
  (e, e.stats.rates)

end

/-! ## What is counted -/

/-- Counters that count, of each label, the rows that `flag` flags and those that it does not. -/
structure Counted (flag : Text → Bool) (rows : List (Label × Text)) (s : Stats) : Prop where
  total : s.total = rows.length
  ham : s.ham = rows.countP fun row => row.1 = .ham
  spam : s.spam = rows.countP fun row => row.1 = .spam
  hamFlagged : s.hamFlagged = rows.countP fun row => row.1 = .ham ∧ flag row.2 = true
  spamMissed : s.spamMissed = rows.countP fun row => row.1 = .spam ∧ flag row.2 = false
  spamFlagged : s.spamFlagged = rows.countP fun row => row.1 = .spam ∧ flag row.2 = true
  hamAllowed : s.hamAllowed = rows.countP fun row => row.1 = .ham ∧ flag row.2 = false

/-- Counters are what they count. -/
theorem Counted.unique {flag : Text → Bool} {rows : List (Label × Text)} {s s' : Stats}
    (h : Counted flag rows s) (h' : Counted flag rows s') : s = s' := by
  cases s
  cases s'
  obtain ⟨rfl, rfl, rfl, rfl, rfl, rfl, rfl⟩ := h
  obtain ⟨rfl, rfl, rfl, rfl, rfl, rfl, rfl⟩ := h'
  rfl

theorem Counted.perm {flag : Text → Bool} {rows rows' : List (Label × Text)} {s : Stats}
    (h : Counted flag rows s) (hperm : rows.Perm rows') : Counted flag rows' s where
  total := h.total.trans hperm.length_eq
  ham := h.ham.trans (hperm.countP_eq _)
  spam := h.spam.trans (hperm.countP_eq _)
  hamFlagged := h.hamFlagged.trans (hperm.countP_eq _)
  spamMissed := h.spamMissed.trans (hperm.countP_eq _)
  spamFlagged := h.spamFlagged.trans (hperm.countP_eq _)
  hamAllowed := h.hamAllowed.trans (hperm.countP_eq _)

/-- A row has one label. -/
theorem Counted.total_eq {flag : Text → Bool} {rows : List (Label × Text)} {s : Stats}
    (h : Counted flag rows s) : s.total = s.ham + s.spam := by
  rw [h.total, h.ham, h.spam, List.length_eq_countP_add_countP fun row => row.1 = Label.ham]
  congr 1
  apply List.countP_congr
  intro row _
  cases row.1 <;> decide

/-- Of the rows with one label, some are flagged and the others are not. -/
theorem countP_flag (flag : Text → Bool) (rows : List (Label × Text)) (l : Label) :
    (rows.countP fun row => row.1 = l) =
      (rows.countP fun row => row.1 = l ∧ flag row.2 = true) +
      rows.countP fun row => row.1 = l ∧ flag row.2 = false := by
  induction rows with
  | nil => rfl
  | cons row rows ih =>
    simp only [List.countP_cons, ih]
    by_cases hl : row.1 = l
    · cases flag row.2 <;> simp [hl] <;> omega
    · simp [hl]

section
variable {re : Re} {rules : List Rule} {silence spam : ℤ}

/-- One more row is counted. -/
theorem Counted.evaluateRow {rows : List (Label × Text)} {e : Evaluation}
    (h : Counted (flagged re rules silence spam) rows e.stats) (row : Label × Text) :
    Counted (flagged re rules silence spam) (rows ++ [row])
      (evaluateRow re rules silence spam e row).stats := by
  obtain ⟨label, text⟩ := row
  obtain ⟨htotal, hham, hspam, hhamFlagged, hspamMissed, hspamFlagged, hhamAllowed⟩ := h
  unfold SpamFilter.evaluateRow
  cases hflag : flagged re rules silence spam text <;> cases label <;>
    constructor <;> simp [List.countP_append, *]

theorem evaluateDataset_counted (re : Re) (rules : List Rule) (silence spam : ℤ)
    (rows : List (Label × Text)) :
    Counted (flagged re rules silence spam) rows
      (evaluateDataset re rules silence spam rows).1.stats := by
  unfold evaluateDataset
  induction rows using List.reverseRecOn with
  | nil => exact ⟨rfl, rfl, rfl, rfl, rfl, rfl, rfl⟩
  | append_singleton rows row ih =>
    rw [List.foldl_append]
    exact ih.evaluateRow row

/-- The string comparison is one of the score. -/
theorem flagged_iff (text : Text) :
    flagged re rules silence spam text = true ↔ min silence spam ≤ (scoreMessage re text rules).1 := by
  unfold flagged actionOf decideAction
  rw [decide_eq_true_eq, min_le_iff]
  by_cases hspam : (scoreMessage re text rules).1 ≥ spam
  · rw [if_pos hspam]
    exact iff_of_true (by decide) (Or.inr hspam)
  · by_cases hsilence : (scoreMessage re text rules).1 ≥ silence
    · rw [if_neg hspam, if_pos hsilence]
      exact iff_of_true (by decide) (Or.inl hsilence)
    · rw [if_neg hspam, if_neg hsilence]
      exact iff_of_false (by decide) (not_or_intro hsilence hspam)

/-- What is flagged under higher thresholds is flagged under lower ones. -/
theorem flagged_anti {silence' spam' : ℤ} (hsilence : silence ≤ silence') (hspam : spam ≤ spam')
    {text : Text} (h : flagged re rules silence' spam' text = true) :
    flagged re rules silence spam text = true := by
  rw [flagged_iff] at h ⊢
  exact (min_le_min hsilence hspam).trans h

theorem countP_flagged_anti {silence' spam' : ℤ} (hsilence : silence ≤ silence') (hspam : spam ≤ spam')
    (rows : List (Label × Text)) (l : Label) :
    (rows.countP fun row => row.1 = l ∧ flagged re rules silence' spam' row.2 = true) ≤
      rows.countP fun row => row.1 = l ∧ flagged re rules silence spam row.2 = true := by
  apply List.countP_mono_left
  intro row _ h
  rw [decide_eq_true_eq] at h ⊢
  exact ⟨h.1, flagged_anti hsilence hspam h.2⟩

end

/-- **The counts of `evaluate_dataset`**: they add up, they count the rows whose scores reach the lower
threshold, the order of the rows is nothing to them, and higher thresholds flag no more. -/
theorem evaluateDataset_counts (re : Re) (rules : List Rule) (silence spam : ℤ)
    (rows : List (Label × Text)) :
    let s := (evaluateDataset re rules silence spam rows).1.stats
    (s.total = s.ham + s.spam ∧ s.ham = s.hamFlagged + s.hamAllowed ∧
      s.spam = s.spamFlagged + s.spamMissed) ∧
    ((∀ text, flagged re rules silence spam text = true ↔
        min silence spam ≤ (scoreMessage re text rules).1) ∧
      s.hamFlagged = (rows.countP fun row =>
        row.1 = .ham ∧ min silence spam ≤ (scoreMessage re row.2 rules).1) ∧
      s.spamFlagged = rows.countP fun row =>
        row.1 = .spam ∧ min silence spam ≤ (scoreMessage re row.2 rules).1) ∧
    (∀ rows', rows'.Perm rows →
      (evaluateDataset re rules silence spam rows').1.stats = s ∧
      (evaluateDataset re rules silence spam rows').2 =
        (evaluateDataset re rules silence spam rows).2) ∧
    ∀ silence' spam', silence ≤ silence' → spam ≤ spam' →
      (evaluateDataset re rules silence' spam' rows).1.stats.hamFlagged ≤ s.hamFlagged ∧
      (evaluateDataset re rules silence' spam' rows).1.stats.spamFlagged ≤ s.spamFlagged := by
  intro s
  have hs : Counted (flagged re rules silence spam) rows s :=
    evaluateDataset_counted re rules silence spam rows
  refine ⟨⟨hs.total_eq, ?_, ?_⟩, ⟨fun text => flagged_iff text, ?_, ?_⟩, ?_, ?_⟩
  · rw [hs.ham, hs.hamFlagged, hs.hamAllowed]
    exact countP_flag _ rows .ham
  · rw [hs.spam, hs.spamFlagged, hs.spamMissed]
    exact countP_flag _ rows .spam
  · simp only [hs.hamFlagged, flagged_iff]
  · simp only [hs.spamFlagged, flagged_iff]
  · intro rows' hperm
    have hstats : (evaluateDataset re rules silence spam rows').1.stats = s :=
      ((evaluateDataset_counted re rules silence spam rows').perm hperm).unique hs
    exact ⟨hstats, congrArg Stats.rates hstats⟩
  · intro silence' spam' hsilence hspam
    have hs' := evaluateDataset_counted re rules silence' spam' rows
    rw [hs'.hamFlagged, hs.hamFlagged, hs'.spamFlagged, hs.spamFlagged]
    exact ⟨countP_flagged_anti hsilence hspam rows .ham, countP_flagged_anti hsilence hspam rows .spam⟩

/-- One message, as ham and as spam. -/
theorem evaluateDataset_counts_swap :
    (evaluateDataset (pyRe .ascii) [rule "a" "stop" 25] 20 50
      [(.spam, "hi".toList), (.ham, "stop".toList)]).1.stats =
    (evaluateDataset (pyRe .ascii) [rule "a" "stop" 25] 20 50
      [(.ham, "stop".toList), (.spam, "hi".toList)]).1.stats :=
  ((evaluateDataset_counts (pyRe .ascii) [rule "a" "stop" 25] 20 50
    [(.ham, "stop".toList), (.spam, "hi".toList)]).2.2.1
      [(.spam, "hi".toList), (.ham, "stop".toList)] (.swap _ _ _)).1

end NeoDCT.SpamFilter
