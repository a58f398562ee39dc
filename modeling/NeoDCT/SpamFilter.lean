import NeoDCT.Lib.PyRegex

/-!
# The spam filter

The scoring engine of tests/spam-filter/main.py: rules that are regular expressions with weights, and
four tests of the message's form.  `re` is a parameter (`Re`); `pyRe` is Python's, for the patterns of
`defaultRules` and of the tests.

A longer message scores no less: what is found in a message is found in every message that has it
between spaces (`padding`).
-/

namespace NeoDCT.SpamFilter

open PyText PyRegex

/-- Python's `re`: compiling a pattern, with or without IGNORECASE, raises `re.error` with a message,
or gives a search for what a match's `group(0)` is. -/
structure Re where
  compile : Text → Bool → Except Text (Text → Option Text)

/-- `re`, for the patterns that `parse` reads. -/
def pyRe (u : CharTables) : Re where
  compile pattern ignoreCase :=
    match parse pattern with
    | some r => .ok (find u ignoreCase r)
    | none => .error "unsupported pattern".toList

/-- `re.search(pattern, text)` is not `None`. -/
def Re.found (re : Re) (pattern : Text) (ignoreCase : Bool) (text : Text) : Bool :=
  match re.compile pattern ignoreCase with
  | .ok search => (search text).isSome
  | .error _ => false

/-! ## Rules -/

/-- A rule's dictionary. -/
structure Rule where
  name : Option Text
  pattern : Text
  weight : Option ℤ
  flags : Option Text
deriving DecidableEq

structure Hit where
  name : Text
  weight : ℤ
  snippet : Text
deriving DecidableEq

/-- A rule of `DEFAULT_RULES`. -/
def rule (name pattern : String) (weight : ℤ) : Rule where
  name := some name.toList
  pattern := pattern.toList
  weight := some weight
  flags := some "i".toList

/-- `DEFAULT_RULES`. -/
def defaultRules : List Rule := [
  rule "Opt-out language (STOP/unsubscribe)"
    r"\b(stop2end|unsubscribe|reply\s+stop|text\s+stop|stop\s+to\s+opt\s*out|stop)\b" 25,
  rule "Donation ask"
    r"\b(donate|donation|chip\s+in|contribute|fundrais|match\s+activated|give\s+\$?\d+)\b" 20,
  rule "Urgency / pressure"
    r"\b(urgent|final\s+notice|act\s+now|last\s+chance|midnight|immediately|today\s+only)\b" 10,
  rule "Election / voter persuasion"
    (r"\b(election|polls?\s+show|voter\s+record|vote\s+matters|democracy\s+is\s+under\s+attack|" ++
      r"patriot|campaign)\b") 12,
  rule "Political entities (low weight)"
    (r"\b(" ++
      r"democrats?|dems?|the\s+dems|liberals?|" ++
      r"republicans?|gop|conservatives?|" ++
      r"communists?|commies?|commie|" ++
      r"fascists?|fascist|" ++
      r"joe\s+biden|biden|sleepy\s+joe|" ++
      r"kamala\s+harris|harris|" ++
      r"donald\s+trump|trump|president\s+trump" ++
      r")\b") 5,
  rule "Impersonal greeting"
    r"\b(hello\s+friend|dear\s+voter|fellow\s+american)\b" 12,
  rule "Prize / winnings / gift card"
    r"\b(winner|won|gift\s*card|claim\s+now|limited\s+time\s+offer)\b" 16,
  rule "Bank/verification bait"
    r"\b(verify|suspended|locked|security\s+alert|unusual\s+activity|one[-\s]?time\s+code)\b" 14,
  rule "Carrier billing / pricing language"
    (r"\b(£\s?\d+(\.\d+)?|\d+\s?p(?:\/day)?|p\/day|per\s+min|\/min|std\s*(?:txt|text)\s*rate|" ++
      r"std\s*chgs?|t&c'?s?\s*apply|tsandcs\s*apply)\b") 25,
  rule "Shortcode instruction (txt/reply/send to 4–6 digits)"
    r"\b(text|txt|send|reply)\b.*\b(to|2)\b.*\b\d{4,6}\b" 25]

/-- `URL_RE`. -/
def urlPattern : Text := r"(https?://\S+|www\.\S+)".toList

/-- `SHORTLINK_RE`. -/
def shortlinkPattern : Text :=
  r"\b(bit\.ly|tinyurl\.com|t\.co|rb\.gy|is\.gd|rebrand\.ly)\b".toList

def allCapsPattern : Text := r"\b[A-Z]{5,}\b".toList

theorem rule_parse {name pattern : String} {weight : ℤ}
    (h : (parse pattern.toList).isSome = true) :
    (parse (rule name pattern weight).pattern).isSome = true := h

-- The literals become lists before the parser runs on them.
set_option maxRecDepth 4000 in
theorem defaultRules_parse : ∀ r ∈ defaultRules, (parse r.pattern).isSome = true := by
  unfold defaultRules
  simp only [List.forall_mem_cons]
  refine ⟨rule_parse ?_, rule_parse ?_, rule_parse ?_, rule_parse ?_, rule_parse ?_, rule_parse ?_,
    rule_parse ?_, rule_parse ?_, rule_parse ?_, rule_parse ?_, fun r hr => nomatch hr⟩
  any_goals simp only [String.toList_append]
  all_goals
    repeat rw [String.toList_ofList]
    decide +kernel

theorem signals_parse :
    ∀ p ∈ [urlPattern, shortlinkPattern, allCapsPattern], (parse p).isSome = true := by
  decide +kernel

theorem rule_weight {name pattern : String} {weight : ℤ} :
    (rule name pattern weight).weight.getD 0 = weight := rfl

theorem defaultRules_weight : ∀ r ∈ defaultRules, 0 ≤ r.weight.getD 0 := by
  unfold defaultRules
  simp only [List.forall_mem_cons, rule_weight]
  simp

/-! ## Scoring -/

def normalize (text : Text) : Text := strip text

/-- `r.get("flags", "") == "i"`. -/
def Rule.ignoreCase (r : Rule) : Bool := r.flags.getD [] = "i".toList

def Rule.title (r : Rule) : Text := r.name.getD "(unnamed)".toList

def snippet (m : Text) : Text := if 50 < m.length then m.take 50 ++ "…".toList else m

/-- The loop's body: the total and the hits so far. -/
def applyRule (re : Re) (t : Text) (acc : ℤ × List Hit) (r : Rule) : ℤ × List Hit :=
  match re.compile r.pattern r.ignoreCase with
  | .error e => (acc.1, acc.2 ++ [⟨"[INVALID REGEX] ".toList ++ r.title, 0, e⟩])
  | .ok search =>
    match search t with
    | none => acc
    | some m => (acc.1 + r.weight.getD 0, acc.2 ++ [⟨r.title, r.weight.getD 0, snippet m⟩])

/-- A structural signal. -/
def addSignal (fires : Bool) (name : String) (weight : ℤ) (snippet : String)
    (acc : ℤ × List Hit) : ℤ × List Hit :=
  if fires then (acc.1 + weight, acc.2 ++ [⟨name.toList, weight, snippet.toList⟩]) else acc

def hasUrl (re : Re) (t : Text) : Bool := re.found urlPattern true t

def hasShortlink (re : Re) (t : Text) : Bool := re.found shortlinkPattern true t

def hasPunctuation (t : Text) : Bool := "!!!".toList <:+: t ∨ "???".toList <:+: t

def hasAllCaps (re : Re) (t : Text) : Bool := re.found allCapsPattern false t

def scoreMessage (re : Re) (text : Text) (rules : List Rule) : ℤ × List Hit :=
  let t := normalize text
  if t = [] then (0, [])
  else
    let acc := rules.foldl (applyRule re t) (0, [])
    let acc := addSignal (hasUrl re t) "Contains URL" 20 "url" acc
    let acc := addSignal (hasShortlink re t) "Shortlink domain" 10 "shortlink" acc
    let acc := addSignal (hasPunctuation t) "Excessive punctuation" 6 "!!!/???" acc
    addSignal (hasAllCaps re t) "All-caps token" 6 "ALLCAPS" acc

inductive Action where
  | inboxNotify
  | silence
  | spamFolder
deriving DecidableEq, Repr

def decideAction (score silenceThreshold spamThreshold : ℤ) : Action :=
  if score ≥ spamThreshold then .spamFolder
  else if score ≥ silenceThreshold then .silence
  else .inboxNotify

/-! ## What a score is made of -/

/-- What a rule adds to the score. -/
def Rule.points (re : Re) (t : Text) (r : Rule) : ℤ :=
  if re.found r.pattern r.ignoreCase t then r.weight.getD 0 else 0

theorem applyRule_total (re : Re) (t : Text) (acc : ℤ × List Hit) (r : Rule) :
    (applyRule re t acc r).1 = acc.1 + r.points re t := by
  unfold applyRule Rule.points Re.found
  cases re.compile r.pattern r.ignoreCase with
  | error e => exact (add_zero acc.1).symm
  | ok search =>
    cases hm : search t with
    | none => simp [hm]
    | some m => simp [hm]

theorem foldl_applyRule_total (re : Re) (t : Text) (rules : List Rule) (acc : ℤ × List Hit) :
    (rules.foldl (applyRule re t) acc).1 = acc.1 + (rules.map (Rule.points re t)).sum := by
  induction rules generalizing acc with
  | nil => exact (add_zero acc.1).symm
  | cons r rules ih =>
    rw [List.foldl_cons, ih, applyRule_total, List.map_cons, List.sum_cons, add_assoc]

theorem addSignal_total (fires : Bool) (name : String) (weight : ℤ) (snippet : String)
    (acc : ℤ × List Hit) :
    (addSignal fires name weight snippet acc).1 = acc.1 + if fires then weight else 0 := by
  unfold addSignal
  split
  next => rfl
  next => exact (add_zero acc.1).symm

/-- What the structural signals add. -/
def signalPoints (re : Re) (t : Text) : ℤ :=
  (if hasUrl re t then 20 else 0) + (if hasShortlink re t then 10 else 0) +
    (if hasPunctuation t then 6 else 0) + if hasAllCaps re t then 6 else 0

theorem scoreMessage_total (re : Re) (text : Text) (rules : List Rule) :
    (scoreMessage re text rules).1 = if normalize text = [] then 0 else
      (rules.map (Rule.points re (normalize text))).sum + signalPoints re (normalize text) := by
  unfold scoreMessage signalPoints
  dsimp only
  split
  next => rfl
  next =>
    rw [addSignal_total, addSignal_total, addSignal_total, addSignal_total, foldl_applyRule_total]
    ring

/-! ## A longer message -/

theorem Re.found_flanked {u : CharTables} {pattern part text : Text} {ignoreCase : Bool}
    (hpart : Flanked (u.isWord · = false) part text)
    (h : (pyRe u).found pattern ignoreCase part = true) :
    (pyRe u).found pattern ignoreCase text = true := by
  unfold Re.found pyRe at h ⊢
  dsimp only at h ⊢
  cases hp : parse pattern with
  | none =>
    rw [hp] at h
    cases h
  | some r =>
    rw [hp] at h
    exact find_flanked hpart h

theorem hasPunctuation_mono {part text : Text} (hpart : part <:+: text)
    (h : hasPunctuation part = true) : hasPunctuation text = true := by
  unfold hasPunctuation at h ⊢
  rw [decide_eq_true_eq] at h ⊢
  rcases h with h | h
  · exact Or.inl (h.trans hpart)
  · exact Or.inr (h.trans hpart)

/-- Points that are given under a condition that is kept. -/
theorem ite_le_ite {p q : Prop} [Decidable p] [Decidable q] {w : ℤ} (hw : 0 ≤ w) (h : p → q) :
    (if p then w else 0) ≤ if q then w else 0 := by
  by_cases hp : p
  · rw [if_pos hp, if_pos (h hp)]
  · rw [if_neg hp]
    split <;> omega

theorem signalPoints_flanked {u : CharTables} {part text : Text}
    (hpart : Flanked (u.isWord · = false) part text) :
    signalPoints (pyRe u) part ≤ signalPoints (pyRe u) text := by
  unfold signalPoints
  refine add_le_add (add_le_add (add_le_add ?_ ?_) ?_) ?_
  · exact ite_le_ite (by omega) (Re.found_flanked hpart)
  · exact ite_le_ite (by omega) (Re.found_flanked hpart)
  · exact ite_le_ite (by omega) (hasPunctuation_mono hpart.infix)
  · exact ite_le_ite (by omega) (Re.found_flanked hpart)

theorem signalPoints_nonneg (re : Re) (t : Text) : 0 ≤ signalPoints re t := by
  unfold signalPoints
  split <;> split <;> split <;> split <;> omega

section
variable {rules : List Rule} (hweight : ∀ r ∈ rules, 0 ≤ r.weight.getD 0)
include hweight

theorem sum_points_flanked {u : CharTables} {part text : Text}
    (hpart : Flanked (u.isWord · = false) part text) :
    (rules.map (Rule.points (pyRe u) part)).sum ≤ (rules.map (Rule.points (pyRe u) text)).sum := by
  apply List.sum_le_sum
  intro r hr
  exact ite_le_ite (hweight r hr) (Re.found_flanked hpart)

theorem scoreMessage_nonneg (re : Re) (text : Text) : 0 ≤ (scoreMessage re text rules).1 := by
  rw [scoreMessage_total]
  split
  next => rfl
  next =>
    apply add_nonneg
    · apply List.sum_nonneg
      intro x hx
      obtain ⟨r, hr, rfl⟩ := List.mem_map.mp hx
      unfold Rule.points
      split
      next => exact hweight r hr
      next => rfl
    · exact signalPoints_nonneg re (normalize text)

/-- A message scores no more than any message that has it between characters that are no word
characters. -/
theorem scoreMessage_flanked {u : CharTables} {part text : Text}
    (hpart : Flanked (u.isWord · = false) part text) :
    (scoreMessage (pyRe u) part rules).1 ≤ (scoreMessage (pyRe u) text rules).1 := by
  by_cases hnil : normalize part = []
  · rw [scoreMessage_total, if_pos hnil]
    exact scoreMessage_nonneg hweight (pyRe u) text
  · have hstrip : Flanked (u.isWord · = false) (normalize part) (normalize text) :=
      ((flanked_of_setOff u (setOff_strip part)).trans hpart).strip hnil head?_strip getLast?_strip
    have hnil' : normalize text ≠ [] := by
      intro h
      rw [h] at hstrip
      exact hnil (List.eq_nil_of_infix_nil hstrip.infix)
    rw [scoreMessage_total, scoreMessage_total, if_neg hnil, if_neg hnil']
    exact add_le_add (sum_points_flanked hweight hstrip) (signalPoints_flanked hstrip)

/-- Whitespace is such a character. -/
theorem scoreMessage_setOff (u : CharTables) {part text : Text} (hpart : SetOff part text) :
    (scoreMessage (pyRe u) part rules).1 ≤ (scoreMessage (pyRe u) text rules).1 :=
  scoreMessage_flanked hweight (flanked_of_setOff u hpart)

end

/-- How far an action keeps a message away from the user. -/
def Action.severity : Action → Nat
  | .inboxNotify => 0
  | .silence => 1
  | .spamFolder => 2

theorem decideAction_mono {score score' : ℤ} (h : score ≤ score') (silence spam : ℤ) :
    (decideAction score silence spam).severity ≤ (decideAction score' silence spam).severity := by
  unfold decideAction
  by_cases hspam : score ≥ spam
  · rw [if_pos hspam, if_pos (le_trans hspam h)]
  · rw [if_neg hspam]
    by_cases hsilence : score ≥ silence
    · rw [if_pos hsilence, if_pos (le_trans hsilence h)]
      split <;> decide
    · rw [if_neg hsilence]
      exact Nat.zero_le _

/-- **Padding cannot hide spam**: a message with text before or after it scores no less, and what is
done with it is no milder. -/
theorem padding (u : CharTables) (m s : Text) :
    let score text := (scoreMessage (pyRe u) text defaultRules).1
    (score m ≤ score (m ++ ' ' :: s) ∧ score s ≤ score (m ++ ' ' :: s)) ∧
    ∀ silence spam, ∀ text ∈ [m, s],
      (decideAction (score text) silence spam).severity ≤
        (decideAction (score (m ++ ' ' :: s)) silence spam).severity := by
  intro score
  have hm : score m ≤ score (m ++ ' ' :: s) :=
    scoreMessage_setOff defaultRules_weight u (SetOff.append_space m s)
  have hs : score s ≤ score (m ++ ' ' :: s) :=
    scoreMessage_setOff defaultRules_weight u (SetOff.space_append m s)
  refine ⟨⟨hm, hs⟩, ?_⟩
  intro silence spam text htext
  rcases List.mem_pair.mp htext with rfl | rfl
  · exact decideAction_mono hm silence spam
  · exact decideAction_mono hs silence spam

end NeoDCT.SpamFilter
