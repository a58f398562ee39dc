import NeoDCT.Lib.PyUnicode
import NeoDCT.Spam.Hits

/-!
# The alternatives of the rules

Which messages a rule of `DEFAULT_RULES` has a hit in.  For a string that an alternative of `\b(…|…)\b`
matches in full, between spaces:

    the rule always hits  ↔  the string begins with a word character       (alternative_hits_iff)

since `\b` stands before the group.  So `£5` is nothing to the rule that has an alternative for it.
-/

namespace NeoDCT.SpamFilter

open PyText PyRegex Regex

/-! ## The hits of a rule -/

/-- `score_message` returns a hit of the rule. -/
def RuleHits (u : CharTables) (r : Rule) (text : Text) : Prop :=
  ∃ h ∈ (scoreMessage (pyRe u) text defaultRules).2, h.name = r.title

theorem rule_title {name pattern : String} {weight : ℤ} :
    (rule name pattern weight).title = name.toList := rfl

/-- A rule is told by its title, and from the signals. -/
theorem titles_nodup : (defaultRules.map Rule.title ++
    ["Contains URL".toList, "Shortlink domain".toList, "Excessive punctuation".toList,
      "All-caps token".toList]).Nodup := by
  unfold defaultRules
  simp only [List.map_cons, List.map_nil, rule_title, List.cons_append, List.nil_append]
  simp [-String.toList_ofList]

theorem defaultRules_ignoreCase : ∀ r ∈ defaultRules, r.ignoreCase = true := by
  have hflags : ∀ (name pattern : String) (weight : ℤ),
      (rule name pattern weight).ignoreCase = true := by
    intro name pattern weight
    exact decide_eq_true rfl
  unfold defaultRules
  simp only [List.forall_mem_cons, hflags]
  simp

section
variable {u : CharTables} {r : Rule} {t : Text}

theorem found_eq {p : Pattern} (hp : parse r.pattern = some p) :
    (pyRe u).found r.pattern r.ignoreCase t = (find u r.ignoreCase p t).isSome := by
  unfold Re.found pyRe
  simp only [hp]

theorem hits_eq {p : Pattern} (hp : parse r.pattern = some p) :
    r.hits (pyRe u) t =
      (find u r.ignoreCase p t).toList.map fun m => ⟨r.title, r.weight.getD 0, snippet m⟩ := by
  unfold Rule.hits pyRe
  simp only [hp]

/-- What the signals find has their names. -/
theorem name_of_mem_signalHits {fires : Bool} {name : String} {weight : ℤ} {snippet : String} {h : Hit}
    (hh : h ∈ signalHits fires name weight snippet) : h.name = name.toList := by
  unfold signalHits at hh
  split at hh
  next => rw [List.mem_singleton.mp hh]
  next => cases hh

/-- A rule has a hit if its pattern is found, and no other rule or signal has one in its name. -/
theorem exists_hit_iff (hr : r ∈ defaultRules) :
    (∃ h ∈ hitsOf (pyRe u) t defaultRules, h.name = r.title) ↔
      (pyRe u).found r.pattern r.ignoreCase t = true := by
  obtain ⟨p, hp⟩ := Option.isSome_iff_exists.mp (defaultRules_parse r hr)
  obtain ⟨hrules, -, hsignals⟩ := List.nodup_append.mp titles_nodup
  have hsignal : ∀ name ∈ ["Contains URL".toList, "Shortlink domain".toList,
      "Excessive punctuation".toList, "All-caps token".toList], name ≠ r.title :=
    fun name hname heq => hsignals r.title (List.mem_map_of_mem hr) name hname heq.symm
  rw [found_eq hp]
  constructor
  · rintro ⟨h, hh, hname⟩
    unfold hitsOf at hh
    simp only [List.mem_append, List.mem_flatMap] at hh
    rcases hh with (((⟨r', hr', hh⟩ | hh) | hh) | hh) | hh
    · obtain ⟨p', hp'⟩ := Option.isSome_iff_exists.mp (defaultRules_parse r' hr')
      rw [hits_eq hp'] at hh
      obtain ⟨m, hm, rfl⟩ := List.mem_map.mp hh
      obtain rfl : r' = r := List.inj_on_of_nodup_map hrules hr' hr hname
      obtain rfl : p' = p := Option.some.inj (hp'.symm.trans hp)
      exact Option.isSome_iff_exists.mpr ⟨m, Option.mem_toList.mp hm⟩
    all_goals
      rw [name_of_mem_signalHits hh] at hname
      exact absurd hname (hsignal _ (by simp))
  · intro hfound
    obtain ⟨m, hm⟩ := Option.isSome_iff_exists.mp hfound
    refine ⟨⟨r.title, r.weight.getD 0, snippet m⟩, ?_, rfl⟩
    have hmem : ⟨r.title, r.weight.getD 0, snippet m⟩ ∈ r.hits (pyRe u) t := by
      rw [hits_eq hp, hm]
      exact List.mem_singleton_self _
    unfold hitsOf
    simp only [List.mem_append, List.mem_flatMap]
    exact Or.inl (Or.inl (Or.inl (Or.inl ⟨r, hr, hmem⟩)))

theorem ruleHits_iff (hr : r ∈ defaultRules) {text : Text} (hne : normalize text ≠ []) :
    RuleHits u r text ↔ (pyRe u).found r.pattern r.ignoreCase (normalize text) = true := by
  unfold RuleHits
  rw [scoreMessage_eq, if_neg hne]
  exact exists_hit_iff hr

theorem not_space_of_startsWord {cs : Text} (h : startsWord u.isWord cs = true) :
    ∀ c ∈ cs.head?, isSpace c = false := by
  intro c hc
  rw [Bool.eq_false_iff]
  intro hspace
  have hword : startsWord u.isWord cs = false := by
    apply startsWord_of_head
    intro d hd
    obtain rfl : c = d := Option.some.inj (hc.symm.trans hd)
    exact u.not_word_of_space hspace
  rw [hword] at h
  cases h

/-- A pattern that is found in a part is found in the message, if the part stands apart in it. -/
theorem ruleHits_of_flanked (hr : r ∈ defaultRules) {p : Pattern} (hp : parse r.pattern = some p)
    {part text : Text} (hpart : Flanked (u.isWord · = false) part text) (hne : part ≠ [])
    (hstarts : startsWord u.isWord part = true) (hends : startsWord u.isWord part.reverse = true)
    (hfound : (find u true p part).isSome = true) : RuleHits u r text := by
  have hstrip : Flanked (u.isWord · = false) part (normalize text) := by
    refine hpart.strip hne (not_space_of_startsWord hstarts) fun c hc => ?_
    exact not_space_of_startsWord hends c (List.head?_reverse ▸ hc)
  have hnil : normalize text ≠ [] := by
    obtain ⟨left, right, heq, -⟩ := hstrip
    rw [heq]
    simp [hne]
  rw [ruleHits_iff hr hnil, found_eq hp, defaultRules_ignoreCase r hr]
  exact find_flanked hstrip hfound

end

/-! ## Alternatives -/

/-- All the alternatives of a pattern `\b(…|…)\b` are settled. -/
def settledPattern (pattern : Text) : Bool :=
  match (parse pattern).bind Expr.inner with
  | some g => g.alternatives.all (settled g)
  | none => true

theorem rule_settled {name pattern : String} {weight : ℤ}
    (h : settledPattern pattern.toList = true) :
    settledPattern (rule name pattern weight).pattern = true := h

-- The literals become lists before the parser runs on them.
set_option maxRecDepth 4000 in
theorem defaultRules_settled : ∀ r ∈ defaultRules, settledPattern r.pattern = true := by
  unfold defaultRules
  simp only [List.forall_mem_cons]
  refine ⟨rule_settled ?_, rule_settled ?_, rule_settled ?_, rule_settled ?_, rule_settled ?_,
    rule_settled ?_, rule_settled ?_, rule_settled ?_, rule_settled ?_, rule_settled ?_,
    fun r hr => nomatch hr⟩
  any_goals simp only [String.toList_append]
  all_goals
    repeat rw [String.toList_ofList]
    decide +kernel

theorem settled_of_mem {r : Rule} (hr : r ∈ defaultRules) {p g a : Pattern}
    (hp : parse r.pattern = some p) (hg : p.inner = some g) (ha : a ∈ g.alternatives) :
    settled g a = true := by
  have hsettled := defaultRules_settled r hr
  unfold settledPattern at hsettled
  rw [hp, Option.bind_some, hg] at hsettled
  exact List.all_eq_true.mp hsettled a ha

/-- Spaces around a text are stripped with its own. -/
theorem strip_spaces (text : Text) : strip (' ' :: text ++ [' ']) = strip text := by
  show ((text ++ [' ']).dropWhile isSpace).rdropWhile isSpace =
    (text.dropWhile isSpace).rdropWhile isSpace
  rw [List.dropWhile_append]
  split
  next hnil =>
    rw [List.isEmpty_iff.mp hnil]
    rfl
  next => exact List.rdropWhile_concat_pos _ _ _ rfl

/-- **When an alternative is alive**: a string that it matches in full has a hit wherever it stands
between spaces, if it begins with a word character.  Otherwise it has none where nothing else stands. -/
theorem alternative_hits_iff (u : CharTables) (hu : u.Unicode) (r : Rule) (hr : r ∈ defaultRules)
    (p g a : Pattern) (hp : parse r.pattern = some p) (hg : p.inner = some g)
    (ha : a ∈ g.alternatives) (w : Text) (hw : fullmatch u r.ignoreCase a w = true) :
    (∀ left right, RuleHits u r (left ++ ' ' :: w ++ ' ' :: right)) ↔
      startsWord u.isWord w = true := by
  rw [defaultRules_ignoreCase r hr] at hw
  have hsettled := settled_of_mem hr hp hg ha
  have hword := mem_words_of_fullmatch hw
  have hfind := find_bounded_iff hu hsettled hword ha
  rw [← Expr.eq_bounded hg] at hfind
  have hne := ne_nil_of_settled hsettled hword
  rw [← hfind]
  constructor
  · intro hall
    have hhits := hall [] []
    have hnormal : normalize ([] ++ ' ' :: w ++ [' ']) = strip w := strip_spaces w
    by_cases hnil : strip w = []
    · obtain ⟨h, hh, -⟩ := hhits
      rw [scoreMessage_eq, hnormal, if_pos hnil] at hh
      cases hh
    · rw [ruleHits_iff hr (hnormal ▸ hnil), found_eq hp, defaultRules_ignoreCase r hr, hnormal] at hhits
      exact find_setOff (setOff_strip w) hhits
  · intro hfound left right
    have hstarts := hfind.symm.trans hfound
    have hspace : u.isWord ' ' = false := u.not_word_of_space rfl
    have hpart : Flanked (u.isWord · = false) w (left ++ ' ' :: (w ++ ' ' :: right)) :=
      (Flanked.append hspace w right).trans (Flanked.prepend hspace left _)
    have hends := endsWord_of_settled hu hsettled hword
    rw [← List.cons_append, ← List.append_assoc] at hpart
    exact ruleHits_of_flanked hr hp hpart hne hstarts hends hfound

/-- Some alternative of a pattern `\b(…|…)\b` matches a text in full. -/
def someAlternative (u : CharTables) (ignoreCase : Bool) (pattern text : Text) : Bool :=
  ((parse pattern).bind Expr.inner).any fun g =>
    g.alternatives.any fun a => fullmatch u ignoreCase a text

theorem exists_of_someAlternative {u : CharTables} {ignoreCase : Bool} {pattern text : Text}
    (h : someAlternative u ignoreCase pattern text = true) :
    ∃ p g a, parse pattern = some p ∧ p.inner = some g ∧ a ∈ g.alternatives ∧
      fullmatch u ignoreCase a text = true := by
  obtain ⟨g, hg, h⟩ := (Option.any_eq_true _ _).mp h
  obtain ⟨a, ha, h⟩ := List.any_eq_true.mp h
  obtain ⟨p, hp, hg⟩ := Option.bind_eq_some_iff.mp hg
  exact ⟨p, g, a, hp, hg, ha, h⟩

/-- The rule on carrier billing. -/
def billingRule : Rule := defaultRules[8]

theorem billingRule_mem : billingRule ∈ defaultRules := List.getElem_mem _

-- The literals become lists before the parser runs on them.
set_option maxRecDepth 4000 in
/-- It has an alternative for prices in pounds, and does not find them. -/
theorem billingRule_price :
    someAlternative .ascii billingRule.ignoreCase billingRule.pattern "£5".toList = true ∧
    (pyRe .ascii).found billingRule.pattern billingRule.ignoreCase "£5".toList = false := by
  rw [defaultRules_ignoreCase _ billingRule_mem]
  unfold billingRule defaultRules
  simp only [List.getElem_cons_succ, List.getElem_cons_zero, rule, String.toList_append]
  repeat rw [String.toList_ofList]
  constructor <;> decide +kernel

/-- A price. -/
theorem alternative_hits_iff_price : ¬ ∀ left right,
    RuleHits .ascii billingRule (left ++ ' ' :: "£5".toList ++ ' ' :: right) := by
  obtain ⟨p, g, a, hp, hg, ha, hw⟩ := exists_of_someAlternative billingRule_price.1
  exact (alternative_hits_iff .ascii CharTables.ascii_unicode billingRule billingRule_mem p g a hp hg ha
    "£5".toList hw).not.mpr (by decide)

/-- ` £5 ` has no hit. -/
theorem alternative_hits_not : ¬ ∀ r ∈ defaultRules, ∀ p g a, parse r.pattern = some p →
    p.inner = some g → a ∈ g.alternatives → ∀ w, fullmatch .ascii r.ignoreCase a w = true →
    ∀ left right, RuleHits .ascii r (left ++ ' ' :: w ++ ' ' :: right) := by
  intro hall
  obtain ⟨p, g, a, hp, hg, ha, hw⟩ := exists_of_someAlternative billingRule_price.1
  have hhits := hall billingRule billingRule_mem p g a hp hg ha "£5".toList hw [] []
  have hnormal : normalize ([] ++ ' ' :: "£5".toList ++ [' ']) = "£5".toList := by decide
  have hne : normalize ([] ++ ' ' :: "£5".toList ++ [' ']) ≠ [] := by decide
  rw [ruleHits_iff billingRule_mem hne, hnormal, billingRule_price.2] at hhits
  cases hhits

/-! ## Asking for money -/

/-- `MONEY` of genmsg.py. -/
def money : List Text := [
  "donate".toList, "chip in".toList, "contribute".toList, "match activated".toList,
  "give $5".toList, "give $10".toList, "fundraising".toList]

/-- "Donation ask". -/
def donationRule : Rule := defaultRules[1]

theorem donationRule_mem : donationRule ∈ defaultRules := List.getElem_mem _

/-- What is to be looked at of a phrase: it is ASCII, it begins and ends with word characters, and its
last word is either found, or not even with the full stop after it. -/
def phraseChecks (p : Pattern) (x : Text) : Bool :=
  (x ++ ['.']).all (·.toNat < 128) && startsWord CharTables.ascii.isWord x &&
    startsWord CharTables.ascii.isWord x.reverse &&
    (find .ascii true p x).isSome = decide (x ≠ "fundraising".toList) &&
    (find .ascii true p (x ++ ['.'])).isSome = decide (x ≠ "fundraising".toList)

-- The literals become lists before the parser runs on them.
set_option maxRecDepth 4000 in
theorem money_checks : (parse donationRule.pattern).any (fun p =>
    p.atoms.all Atom.isAscii && money.all (phraseChecks p)) = true := by
  unfold donationRule defaultRules money phraseChecks
  simp only [List.getElem_cons_succ, List.getElem_cons_zero, rule]
  repeat rw [String.toList_ofList]
  decide +kernel

theorem startsWord_ascii {u : CharTables} (hu : u.Unicode) {cs : Text}
    (hcs : ∀ c ∈ cs, c.toNat < 128) :
    startsWord u.isWord cs = startsWord CharTables.ascii.isWord cs := by
  cases cs with
  | nil => rfl
  | cons c cs => exact isWord_ascii hu (hcs c List.mem_cons_self)

/-- The space before a phrase is stripped, the full stop is not. -/
theorem normalize_phrase {x : Text} (hne : x ≠ []) (hh : ∀ c ∈ x.head?, isSpace c = false) :
    normalize (' ' :: x ++ ['.']) = x ++ ['.'] := by
  have hphrase : x ++ ['.'] ≠ [] := List.append_ne_nil_of_left_ne_nil hne _
  have hhead : ∀ c ∈ (x ++ ['.']).head?, isSpace c = false := by
    rw [List.head?_append_of_ne_nil _ hne]
    exact hh
  have hlast : ∀ c ∈ (x ++ ['.']).getLast?, isSpace c = false := by
    intro c hc
    rw [List.getLast?_concat] at hc
    obtain rfl := Option.some.inj hc
    decide
  have h := strip_around [' '] [] hphrase hhead hlast
  rw [List.append_nil] at h
  exact h.trans (List.append_nil _)

section
variable {u : CharTables} (hu : u.Unicode) {x : Text} (hx : x ∈ money)
include hu hx

/-- What was looked at with ASCII's tables holds of the others too. -/
theorem money_phrase : ∃ p, parse donationRule.pattern = some p ∧ startsWord u.isWord x = true ∧
    startsWord u.isWord x.reverse = true ∧
    (find u true p x).isSome = decide (x ≠ "fundraising".toList) ∧
    (find u true p (x ++ ['.'])).isSome = decide (x ≠ "fundraising".toList) := by
  obtain ⟨p, hp, hchecks⟩ := (Option.any_eq_true _ _).mp money_checks
  obtain ⟨hatoms, hphrases⟩ := Bool.and_eq_true_iff.mp hchecks
  have hphrase := List.all_eq_true.mp hphrases x hx
  unfold phraseChecks at hphrase
  simp only [Bool.and_eq_true, List.all_eq_true, decide_eq_true_eq] at hphrase
  obtain ⟨⟨⟨⟨hascii, hstarts⟩, hends⟩, hfind⟩, hstop⟩ := hphrase
  have hasciix : ∀ c ∈ x, c.toNat < 128 := fun c hc => hascii c (List.mem_append_left _ hc)
  refine ⟨p, hp, ?_, ?_, ?_, ?_⟩
  · rw [startsWord_ascii hu hasciix, hstarts]
  · rw [startsWord_ascii hu fun c hc => hasciix c (List.mem_reverse.mp hc), hends]
  · rw [find_ascii hu hatoms hasciix, hfind]
  · rw [find_ascii hu hatoms hascii, hstop]

/-- A phrase with nothing else around it. -/
theorem money_alone_iff :
    RuleHits u donationRule (' ' :: x ++ ['.']) ↔ x ≠ "fundraising".toList := by
  obtain ⟨p, hp, hstarts, -, -, hstop⟩ := money_phrase hu hx
  have hne : x ≠ [] := by
    rintro rfl
    cases hstarts
  have hnormal : normalize (' ' :: x ++ ['.']) = x ++ ['.'] :=
    normalize_phrase hne (not_space_of_startsWord hstarts)
  have hnil : normalize (' ' :: x ++ ['.']) ≠ [] := by
    rw [hnormal]
    exact List.append_ne_nil_of_left_ne_nil hne _
  rw [ruleHits_iff donationRule_mem hnil, found_eq hp, defaultRules_ignoreCase _ donationRule_mem,
    hnormal, hstop, decide_eq_true_eq]

end

/-- **What the donation rule catches of what the generator asks for**: every phrase but `fundraising`,
whose stem is no word. -/
theorem money_hits_iff (u : CharTables) (hu : u.Unicode) (x : Text) (hx : x ∈ money) :
    (∀ left right, RuleHits u donationRule (left ++ ' ' :: x ++ '.' :: right)) ↔
      x ≠ "fundraising".toList := by
  constructor
  · exact fun hall => (money_alone_iff hu hx).mp (hall [] [])
  · intro hfund left right
    obtain ⟨p, hp, hstarts, hends, hfind, -⟩ := money_phrase hu hx
    have hne : x ≠ [] := by
      rintro rfl
      cases hstarts
    have hspace : u.isWord ' ' = false := u.not_word_of_space rfl
    have hdot : u.isWord '.' = false := isWord_ascii hu (by decide)
    have hpart : Flanked (u.isWord · = false) x (left ++ ' ' :: (x ++ '.' :: right)) :=
      (Flanked.append hdot x right).trans (Flanked.prepend hspace left _)
    rw [← List.cons_append, ← List.append_assoc] at hpart
    exact ruleHits_of_flanked donationRule_mem hp hpart hne hstarts hends
      (hfind.trans (decide_eq_true hfund))

/-- `chip in`. -/
theorem money_hits_iff_chip :
    RuleHits .ascii donationRule ("Please".toList ++ ' ' :: "chip in".toList ++ '.' :: []) :=
  (money_hits_iff .ascii CharTables.ascii_unicode "chip in".toList (by simp [money])).mpr (by simp)
    "Please".toList []

/-- ` fundraising.` has no hit. -/
theorem money_hits_not : ¬ ∀ x ∈ money, ∀ left right,
    RuleHits .ascii donationRule (left ++ ' ' :: x ++ '.' :: right) := by
  intro hall
  have hx : "fundraising".toList ∈ money := by simp [money]
  exact (money_alone_iff CharTables.ascii_unicode hx).mp (hall _ hx [] []) rfl

end NeoDCT.SpamFilter
