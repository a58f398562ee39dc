import NeoDCT.SpamFilter

/-!
# The hits

`score_message` adds up a total and a list of hits side by side.  Both are read off one list, what each
rule finds and then what the signals find:

    score_message t rules = (weights hits, hits)    where hits = hitsOf t rules    (scoreMessage_eq)

so the total is never anything but the sum of the hits' weights, and rules in another order find the
same hits in another order.
-/

namespace NeoDCT.SpamFilter

open PyText PyRegex

/-- The sum of the hits' weights. -/
def weights (hits : List Hit) : ℤ := (hits.map Hit.weight).sum

theorem weights_append (hits hits' : List Hit) :
    weights (hits ++ hits') = weights hits + weights hits' := by
  unfold weights
  rw [List.map_append, List.sum_append]

/-- What a rule finds. -/
def Rule.hits (re : Re) (t : Text) (r : Rule) : List Hit :=
  match re.compile r.pattern r.ignoreCase with
  | .error e => [⟨"[INVALID REGEX] ".toList ++ r.title, 0, e⟩]
  | .ok search => (search t).toList.map fun m => ⟨r.title, r.weight.getD 0, snippet m⟩

/-- What a structural signal finds. -/
def signalHits (fires : Bool) (name : String) (weight : ℤ) (snippet : String) : List Hit :=
  if fires then [⟨name.toList, weight, snippet.toList⟩] else []

/-- Everything that is found in a message. -/
def hitsOf (re : Re) (t : Text) (rules : List Rule) : List Hit :=
  rules.flatMap (Rule.hits re t) ++ signalHits (hasUrl re t) "Contains URL" 20 "url" ++
    signalHits (hasShortlink re t) "Shortlink domain" 10 "shortlink" ++
    signalHits (hasPunctuation t) "Excessive punctuation" 6 "!!!/???" ++
    signalHits (hasAllCaps re t) "All-caps token" 6 "ALLCAPS"

/-- A total and hits that have not drifted apart. -/
def balanced (hits : List Hit) : ℤ × List Hit := (weights hits, hits)

theorem applyRule_balanced (re : Re) (t : Text) (hits : List Hit) (r : Rule) :
    applyRule re t (balanced hits) r = balanced (hits ++ r.hits re t) := by
  unfold applyRule Rule.hits balanced
  cases re.compile r.pattern r.ignoreCase with
  | error e =>
    dsimp only
    rw [weights_append]
    simp [weights]
  | ok search =>
    dsimp only
    rw [weights_append]
    cases search t with
    | none => simp [weights]
    | some m => simp [weights]

theorem foldl_applyRule_balanced (re : Re) (t : Text) (rules : List Rule) (hits : List Hit) :
    rules.foldl (applyRule re t) (balanced hits) =
      balanced (hits ++ rules.flatMap (Rule.hits re t)) := by
  induction rules generalizing hits with
  | nil => rw [List.foldl_nil, List.flatMap_nil, List.append_nil]
  | cons r rules ih =>
    rw [List.foldl_cons, applyRule_balanced, ih, List.flatMap_cons, List.append_assoc]

theorem addSignal_balanced (fires : Bool) (name : String) (weight : ℤ) (snippet : String)
    (hits : List Hit) : addSignal fires name weight snippet (balanced hits) =
      balanced (hits ++ signalHits fires name weight snippet) := by
  unfold addSignal signalHits balanced
  rw [weights_append]
  cases fires with
  | false => simp [weights]
  | true => simp [weights]

/-- **What `score_message` returns.** -/
theorem scoreMessage_eq (re : Re) (text : Text) (rules : List Rule) :
    scoreMessage re text rules =
      if normalize text = [] then balanced [] else balanced (hitsOf re (normalize text) rules) := by
  have hstart : ((0 : ℤ), ([] : List Hit)) = balanced [] := rfl
  unfold scoreMessage hitsOf
  dsimp only
  rw [hstart]
  split
  next => rfl
  next =>
    rw [foldl_applyRule_balanced, addSignal_balanced, addSignal_balanced, addSignal_balanced,
      addSignal_balanced, List.nil_append]

theorem hitsOf_perm (re : Re) (t : Text) {rules rules' : List Rule} (hperm : rules'.Perm rules) :
    (hitsOf re t rules').Perm (hitsOf re t rules) := by
  unfold hitsOf
  repeat apply List.Perm.append_right
  exact hperm.flatMap_right (Rule.hits re t)

/-- **A score is what its hits weigh**, and the order of the rules is the order of the hits. -/
theorem score_weights (re : Re) (text : Text) (rules : List Rule) :
    (scoreMessage re text rules).1 = ((scoreMessage re text rules).2.map Hit.weight).sum ∧
    ∀ rules', rules'.Perm rules →
      (scoreMessage re text rules').1 = (scoreMessage re text rules).1 ∧
      (scoreMessage re text rules').2.Perm (scoreMessage re text rules).2 := by
  rw [scoreMessage_eq]
  by_cases hnil : normalize text = []
  · rw [if_pos hnil]
    refine ⟨rfl, fun rules' _ => ?_⟩
    rw [scoreMessage_eq, if_pos hnil]
    exact ⟨rfl, .refl _⟩
  · rw [if_neg hnil]
    refine ⟨rfl, fun rules' hperm => ?_⟩
    rw [scoreMessage_eq, if_neg hnil]
    have hhits := hitsOf_perm re (normalize text) hperm
    exact ⟨(hhits.map Hit.weight).sum_eq, hhits⟩

/-- Two rules, one of them no pattern. -/
theorem score_weights_swap :
    (scoreMessage (pyRe .ascii) "stop".toList [rule "b" "stop" 25, rule "a" "(" 7]).1 =
      (scoreMessage (pyRe .ascii) "stop".toList [rule "a" "(" 7, rule "b" "stop" 25]).1 :=
  ((score_weights (pyRe .ascii) "stop".toList [rule "a" "(" 7, rule "b" "stop" 25]).2
    [rule "b" "stop" 25, rule "a" "(" 7] (.swap _ _ _)).1

end NeoDCT.SpamFilter
