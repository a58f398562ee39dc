import NeoDCT.Lib.Csv
import NeoDCT.Lib.PyNumbers
import NeoDCT.Lib.Random
import NeoDCT.Spam.Evaluators

/-!
# The torture test

tests/spam-filter/genmsg.py: messages of five kinds, each put together from draws of `random`, and the CSV
file that they are written to.  Each is a text without whitespace around it that fits in one SMS (`Solid`),
whatever is drawn, so that the file is read back, and of `n` rounds the two evaluators see

    evaluate_dataset   2n + 5 rows, n + 1 of them ham, exactly as they were generated   (readTorture)
    evalfilter.py      5n + 8 rows, all but these 2n + 5 of no known label              (evaluateTorture)

and agree on what they know.
-/

namespace NeoDCT.TortureTest

open PyText PyRandom PyCsv

/-! ## The lists of words -/

def shortlinks : Choices Text :=
  ⟨["bit.ly".toList, "tinyurl.com".toList, "t.co".toList, "rb.gy".toList, "is.gd".toList,
    "rebrand.ly".toList], by decide⟩

def susTlds : Choices Text :=
  ⟨[".xyz".toList, ".top".toList, ".click".toList, ".site".toList, ".win".toList, ".info".toList],
    by decide⟩

def urgent : Choices Text :=
  ⟨["URGENT".toList, "FINAL NOTICE".toList, "ACT NOW".toList, "LAST CHANCE".toList, "MIDNIGHT".toList,
    "IMMEDIATELY".toList, "TODAY ONLY".toList], by decide⟩

def money : Choices Text :=
  ⟨["donate".toList, "chip in".toList, "contribute".toList, "match activated".toList, "give $5".toList,
    "give $10".toList, "fundraising".toList], by decide⟩

def pol : Choices Text :=
  ⟨["Democrats".toList, "Dems".toList, "Republicans".toList, "GOP".toList, "conservatives".toList,
    "liberals".toList, "Biden".toList, "Trump".toList, "Kamala Harris".toList], by decide⟩

def optOut : Choices Text :=
  ⟨["Reply STOP to opt out".toList, "STOP2END".toList, "Text STOP to end".toList,
    "Unsubscribe".toList], by decide⟩

def names : Choices Text :=
  ⟨["Sarah".toList, "Michael".toList, "Jessica".toList, "David".toList, "Emily".toList, "Alex".toList,
    "Sylvia".toList, "Chris".toList], by decide⟩

def merchants : Choices Text :=
  ⟨["MCDONALDS".toList, "WALMART".toList, "AMAZON".toList, "SHELL".toList, "TARGET".toList,
    "UBER".toList], by decide⟩

def carriers : Choices Text :=
  ⟨["Your bank".toList, "Chase".toList, "Wells Fargo".toList, "Bank of America".toList, "Citi".toList,
    "Capital One".toList], by decide⟩

def chat : Choices Text :=
  ⟨["hey are you coming over around 7?".toList, "lol STOP that’s so funny".toList, "wyd later".toList,
    "can you call me when you get a sec?".toList, "i’m outside".toList,
    "did you see the game last night?".toList, "running late sorry".toList, "ok sounds good".toList],
    by decide⟩

/-- `["00", "15", "30", "45"]`. -/
def quarters : Choices Text := ⟨["00".toList, "15".toList, "30".toList, "45".toList], by decide⟩

/-- The templates of `make_pol_grey`. -/
def greyTemplates : Choices Text :=
  ⟨["Reminder: Election Day is Tuesday. Polls are open 7am–7pm.".toList,
    "Town hall tonight at 7pm. Reply YES if you can attend.".toList,
    "Early voting starts tomorrow. Make a plan to vote.".toList,
    "Thanks for staying engaged. Here are local voting resources.".toList,
    "Volunteer canvass this weekend. Reply YES/NO.".toList], by decide⟩

/-! ## The messages -/

/-- `text.replace(old, new)`, behind `skip` characters of an occurrence. -/
def replaceFrom (old new : Text) : ℕ → Text → Text
  | _, [] => []
  | skip + 1, _ :: cs => replaceFrom old new skip cs
  | 0, c :: cs =>
    if old.isPrefixOf (c :: cs) then new ++ replaceFrom old new (old.length - 1) cs
    else c :: replaceFrom old new 0 cs

/-- `str.upper`, of a name of ASCII letters. -/
def upper (name : Text) : Text := name.map Char.toUpper

section
variable {σ : Type} (r : Generator σ)

/-- `if random.random() < p:`, and what is drawn then. -/
def maybe {α : Type} (p : ℚ) (m : StateM σ α) : StateM σ (Option α) := do
  if ← r.lessThan p then
    let a ← m
    pure (some a)
  else pure none

/-- `msg += f" {part}"`, for a part that is drawn. -/
def addPart (msg : Text) : Option Text → Text
  | none => msg
  | some part => msg ++ ' ' :: part

def randUrl : StateM σ Text := do
  if ← r.lessThan (6 / 10) then
    let link ← r.choice shortlinks
    let n ← r.randint 10000 99999
    pure ("http://".toList ++ link ++ "/".toList ++ Nat.toDigits 10 n)
  else
    let n ← r.randint 10 999
    let tld ← r.choice susTlds
    let dom := "secure-".toList ++ Nat.toDigits 10 n ++ tld
    pure ("https://".toList ++ dom ++ "/login".toList)

def makeSpam : StateM σ Text := do
  let a ← maybe r (7 / 10) (r.choice urgent)
  let b ← maybe r (6 / 10) (pure "Verify your account".toList)
  let c ← maybe r (8 / 10) (randUrl r)
  let d ← maybe r (5 / 10) (r.choice optOut)
  let parts := [a, b, c, d].filterMap id
  if parts ≠ [] then pure (List.intercalate ": ".toList parts)
  else
    let url ← randUrl r
    pure ("Check this now ".toList ++ url)

def makePolSpam : StateM σ Text := do
  let shout ← r.lessThan (7 / 10)
  let name ← r.choice names
  let name := if shout then upper name else name
  let who ← r.choice pol
  let hurry ← r.choice urgent
  let msg := name ++ ", ".toList ++ who ++ " are pushing AMNESTY. ".toList ++ hurry ++ ".".toList
  let ask ← maybe r (85 / 100) do
    let ask ← r.choice money
    pure (ask ++ ".".toList)
  let url ← maybe r (8 / 10) (randUrl r)
  let stop ← maybe r (6 / 10) (r.choice optOut)
  pure (addPart (addPart (addPart msg ask) url) stop)

def makePolGrey : StateM σ Text := do
  let t ← r.choice greyTemplates
  let who ← maybe r (35 / 100) (r.choice pol)
  pure (addPart t who)

/-- The templates of `make_alert`: all of them are filled in, then one is taken. -/
def alertTemplates (bank amt merch : Text) (hour : ℕ) (quarter : Text) (code : ℕ) : Choices Text :=
  ⟨[bank ++ " Fraud: Did you attempt ".toList ++ amt ++ " at ".toList ++ merch ++
      "? Reply YES/NO".toList,
    bank ++ ": Unusual activity detected. Reply YES to confirm or NO to deny.".toList,
    "Your package was delivered. If this wasn't you, visit support.".toList,
    "Reminder: appointment tomorrow at ".toList ++ Nat.toDigits 10 hour ++ ":".toList ++ quarter ++
      ".".toList,
    "Your one-time code is ".toList ++ Nat.toDigits 10 code ++ ".".toList], Nat.succ_pos 4⟩

def makeAlert : StateM σ Text := do
  let bank ← r.choice carriers
  let dollars ← r.randint 1 199
  let cents ← r.randint 0 99
  let amt := "$".toList ++ Nat.toDigits 10 dollars ++ ".".toList ++ zeroPad 2 cents
  let merch ← r.choice merchants
  let hour ← r.randint 8 16
  let quarter ← r.choice quarters
  let code ← r.randint 100000 999999
  let s ← r.choice (alertTemplates bank amt merch hour quarter code)
  let link ← maybe r (15 / 100) (pure "https://example.com/account".toList)
  pure (addPart s link)

def makeHam : StateM σ Text := do
  let s ← r.choice chat
  let typos ← r.lessThan (3 / 10)
  let s :=
    if typos then replaceFrom "are".toList "r".toList 0 (replaceFrom "you".toList "u".toList 0 s) else s
  let query ← r.lessThan (2 / 10)
  pure (if query then s ++ "?".toList else s)

/-! ## The rows -/

/-- One message of each kind, with its label. -/
def makeRound : StateM σ (List (Text × Text)) := do
  let spam ← makeSpam r
  let polSpam ← makePolSpam r
  let polGrey ← makePolGrey r
  let alert ← makeAlert r
  let ham ← makeHam r
  pure [("spam".toList, spam), ("pol_spam".toList, polSpam), ("pol_grey".toList, polGrey),
    ("alert".toList, alert), ("ham".toList, ham)]

def makeRounds : ℕ → StateM σ (List (Text × Text))
  | 0 => pure []
  | n + 1 => do
    let rows ← makeRound r
    let rest ← makeRounds n
    pure (rows ++ rest)

/-- The adversarial extras. -/
def adv : List (Text × Text) := [
  ("spam".toList, "hi are you free to talk about an opportunity? it pays weekly.".toList),
  ("spam".toList, "hey you around? i need a quick favor. call me".toList),
  ("alert".toList, "Security alert: unusual activity detected. Reply YES/NO.".toList),
  ("pol_grey".toList, "Reminder: polls open 7am–7pm tomorrow.".toList),
  ("spam".toList, "Chase Security: verify now https://chase.com.security-check.example.xyz".toList),
  ("spam".toList, "dоnate $5 today to help (note: one letter is Cyrillic)".toList),
  ("ham".toList, "STOP lol that’s hilarious".toList)]

def generate (nEach : ℕ) : StateM σ (List (Text × Text)) := do
  let rows ← makeRounds r nEach
  r.shuffle (rows ++ adv)

/-- The rows of the file. -/
def fileRows (rows : List (Text × Text)) : List (List Text) :=
  ["label".toList, "text".toList] :: rows.map fun row => [row.1, row.2]

/-- What is written to torture_test.csv. -/
def tortureTest (nEach : ℕ) : StateM σ Text := do
  let rows ← generate r nEach
  pure ((fileRows rows).flatMap writeRow)

end


/-! ## What is generated -/

/-- A text that neither begins nor ends with whitespace, of at most `n` characters. -/
def Solid (n : ℕ) (text : Text) : Prop :=
  text.head?.any (!isSpace ·) = true ∧ text.getLast?.any (!isSpace ·) = true ∧ text.length ≤ n

instance (n : ℕ) (text : Text) : Decidable (Solid n text) :=
  inferInstanceAs (Decidable (_ ∧ _ ∧ _))

namespace Solid

variable {m n : ℕ} {a b : Text}

theorem ne_nil (h : Solid n a) : a ≠ [] := by
  rintro rfl
  cases h.1

theorem mono (h : Solid n a) (hle : n ≤ m) : Solid m a := ⟨h.1, h.2.1, h.2.2.trans hle⟩

theorem strip_eq (h : Solid n a) : strip a = a := by
  apply strip_eq_self
  · intro c hc
    have hhead := h.1
    rw [Option.mem_def.mp hc] at hhead
    simpa using hhead
  · intro c hc
    have hlast := h.2.1
    rw [Option.mem_def.mp hc] at hlast
    simpa using hlast

/-- Whatever stands between two solid texts. -/
theorem around (h : Solid m a) (mid : Text) (h' : Solid n b) :
    Solid (m + mid.length + n) (a ++ mid ++ b) := by
  refine ⟨?_, ?_, ?_⟩
  · rw [List.append_assoc, List.head?_append_of_ne_nil _ h.ne_nil]
    exact h.1
  · rw [List.getLast?_append_of_ne_nil _ h'.ne_nil]
    exact h'.2.1
  · have hm := h.2.2
    have hn := h'.2.2
    simp only [List.length_append]
    omega

theorem append (h : Solid m a) (h' : Solid n b) : Solid (m + n) (a ++ b) := by
  simpa using h.around [] h'

theorem addPart {part : Option Text} (h : Solid m a) (hpart : ∀ p ∈ part, Solid n p) :
    Solid (m + (n + 1)) (addPart a part) := by
  cases part with
  | none => exact h.mono (Nat.le_add_right m (n + 1))
  | some p => simpa [TortureTest.addPart, Nat.add_assoc, Nat.add_comm 1 n] using h.around [' '] (hpart p rfl)

/-- Solid texts, joined. -/
theorem intercalate (sep : Text) {parts : List Text} (hne : parts ≠ []) (h : ∀ p ∈ parts, Solid n p) :
    Solid (parts.length * (n + sep.length)) (List.intercalate sep parts) := by
  induction parts with
  | nil => exact absurd rfl hne
  | cons p parts ih =>
    rw [List.forall_mem_cons] at h
    cases parts with
    | nil =>
      rw [List.intercalate_singleton]
      exact h.1.mono (by simp)
    | cons q parts =>
      rw [List.intercalate_cons_cons]
      refine (h.1.around sep (ih (List.cons_ne_nil q parts) h.2)).mono (le_of_eq ?_)
      simp only [List.length_cons]
      ring

theorem of_isDigit (hne : a ≠ []) (hdigit : ∀ c ∈ a, c.isDigit = true) (hlen : a.length ≤ n) :
    Solid n a := by
  have hnospace : ∀ c ∈ a, isSpace c = false := by
    intro c hc
    rw [Bool.eq_false_iff]
    intro hspace
    have hnot := not_isAlphanum_of_space hspace
    simp [Char.isAlphanum, hdigit c hc] at hnot
  refine ⟨?_, ?_, hlen⟩
  · rw [List.head?_eq_some_head hne]
    simpa using hnospace _ (List.head_mem hne)
  · rw [List.getLast?_eq_some_getLast hne]
    simpa using hnospace _ (List.getLast_mem hne)

theorem toDigits {k i : ℕ} (hi : i < 10 ^ (k + 1)) : Solid (k + 1) (Nat.toDigits 10 i) :=
  of_isDigit Nat.toDigits_ne_nil (fun _ hc => Nat.isDigit_of_mem_toDigits (by decide) (by decide) hc)
    ((Nat.length_toDigits_le_iff (by decide) k.succ_pos).mpr hi)

theorem zeroPad {k i : ℕ} (hi : i < 10 ^ (k + 1)) : Solid (k + 1) (zeroPad (k + 1) i) := by
  have hlen : (PyText.zeroPad (k + 1) i).length = k + 1 := by
    exact_mod_cast length_zeroPad k.succ_pos hi
  refine of_isDigit (List.ne_nil_of_length_eq_add_one hlen) ?_ hlen.le
  exact_mod_cast zeroPad_digits (k + 1) i

end Solid

section
variable {σ : Type} (r : Generator σ)

/-- A list of solid texts yields one. -/
theorem yields_solid {n : ℕ} {xs : Choices Text} (h : ∀ x ∈ xs.val, Solid n x) :
    Yields (Solid n) (r.choice xs) :=
  yields_choice r h

theorem yields_maybe {α : Type} {P : α → Prop} (p : ℚ) {m : StateM σ α} (h : Yields P m) :
    Yields (fun a => ∀ x ∈ a, P x) (maybe r p m) := by
  refine Yields.bind_any fun yes => ?_
  cases yes with
  | true => exact h.bind fun a ha => .pure fun x hx => Option.some.inj hx ▸ ha
  | false => exact .pure fun x hx => nomatch hx

theorem yields_randUrl : Yields (Solid 30) (randUrl r) := by
  refine Yields.bind_any fun short => ?_
  cases short with
  | true =>
    refine (yields_solid r (n := 11) (by decide)).bind fun link hlink => ?_
    refine (yields_randint r (by decide)).bind fun k hk => .pure ?_
    have hhttp : Solid 7 "http://".toList := by decide
    have hslash : Solid 1 "/".toList := by decide
    have hk : k < 10 ^ (4 + 1) := by omega
    exact (((hhttp.append hlink).append hslash).append (Solid.toDigits hk)).mono (by decide)
  | false =>
    refine (yields_randint r (by decide)).bind fun k hk => ?_
    refine (yields_solid r (n := 6) (by decide)).bind fun tld htld => .pure ?_
    have hhttps : Solid 8 "https://".toList := by decide
    have hsecure : Solid 7 "secure-".toList := by decide
    have hlogin : Solid 6 "/login".toList := by decide
    have hk : k < 10 ^ (2 + 1) := by omega
    exact ((hhttps.append ((hsecure.append (Solid.toDigits hk)).append htld)).append hlogin).mono (by decide)

theorem yields_makeSpam : Yields (Solid 160) (makeSpam r) := by
  have hurgent : Yields (Solid 30) (r.choice urgent) := yields_solid r (by decide)
  have hverify : Yields (Solid 30) (pure "Verify your account".toList : StateM σ Text) :=
    .pure (by decide)
  have hopt : Yields (Solid 30) (r.choice optOut) := yields_solid r (by decide)
  refine (yields_maybe r _ hurgent).bind fun a ha => ?_
  refine (yields_maybe r _ hverify).bind fun b hb => ?_
  refine (yields_maybe r _ (yields_randUrl r)).bind fun c hc => ?_
  refine (yields_maybe r _ hopt).bind fun d hd => ?_
  have hparts : ∀ p ∈ [a, b, c, d].filterMap id, Solid 30 p := by
    intro p hp
    obtain ⟨q, hq, hqp⟩ := List.mem_filterMap.mp hp
    simp only [List.mem_cons, List.not_mem_nil, or_false] at hq
    obtain rfl : q = some p := hqp
    rcases hq with rfl | rfl | rfl | rfl
    exacts [ha p rfl, hb p rfl, hc p rfl, hd p rfl]
  have hlen : ([a, b, c, d].filterMap id).length ≤ 4 := List.length_filterMap_le _ _
  show Yields _ (if _ then _ else _)
  split
  next hne =>
    refine .pure ((Solid.intercalate _ hne hparts).mono ?_)
    have hsep : (": ".toList).length = 2 := by decide
    rw [hsep]
    omega
  next =>
    refine (yields_randUrl r).bind fun url hurl => .pure ?_
    have hcheck : Solid 14 "Check this now".toList := by decide
    exact (hcheck.around " ".toList hurl).mono (by decide)

theorem yields_makePolSpam : Yields (Solid 160) (makePolSpam r) := by
  refine Yields.bind_any fun shout => ?_
  have hname : Yields (fun name => Solid 7 name ∧ Solid 7 (upper name)) (r.choice names) :=
    yields_choice r (by decide)
  refine hname.bind fun name hname => ?_
  refine (yields_solid r (n := 13) (by decide)).bind fun who hwho => ?_
  refine (yields_solid r (n := 12) (by decide)).bind fun hurry hhurry => ?_
  have hask : Yields (Solid 16) (do let ask ← r.choice money; pure (ask ++ ".".toList)) :=
    yields_solid r (n := 15) (by decide) |>.bind fun ask hask =>
      .pure (hask.append (n := 1) (by decide))
  refine (yields_maybe r _ hask).bind fun ask hask => ?_
  refine (yields_maybe r _ (yields_randUrl r)).bind fun url hurl => ?_
  refine (yields_maybe r _ (yields_solid r (n := 21) (by decide))).bind fun stop hstop => .pure ?_
  have hcalled : Solid 7 (if shout = true then upper name else name) := by
    cases shout
    exacts [hname.1, hname.2]
  have hdot : Solid 1 ".".toList := by decide
  have hmsg := ((hcalled.around ", ".toList hwho).around " are pushing AMNESTY. ".toList hhurry).append hdot
  exact (((hmsg.addPart hask).addPart hurl).addPart hstop).mono (by decide)

theorem yields_makePolGrey : Yields (Solid 160) (makePolGrey r) := by
  refine (yields_solid r (n := 61) (by decide)).bind fun t ht => ?_
  refine (yields_maybe r _ (yields_solid r (n := 13) (by decide))).bind fun who hwho => .pure ?_
  exact (ht.addPart hwho).mono (by decide)

/-- Each template, filled in. -/
theorem solid_alertTemplates {bank amt merch quarter : Text} {hour code : ℕ} (hbank : Solid 15 bank)
    (hamt : Solid 7 amt) (hmerch : Solid 9 merch) (hhour : hour < 10 ^ 2) (hquarter : Solid 2 quarter)
    (hcode : code < 10 ^ 6) :
    ∀ t ∈ (alertTemplates bank amt merch hour quarter code).val, Solid 100 t := by
  have hdot : Solid 1 ".".toList := by decide
  have hreply : Solid 14 "? Reply YES/NO".toList := by decide
  have hunusual : Solid 65 ": Unusual activity detected. Reply YES to confirm or NO to deny.".toList := by
    decide
  have hpackage : Solid 65 "Your package was delivered. If this wasn't you, visit support.".toList := by
    decide
  have hreminder : Solid 33 "Reminder: appointment tomorrow at".toList := by decide
  have honetime : Solid 21 "Your one-time code is".toList := by decide
  have hcolon : Solid 1 ":".toList := by decide
  unfold alertTemplates
  simp only [List.forall_mem_cons]
  refine ⟨?_, ?_, ?_, ?_, ?_, fun t ht => nomatch ht⟩
  · exact (((hbank.around _ hamt).around _ hmerch).append hreply).mono (by decide)
  · exact (hbank.append hunusual).mono (by decide)
  · exact hpackage.mono (by decide)
  · exact ((((hreminder.around " ".toList (Solid.toDigits hhour)).append hcolon).append hquarter).append
      hdot).mono (by decide)
  · exact ((honetime.around " ".toList (Solid.toDigits hcode)).append hdot).mono (by decide)

theorem yields_makeAlert : Yields (Solid 160) (makeAlert r) := by
  refine (yields_solid r (n := 15) (by decide)).bind fun bank hbank => ?_
  refine (yields_randint r (by decide)).bind fun dollars hdollars => ?_
  refine (yields_randint r (by decide)).bind fun cents hcents => ?_
  refine (yields_solid r (n := 9) (by decide)).bind fun merch hmerch => ?_
  refine (yields_randint r (by decide)).bind fun hour hhour => ?_
  refine (yields_solid r (n := 2) (by decide)).bind fun quarter hquarter => ?_
  refine (yields_randint r (by decide)).bind fun code hcode => ?_
  have hdollar : Solid 1 "$".toList := by decide
  have hdot : Solid 1 ".".toList := by decide
  have hdollars : dollars < 10 ^ (2 + 1) := by omega
  have hcents : Solid 2 (zeroPad 2 cents) := Solid.zeroPad (k := 1) (by omega)
  have hamt := ((hdollar.append (Solid.toDigits hdollars)).append hdot).append hcents
  have hs := yields_solid r (solid_alertTemplates hbank hamt hmerch (by omega : hour < 10 ^ 2) hquarter
    (by omega : code < 10 ^ 6))
  refine hs.bind fun s hs => ?_
  have hlink : Yields (Solid 30) (pure "https://example.com/account".toList : StateM σ Text) :=
    .pure (by decide)
  refine (yields_maybe r _ hlink).bind fun link hlink => .pure ?_
  exact (hs.addPart hlink).mono (by decide)

theorem yields_makeHam : Yields (Solid 160) (makeHam r) := by
  have hchat : Yields (fun s => Solid 40 s ∧
      Solid 40 (replaceFrom "are".toList "r".toList 0 (replaceFrom "you".toList "u".toList 0 s)))
      (r.choice chat) := yields_choice r (by decide)
  refine hchat.bind fun s hs => ?_
  refine Yields.bind_any fun typos => ?_
  refine Yields.bind_any fun query => .pure ?_
  have hquery : Solid 1 "?".toList := by decide
  cases typos <;> cases query
  · exact hs.1.mono (by decide)
  · exact (hs.1.append hquery).mono (by decide)
  · exact hs.2.mono (by decide)
  · exact (hs.2.append hquery).mono (by decide)

end

/-! ## The rows of a test -/

/-- The labels of a round. -/
def roundLabels : List Text :=
  ["spam".toList, "pol_spam".toList, "pol_grey".toList, "alert".toList, "ham".toList]

/-- The labels of a test. -/
def testLabels (n : ℕ) : List Text := (List.replicate n roundLabels).flatten ++ adv.map (·.1)

/-- Rows of a test of `n` rounds. -/
structure Generated (n : ℕ) (rows : List (Text × Text)) : Prop where
  labels : (rows.map (·.1)).Perm (testLabels n)
  solid : ∀ row ∈ rows, Solid 160 row.2

section
variable {σ : Type} (r : Generator σ)

theorem yields_makeRound : Yields (fun rows => rows.map (·.1) = roundLabels ∧ ∀ row ∈ rows, Solid 160 row.2)
    (makeRound r) := by
  refine (yields_makeSpam r).bind fun spam hspam => ?_
  refine (yields_makePolSpam r).bind fun polSpam hpolSpam => ?_
  refine (yields_makePolGrey r).bind fun polGrey hpolGrey => ?_
  refine (yields_makeAlert r).bind fun alert halert => ?_
  refine (yields_makeHam r).bind fun ham hham => .pure ⟨rfl, ?_⟩
  simp only [List.forall_mem_cons]
  exact ⟨hspam, hpolSpam, hpolGrey, halert, hham, fun row hrow => nomatch hrow⟩

theorem yields_makeRounds (n : ℕ) : Yields (fun rows =>
    rows.map (·.1) = (List.replicate n roundLabels).flatten ∧ ∀ row ∈ rows, Solid 160 row.2)
    (makeRounds r n) := by
  induction n with
  | zero => exact .pure ⟨rfl, fun row hrow => nomatch hrow⟩
  | succ n ih =>
    refine (yields_makeRound r).bind fun rows hrows => ?_
    refine ih.bind fun rest hrest => .pure ⟨?_, ?_⟩
    · rw [List.map_append, hrows.1, hrest.1, List.replicate_succ, List.flatten_cons]
    · exact List.forall_mem_append.mpr ⟨hrows.2, hrest.2⟩

theorem adv_solid : ∀ row ∈ adv, Solid 160 row.2 := by decide

theorem yields_generate (n : ℕ) : Yields (Generated n) (generate r n) := by
  refine (yields_makeRounds r n).bind fun rows hrows => ?_
  refine (yields_shuffle r (rows ++ adv)).mono fun shuffled hperm => ⟨?_, ?_⟩
  · refine (hperm.map _).trans (.of_eq ?_)
    rw [List.map_append, hrows.1]
    rfl
  · intro row hrow
    exact List.forall_mem_append.mpr ⟨hrows.2, adv_solid⟩ row (hperm.mem_iff.mp hrow)

end

/-! ## What is read -/

/-- `csv.reader` on the file, and `read_labelled_csv` on what it yields. -/
def readFile (limit : ℕ) (lower : Text → Text) (file : Text) :
    Except CsvError (List (SpamFilter.Label × Text)) := do
  let rows ← readRows limit .start (symbols file)
  pure (SpamFilter.readLabelledCsv lower rows)

/-- What `str.lower` is on ASCII. -/
def AsciiLower (lower : Text → Text) : Prop :=
  ∀ text, (∀ c ∈ text, c.toNat < 128) → lower text = text.map Char.toLower

/-- A message whose label the filter's tests know. -/
def labelled (row : Text × Text) : Option (SpamFilter.Label × Text) :=
  if row.1 = "ham".toList then some (.ham, row.2)
  else if row.1 = "spam".toList then some (.spam, row.2)
  else none

theorem mem_testLabels {n : ℕ} {label : Text} (h : label ∈ testLabels n) : label ∈ roundLabels := by
  have hadv : ∀ l ∈ adv.map (·.1), l ∈ roundLabels := by decide
  rcases List.mem_append.mp h with h | h
  · obtain ⟨labels, hlabels, hlabel⟩ := List.mem_flatten.mp h
    rw [List.eq_of_mem_replicate hlabels] at hlabel
    exact hlabel
  · exact hadv label h

theorem count_testLabels (n : ℕ) (label : Text) : (testLabels n).count label =
    n * roundLabels.count label + (adv.map (·.1)).count label := by
  unfold testLabels
  rw [List.count_append, List.count_flatten, List.map_replicate, List.sum_replicate, smul_eq_mul]

theorem length_testLabels (n : ℕ) : (testLabels n).length = 5 * n + 7 := by
  unfold testLabels
  rw [List.length_append, List.length_flatten, List.map_replicate, List.sum_replicate, smul_eq_mul]
  show n * 5 + 7 = _
  omega

namespace Generated

variable {n : ℕ} {rows : List (Text × Text)} (h : Generated n rows)
include h

theorem length_eq : rows.length = 5 * n + 7 := by
  rw [← length_testLabels n, ← h.labels.length_eq, List.length_map]

theorem label_mem {row : Text × Text} (hrow : row ∈ rows) : row.1 ∈ roundLabels :=
  mem_testLabels (h.labels.mem_iff.mp (List.mem_map_of_mem hrow))

/-- Every field of the file is short. -/
theorem fileRows_short {limit : ℕ} (hlimit : 160 ≤ limit) :
    ∀ row ∈ fileRows rows, ∀ field ∈ row, field.length ≤ limit := by
  have hlabels : ∀ label ∈ roundLabels, label.length ≤ 160 := by decide
  have hheader : ∀ field ∈ ["label".toList, "text".toList], field.length ≤ 160 := by decide
  unfold fileRows
  rw [List.forall_mem_cons]
  refine ⟨fun field hfield => (hheader field hfield).trans hlimit, ?_⟩
  rw [List.forall_mem_map]
  intro row hrow
  simp only [List.forall_mem_cons]
  exact ⟨(hlabels _ (h.label_mem hrow)).trans hlimit, (h.solid row hrow).2.2.trans hlimit,
    fun field hfield => nomatch hfield⟩

end Generated

theorem joinedText_pair (label : Text) {text : Text} (h : Solid 160 text) :
    SpamFilter.joinedText [label, text] = text := by
  show strip (List.intercalate [','] [text]) = text
  rw [List.intercalate_singleton]
  exact h.strip_eq

section
variable {lower : Text → Text} (hlower : AsciiLower lower)
include hlower

/-- The labels are their own lower case. -/
theorem readLabel_eq {label : Text} (hlabel : label ∈ "label".toList :: roundLabels) :
    SpamFilter.readLabel lower label =
      if label = "ham".toList then some .ham else if label = "spam".toList then some .spam else none := by
  have hstrip : ∀ l ∈ "label".toList :: roundLabels, strip l = l := by decide
  have hascii : ∀ l ∈ "label".toList :: roundLabels, l.all (·.toNat < 128) = true := by decide
  have hsame : ∀ l ∈ "label".toList :: roundLabels, l.map Char.toLower = l := by decide
  unfold SpamFilter.readLabel
  rw [hstrip label hlabel, hlower label (by simpa using hascii label hlabel), hsame label hlabel]

theorem readRow_eq_labelled {row : Text × Text} (hlabel : row.1 ∈ roundLabels) (hsolid : Solid 160 row.2) :
    SpamFilter.readRow lower [row.1, row.2] = labelled row := by
  show (SpamFilter.readLabel lower row.1).map _ = _
  rw [readLabel_eq hlower (List.mem_cons_of_mem _ hlabel), joinedText_pair _ hsolid]
  unfold labelled
  split
  · rfl
  · split <;> rfl

/-- What is generated is what is read, the header and the other labels apart. -/
theorem Generated.readLabelledCsv_eq {n : ℕ} {rows : List (Text × Text)} (h : Generated n rows) :
    SpamFilter.readLabelledCsv lower (fileRows rows) = rows.filterMap labelled := by
  have hheader : SpamFilter.readRow lower ["label".toList, "text".toList] = none := by
    show (SpamFilter.readLabel lower "label".toList).map _ = _
    rw [readLabel_eq hlower List.mem_cons_self]
    rfl
  unfold SpamFilter.readLabelledCsv fileRows
  rw [List.filterMap_cons_none hheader, List.filterMap_map]
  apply List.filterMap_congr
  intro row hrow
  exact readRow_eq_labelled hlower (h.label_mem hrow) (h.solid row hrow)

end

def labelText : SpamFilter.Label → Text
  | .ham => "ham".toList
  | .spam => "spam".toList

/-- The messages with a label that is known. -/
theorem countP_labelled (rows : List (Text × Text)) (l : SpamFilter.Label) :
    ((rows.filterMap labelled).countP fun row => row.1 = l) = (rows.map (·.1)).count (labelText l) := by
  have hne : "ham".toList ≠ "spam".toList := by decide
  rw [List.countP_filterMap, List.count, List.countP_map]
  apply List.countP_congr
  intro row _
  show (((labelled row).map _).getD false = true) ↔ (row.1 == labelText l) = true
  rw [beq_iff_eq]
  unfold labelled
  by_cases hham : row.1 = "ham".toList
  · rw [if_pos hham, hham]
    cases l
    · exact iff_of_true rfl rfl
    · exact iff_of_false Bool.false_ne_true hne
  · by_cases hspam : row.1 = "spam".toList
    · rw [if_neg hham, if_pos hspam, hspam]
      cases l
      · exact iff_of_false Bool.false_ne_true hne.symm
      · exact iff_of_true rfl rfl
    · rw [if_neg hham, if_neg hspam]
      cases l
      · exact iff_of_false Bool.false_ne_true hham
      · exact iff_of_false Bool.false_ne_true hspam

/-- There are two such labels. -/
theorem length_labelled (rows : List (SpamFilter.Label × Text)) :
    rows.length = (rows.countP fun row => row.1 = .ham) + rows.countP fun row => row.1 = .spam := by
  rw [List.length_eq_countP_add_countP fun row => row.1 = SpamFilter.Label.ham]
  congr 1
  apply List.countP_congr
  intro row _
  cases row.1 <;> decide

namespace Generated

variable {n : ℕ} {rows : List (Text × Text)} (h : Generated n rows)
include h

theorem countP_ham : ((rows.filterMap labelled).countP fun row => row.1 = .ham) = n + 1 := by
  rw [countP_labelled, h.labels.count_eq, count_testLabels]
  show n * 1 + 1 = n + 1
  rw [Nat.mul_one]

theorem countP_spam : ((rows.filterMap labelled).countP fun row => row.1 = .spam) = n + 4 := by
  rw [countP_labelled, h.labels.count_eq, count_testLabels]
  show n * 1 + 4 = n + 4
  rw [Nat.mul_one]

end Generated

/-- A generator that takes the first of everything. -/
def firstOf : Generator Unit where
  lessThan _ := pure true
  below _ h := pure ⟨0, h⟩
  shuffle xs := pure xs
  shuffle_perm xs _ := .refl xs

theorem lower_ascii : AsciiLower (List.map Char.toLower) := fun _ _ => rfl


/-- **What is read of a torture test**: the file is read, and what is read of it are the messages labelled
ham or spam, as they were generated, in their order; `2 n + 5` of them, each one that fits in one SMS. -/
theorem readTorture {σ : Type} (r : Generator σ) (s : σ) (n limit : ℕ) (hlimit : 160 ≤ limit)
    (lower : Text → Text) (hlower : AsciiLower lower) :
    let rows := ((generate r n).run s).1
    readFile limit lower ((tortureTest r n).run s).1 = .ok (rows.filterMap labelled) ∧
    (rows.filterMap labelled).length = 2 * n + 5 ∧
    ∀ row ∈ rows, row.2 ≠ [] ∧ strip row.2 = row.2 ∧ row.2.length ≤ 160 := by
  intro rows
  have hgen : Generated n rows := yields_generate r n s
  refine ⟨?_, ?_, fun row hrow => ?_⟩
  · show (readRows limit .start (symbols ((fileRows rows).flatMap writeRow)) >>= _) = _
    rw [readRows_writeRows, if_pos (hgen.fileRows_short hlimit)]
    exact congrArg Except.ok (hgen.readLabelledCsv_eq hlower)
  · rw [length_labelled, hgen.countP_ham, hgen.countP_spam]
    omega
  · have hsolid := hgen.solid row hrow
    exact ⟨hsolid.ne_nil, hsolid.strip_eq, hsolid.2.2⟩

/-- Two hundred rounds, with the limit that `csv` has. -/
theorem readTorture_default :
    readFile 131072 (List.map Char.toLower) ((tortureTest firstOf 200).run ()).1 =
      .ok (((generate firstOf 200).run ()).1.filterMap labelled) :=
  (readTorture firstOf () 200 131072 (by decide) (List.map Char.toLower) lower_ascii).1

/-! ## What is evaluated -/

open SpamFilter

/-- The rows with a label, whatever was predicted. -/
def ofLabel (t : Tally) (label : Verdict) : ℕ := t.confusion (label, .ham) + t.confusion (label, .spam)

theorem tallyRow_ofLabel (re : Re) (lower : Text → Text) (t : Tally) (label text : Text) (rest : List Text)
    (l : Verdict) : ofLabel (tallyRow re lower t (label :: text :: rest)) l =
      ofLabel t l + if normalizeLabel lower label = l then 1 else 0 := by
  have haction : ∀ action, evalAction action = .ham ∨ evalAction action = .spam := by
    intro action
    cases action <;> decide
  simp only [ofLabel, tallyRow, Function.update_apply, Prod.mk.injEq]
  rcases haction (decideAction (scoreMessage re text defaultRules).1 silenceThreshold spamThreshold)
    with hpred | hpred <;> rw [hpred] <;> by_cases hlabel : normalizeLabel lower label = l
  · simp [hlabel]
    omega
  · simp [hlabel, Ne.symm hlabel]
  · simp [hlabel]
    omega
  · simp [hlabel, Ne.symm hlabel]

/-- Every row that is counted has one of three labels. -/
theorem evalMain_total (re : Re) (lower : Text → Text) (rows : List (List Text)) :
    let t := (evalMain re lower rows).1
    t.total = rows.countP (2 ≤ ·.length) ∧ t.total = ofLabel t .ham + ofLabel t .spam + ofLabel t .unknown := by
  have hfold : ∀ rows, (evalMain re lower rows).1 = rows.foldl (tallyRow re lower) .zero := fun _ => rfl
  simp only [hfold]
  induction rows using List.reverseRecOn with
  | nil => exact ⟨rfl, rfl⟩
  | append_singleton rows row ih =>
    simp only [List.foldl_append, List.foldl_cons, List.foldl_nil, List.countP_append,
      List.countP_singleton]
    generalize rows.foldl (tallyRow re lower) .zero = t at ih ⊢
    obtain ⟨htotal, hcells⟩ := ih
    match row with
    | [] => exact ⟨htotal, hcells⟩
    | [_] => exact ⟨htotal, hcells⟩
    | label :: text :: rest =>
      refine ⟨congrArg (· + 1) htotal, ?_⟩
      show t.total + 1 = _
      rw [hcells, tallyRow_ofLabel, tallyRow_ofLabel, tallyRow_ofLabel]
      cases normalizeLabel lower label <;> simp only [reduceCtorEq, if_true, if_false] <;> omega

section
variable {u : PyRegex.CharTables} {lower : Text → Text} (hlower : AsciiLower lower)
include hlower

theorem rowLabel_header : rowLabel lower ["label".toList, "text".toList] = none := by
  show readLabel lower "label".toList = none
  rw [readLabel_eq hlower List.mem_cons_self]
  decide

/-- The cells of the labels that are known. -/
theorem Generated.confusion_eq {n : ℕ} {rows : List (Text × Text)} (h : Generated n rows) (l : Label)
    (b : Bool) : (evalMain (pyRe u) lower (fileRows rows)).1.confusion
      (l.verdict, if b then .spam else .ham) =
    (rows.filterMap labelled).countP fun row => row.1 = l ∧ flags u row.2 = b := by
  rw [evalMain_confusion, ← h.readLabelledCsv_eq hlower, countP_readLabelledCsv]
  apply List.countP_congr
  intro row hrow
  rw [decide_eq_true_eq, decide_eq_true_eq, verdict_eq_iff]
  rcases List.mem_cons.mp hrow with rfl | hrow
  · rw [rowLabel_header hlower]
    simp
  · obtain ⟨message, hmessage, rfl⟩ := List.mem_map.mp hrow
    have hjoined : joinedText [message.1, message.2] = message.2 :=
      joinedText_pair _ (h.solid message hmessage)
    simp [hjoined]

end

theorem countP_fileRows (rows : List (Text × Text)) :
    (fileRows rows).countP (2 ≤ ·.length) = rows.length + 1 := by
  have hall : ∀ row ∈ fileRows rows, decide (2 ≤ row.length) = true := by
    unfold fileRows
    rw [List.forall_mem_cons, List.forall_mem_map]
    exact ⟨rfl, fun _ _ => rfl⟩
  rw [List.countP_eq_length.mpr hall]
  simp [fileRows]

/-- **What the evaluators make of a torture test**: the file is read, and of its `5 n + 8` rows the one
counts `2 n + 5`; the other counts all, a header and `3 n + 2` messages without a label that it knows.  The
four outcomes are the same, and so is the recall; the accuracy is low whatever the filter does. -/
theorem evaluateTorture {σ : Type} (r : Generator σ) (s : σ) (n limit : ℕ) (hlimit : 160 ≤ limit)
    (u : PyRegex.CharTables) (lower : Text → Text) (hlower : AsciiLower lower) :
    ∃ rows, readRows limit .start (symbols ((tortureTest r n).run s).1) = .ok rows ∧
      let e := evaluateDataset (pyRe u) defaultRules silenceThreshold spamThreshold
        (readLabelledCsv lower rows)
      let stats := e.1.stats
      let t := (evalMain (pyRe u) lower rows).1
      let m := (evalMain (pyRe u) lower rows).2
      (stats.total = 2 * n + 5 ∧ stats.ham = n + 1 ∧ stats.spam = n + 4) ∧
      (t.total = 5 * n + 8 ∧ ofLabel t .unknown = 3 * n + 3) ∧
      (m.tp = stats.spamFlagged ∧ m.fp = stats.hamFlagged ∧ m.tn = stats.hamAllowed ∧
        m.fn = stats.spamMissed) ∧
      m.recallRate = e.2.spamRecall ∧ m.accuracy ≤ (2 * n + 5 : ℚ) / (5 * n + 8) := by
  have hgen : Generated n ((generate r n).run s).1 := yields_generate r n s
  generalize hmessages : ((generate r n).run s).1 = messages at hgen
  refine ⟨fileRows messages, ?_, ?_⟩
  · show readRows limit .start (symbols ((fileRows ((generate r n).run s).1).flatMap writeRow)) = _
    rw [hmessages, readRows_writeRows, if_pos (hgen.fileRows_short hlimit)]
  intro e stats t m
  have hstats : Counted (flags u) (messages.filterMap labelled) stats := by
    rw [← hgen.readLabelledCsv_eq hlower]
    exact evaluateDataset_counted (pyRe u) defaultRules silenceThreshold spamThreshold _
  have hham : stats.ham = n + 1 := hstats.ham.trans hgen.countP_ham
  have hspam : stats.spam = n + 4 := hstats.spam.trans hgen.countP_spam
  have htp : m.tp = stats.spamFlagged := (hgen.confusion_eq hlower .spam true).trans hstats.spamFlagged.symm
  have hfp : m.fp = stats.hamFlagged := (hgen.confusion_eq hlower .ham true).trans hstats.hamFlagged.symm
  have htn : m.tn = stats.hamAllowed := (hgen.confusion_eq hlower .ham false).trans hstats.hamAllowed.symm
  have hfn : m.fn = stats.spamMissed := (hgen.confusion_eq hlower .spam false).trans hstats.spamMissed.symm
  have hhamSplit : stats.ham = stats.hamFlagged + stats.hamAllowed := by
    rw [hstats.ham, hstats.hamFlagged, hstats.hamAllowed]
    exact countP_flag _ _ .ham
  have hspamSplit : stats.spam = stats.spamFlagged + stats.spamMissed := by
    rw [hstats.spam, hstats.spamFlagged, hstats.spamMissed]
    exact countP_flag _ _ .spam
  obtain ⟨hcounted, hcells⟩ := evalMain_total (pyRe u) lower (fileRows messages)
  have htotal : t.total = 5 * n + 8 := by
    show (evalMain (pyRe u) lower (fileRows messages)).1.total = 5 * n + 8
    rw [hcounted, countP_fileRows, hgen.length_eq]
  have hhamCells : ofLabel t .ham = m.tn + m.fp := rfl
  have hspamCells : ofLabel t .spam = m.fn + m.tp := rfl
  have hunknown : t.total = ofLabel t .ham + ofLabel t .spam + ofLabel t .unknown := hcells
  refine ⟨⟨?_, hham, hspam⟩, ⟨htotal, by omega⟩, ⟨htp, hfp, htn, hfn⟩, ?_, ?_⟩
  · have hsum := hstats.total_eq
    omega
  · show (if m.tp + m.fn = 0 then (0 : ℚ) else m.tp / (m.tp + m.fn : ℕ)) =
      stats.spamFlagged / (if stats.spam = 0 then (1 : ℚ) else stats.spam)
    rw [if_neg (by omega), if_neg (by omega), htp, hfn, hspamSplit]
  · show (if t.total = 0 then (0 : ℚ) else (m.tp + m.tn : ℕ) / t.total) ≤ _
    have hright : m.tp + m.tn ≤ 2 * n + 5 := by omega
    rw [if_neg (by omega), htotal]
    have hcast : ((m.tp + m.tn : ℕ) : ℚ) ≤ 2 * n + 5 := by exact_mod_cast hright
    push_cast at hcast ⊢
    exact div_le_div_of_nonneg_right hcast (by positivity)

/-- Two hundred rounds, with the limit that `csv` has. -/
theorem evaluateTorture_default :
    ∃ rows, readRows 131072 .start (symbols ((tortureTest firstOf 200).run ()).1) = .ok rows ∧
      (evalMain (pyRe .ascii) (List.map Char.toLower) rows).1.total = 1008 := by
  obtain ⟨rows, hrows, -, htotal, -⟩ := evaluateTorture firstOf () 200 131072 (by decide) .ascii
    (List.map Char.toLower) lower_ascii
  exact ⟨rows, hrows, htotal.1⟩

end NeoDCT.TortureTest
