import NeoDCT.Lib.Regex

/-!
# What a regular expression can spell

An expression without its boundaries denotes a language (`words`): a match consumes one of its words
(`Matches.consumes`), and where the expression has no boundaries every word of it is a match
(`matches_of_words`).  What the words are made of is read off the expression:

* `firsts`, `lasts`: what a word begins and ends with;
* `atoms`: what its characters are among;
* `needs`: what it cannot do without.

`bounded r` is an expression between boundaries, and its alternatives are looked at one by one.  A word
of an alternative is found if it begins and ends with word characters (`search_bounded`).  If it begins
with something else it is not found at its own place, and nothing else is if every alternative needs
what the rest of the word cannot have (`search_bounded_none`).
-/

namespace Regex

open Relation Computability

variable {α γ : Type}

/-! ## The words -/

/-- What an expression spells, boundaries aside. -/
def words (sat : α → γ → Bool) : Expr α → Language γ
  | .empty => 1
  | .atom a => {w | ∃ x, sat a x = true ∧ w = [x]}
  | .boundary => 1
  | .seq r s => words sat r * words sat s
  | .alt r s => words sat r + words sat s
  | .star r => (words sat r)∗

/-- Whether an expression looks at nothing but what it spells. -/
def Expr.plain : Expr α → Bool
  | .boundary => false
  | .seq r s => r.plain && s.plain
  | .alt r s => r.plain && s.plain
  | .star r => r.plain
  | _ => true

/-- A stretch of a list, between two places. -/
structure Cursor.Consumes (c : Cursor γ) (w : List γ) (c' : Cursor γ) : Prop where
  after : c.after = w ++ c'.after
  before : c'.before = w.reverse ++ c.before

namespace Cursor.Consumes

theorem refl (c : Cursor γ) : c.Consumes [] c := ⟨rfl, rfl⟩

theorem trans {c c₁ c' : Cursor γ} {w w' : List γ} (h : c.Consumes w c₁) (h' : c₁.Consumes w' c') :
    c.Consumes (w ++ w') c' where
  after := by rw [h.after, h'.after, List.append_assoc]
  before := by rw [h'.before, h.before, List.reverse_append, List.append_assoc]

/-- Nothing but the place itself is an empty stretch away. -/
theorem eq_of_nil {c c' : Cursor γ} (h : c.Consumes [] c') : c = c' := by
  obtain ⟨before, after⟩ := c
  obtain ⟨before', after'⟩ := c'
  obtain ⟨hafter, hbefore⟩ := h
  exact congrArg₂ Cursor.mk hbefore.symm hafter

/-- The place that is in between. -/
theorem split {c c' : Cursor γ} {w w' : List γ} (h : c.Consumes (w ++ w') c') :
    ∃ c₁ : Cursor γ, c.Consumes w c₁ ∧ c₁.Consumes w' c' := by
  refine ⟨⟨w.reverse ++ c.before, w' ++ c'.after⟩, ⟨?_, rfl⟩, ⟨rfl, ?_⟩⟩
  · rw [h.after, List.append_assoc]
  · rw [h.before, List.reverse_append, List.append_assoc]

theorem mem_iff {c c' : Cursor γ} {w : List γ} (h : c.Consumes w c') (x : γ) :
    x ∈ c'.before ++ c'.after ↔ x ∈ c.before ++ c.after := by
  rw [h.after, h.before]
  simp only [List.mem_append, List.mem_reverse]
  tauto

end Cursor.Consumes

theorem append_mem_kstar {l : Language γ} {w w' : List γ} (hw : w ∈ l) (hw' : w' ∈ l∗) :
    w ++ w' ∈ l∗ := by
  obtain ⟨L, rfl, hL⟩ := Language.mem_kstar.mp hw'
  exact Language.mem_kstar.mpr ⟨w :: L, rfl, List.forall_mem_cons.mpr ⟨hw, hL⟩⟩

/-- Iterations are none, or one and then others. -/
@[elab_as_elim]
theorem kstar_induction {l : Language γ} {motive : (w : List γ) → w ∈ l∗ → Prop}
    (nil : motive [] (Language.nil_mem_kstar l))
    (append : ∀ u v, ∀ hu : u ∈ l, ∀ hv : v ∈ l∗, motive v hv →
      motive (u ++ v) (append_mem_kstar hu hv)) {w : List γ} (hw : w ∈ l∗) : motive w hw := by
  obtain ⟨L, rfl, hL⟩ := Language.mem_kstar.mp hw
  induction L with
  | nil => exact nil
  | cons u L ih =>
    have hcons := List.forall_mem_cons.mp hL
    have hrest : L.flatten ∈ l∗ := Language.join_mem_kstar hcons.2
    exact append u L.flatten hcons.1 hrest (ih hcons.2 hrest)

section
variable {sat : α → γ → Bool} {isWord : γ → Bool}

/-- **A match consumes a word.** -/
theorem Matches.consumes {r : Expr α} {c c' : Cursor γ} (h : Matches sat isWord r c c') :
    ∃ w ∈ words sat r, c.Consumes w c' := by
  induction r generalizing c c' with
  | empty =>
    obtain rfl : c = c' := h
    exact ⟨[], Language.nil_mem_one, .refl c⟩
  | atom a =>
    obtain ⟨x, hx, hafter, hbefore⟩ := h
    exact ⟨[x], ⟨x, hx, rfl⟩, hafter, hbefore⟩
  | boundary =>
    obtain ⟨rfl, -⟩ := h
    exact ⟨[], Language.nil_mem_one, .refl c⟩
  | seq r s ihr ihs =>
    obtain ⟨c₁, h₁, h₂⟩ := h
    obtain ⟨w, hw, hc⟩ := ihr h₁
    obtain ⟨w', hw', hc'⟩ := ihs h₂
    exact ⟨w ++ w', Language.append_mem_mul hw hw', hc.trans hc'⟩
  | alt r s ihr ihs =>
    rcases h with h | h
    · obtain ⟨w, hw, hc⟩ := ihr h
      exact ⟨w, Or.inl hw, hc⟩
    · obtain ⟨w, hw, hc⟩ := ihs h
      exact ⟨w, Or.inr hw, hc⟩
  | star r ih =>
    induction h using ReflTransGen.head_induction_on with
    | refl => exact ⟨[], Language.nil_mem_kstar _, .refl c'⟩
    | head h₁ _ ih' =>
      obtain ⟨w, hw, hc⟩ := ih h₁
      obtain ⟨w', hw', hc'⟩ := ih'
      exact ⟨w ++ w', append_mem_kstar hw hw', hc.trans hc'⟩

/-- A word is a match wherever it stands. -/
theorem matches_of_words {r : Expr α} (hr : r.plain = true) {w : List γ} (hw : w ∈ words sat r)
    {c c' : Cursor γ} (hc : c.Consumes w c') : Matches sat isWord r c c' := by
  induction r generalizing w c c' with
  | empty =>
    obtain rfl : w = [] := hw
    exact hc.eq_of_nil
  | atom a =>
    obtain ⟨x, hx, rfl⟩ := hw
    exact ⟨x, hx, hc.after, hc.before⟩
  | boundary => cases hr
  | seq r s ihr ihs =>
    obtain ⟨hr, hs⟩ := Bool.and_eq_true_iff.mp hr
    obtain ⟨u, hu, v, hv, rfl⟩ := Language.mem_mul.mp hw
    obtain ⟨c₁, h₁, h₂⟩ := hc.split
    exact ⟨c₁, ihr hr hu h₁, ihs hs hv h₂⟩
  | alt r s ihr ihs =>
    obtain ⟨hr, hs⟩ := Bool.and_eq_true_iff.mp hr
    rcases hw with hw | hw
    · exact Or.inl (ihr hr hw hc)
    · exact Or.inr (ihs hs hw hc)
  | star r ih =>
    have hiter : w ∈ (words sat r)∗ := hw
    show ReflTransGen (Matches sat isWord r) c c'
    induction hiter using kstar_induction generalizing c with
    | nil => exact hc.eq_of_nil ▸ .refl
    | append u v hu hv ih' =>
      obtain ⟨c₁, h₁, h₂⟩ := hc.split
      exact .head (ih hr hu h₁) (ih' hv h₂)

end

/-! ## What words are made of -/

namespace Expr

/-- Whether the empty word may be among the words. -/
def nullable : Expr α → Bool
  | .empty => true
  | .atom _ => false
  | .boundary => true
  | .seq r s => r.nullable && s.nullable
  | .alt r s => r.nullable || s.nullable
  | .star _ => true

def firsts : Expr α → List α
  | .empty => []
  | .atom a => [a]
  | .boundary => []
  | .seq r s => r.firsts ++ if r.nullable then s.firsts else []
  | .alt r s => r.firsts ++ s.firsts
  | .star r => r.firsts

def lasts : Expr α → List α
  | .empty => []
  | .atom a => [a]
  | .boundary => []
  | .seq r s => s.lasts ++ if s.nullable then r.lasts else []
  | .alt r s => r.lasts ++ s.lasts
  | .star r => r.lasts

def atoms : Expr α → List α
  | .empty => []
  | .atom a => [a]
  | .boundary => []
  | .seq r s => r.atoms ++ s.atoms
  | .alt r s => r.atoms ++ s.atoms
  | .star r => r.atoms

def needs : Expr α → List α
  | .empty => []
  | .atom a => [a]
  | .boundary => []
  | .seq r s => r.needs ++ s.needs
  | .alt _ _ => []
  | .star _ => []

def alternatives : Expr α → List (Expr α)
  | .alt r s => r.alternatives ++ s.alternatives
  | r => [r]

end Expr

section
variable {sat : α → γ → Bool}

theorem nullable_of_nil_mem {r : Expr α} (h : [] ∈ words sat r) : r.nullable = true := by
  induction r with
  | empty => rfl
  | atom a =>
    obtain ⟨x, -, hnil⟩ := h
    cases hnil
  | boundary => rfl
  | seq r s ihr ihs =>
    obtain ⟨w, hw, w', hw', hnil⟩ := Language.mem_mul.mp h
    obtain ⟨rfl, rfl⟩ := List.append_eq_nil_iff.mp hnil
    exact Bool.and_eq_true_iff.mpr ⟨ihr hw, ihs hw'⟩
  | alt r s ihr ihs =>
    rcases h with h | h
    · exact Bool.or_eq_true_iff.mpr (Or.inl (ihr h))
    · exact Bool.or_eq_true_iff.mpr (Or.inr (ihs h))
  | star r => rfl

/-- `f` collects the atoms of one part of the words: `P w` says that `x` is that part of `w`. -/
structure Collects (sat : α → γ → Bool) (x : γ) (P : List γ → Prop) (f : Expr α → List α) : Prop where
  nil : ¬ P []
  single : ∀ {y}, P [y] → y = x
  append : ∀ {u v}, P (u ++ v) → P u ∨ P v
  atom : ∀ a, f (.atom a) = [a]
  seq : ∀ {r s u v}, u ∈ words sat r → v ∈ words sat s → P (u ++ v) →
    P u ∧ f r ⊆ f (.seq r s) ∨ P v ∧ f s ⊆ f (.seq r s)
  alt : ∀ r s, f (.alt r s) = f r ++ f s
  star : ∀ r, f (.star r) = f r

/-- What is that part of a word is what one of the atoms accepts. -/
theorem Collects.exists_sat {x : γ} {P : List γ → Prop} {f : Expr α → List α}
    (h : Collects sat x P f) {r : Expr α} {w : List γ} (hw : w ∈ words sat r) (hx : P w) :
    ∃ a ∈ f r, sat a x = true := by
  induction r generalizing w with
  | empty =>
    obtain rfl : w = [] := hw
    exact absurd hx h.nil
  | atom a =>
    obtain ⟨y, hy, rfl⟩ := hw
    obtain rfl := h.single hx
    rw [h.atom]
    exact ⟨a, List.mem_singleton_self a, hy⟩
  | boundary =>
    obtain rfl : w = [] := hw
    exact absurd hx h.nil
  | seq r s ihr ihs =>
    obtain ⟨u, hu, v, hv, rfl⟩ := Language.mem_mul.mp hw
    rcases h.seq hu hv hx with ⟨hx, hsub⟩ | ⟨hx, hsub⟩
    · obtain ⟨a, ha, hsat⟩ := ihr hu hx
      exact ⟨a, hsub ha, hsat⟩
    · obtain ⟨a, ha, hsat⟩ := ihs hv hx
      exact ⟨a, hsub ha, hsat⟩
  | alt r s ihr ihs =>
    rw [h.alt]
    rcases hw with hw | hw
    · obtain ⟨a, ha, hsat⟩ := ihr hw hx
      exact ⟨a, List.mem_append_left _ ha, hsat⟩
    · obtain ⟨a, ha, hsat⟩ := ihs hw hx
      exact ⟨a, List.mem_append_right _ ha, hsat⟩
  | star r ih =>
    have hiter : w ∈ (words sat r)∗ := hw
    rw [h.star]
    induction hiter using kstar_induction with
    | nil => exact absurd hx h.nil
    | append u v hu hv ih' =>
      rcases h.append hx with hx | hx
      · exact ih hu hx
      · exact ih' hv hx

theorem collects_firsts (x : γ) : Collects sat x (x ∈ ·.head?) Expr.firsts where
  nil := by simp
  single h := Option.some.inj h
  append := by
    intro u v h
    cases u with
    | nil => exact Or.inr h
    | cons y u => exact Or.inl h
  atom _ := rfl
  seq := by
    intro r s u v hu _ h
    show _ ∧ r.firsts ⊆ (r.firsts ++ if r.nullable then s.firsts else []) ∨
      _ ∧ s.firsts ⊆ r.firsts ++ if r.nullable then s.firsts else []
    cases u with
    | nil =>
      rw [if_pos (nullable_of_nil_mem hu)]
      exact Or.inr ⟨h, List.subset_append_right _ _⟩
    | cons y u => exact Or.inl ⟨h, List.subset_append_left _ _⟩
  alt _ _ := rfl
  star _ := rfl

/-- The last character of an appended text is one of its second part, unless that is empty. -/
theorem getLast?_append_cases {x : γ} {u v : List γ} (h : x ∈ (u ++ v).getLast?) :
    x ∈ u.getLast? ∧ v = [] ∨ x ∈ v.getLast? := by
  by_cases hnil : v = []
  · rw [hnil, List.append_nil] at h
    exact Or.inl ⟨h, hnil⟩
  · rw [List.getLast?_append_of_ne_nil _ hnil] at h
    exact Or.inr h

theorem collects_lasts (x : γ) : Collects sat x (x ∈ ·.getLast?) Expr.lasts where
  nil := by simp
  single h := Option.some.inj h
  append h := (getLast?_append_cases h).imp And.left id
  atom _ := rfl
  seq := by
    intro r s u v _ hv h
    show _ ∧ r.lasts ⊆ (s.lasts ++ if s.nullable then r.lasts else []) ∨
      _ ∧ s.lasts ⊆ s.lasts ++ if s.nullable then r.lasts else []
    rcases getLast?_append_cases h with ⟨hu, rfl⟩ | hv
    · rw [if_pos (nullable_of_nil_mem hv)]
      exact Or.inl ⟨hu, List.subset_append_right _ _⟩
    · exact Or.inr ⟨hv, List.subset_append_left _ _⟩
  alt _ _ := rfl
  star _ := rfl

theorem collects_atoms (x : γ) : Collects sat x (x ∈ ·) Expr.atoms where
  nil := by simp
  single h := (List.mem_singleton.mp h).symm
  append := List.mem_append.mp
  atom _ := rfl
  seq _ _ h := (List.mem_append.mp h).imp (fun h => ⟨h, List.subset_append_left _ _⟩)
    fun h => ⟨h, List.subset_append_right _ _⟩
  alt _ _ := rfl
  star _ := rfl

/-- What a word cannot do without. -/
theorem exists_of_needs {r : Expr α} {w : List γ} (hw : w ∈ words sat r) {a : α}
    (ha : a ∈ r.needs) : ∃ x ∈ w, sat a x = true := by
  induction r generalizing w with
  | atom b =>
    obtain rfl := List.mem_singleton.mp ha
    obtain ⟨x, hx, rfl⟩ := hw
    exact ⟨x, List.mem_singleton_self x, hx⟩
  | seq r s ihr ihs =>
    obtain ⟨u, hu, v, hv, rfl⟩ := Language.mem_mul.mp hw
    rcases List.mem_append.mp ha with ha | ha
    · obtain ⟨x, hx, hsat⟩ := ihr hu ha
      exact ⟨x, List.mem_append_left _ hx, hsat⟩
    · obtain ⟨x, hx, hsat⟩ := ihs hv ha
      exact ⟨x, List.mem_append_right _ hx, hsat⟩
  | _ => cases ha

end

/-! ## Between boundaries -/

/-- An expression between two boundaries. -/
def Expr.bounded (r : Expr α) : Expr α := .seq .boundary (.seq r (.seq .boundary .empty))

/-- What stands between two boundaries. -/
def Expr.inner : Expr α → Option (Expr α)
  | .seq .boundary (.seq r (.seq .boundary .empty)) => some r
  | _ => none

theorem Expr.eq_bounded {p r : Expr α} (h : p.inner = some r) : p = r.bounded := by
  unfold inner at h
  split at h
  next => rw [Option.some.inj h]; rfl
  next => cases h

section
variable {sat : α → γ → Bool} {isWord : γ → Bool}

theorem matches_alternatives {r : Expr α} {c c' : Cursor γ} :
    Matches sat isWord r c c' ↔ ∃ a ∈ r.alternatives, Matches sat isWord a c c' := by
  induction r with
  | alt r s ihr ihs =>
    simp only [Expr.alternatives, List.mem_append, or_and_right, exists_or, ← ihr, ← ihs]
    exact Iff.rfl
  | _ => simp [Expr.alternatives]

/-- A word between word characters' ends is found as it stands. -/
theorem search_bounded {r a : Expr α} (ha : a ∈ r.alternatives) (hplain : a.plain = true) {w : List γ}
    (hw : w ∈ words sat a) (hfirst : startsWord isWord w = true)
    (hlast : startsWord isWord w.reverse = true) :
    (search sat isWord r.bounded w).isSome = true := by
  have hwhole : Cursor.Consumes ⟨[], w⟩ w ⟨w.reverse, []⟩ :=
    ⟨(List.append_nil w).symm, (List.append_nil w.reverse).symm⟩
  have hmatch : Matches sat isWord r ⟨[], w⟩ ⟨w.reverse, []⟩ :=
    matches_alternatives.mpr ⟨a, ha, matches_of_words hplain hw hwhole⟩
  have hstart : Cursor.AtBoundary isWord ⟨[], w⟩ := by
    show startsWord isWord [] ≠ startsWord isWord w
    rw [hfirst]
    exact Bool.false_ne_true
  have hend : Cursor.AtBoundary isWord ⟨w.reverse, []⟩ := by
    show startsWord isWord w.reverse ≠ startsWord isWord []
    rw [hlast]
    exact Bool.false_ne_true.symm
  exact (search_isSome sat isWord).mpr
    ⟨[], w, ⟨w.reverse, []⟩, rfl, _, ⟨rfl, hstart⟩, _, hmatch, _, ⟨rfl, hend⟩, rfl⟩

/-- After a character that is no word character there is nothing to find, if every alternative needs
what the rest does not have. -/
theorem search_bounded_none {r : Expr α} {y : γ} {v : List γ} (hy : isWord y = false)
    (hneeds : ∀ b ∈ r.alternatives, ∃ n ∈ b.needs, ∀ z ∈ v, sat n z = false) :
    (search sat isWord r.bounded (y :: v)).isSome = false := by
  rw [Bool.eq_false_iff]
  intro hfound
  obtain ⟨before, after, c', heq, c₁, ⟨rfl, hstart⟩, c₂, hmatch, -⟩ :=
    (search_isSome sat isWord).mp hfound
  cases before with
  | nil =>
    obtain rfl : y :: v = after := heq
    exact hstart hy.symm
  | cons x before =>
    obtain ⟨-, rfl⟩ := List.cons.inj heq
    obtain ⟨b, hb, hmatch⟩ := matches_alternatives.mp hmatch
    obtain ⟨n, hn, hlacks⟩ := hneeds b hb
    obtain ⟨w, hw, hc⟩ := hmatch.consumes
    obtain ⟨z, hz, hsat⟩ := exists_of_needs hw hn
    have hafter : after = w ++ c₂.after := hc.after
    have hmem : z ∈ before ++ after := by
      rw [hafter]
      exact List.mem_append_right _ (List.mem_append_left _ hz)
    rw [hlacks z hmem] at hsat
    cases hsat

end

/-! ## Other readings of the atoms -/

section
variable {sat sat' : α → γ → Bool} {isWord isWord' : γ → Bool}

/-- A match says nothing of characters that are not there. -/
theorem Matches.congr {r : Expr α} {p : γ → Prop}
    (hsat : ∀ a ∈ r.atoms, ∀ x, p x → sat a x = sat' a x) (hword : ∀ x, p x → isWord x = isWord' x)
    {c c' : Cursor γ} (hc : ∀ x ∈ c.before ++ c.after, p x) (h : Matches sat isWord r c c') :
    Matches sat' isWord' r c c' := by
  induction r generalizing c c' with
  | empty => exact h
  | atom a =>
    obtain ⟨x, hx, hafter, hbefore⟩ := h
    have hp : p x := hc x (by simp [hafter])
    exact ⟨x, (hsat a (List.mem_singleton_self a) x hp).symm.trans hx, hafter, hbefore⟩
  | boundary =>
    obtain ⟨rfl, hb⟩ := h
    have hstarts : ∀ cs : List γ, (∀ x ∈ cs, p x) → startsWord isWord cs = startsWord isWord' cs := by
      intro cs hcs
      cases cs with
      | nil => rfl
      | cons x cs => exact hword x (hcs x List.mem_cons_self)
    refine ⟨rfl, ?_⟩
    show startsWord isWord' c.before ≠ startsWord isWord' c.after
    rw [← hstarts c.before fun x hx => hc x (List.mem_append_left _ hx),
      ← hstarts c.after fun x hx => hc x (List.mem_append_right _ hx)]
    exact hb
  | seq r s ihr ihs =>
    obtain ⟨c₁, h₁, h₂⟩ := h
    obtain ⟨w, -, hcons⟩ := h₁.consumes
    refine ⟨c₁, ihr (fun a ha => hsat a (List.mem_append_left _ ha)) hc h₁, ?_⟩
    exact ihs (fun a ha => hsat a (List.mem_append_right _ ha))
      (fun x hx => hc x ((hcons.mem_iff x).mp hx)) h₂
  | alt r s ihr ihs =>
    rcases h with h | h
    · exact Or.inl (ihr (fun a ha => hsat a (List.mem_append_left _ ha)) hc h)
    · exact Or.inr (ihs (fun a ha => hsat a (List.mem_append_right _ ha)) hc h)
  | star r ih =>
    show ReflTransGen (Matches sat' isWord' r) c c'
    induction h using ReflTransGen.head_induction_on with
    | refl => exact .refl
    | head h₁ _ ih' =>
      obtain ⟨w, -, hcons⟩ := h₁.consumes
      exact .head (ih hsat hc h₁) (ih' fun x hx => hc x ((hcons.mem_iff x).mp hx))

/-- A search finds the same under readings that agree on the text. -/
theorem search_congr {r : Expr α} {text : List γ}
    (hsat : ∀ a ∈ r.atoms, ∀ x ∈ text, sat a x = sat' a x)
    (hword : ∀ x ∈ text, isWord x = isWord' x) :
    (search sat isWord r text).isSome = (search sat' isWord' r text).isSome := by
  rw [Bool.eq_iff_iff, search_isSome, search_isSome]
  have hmem : ∀ {before after : List γ}, text = before ++ after →
      ∀ x ∈ before.reverse ++ after, x ∈ text := by
    rintro before after rfl x hx
    simpa using hx
  constructor
  · rintro ⟨before, after, c', htext, h⟩
    exact ⟨before, after, c', htext, h.congr hsat hword (hmem htext)⟩
  · rintro ⟨before, after, c', htext, h⟩
    exact ⟨before, after, c', htext, h.congr (fun a ha x hx => (hsat a ha x hx).symm)
      (fun x hx => (hword x hx).symm) (hmem htext)⟩

end

end Regex
