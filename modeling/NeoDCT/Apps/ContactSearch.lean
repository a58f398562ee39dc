import NeoDCT.Apps.PhoneBook

/-!
# Searching the contacts

`get_all_contacts` (apps/PhoneBook/shared/list_ui.py) puts the query between two `%` and leaves the rest
to SQLite's `LIKE`.  A query without `%` and `_` then finds what contains it, and these two are not on
the keys:

    like ('%' :: q ++ ['%']) s  ↔  q is in s, but for the case of ASCII letters    (like_contains)
    TextInput.show returns q  →  no '%' and no '_' in q                            (plain_of_shown)
-/

namespace NeoDCT

open PyText Interactive

/-! ## Patterns -/

/-- No wildcards. -/
def Plain (p : Text) : Prop := ∀ c ∈ p, c ≠ '%' ∧ c ≠ '_'

/-- `s` contains `q`; ASCII letters are the same in either case. -/
def Contains (s q : Text) : Prop := q.map Char.toLower <:+: s.map Char.toLower

/-- A leading `%` skips some of the text. -/
theorem like_percent (p s : Text) : like ('%' :: p) s = true ↔ ∃ t, t <:+ s ∧ like p t = true := by
  rw [like.eq_def]
  show s.tails.any (like p) = true ↔ _
  rw [List.any_eq_true]
  simp only [List.mem_tails]

theorem like_nil_of_ne {c : Char} (hc : c ≠ '%') (p : Text) : like (c :: p) [] = false := by
  rw [like.eq_def]
  exact if_neg hc

theorem like_cons_of_ne {c : Char} (hc : c ≠ '%') (p : Text) (d : Char) (s : Text) :
    like (c :: p) (d :: s) = ((c = '_' || c.toLower = d.toLower) && like p s) := by
  rw [like.eq_def]
  exact if_neg hc

/-- A plain pattern with `%` behind it matches what begins with it. -/
theorem like_begins {p : Text} (hp : Plain p) (s : Text) :
    like (p ++ ['%']) s = true ↔ p.map Char.toLower <+: s.map Char.toLower := by
  induction p generalizing s with
  | nil =>
    have hmatch : like ['%'] s = true := (like_percent [] s).mpr ⟨[], List.nil_suffix, rfl⟩
    exact ⟨fun _ => List.nil_prefix, fun _ => hmatch⟩
  | cons c p ih =>
    obtain ⟨hpercent, hunder⟩ := hp c List.mem_cons_self
    have hrest : Plain p := fun d hd => hp d (List.mem_cons_of_mem _ hd)
    cases s with
    | nil => simp [like_nil_of_ne hpercent]
    | cons d s => simp [like_cons_of_ne hpercent, hunder, ih hrest s, List.cons_prefix_cons]

/-- **A plain query between two `%`** finds what contains it. -/
theorem like_contains {q : Text} (hq : Plain q) (s : Text) :
    like ('%' :: q ++ ['%']) s = true ↔ Contains s q := by
  rw [List.cons_append, like_percent]
  unfold Contains
  rw [List.infix_iff_prefix_suffix]
  constructor
  · rintro ⟨t, ht, hlike⟩
    exact ⟨t.map Char.toLower, (like_begins hq t).mp hlike, ht.map Char.toLower⟩
  · rintro ⟨u, hu, hsuffix⟩
    obtain ⟨t, ht, rfl⟩ := List.suffix_map_iff.mp hsuffix
    exact ⟨t, ht, (like_begins hq t).mpr hu⟩

/-! ## What can be typed -/

theorem plain_typedChar (text : Text) {key : Nat} {char : Char}
    (h : TextInput.devKeymap.lookup key = some char) :
    typedChar text char ≠ '%' ∧ typedChar text char ≠ '_' := by
  have hall : ∀ kc ∈ TextInput.devKeymap, (kc.2 ≠ '%' ∧ kc.2 ≠ '_') ∧
      kc.2.toUpper ≠ '%' ∧ kc.2.toUpper ≠ '_' := by decide
  obtain ⟨before, after, hmap, -⟩ := List.lookup_eq_some_iff.mp h
  have hmem : (key, char) ∈ TextInput.devKeymap :=
    hmap ▸ List.mem_append_right before List.mem_cons_self
  obtain ⟨hchar, hupper⟩ := hall _ hmem
  unfold typedChar
  split
  · exact hupper
  · exact hchar

/-- A key keeps a text plain. -/
theorem plain_onKey {self : TextInput} (h : Plain self.text) (key : Nat) :
    (∀ self', self.onKey key = .inl self' → Plain self'.text) ∧
    ∀ text, self.onKey key = .inr (some text) → Plain text := by
  unfold TextInput.onKey
  split
  · refine ⟨fun _ h' => (by cases h'), ?_⟩
    rintro _ ⟨⟩
    exact h
  split
  · split
    · refine ⟨?_, fun _ h' => (by cases h')⟩
      rintro _ ⟨⟩
      exact fun c hc => h c (List.mem_of_mem_dropLast hc)
    · exact ⟨fun _ h' => (by cases h'), fun _ h' => (by cases h')⟩
  · split
    · next char hkey =>
      refine ⟨?_, fun _ h' => (by cases h')⟩
      rintro _ ⟨⟩
      exact List.forall_mem_append.mpr ⟨h, List.forall_mem_singleton.mpr (plain_typedChar _ hkey)⟩
    · refine ⟨?_, fun _ h' => (by cases h')⟩
      rintro _ ⟨⟩
      exact h

theorem plain_feed {self : TextInput} (h : Plain self.text) {keys rest : List Nat} {text : Text}
    (hfeed : feed TextInput.onKey self keys = .inr (some text, rest)) : Plain text := by
  induction keys generalizing self with
  | nil => cases hfeed
  | cons key keys ih =>
    obtain ⟨hgo, hend⟩ := plain_onKey h key
    rw [feed] at hfeed
    cases hkey : self.onKey key with
    | inl self' =>
      rw [hkey] at hfeed
      exact ih (hgo self' hkey) hfeed
    | inr r =>
      rw [hkey] at hfeed
      obtain ⟨rfl, -⟩ := Prod.mk.inj (Sum.inr.inj hfeed)
      exact hend text hkey

/-- **What a prompt returns** that was empty at first is plain. -/
theorem plain_of_shown {ui : Ui} {title prompt : Text} {w : World} {text : Text}
    (h : returned? (TextInput.showModal ui { title := title, prompt := prompt }) w = some (some text)) :
    Plain text := by
  rcases wp_cases (TextInput.showModal_spec ui { title := title, prompt := prompt } w) with
    ⟨r, hr, -, hfeed, -⟩ | ⟨_, hr, -⟩
  · rw [hr] at h
    obtain rfl := Option.some.inj h
    exact plain_feed (fun c hc => by cases hc) hfeed
  · rw [hr] at h
    cases h

/-! ## The rows -/

/-- The rows with `P`, each once, by name. -/
structure Lists (t : AutoTable Contact) (P : ContactRow → Prop) (rows : List ContactRow) : Prop where
  mem : ∀ r, r ∈ rows ↔ r ∈ t.rows ∧ P r
  once : rows.Nodup
  byName : rows.Pairwise fun a b => a.2.name ≤ b.2.name

theorem lists_orderByName (t : AutoTable Contact) {P : ContactRow → Prop} {rows : List ContactRow}
    (hsub : rows.Sublist t.rows) (hmem : ∀ r, r ∈ rows ↔ r ∈ t.rows ∧ P r) :
    Lists t P (orderByName rows) := by
  have hnodup : t.rows.Nodup := t.sorted.imp fun h heq => absurd h (by rw [heq]; exact lt_irrefl _)
  unfold orderByName
  refine ⟨?_, ?_, List.pairwise_insertionSort _ rows⟩
  · intro r
    rw [List.mem_insertionSort]
    exact hmem r
  · exact (List.perm_insertionSort _ rows).nodup_iff.mpr (hsub.nodup hnodup)

/-- **The search is exact**: for what was typed, the contacts whose names contain it; without a query,
all of them. -/
theorem getAllContacts_lists (t : AutoTable Contact) :
    (∀ (ui : Ui) (title prompt : Text) (w : World) (q : Text),
      returned? (TextInput.showModal ui { title := title, prompt := prompt }) w = some (some q) →
      q ≠ [] → Lists t (fun r => Contains r.2.name q) (getAllContacts t (some q))) ∧
    Lists t (fun _ => True) (getAllContacts t none) := by
  constructor
  · intro ui title prompt w q hshown hne
    have hplain := plain_of_shown hshown
    cases q with
    | nil => exact absurd rfl hne
    | cons c cs =>
      refine lists_orderByName t List.filter_sublist ?_
      intro r
      rw [List.mem_filter, like_contains hplain]
  · exact lists_orderByName t (List.Sublist.refl _) fun r => (and_true _).symm ▸ Iff.rfl

/-- Bob and Jimbo, and not Ann: `b`, `o` and OK were pressed. -/
theorem getAllContacts_lists_bo :
    let t := ((AutoTable.empty.insert ⟨"Jimbo".toList, "1".toList, 0⟩).insert
      ⟨"Ann".toList, "2".toList, 0⟩).insert ⟨"Bob".toList, "3".toList, 0⟩
    Lists t (fun r => Contains r.2.name "Bo".toList) (getAllContacts t (some "Bo".toList)) := by
  intro t
  exact (getAllContacts_lists t).1 Ui.plain [] []
    (World.boot (initDatabases none none none) [.press 1 48, .press 2 24, .press 3 28]) "Bo".toList
    (by decide +kernel) (by decide)

end NeoDCT
