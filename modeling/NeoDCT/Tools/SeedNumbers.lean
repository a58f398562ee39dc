import NeoDCT.Lib.Draws
import NeoDCT.Tools.SeedContacts

/-!
# The numbers of a seeding

System/tools/debug_phonebook_createrandomcontacts.py: `gen_555_number` draws until a number is new, and
there are ten thousand numbers.  `seed_contacts` checks how many names are left, not how many numbers:

    every call has a number left to find  ↔  count ≤ freeSuffixes truncate table    (seedCalls_iff)

and once there is none, the call draws for ever.
-/

namespace NeoDCT.SeedContacts

open PyText Interactive

/-! ## The calls -/

/-- `f"555-{suffix:04d}"`. -/
def number555 (suffix : Fin 10000) : Text := "555-".toList ++ zeroPad 4 suffix.val

/-- The numbers in use at each call of `gen_555_number`, the one that still draws included. -/
def gen555Calls : List Text → List Text → List (Fin 10000) → List (List Text)
  | [], _, _ => []
  | _ :: names, usedNumbers, draws =>
    usedNumbers :: match gen555Number usedNumbers draws with
      | none => []
      | some (_, usedNumbers, draws) => gen555Calls names usedNumbers draws

/-- The same, of a whole seeding: there is no call where a check fails. -/
def seedCalls (env : Env) (count : ℤ) (truncate shuffle : Bool) (table : Option ContactTable) :
    List (List Text) :=
  let conn := truncated truncate (ensureSchema table)
  match getExistingFirstNames env.lower conn.table with
  | .error _ => []
  | .ok existingFirst =>
    match loadFirstNames env.isDigit env.page with
    | .error _ => []
    | .ok sourceNames =>
      let available := available env shuffle existingFirst sourceNames
      if count > available.length then []
      else gen555Calls (available.take count.toNat) (getExistingNumbers conn.table) env.draws

/-- The seeding gets past its own checks. -/
def Passes (env : Env) (count : ℤ) (truncate shuffle : Bool) (table : Option ContactTable) : Prop :=
  ∃ existing source,
    getExistingFirstNames env.lower (truncated truncate (ensureSchema table)).table = .ok existing ∧
    loadFirstNames env.isDigit env.page = .ok source ∧
    count ≤ (available env shuffle existing source).length

/-- Whatever is drawn, each call is left a number to find. -/
def CallsFind (env : Env) (count : ℤ) (truncate shuffle : Bool) (table : Option ContactTable) : Prop :=
  ∀ draws, ∀ used ∈ seedCalls { env with draws := draws } count truncate shuffle table,
    ∃ suffix, number555 suffix ∉ used

/-- The seeding comes to an end, if only every suffix is drawn again and again. -/
def NeverSpins (env : Env) (count : ℤ) (truncate shuffle : Bool) (table : Option ContactTable) : Prop :=
  ∀ stream, Draws.Recurs stream →
    ∃ n, (seedContacts { env with draws := Draws.segment stream 0 n } count truncate shuffle table).isSome

/-- How many suffixes no number of the table uses, once it is truncated or not. -/
def freeSuffixes (truncate : Bool) (table : Option ContactTable) : ℕ :=
  (Draws.free number555 (getExistingNumbers (truncated truncate (ensureSchema table)).table)).card

/-! ## Draws of a suffix -/

theorem number555_injective : Function.Injective number555 := by
  intro a b h
  have hpad : zeroPad 4 a.val = zeroPad 4 b.val := List.append_cancel_left h
  apply Fin.ext
  rw [← zeroPad_value 4 a.val, hpad, zeroPad_value]

theorem gen555Number_eq (used : List Text) (draws : List (Fin 10000)) :
    gen555Number used draws = (Draws.fresh number555 used draws).map fun r => (r.1, r.1 :: used, r.2) := by
  induction draws with
  | nil => rfl
  | cons suffix draws ih =>
    unfold gen555Number Draws.fresh
    by_cases h : used.contains (number555 suffix)
    · rw [if_neg (by simpa [number555] using h), if_neg (by simpa using h)]
      exact ih
    · rw [if_pos (by simpa [number555] using h), if_pos (by simpa using h)]
      rfl

theorem numberNames_eq (names used : List Text) (draws : List (Fin 10000)) :
    numberNames names used draws =
      (Draws.freshMany number555 names.length used draws).map (names.zip ·) := by
  induction names generalizing used draws with
  | nil => rfl
  | cons name names ih =>
    unfold numberNames
    rw [List.length_cons]
    unfold Draws.freshMany
    rw [gen555Number_eq]
    cases Draws.fresh number555 used draws with
    | none => rfl
    | some r =>
      simp only [Option.map_some, Option.bind_eq_bind, Option.bind_some, ih]
      cases Draws.freshMany number555 names.length (r.1 :: used) r.2 with
      | none => rfl
      | some numbers => rfl

theorem gen555Calls_eq (names used : List Text) (draws : List (Fin 10000)) :
    gen555Calls names used draws = Draws.searches number555 names.length used draws := by
  induction names generalizing used draws with
  | nil => rfl
  | cons name names ih =>
    unfold gen555Calls
    rw [List.length_cons]
    unfold Draws.searches
    rw [gen555Number_eq]
    cases Draws.fresh number555 used draws with
    | none => rfl
    | some r =>
      simp only [Option.map_some, ih]

/-! ## A seeding that passes its checks -/

section
variable {env : Env} {count : ℤ} {truncate shuffle : Bool} {table : Option ContactTable}

/-- What is drawn for, once the checks are passed: as many numbers as contacts. -/
theorem Passes.searches (h : Passes env count truncate shuffle table) :
    seedCalls env count truncate shuffle table = Draws.searches number555 count.toNat
      (getExistingNumbers (truncated truncate (ensureSchema table)).table) env.draws := by
  obtain ⟨existing, source, hexisting, hsource, hcount⟩ := h
  unfold seedCalls
  simp only [hexisting, hsource]
  rw [if_neg (by omega), gen555Calls_eq, List.length_take, min_eq_left (by omega)]

theorem Passes.isSome (h : Passes env count truncate shuffle table) :
    (seedContacts env count truncate shuffle table).isSome = (Draws.freshMany number555 count.toNat
      (getExistingNumbers (truncated truncate (ensureSchema table)).table) env.draws).isSome := by
  obtain ⟨existing, source, hexisting, hsource, hcount⟩ := h
  have hconn : (if truncate then ((Conn.connect (ensureSchema table)).execute AutoTable.clear).commit
      else .connect (ensureSchema table)) = truncated truncate (ensureSchema table) := rfl
  unfold seedContacts seedBody
  simp only [hconn, hexisting, hsource]
  rw [if_neg (by omega), numberNames_eq, List.length_take, min_eq_left (by omega)]
  cases Draws.freshMany number555 count.toNat _ env.draws with
  | none => rfl
  | some numbers => rfl

/-- The checks do not depend on what is drawn. -/
theorem Passes.withDraws (h : Passes env count truncate shuffle table) (draws : List (Fin 10000)) :
    Passes { env with draws := draws } count truncate shuffle table := h

/-- **When a seeding that passes its checks finds its numbers**: when there are as many of them left as
contacts to be made.  Otherwise it draws for ever, whatever it draws. -/
theorem seedCalls_iff (env : Env) (count : ℤ) (truncate shuffle : Bool) (table : Option ContactTable)
    (h : Passes env count truncate shuffle table) :
    (CallsFind env count truncate shuffle table ↔ count ≤ freeSuffixes truncate table) ∧
    (NeverSpins env count truncate shuffle table ↔ count ≤ freeSuffixes truncate table) ∧
    (¬ count ≤ freeSuffixes truncate table →
      ∀ draws, seedContacts { env with draws := draws } count truncate shuffle table = none) := by
  have hle : count.toNat ≤ freeSuffixes truncate table ↔ count ≤ freeSuffixes truncate table := by omega
  have hends : ∀ draws,
      (seedContacts { env with draws := draws } count truncate shuffle table).isSome →
        count ≤ freeSuffixes truncate table := by
    intro draws hsome
    rw [(h.withDraws draws).isSome] at hsome
    obtain ⟨numbers, hnumbers⟩ := Option.isSome_iff_exists.mp hsome
    exact hle.mp (Draws.freshMany_le number555_injective hnumbers)
  refine ⟨?_, ⟨fun hspins => ?_, fun hcount stream hstream => ?_⟩, fun hcount draws => ?_⟩
  · rw [← hle]
    unfold CallsFind
    simp only [(h.withDraws _).searches]
    exact Draws.searches_iff number555_injective
  · obtain ⟨n, hn⟩ := hspins _ (Draws.recurs_ofNat 10000)
    exact hends _ hn
  · obtain ⟨n, numbers, hnumbers⟩ :=
      Draws.freshMany_of_recurs number555_injective hstream (hle.mpr hcount) 0
    refine ⟨n, ?_⟩
    rw [(h.withDraws _).isSome, hnumbers]
    rfl
  · rw [← Option.not_isSome_iff_eq_none]
    exact fun hsome => hcount (hends draws hsome)

end

/-- One contact, and all suffixes but one to choose from. -/
theorem seedCalls_owen : CallsFind twoNames 1 false true (some owenTable) ∧
    NeverSpins twoNames 1 false true (some owenTable) := by
  have hpasses : Passes twoNames 1 false true (some owenTable) :=
    ⟨["owen".toList], ["OWEN".toList, "Mary".toList], by decide +kernel, by decide +kernel,
      by decide +kernel⟩
  have hfree : ∃ suffix, number555 suffix ∉
      getExistingNumbers (truncated false (ensureSchema (some owenTable))).table :=
    ⟨2, by decide +kernel⟩
  have hcount : (1 : ℤ) ≤ freeSuffixes false (some owenTable) := by
    exact_mod_cast Draws.free_nonempty_iff.mpr hfree
  obtain ⟨hcalls, hspins, -⟩ := seedCalls_iff twoNames 1 false true (some owenTable) hpasses
  exact ⟨hcalls.mpr hcount, hspins.mpr hcount⟩

/-- One contact for every number there is. -/
def fullTable : ContactTable :=
  ((List.finRange 10000).map fun suffix =>
    (⟨some "Owen".toList, some (number555 suffix), none⟩ : StoredContact)).foldl AutoTable.insert .empty

theorem fullTable_rows : fullTable.rows.map Prod.snd =
    (List.finRange 10000).map fun suffix => ⟨some "Owen".toList, some (number555 suffix), none⟩ := by
  obtain ⟨new, hrows, hnew⟩ := AutoTable.foldl_insert_rows .empty ((List.finRange 10000).map
    fun suffix => (⟨some "Owen".toList, some (number555 suffix), none⟩ : StoredContact))
  rw [← hnew]
  exact congrArg (List.map Prod.snd) hrows

theorem fullTable_used (suffix : Fin 10000) : number555 suffix ∈ getExistingNumbers fullTable := by
  have hrow : (⟨some "Owen".toList, some (number555 suffix), none⟩ : StoredContact) ∈
      fullTable.rows.map Prod.snd := by
    rw [fullTable_rows]
    exact List.mem_map_of_mem (List.mem_finRange suffix)
  obtain ⟨row, hmem, hrow⟩ := List.mem_map.mp hrow
  exact mem_existingNumbers hmem (congrArg StoredContact.number hrow)
    (List.append_ne_nil_of_left_ne_nil (by decide) _)

theorem truncated_false (table : ContactTable) :
    (truncated false (ensureSchema (some table))).table = table := rfl

theorem mary_available {existing : List Text} (h : "mary".toList ∉ existing) :
    "Mary".toList ∈ available twoNames true existing ["OWEN".toList, "Mary".toList] := by
  have hlower : twoNames.lower "Mary".toList = "mary".toList := by decide +kernel
  refine List.mem_filter.mpr ⟨by decide +kernel, ?_⟩
  rw [hlower]
  simpa using h

/-- There is a name left, but no number. -/
theorem fullTable_passes : Passes twoNames 1 false true (some fullTable) := by
  have hnames : ∀ row ∈ fullTable.rows,
      firstName twoNames.lower row.2.name = .ok (some "owen".toList) := by
    intro row hrow
    have hsnd := List.mem_map_of_mem (f := Prod.snd) hrow
    rw [fullTable_rows] at hsnd
    obtain ⟨suffix, -, hsuffix⟩ := List.mem_map.mp hsnd
    rw [← hsuffix]
    show firstName twoNames.lower (some "Owen".toList) = _
    decide +kernel
  refine ⟨(fullTable.rows.map fun _ => some "owen".toList).reduceOption,
    ["OWEN".toList, "Mary".toList], ?_, by decide +kernel, ?_⟩
  · rw [truncated_false]
    unfold getExistingFirstNames
    rw [mapM_eq_ok_map hnames]
    rfl
  · have hmary : "mary".toList ∉ (fullTable.rows.map fun _ => some "owen".toList).reduceOption := by
      intro hmem
      obtain ⟨row, -, hrow⟩ := List.mem_map.mp (List.reduceOption_mem_iff.mp hmem)
      exact absurd hrow (by decide +kernel)
    have hpos := List.length_pos_of_mem (mary_available hmary)
    omega

/-- A full table, and one name that is not in it. -/
theorem seedCalls_spins : ¬ ∀ (env : Env) (count : ℤ) (truncate shuffle : Bool)
    (table : Option ContactTable), Passes env count truncate shuffle table →
      CallsFind env count truncate shuffle table ∧ NeverSpins env count truncate shuffle table := by
  intro hall
  obtain ⟨hcalls, -⟩ := hall twoNames 1 false true (some fullTable) fullTable_passes
  have hcall : getExistingNumbers fullTable ∈
      seedCalls { twoNames with draws := [] } 1 false true (some fullTable) := by
    rw [(fullTable_passes.withDraws []).searches, truncated_false]
    exact List.mem_cons_self
  obtain ⟨suffix, hsuffix⟩ := hcalls [] _ hcall
  exact hsuffix (fullTable_used suffix)

end NeoDCT.SeedContacts
