import NeoDCT.Lib.AutoTable
import NeoDCT.Lib.PyNumbers
import NeoDCT.Lib.PyText
import NeoDCT.Lib.Works

/-!
# Seeding the phone book

System/tools/debug_phonebook_createrandomcontacts.py: first names from a page's table, numbers drawn at
random, and the transaction that inserts them.  What is not the program's is a parameter: the parsed
page, `str.lower` and `str.isdigit`, the order that `random.shuffle` leaves, and the numbers drawn.

What is inserted is new (`seedContacts_adds`), and a seeding that fails leaves the table alone

    ↔  it was not to truncate the table, or the table was empty            (seedContacts_fails_iff)

since the `DELETE` is committed before anything can fail.
-/

namespace NeoDCT.SeedContacts

open PyText Interactive

/-! ## The page -/

/-- What `HTMLParser` calls a handler with. -/
inductive HtmlEvent where
  | startTag (tag : Text)
  | endTag (tag : Text)
  | data (text : Text)
deriving DecidableEq, Repr

/-- `_TableTextParser`. -/
structure TableTextParser where
  inTd : Bool
  inTh : Bool
  cellBuf : List Text
  row : List Text
  rows : List (List Text)
deriving DecidableEq

def TableTextParser.new : TableTextParser := ⟨false, false, [], [], []⟩

/-- `re.sub(r"\s+", " ", text)`. -/
def collapseSpaces : Text → Text
  | [] => []
  | [c] => [if isSpace c then ' ' else c]
  | c :: d :: cs =>
    if isSpace c then
      if isSpace d then collapseSpaces (d :: cs) else ' ' :: collapseSpaces (d :: cs)
    else c :: collapseSpaces (d :: cs)

namespace TableTextParser

def isCell (tag : Text) : Bool := tag = "td".toList ∨ tag = "th".toList

def handleStarttag (self : TableTextParser) (tag : Text) : TableTextParser :=
  if isCell tag then
    if tag = "td".toList then { self with inTd := true, cellBuf := [] }
    else { self with inTh := true, cellBuf := [] }
  else if tag = "tr".toList then { self with row := [] }
  else self

def handleEndtag (self : TableTextParser) (tag : Text) : TableTextParser :=
  if isCell tag then
    { self with
      row := self.row ++ [collapseSpaces (strip self.cellBuf.flatten)]
      cellBuf := [], inTd := false, inTh := false }
  else if tag = "tr".toList then
    { self with
      rows := if self.row.any fun c => strip c ≠ [] then self.rows ++ [self.row] else self.rows
      row := [] }
  else self

def handleData (self : TableTextParser) (data : Text) : TableTextParser :=
  if self.inTd || self.inTh then { self with cellBuf := self.cellBuf ++ [data] } else self

def handle (self : TableTextParser) : HtmlEvent → TableTextParser
  | .startTag tag => self.handleStarttag tag
  | .endTag tag => self.handleEndtag tag
  | .data text => self.handleData text

end TableTextParser

/-- What ends a seeding before its end. -/
inductive SeedError where
  /-- The page was not fetched. -/
  | urlError
  | indexError
  | runtimeError (message : Text)
deriving DecidableEq

/-- `SOURCE_URL`. -/
def sourceUrl : Text := "https://www.thenamegeek.com/most-common-first-names".toList

/-- `re.fullmatch(r"[A-Za-z][A-Za-z'\-]*", name)`. -/
def isFirstName : Text → Bool
  | [] => false
  | c :: cs => c.isAlpha && cs.all fun d => d.isAlpha || d = '\'' || d = '-'

/-- The name in a row: rank in the first column, name in the second. -/
def rowName (isDigit : Char → Bool) : List Text → Option Text
  | rank :: name :: _ =>
    if strip rank ≠ [] ∧ (strip rank).all isDigit then
      if isFirstName (strip name) then some (strip name) else none
    else none
  | _ => none

/-- `load_first_names_from_thenamegeek`, of the page's events, if it was fetched. -/
def loadFirstNames (isDigit : Char → Bool) (page : Option (List HtmlEvent)) :
    Except SeedError (List Text) :=
  match page with
  | none => .error .urlError
  | some events =>
    let parser := events.foldl TableTextParser.handle .new
    let names := parser.rows.filterMap (rowName isDigit)
    if names = [] then
      .error (.runtimeError ("No names parsed from ".toList ++ sourceUrl ++
        ". The page format may have changed.".toList))
    else .ok names

theorem collapseSpaces_eq_self {text : Text} (h : ∀ c ∈ text, isSpace c = false) :
    collapseSpaces text = text := by
  fun_induction collapseSpaces text with
  | case1 => rfl
  | case2 c => simp [h c (List.mem_singleton_self c)]
  | case3 c d cs hc => simp [h c List.mem_cons_self] at hc
  | case4 c d cs hc => simp [h c List.mem_cons_self] at hc
  | case5 c d cs _ ih => rw [ih fun e he => h e (List.mem_cons_of_mem _ he)]

/-- A name is a word. -/
theorem isWord_of_isFirstName {name : Text} (h : isFirstName name = true) : IsWord name := by
  have hletter : ∀ c : Char, c.isAlpha = true → isSpace c = false := by
    intro c hc
    rw [Bool.eq_false_iff]
    intro hspace
    have hnot := not_isAlphanum_of_space hspace
    unfold Char.isAlphanum at hnot
    rw [hc] at hnot
    cases hnot
  cases name with
  | nil => cases h
  | cons c cs =>
    unfold isFirstName at h
    simp only [Bool.and_eq_true, List.all_eq_true, Bool.or_eq_true, decide_eq_true_eq] at h
    refine ⟨List.cons_ne_nil c cs, List.forall_mem_cons.mpr ⟨hletter c h.1, fun d hd => ?_⟩⟩
    rcases h.2 d hd with (hd | rfl) | rfl
    · exact hletter d hd
    · decide
    · decide

/-- A row of the page's table. -/
def rowEvents (name : Text) : List HtmlEvent := [
  .startTag "tr".toList,
  .startTag "td".toList, .data "1".toList, .endTag "td".toList,
  .startTag "td".toList, .data name, .endTag "td".toList,
  .endTag "tr".toList]

/-- The parser between two rows. -/
def TableTextParser.between (rows : List (List Text)) : TableTextParser := ⟨false, false, [], [], rows⟩

theorem foldl_rowEvents {name : Text} (h : IsWord name) (rows : List (List Text)) :
    (rowEvents name).foldl TableTextParser.handle (.between rows) =
      .between (rows ++ [["1".toList, name]]) := by
  have hcell : collapseSpaces (strip [name].flatten) = name := by
    rw [List.flatten_singleton, strip_eq_self (fun c hc => h.2 c (List.mem_of_head? hc))
      fun c hc => h.2 c (List.mem_of_getLast? hc)]
    exact collapseSpaces_eq_self h.2
  have hrow : (rowEvents name).foldl TableTextParser.handle (.between rows) =
      .between (rows ++ [["1".toList, collapseSpaces (strip [name].flatten)]]) := rfl
  rw [hrow, hcell]

/-- **Every list of names is the table of some page.** -/
theorem loadFirstNames_rowEvents {isDigit : Char → Bool} (hdigit : isDigit '1' = true)
    {names : List Text} (hne : names ≠ []) (h : ∀ n ∈ names, isFirstName n = true) :
    loadFirstNames isDigit (some (names.flatMap rowEvents)) = .ok names := by
  have hfold : ∀ rows : List (List Text),
      (names.flatMap rowEvents).foldl TableTextParser.handle (.between rows) =
        .between (rows ++ names.map fun n => ["1".toList, n]) := by
    clear hne
    induction names with
    | nil => simp
    | cons n names ih =>
      intro rows
      rw [List.forall_mem_cons] at h
      rw [List.flatMap_cons, List.foldl_append, foldl_rowEvents (isWord_of_isFirstName h.1), ih h.2,
        List.append_assoc]
      rfl
  have hnames : (names.map fun n => ["1".toList, n]).filterMap (rowName isDigit) = names := by
    rw [List.filterMap_map]
    refine (List.filterMap_congr fun n hn => ?_).trans List.filterMap_some
    have hword := isWord_of_isFirstName (h n hn)
    have hstrip : strip n = n := strip_eq_self (fun c hc => hword.2 c (List.mem_of_head? hc))
      fun c hc => hword.2 c (List.mem_of_getLast? hc)
    have hone : strip "1".toList = ['1'] := by decide
    show (if strip "1".toList ≠ [] ∧ (strip "1".toList).all isDigit then
      if isFirstName (strip n) then some (strip n) else none else none) = some n
    rw [hone, hstrip, if_pos (by simp [hdigit]), if_pos (h n hn)]
  have hnew : (names.flatMap rowEvents).foldl TableTextParser.handle .new =
      .between (names.map fun n => ["1".toList, n]) := hfold []
  have hrows : (TableTextParser.between (names.map fun n => ["1".toList, n])).rows.filterMap
      (rowName isDigit) = names := hnames
  unfold loadFirstNames
  simp only [hnew, hrows, if_neg hne]

/-! ## The table -/

/-- A row of `contacts`, without its id; any column may be NULL. -/
structure StoredContact where
  name : Option Text
  number : Option Text
  speedDial : Option ℤ
deriving DecidableEq, Repr

abbrev ContactTable := AutoTable StoredContact

/-- A connection: the table as its statements see it, and as it was committed last. -/
structure Conn where
  table : ContactTable
  committed : ContactTable

namespace Conn

/-- `sqlite3.connect`. -/
def connect (table : ContactTable) : Conn := ⟨table, table⟩

def execute (self : Conn) (stmt : ContactTable → ContactTable) : Conn :=
  { self with table := stmt self.table }

def commit (self : Conn) : Conn := { self with committed := self.table }

def rollback (self : Conn) : Conn := { self with table := self.committed }

/-- Leaving the `with` block. -/
def exit {α : Type} (self : Conn) : Except SeedError α → Conn
  | .ok _ => self.commit
  | .error _ => self.rollback

end Conn

section
variable (lower : Text → Text)

/-- `name.strip().split()[0].lower()`; nothing for a name that is not there. -/
def firstName (name : Option Text) : Except SeedError (Option Text) :=
  match name with
  | none => .ok none
  | some [] => .ok none
  | some name =>
    match (split (strip name))[0]? with
    | none => .error .indexError
    | some first => .ok (some (lower first))

/-- `get_existing_first_names`. -/
def getExistingFirstNames (table : ContactTable) : Except SeedError (List Text) :=
  (table.rows.mapM fun row => firstName lower row.2.name).map List.reduceOption

/-- `get_existing_numbers`. -/
def getExistingNumbers (table : ContactTable) : List Text :=
  table.rows.filterMap fun row => row.2.number.filter (· ≠ [])

/-- `gen_555_number`, with what `random.randint` draws: `none` is a loop that still goes on when these
draws are used up. -/
def gen555Number (usedNumbers : List Text) :
    List (Fin 10000) → Option (Text × List Text × List (Fin 10000))
  | [] => none
  | suffix :: draws =>
    let num := "555-".toList ++ zeroPad 4 suffix.val
    if !usedNumbers.contains num then some (num, num :: usedNumbers, draws)
    else gen555Number usedNumbers draws

/-- The rows to insert: a number for each name. -/
def numberNames : List Text → List Text → List (Fin 10000) → Option (List (Text × Text))
  | [], _, _ => some []
  | name :: names, usedNumbers, draws => do
    let (number, usedNumbers, draws) ← gen555Number usedNumbers draws
    let rows ← numberNames names usedNumbers draws
    some ((name, number) :: rows)

/-- The source names, each once, ignoring case. -/
def dedupe : List Text → List Text → List Text
  | _, [] => []
  | seen, n :: names =>
    if !seen.contains (lower n) then n :: dedupe (lower n :: seen) names else dedupe seen names

end

/-- What `random.shuffle` makes of a list. -/
structure Shuffle where
  order : List Text → List Text
  perm : ∀ names, (order names).Perm names

/-- What is not the program's. -/
structure Env where
  /-- `str.lower`. -/
  lower : Text → Text
  /-- `str.isdigit`, of one character. -/
  isDigit : Char → Bool
  page : Option (List HtmlEvent)
  shuffle : Shuffle
  draws : List (Fin 10000)

/-- The names to be had, in the order they are inserted in. -/
def available (env : Env) (shuffle : Bool) (existing source : List Text) : List Text :=
  let names := (dedupe env.lower [] source).filter fun n => !existing.contains (env.lower n)
  if shuffle then env.shuffle.order names else names

def tooFew (count : ℤ) (available : ℕ) : SeedError :=
  .runtimeError ("Requested ".toList ++ zeroPad 0 count ++ " contacts, but only ".toList ++
    zeroPad 0 available ++ " unique first names are available ".toList ++
    "after excluding names already present in the DB.".toList)

def insertRow (table : ContactTable) (row : Text × Text) : ContactTable :=
  table.insert ⟨some row.1, some row.2, none⟩

/-- The body of the `with` block. -/
def seedBody (env : Env) (count : ℤ) (truncate shuffle : Bool) (conn : Conn) :
    Option (Except SeedError ℕ × Conn) :=
  let conn := if truncate then (conn.execute AutoTable.clear).commit else conn
  match getExistingFirstNames env.lower conn.table with
  | .error e => some (.error e, conn)
  | .ok existingFirst =>
    let usedNumbers := getExistingNumbers conn.table
    match loadFirstNames env.isDigit env.page with
    | .error e => some (.error e, conn)
    | .ok sourceNames =>
      let available := available env shuffle existingFirst sourceNames
      if count > available.length then some (.error (tooFew count available.length), conn)
      else do
        let rows ← numberNames (available.take count.toNat) usedNumbers env.draws
        some (.ok rows.length, (conn.execute fun table => rows.foldl insertRow table).commit)

/-- `ensure_schema`. -/
def ensureSchema (table : Option ContactTable) : ContactTable := table.getD .empty

/-- `seed_contacts`, on the database's table, if there is one: what it returns or raises, and the table it
leaves.  `none` is a number that is still being drawn. -/
def seedContacts (env : Env) (count : ℤ) (truncate shuffle : Bool) (table : Option ContactTable) :
    Option (Except SeedError ℕ × ContactTable) := do
  let (result, conn) ← seedBody env count truncate shuffle (.connect (ensureSchema table))
  some (result, (conn.exit result).committed)

/-! ## What is new -/

section
variable {lower : Text → Text}

theorem dedupe_spec (seen names : List Text) :
    ((dedupe lower seen names).map lower).Nodup ∧ ∀ n ∈ dedupe lower seen names, lower n ∉ seen := by
  induction names generalizing seen with
  | nil => exact ⟨List.nodup_nil, by simp [dedupe]⟩
  | cons n names ih =>
    unfold dedupe
    split
    next hn =>
      obtain ⟨hnodup, hseen⟩ := ih (lower n :: seen)
      rw [List.map_cons, List.nodup_cons, List.forall_mem_cons]
      refine ⟨⟨?_, hnodup⟩, by simpa using hn, fun m hm hmem => hseen m hm (List.mem_cons_of_mem _ hmem)⟩
      intro hmem
      obtain ⟨m, hm, heq⟩ := List.mem_map.mp hmem
      exact hseen m hm (heq ▸ List.mem_cons_self)
    next => exact ih seen

/-- Every first word of a stored name is among the existing ones. -/
theorem mem_existingFirst {table : ContactTable} {existing : List Text}
    (h : getExistingFirstNames lower table = .ok existing) {row : ℤ × StoredContact}
    (hrow : row ∈ table.rows) {name first : Text} (hname : row.2.name = some name)
    (hfirst : (split (strip name))[0]? = some first) : lower first ∈ existing := by
  unfold getExistingFirstNames at h
  cases hm : table.rows.mapM fun row => firstName lower row.2.name with
  | error e =>
    rw [hm] at h
    cases h
  | ok firsts =>
    rw [hm] at h
    obtain rfl : firsts.reduceOption = existing := Except.ok.inj h
    obtain ⟨b, hb, heq⟩ := mem_of_mapM_eq hm row hrow
    have hne : name ≠ [] := by
      rintro rfl
      cases hfirst
    obtain ⟨c, cs, rfl⟩ := List.exists_cons_of_ne_nil hne
    rw [hname] at heq
    unfold firstName at heq
    simp only [hfirst] at heq
    obtain rfl := Except.ok.inj heq
    exact List.reduceOption_mem_iff.mpr hb

end

theorem mem_existingNumbers {table : ContactTable} {row : ℤ × StoredContact} (hrow : row ∈ table.rows)
    {number : Text} (hnumber : row.2.number = some number) (hne : number ≠ []) :
    number ∈ getExistingNumbers table := by
  refine List.mem_filterMap.mpr ⟨row, hrow, ?_⟩
  rw [hnumber]
  exact Option.filter_some_pos (decide_eq_true hne)

theorem gen555Number_spec {used used' : List Text} {draws draws' : List (Fin 10000)} {num : Text}
    (h : gen555Number used draws = some (num, used', draws')) :
    num ∉ used ∧ used' = num :: used ∧ num ≠ [] := by
  induction draws with
  | nil => cases h
  | cons suffix draws ih =>
    unfold gen555Number at h
    dsimp only at h
    split at h
    next hnum =>
      simp only [Option.some.injEq, Prod.mk.injEq] at h
      obtain ⟨rfl, rfl, -⟩ := h
      exact ⟨by simpa using hnum, rfl, List.append_ne_nil_of_left_ne_nil (by decide) _⟩
    next => exact ih h

/-- Each name gets a number that is not in use, nor another's. -/
theorem numberNames_spec {names used : List Text} {draws : List (Fin 10000)}
    {rows : List (Text × Text)} (h : numberNames names used draws = some rows) :
    rows.map Prod.fst = names ∧ (rows.map Prod.snd).Nodup ∧
      ∀ row ∈ rows, row.2 ∉ used ∧ row.2 ≠ [] := by
  induction names generalizing used draws rows with
  | nil =>
    obtain rfl : [] = rows := Option.some.inj h
    exact ⟨rfl, List.nodup_nil, by simp⟩
  | cons name names ih =>
    unfold numberNames at h
    simp only [Option.bind_eq_bind, Option.bind_eq_some_iff] at h
    obtain ⟨⟨number, used', draws'⟩, hgen, rest, hrest, h⟩ := h
    obtain rfl : (name, number) :: rest = rows := Option.some.inj h
    obtain ⟨hnew, rfl, hne⟩ := gen555Number_spec hgen
    obtain ⟨hnames, hnodup, hunused⟩ := ih hrest
    refine ⟨congrArg (name :: ·) hnames, ?_, ?_⟩
    · rw [List.map_cons, List.nodup_cons]
      refine ⟨fun hmem => ?_, hnodup⟩
      obtain ⟨row, hrow, heq⟩ := List.mem_map.mp hmem
      exact (hunused row hrow).1 (heq ▸ List.mem_cons_self)
    · rw [List.forall_mem_cons]
      refine ⟨⟨hnew, hne⟩, fun row hrow => ⟨fun hmem => ?_, (hunused row hrow).2⟩⟩
      exact (hunused row hrow).1 (List.mem_cons_of_mem _ hmem)

/-- The names to be had are different from each other and from those that exist. -/
theorem available_spec (env : Env) (shuffle : Bool) (existing source : List Text) :
    ((available env shuffle existing source).map env.lower).Nodup ∧
      ∀ n ∈ available env shuffle existing source, env.lower n ∉ existing := by
  have hnodup : ((dedupe env.lower [] source).map env.lower).Nodup := (dedupe_spec [] source).1
  have hfilter : (((dedupe env.lower [] source).filter fun n =>
      !existing.contains (env.lower n)).map env.lower).Nodup :=
    hnodup.sublist (List.filter_sublist.map _)
  have hexisting : ∀ n ∈ (dedupe env.lower [] source).filter fun n =>
      !existing.contains (env.lower n), env.lower n ∉ existing := by
    intro n hn
    simpa using (List.mem_filter.mp hn).2
  unfold available
  cases shuffle with
  | false => exact ⟨hfilter, hexisting⟩
  | true =>
    have hperm := env.shuffle.perm ((dedupe env.lower [] source).filter fun n =>
      !existing.contains (env.lower n))
    exact ⟨(hperm.map env.lower).nodup_iff.mpr hfilter, fun n hn => hexisting n (hperm.mem_iff.mp hn)⟩

/-! ## A seeding -/

/-- The connection that the first statements of the block leave. -/
def truncated (truncate : Bool) (table : ContactTable) : Conn :=
  if truncate then ((Conn.connect table).execute AutoTable.clear).commit else .connect table

/-- What the body of the block does: it fails before it writes any more, or it inserts rows that are all
new. -/
theorem seedBody_spec {env : Env} {count : ℤ} {truncate shuffle : Bool} {table : ContactTable}
    {result : Except SeedError ℕ} {conn : Conn}
    (h : seedBody env count truncate shuffle (.connect table) = some (result, conn)) :
    (∃ e, result = .error e ∧ conn = truncated truncate table) ∨
    ∃ existing source rows,
      getExistingFirstNames env.lower (truncated truncate table).table = .ok existing ∧
      count ≤ (available env shuffle existing source).length ∧
      numberNames ((available env shuffle existing source).take count.toNat)
        (getExistingNumbers (truncated truncate table).table) env.draws = some rows ∧
      result = .ok rows.length ∧
      conn = ((truncated truncate table).execute fun table => rows.foldl insertRow table).commit := by
  unfold seedBody at h
  have hconn : (if truncate then ((Conn.connect table).execute AutoTable.clear).commit
      else .connect table) = truncated truncate table := rfl
  simp only [hconn] at h
  split at h
  next e _ =>
    simp only [Option.some.injEq, Prod.mk.injEq] at h
    exact Or.inl ⟨e, h.1.symm, h.2.symm⟩
  next existing hexisting =>
    split at h
    next e _ =>
      simp only [Option.some.injEq, Prod.mk.injEq] at h
      exact Or.inl ⟨e, h.1.symm, h.2.symm⟩
    next source _ =>
      split at h
      next =>
        simp only [Option.some.injEq, Prod.mk.injEq] at h
        exact Or.inl ⟨_, h.1.symm, h.2.symm⟩
      next hcount =>
        simp only [Option.bind_eq_bind, Option.bind_eq_some_iff, Option.some.injEq,
          Prod.mk.injEq] at h
        obtain ⟨rows, hrows, hresult, hconn⟩ := h
        exact Or.inr ⟨existing, source, rows, hexisting, not_lt.mp hcount, hrows, hresult.symm,
          hconn.symm⟩

theorem seedContacts_eq {env : Env} {count : ℤ} {truncate shuffle : Bool} {table table' : ContactTable}
    {result : Except SeedError ℕ}
    (h : seedContacts env count truncate shuffle (some table) = some (result, table')) :
    ∃ conn, seedBody env count truncate shuffle (.connect table) = some (result, conn) ∧
      table' = (conn.exit result).committed := by
  unfold seedContacts at h
  simp only [Option.bind_eq_bind, Option.bind_eq_some_iff] at h
  obtain ⟨⟨result', conn⟩, hbody, h⟩ := h
  simp only [Option.some.injEq, Prod.mk.injEq] at h
  obtain ⟨rfl, rfl⟩ := h
  exact ⟨conn, hbody, rfl⟩

/-- The rows that are inserted, one after the other. -/
theorem foldl_insertRow (table : ContactTable) (rows : List (Text × Text)) :
    ∃ new, (rows.foldl insertRow table).rows = table.rows ++ new ∧
      new.map Prod.snd = rows.map fun row => ⟨some row.1, some row.2, none⟩ := by
  have hfold : rows.foldl insertRow table =
      (rows.map fun row => (⟨some row.1, some row.2, none⟩ : StoredContact)).foldl AutoTable.insert
        table := by
    rw [List.foldl_map]
    rfl
  rw [hfold]
  exact table.foldl_insert_rows _

/-- **What a seeding adds**: as many rows as were asked for, behind those that are there, with names that
differ from each other and from the first words of the names that are there, and numbers that differ from
each other and from those that are there. -/
theorem seedContacts_adds (env : Env) (count : ℤ) (hcount : 0 ≤ count) (shuffle : Bool)
    (table table' : ContactTable) (n : ℕ)
    (h : seedContacts env count false shuffle (some table) = some (.ok n, table')) :
    (n : ℤ) = count ∧ ∃ (new : List (ℤ × StoredContact)) (rows : List (Text × Text)),
      table'.rows = table.rows ++ new ∧ (new.length : ℤ) = count ∧
      new.map Prod.snd = rows.map (fun row => ⟨some row.1, some row.2, none⟩) ∧
      (rows.map fun row => env.lower row.1).Nodup ∧ (rows.map Prod.snd).Nodup ∧
      ∀ row ∈ rows, ∀ old ∈ table.rows,
        (∀ name first, old.2.name = some name → (split (strip name))[0]? = some first →
          env.lower row.1 ≠ env.lower first) ∧
        old.2.number ≠ some row.2 := by
  obtain ⟨conn, hbody, rfl⟩ := seedContacts_eq h
  rcases seedBody_spec hbody with ⟨e, hresult, -⟩ | ⟨existing, source, rows, hexisting, hle, hrows, hn, rfl⟩
  · cases hresult
  · obtain ⟨hdistinct, hfresh⟩ := available_spec env shuffle existing source
    obtain ⟨hnames, hnumbers, hunused⟩ := numberNames_spec hrows
    obtain ⟨new, hnew, hcontacts⟩ := foldl_insertRow table rows
    have hlength : (rows.length : ℤ) = count := by
      have hlen := congrArg List.length hnames
      rw [List.length_map, List.length_take] at hlen
      omega
    have hnewlen : new.length = rows.length := by
      have hlen := congrArg List.length hcontacts
      rwa [List.length_map, List.length_map] at hlen
    have hn : n = rows.length := Except.ok.inj hn
    refine ⟨hn ▸ hlength, new, rows, hnew, hnewlen ▸ hlength, hcontacts, ?_, hnumbers, ?_⟩
    · have hsub : (rows.map fun row => env.lower row.1) =
          ((available env shuffle existing source).take count.toNat).map env.lower := by
        rw [← hnames, List.map_map]
        rfl
      rw [hsub]
      exact hdistinct.sublist ((List.take_sublist _ _).map _)
    · intro row hrow old hold
      refine ⟨fun name first hname hfirst heq => ?_, fun hnumber => ?_⟩
      · have hmem : row.1 ∈ available env shuffle existing source := by
          apply List.mem_of_mem_take (i := count.toNat)
          rw [← hnames]
          exact List.mem_map_of_mem hrow
        exact hfresh row.1 hmem (heq ▸ mem_existingFirst hexisting hold hname hfirst)
      · exact (hunused row hrow).1 (mem_existingNumbers hold hnumber (hunused row hrow).2)

/-- A page with two names on it. -/
def twoNames : Env where
  lower := List.map Char.toLower
  isDigit := Char.isDigit
  page := some (["OWEN".toList, "Mary".toList].flatMap rowEvents)
  shuffle := ⟨id, fun _ => .refl _⟩
  draws := [1, 2]

/-- A table with one of the names and the first number drawn. -/
def owenTable : ContactTable :=
  AutoTable.empty.insert ⟨some "Owen Hart".toList, some "555-0001".toList, some 2⟩

/-- One name is left. -/
theorem seedContacts_adds_one : ∃ n table',
    seedContacts twoNames 1 false true (some owenTable) = some (.ok n, table') ∧ (n : ℤ) = 1 := by
  have hok : ((seedContacts twoNames 1 false true (some owenTable)).any fun r =>
      r.1.toOption.isSome) = true := by
    decide +kernel
  obtain ⟨⟨result, table'⟩, hseed, hresult⟩ := (Option.any_eq_true _ _).mp hok
  cases result with
  | error e => cases hresult
  | ok n =>
    exact ⟨n, table', hseed, (seedContacts_adds twoNames 1 (by decide) true owenTable table' n hseed).1⟩

/-- **When a seeding that fails has changed nothing.** -/
theorem seedContacts_fails_iff (env : Env) (count : ℤ) (truncate shuffle : Bool)
    (table table' : ContactTable) (e : SeedError)
    (h : seedContacts env count truncate shuffle (some table) = some (.error e, table')) :
    table' = table ↔ truncate = false ∨ table.rows = [] := by
  obtain ⟨conn, hbody, rfl⟩ := seedContacts_eq h
  rcases seedBody_spec hbody with ⟨_, -, rfl⟩ | ⟨_, _, _, -, -, -, hn, -⟩
  · cases truncate with
    | false => exact iff_of_true rfl (Or.inl rfl)
    | true =>
      show table.clear = table ↔ _
      rw [AutoTable.clear_eq_self_iff]
      simp
  · cases hn

/-- The page is not fetched, and nothing was to be truncated. -/
theorem seedContacts_fails_iff_kept :
    seedContacts { twoNames with page := none } 1 false true (some owenTable) =
      some (.error .urlError, owenTable) := by
  have hfails : ∃ table', seedContacts { twoNames with page := none } 1 false true (some owenTable) =
      some (.error .urlError, table') := ⟨_, rfl⟩
  obtain ⟨table', h⟩ := hfails
  rw [h, (seedContacts_fails_iff _ 1 false true owenTable table' .urlError h).mpr (Or.inl rfl)]

/-- The page is not fetched, and the table was truncated. -/
theorem seedContacts_loses : ¬ ∀ (env : Env) (count : ℤ) (truncate shuffle : Bool)
    (table table' : ContactTable) (e : SeedError),
    seedContacts env count truncate shuffle (some table) = some (.error e, table') →
      table' = table := by
  intro hall
  have h : seedContacts { twoNames with page := none } 1 true true (some owenTable) =
      some (.error .urlError, owenTable.clear) := rfl
  have hsame := hall _ _ _ _ _ _ _ h
  rw [AutoTable.clear_eq_self_iff] at hsame
  cases hsame

end NeoDCT.SeedContacts
