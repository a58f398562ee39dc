import NeoDCT.Lib.PyText

/-!
# CSV files

`csv.writer` and `csv.reader` of Python, in their default dialect, on a file that is opened with
`newline=""`.  The reader takes the characters of a line one by one, then the end of the line: inside quotes
that is nothing, anywhere else it ends the row.  What is written is read back,

    readRows limit .start (symbols (rows.flatMap writeRow)) = .ok rows              (readRows_writeRows)

whatever the fields hold, if none of them is longer than `csv.field_size_limit()`.
-/

namespace PyCsv

open PyText

/-! ## The writer -/

/-- A character for which a field is written in quotes. -/
def special (c : Char) : Bool := c = ',' || c = '"' || c = '\n' || c = '\r'

/-- What stands between the quotes. -/
def double (field : Text) : Text := replace '"' ['"', '"'] field

def writeField (field : Text) : Text :=
  if field.any special then '"' :: (double field ++ ['"']) else field

/-- `writer.writerow(row)`: a row that would be a blank line is a pair of quotes. -/
def writeRow (row : List Text) : Text :=
  let record := [','].intercalate (row.map writeField)
  (if row ≠ [] ∧ record = [] then ['"', '"'] else record) ++ ['\r', '\n']

/-! ## The reader -/

inductive State where
  | startRecord
  | startField
  | inField
  | inQuoted
  | quoteInQuoted
  | eatCrnl
deriving DecidableEq, Repr

inductive CsvError where
  /-- Field larger than the field limit. -/
  | fieldLimit
  /-- New-line character seen in an unquoted field. -/
  | newLine
deriving DecidableEq, Repr

structure Reader where
  state : State
  field : Text
  fields : List Text
deriving DecidableEq

namespace Reader

/-- Before a row. -/
def start : Reader := ⟨.startRecord, [], []⟩

def addChar (limit : ℕ) (r : Reader) (c : Char) (state : State) : Except CsvError Reader :=
  if limit ≤ r.field.length then .error .fieldLimit
  else .ok { r with field := r.field ++ [c], state := state }

def saveField (r : Reader) (state : State) : Reader := ⟨state, [], r.fields ++ [r.field]⟩

/-- A character at the start of a field. -/
def beginField (limit : ℕ) (r : Reader) (c : Char) : Except CsvError Reader :=
  if c = '\n' ∨ c = '\r' then .ok (r.saveField .eatCrnl)
  else if c = '"' then .ok { r with state := .inQuoted }
  else if c = ',' then .ok (r.saveField .startField)
  else r.addChar limit c .inField

/-- One character. -/
def processChar (limit : ℕ) (r : Reader) (c : Char) : Except CsvError Reader :=
  match r.state with
  | .startRecord =>
    if c = '\n' ∨ c = '\r' then .ok { r with state := .eatCrnl } else r.beginField limit c
  | .startField => r.beginField limit c
  | .inField =>
    if c = '\n' ∨ c = '\r' then .ok (r.saveField .eatCrnl)
    else if c = ',' then .ok (r.saveField .startField)
    else r.addChar limit c .inField
  | .inQuoted => if c = '"' then .ok { r with state := .quoteInQuoted } else r.addChar limit c .inQuoted
  | .quoteInQuoted =>
    if c = '"' then r.addChar limit c .inQuoted
    else if c = ',' then .ok (r.saveField .startField)
    else if c = '\n' ∨ c = '\r' then .ok (r.saveField .eatCrnl)
    else r.addChar limit c .inField
  | .eatCrnl => if c = '\n' ∨ c = '\r' then .ok r else .error .newLine

/-- The end of a line. -/
def endLine (r : Reader) : Reader :=
  match r.state with
  | .startRecord => r
  | .startField | .inField | .quoteInQuoted => r.saveField .startRecord
  | .inQuoted => r
  | .eatCrnl => { r with state := .startRecord }

end Reader

/-- What a reader takes of a file: its characters, and `none` for the end of each line.  A line ends at a
line feed, a carriage return or the two together. -/
def symbols : Text → List (Option Char)
  | [] => []
  | '\r' :: '\n' :: cs => some '\r' :: some '\n' :: none :: symbols cs
  | c :: cs =>
    if c = '\n' ∨ c = '\r' ∨ cs = [] then some c :: none :: symbols cs else some c :: symbols cs

/-- The rows that `csv.reader` yields, from `r` on. -/
def readRows (limit : ℕ) : Reader → List (Option Char) → Except CsvError (List (List Text))
  | r, [] => pure (if r.field ≠ [] ∨ r.state = .inQuoted then [r.fields ++ [r.field]] else [])
  | r, some c :: rest => do
    let r ← r.processChar limit c
    readRows limit r rest
  | r, none :: rest =>
    if r.endLine.state = .startRecord then do
      let rows ← readRows limit .start rest
      pure (r.endLine.fields :: rows)
    else readRows limit r.endLine rest

/-! ## Symbols -/

theorem symbols_crlf (cs : Text) :
    symbols ('\r' :: '\n' :: cs) = some '\r' :: some '\n' :: none :: symbols cs := by
  rw [symbols]

/-- A character is followed by the end of its line, or by the next one. -/
theorem symbols_cons (c : Char) {cs : Text} (hcs : cs ≠ []) :
    symbols (c :: cs) = some c :: symbols cs ∨ symbols (c :: cs) = some c :: none :: symbols cs := by
  by_cases hpair : c = '\r' ∧ ∃ cs', cs = '\n' :: cs'
  · obtain ⟨rfl, cs', rfl⟩ := hpair
    left
    have hline : symbols ('\n' :: cs') = some '\n' :: none :: symbols cs' := by
      rw [symbols]
      · exact if_pos (Or.inl rfl)
      · rintro _ h
        cases h
    rw [symbols_crlf, hline]
  · have hsymbols : symbols (c :: cs) =
        if c = '\n' ∨ c = '\r' ∨ cs = [] then some c :: none :: symbols cs else some c :: symbols cs := by
      rw [symbols]
      rintro cs' rfl rfl
      exact hpair ⟨rfl, cs', rfl⟩
    rw [hsymbols]
    split
    · exact Or.inr rfl
    · exact Or.inl rfl

theorem symbols_of_inline {c : Char} (hn : c ≠ '\n') (hr : c ≠ '\r') {cs : Text} (hcs : cs ≠ []) :
    symbols (c :: cs) = some c :: symbols cs := by
  rw [symbols]
  · exact if_neg (by simp [hn, hr, hcs])
  · rintro cs' rfl
    exact absurd rfl hr

theorem symbols_of_plain {c : Char} (hc : special c = false) {cs : Text} (hcs : cs ≠ []) :
    symbols (c :: cs) = some c :: symbols cs := by
  simp only [special, Bool.or_eq_false_iff, decide_eq_false_iff_not] at hc
  exact symbols_of_inline hc.1.2 hc.2 hcs

/-! ## Reading what is written -/

section
variable {limit : ℕ} {field : Text} {fields : List Text}

theorem readRows_ok {r r' : Reader} {c : Char} (h : r.processChar limit c = .ok r') (rest : List (Option Char)) :
    readRows limit r (some c :: rest) = readRows limit r' rest := by
  rw [readRows, h]
  rfl

theorem readRows_error {r : Reader} {c : Char} {e : CsvError} (h : r.processChar limit c = .error e)
    (rest : List (Option Char)) : readRows limit r (some c :: rest) = .error e := by
  rw [readRows, h]
  rfl

/-- In quotes the end of a line is nothing. -/
theorem readRows_inQuoted {c : Char} (hc : c ≠ '"') {cs : Text} (hcs : cs ≠ []) :
    readRows limit ⟨.inQuoted, field, fields⟩ (symbols (c :: cs)) =
      if field.length < limit then readRows limit ⟨.inQuoted, field ++ [c], fields⟩ (symbols cs)
      else .error .fieldLimit := by
  have hadd : Reader.processChar limit ⟨.inQuoted, field, fields⟩ c =
      Reader.addChar limit ⟨.inQuoted, field, fields⟩ c .inQuoted := if_neg hc
  unfold Reader.addChar at hadd
  by_cases hlt : field.length < limit
  · rw [if_neg (not_le.mpr hlt)] at hadd
    rw [if_pos hlt]
    rcases symbols_cons c hcs with h | h
    · rw [h, readRows_ok hadd]
    · rw [h, readRows_ok hadd]
      rfl
  · rw [if_pos (not_lt.mp hlt)] at hadd
    rw [if_neg hlt]
    rcases symbols_cons c hcs with h | h
    · rw [h, readRows_error hadd]
    · rw [h, readRows_error hadd]

theorem readRows_quote {cs : Text} (hcs : cs ≠ []) :
    readRows limit ⟨.inQuoted, field, fields⟩ (symbols ('"' :: cs)) =
      readRows limit ⟨.quoteInQuoted, field, fields⟩ (symbols cs) := by
  rw [symbols_of_inline (by decide) (by decide) hcs, readRows_ok rfl]

/-- What stands between quotes. -/
theorem readRows_double (f : Text) (hfield : field.length ≤ limit) {rest : Text} (hrest : rest ≠ []) :
    readRows limit ⟨.inQuoted, field, fields⟩ (symbols (double f ++ '"' :: rest)) =
      if (field ++ f).length ≤ limit then
        readRows limit ⟨.quoteInQuoted, field ++ f, fields⟩ (symbols rest)
      else .error .fieldLimit := by
  induction f generalizing field with
  | nil =>
    rw [List.append_nil, if_pos hfield]
    exact readRows_quote hrest
  | cons c f ih =>
    have hne : double f ++ '"' :: rest ≠ [] := List.append_ne_nil_of_right_ne_nil _ (List.cons_ne_nil _ _)
    have hstep : readRows limit ⟨.inQuoted, field, fields⟩ (symbols (double (c :: f) ++ '"' :: rest)) =
        if field.length < limit then
          readRows limit ⟨.inQuoted, field ++ [c], fields⟩ (symbols (double f ++ '"' :: rest))
        else .error .fieldLimit := by
      by_cases hc : c = '"'
      · subst hc
        have hdouble : double ('"' :: f) ++ '"' :: rest = '"' :: '"' :: (double f ++ '"' :: rest) := rfl
        rw [hdouble, readRows_quote (List.cons_ne_nil _ _),
          symbols_of_inline (by decide) (by decide) hne]
        have hadd : Reader.processChar limit ⟨.quoteInQuoted, field, fields⟩ '"' =
            Reader.addChar limit ⟨.quoteInQuoted, field, fields⟩ '"' .inQuoted := rfl
        unfold Reader.addChar at hadd
        by_cases hlt : field.length < limit
        · rw [if_neg (not_le.mpr hlt)] at hadd
          rw [if_pos hlt, readRows_ok hadd]
        · rw [if_pos (not_lt.mp hlt)] at hadd
          rw [if_neg hlt, readRows_error hadd]
      · have hdouble : double (c :: f) ++ '"' :: rest = c :: (double f ++ '"' :: rest) := by
          simp [double, replace, hc]
        rw [hdouble, readRows_inQuoted hc hne]
    rw [hstep]
    have happend : field ++ [c] ++ f = field ++ c :: f := List.append_assoc _ _ _
    by_cases hlt : field.length < limit
    · rw [if_pos hlt, ih (by rw [List.length_append]; exact hlt), happend]
    · rw [if_neg hlt, if_neg]
      rw [List.length_append, List.length_cons]
      omega

/-- The characters of a field without quotes. -/
theorem readRows_plain {f : Text} (hf : ∀ c ∈ f, special c = false) (hfield : field.length ≤ limit)
    {rest : Text} (hrest : rest ≠ []) :
    readRows limit ⟨.inField, field, fields⟩ (symbols (f ++ rest)) =
      if (field ++ f).length ≤ limit then readRows limit ⟨.inField, field ++ f, fields⟩ (symbols rest)
      else .error .fieldLimit := by
  induction f generalizing field with
  | nil => rw [List.append_nil, if_pos hfield, List.nil_append]
  | cons c f ih =>
    obtain ⟨hc, hf⟩ := List.forall_mem_cons.mp hf
    simp only [special, Bool.or_eq_false_iff, decide_eq_false_iff_not] at hc
    obtain ⟨⟨⟨hcomma, -⟩, hn⟩, hr⟩ := hc
    have hne : f ++ rest ≠ [] := List.append_ne_nil_of_right_ne_nil _ hrest
    have hadd : Reader.processChar limit ⟨.inField, field, fields⟩ c =
        Reader.addChar limit ⟨.inField, field, fields⟩ c .inField := by
      unfold Reader.processChar
      dsimp only
      rw [if_neg (not_or.mpr ⟨hn, hr⟩), if_neg hcomma]
    unfold Reader.addChar at hadd
    have happend : field ++ [c] ++ f = field ++ c :: f := List.append_assoc _ _ _
    rw [List.cons_append, symbols_of_inline hn hr hne]
    by_cases hlt : field.length < limit
    · rw [if_neg (not_le.mpr hlt)] at hadd
      rw [readRows_ok hadd, ih hf (by rw [List.length_append]; exact hlt), happend]
    · rw [if_pos (not_lt.mp hlt)] at hadd
      rw [readRows_error hadd, if_neg]
      rw [List.length_append, List.length_cons]
      omega

/-- The first character of a field without quotes is as any other. -/
theorem processChar_startField {c : Char} (hc : special c = false) :
    Reader.processChar limit ⟨.startField, field, fields⟩ c =
      Reader.processChar limit ⟨.inField, field, fields⟩ c := by
  simp only [special, Bool.or_eq_false_iff, decide_eq_false_iff_not] at hc
  obtain ⟨⟨⟨hcomma, hquote⟩, hn⟩, hr⟩ := hc
  unfold Reader.processChar Reader.beginField
  dsimp only
  rw [if_neg hquote]
  rfl

/-- A state in which a field may end. -/
def State.endsField (s : State) : Prop := s = .startField ∨ s = .inField ∨ s = .quoteInQuoted

theorem readRows_comma {s : State} (hs : s.endsField) {rest : Text} (hrest : rest ≠ []) :
    readRows limit ⟨s, field, fields⟩ (symbols (',' :: rest)) =
      readRows limit ⟨.startField, [], fields ++ [field]⟩ (symbols rest) := by
  rw [symbols_of_inline (by decide) (by decide) hrest]
  rcases hs with rfl | rfl | rfl
  · exact readRows_ok rfl _
  · exact readRows_ok rfl _
  · exact readRows_ok rfl _

theorem readRows_crlf {s : State} (hs : s.endsField) (rest : Text) :
    readRows limit ⟨s, field, fields⟩ (symbols ('\r' :: '\n' :: rest)) =
      (readRows limit .start (symbols rest)).map ((fields ++ [field]) :: ·) := by
  rw [symbols_crlf]
  have heat : readRows limit ⟨s, field, fields⟩ (some '\r' :: some '\n' :: none :: symbols rest) =
      readRows limit ⟨.eatCrnl, [], fields ++ [field]⟩ (some '\n' :: none :: symbols rest) := by
    rcases hs with rfl | rfl | rfl
    · exact readRows_ok rfl _
    · exact readRows_ok rfl _
    · exact readRows_ok rfl _
  rw [heat, readRows_ok rfl, readRows]
  exact if_pos rfl

/-- A field, up to what follows it. -/
theorem readRows_writeField (f : Text) {rest : Text} (hrest : rest ≠ []) :
    ∃ s : State, s.endsField ∧ readRows limit ⟨.startField, [], fields⟩ (symbols (writeField f ++ rest)) =
      if f.length ≤ limit then readRows limit ⟨s, f, fields⟩ (symbols rest) else .error .fieldLimit := by
  unfold writeField
  by_cases hquoted : f.any special = true
  · refine ⟨.quoteInQuoted, Or.inr (Or.inr rfl), ?_⟩
    rw [if_pos hquoted, List.cons_append, List.append_assoc, List.singleton_append,
      symbols_of_inline (by decide) (by decide)
        (List.append_ne_nil_of_right_ne_nil _ (List.cons_ne_nil _ _)), readRows_ok rfl,
      readRows_double f (Nat.zero_le _) hrest]
    rfl
  · rw [if_neg hquoted]
    have hplain : ∀ c ∈ f, special c = false := by simpa using hquoted
    cases f with
    | nil => exact ⟨.startField, Or.inl rfl, (if_pos (Nat.zero_le _)).symm⟩
    | cons c f =>
      refine ⟨.inField, Or.inr (Or.inl rfl), ?_⟩
      have hread : readRows limit ⟨.inField, [], fields⟩ (symbols (c :: f ++ rest)) = _ :=
        readRows_plain hplain (Nat.zero_le limit) hrest
      obtain ⟨hc, -⟩ := List.forall_mem_cons.mp hplain
      rw [List.cons_append, symbols_of_plain hc (List.append_ne_nil_of_right_ne_nil _ hrest)] at hread ⊢
      rw [readRows, processChar_startField hc]
      exact hread

/-- No field begins with a line break. -/
theorem head?_writeField (f : Text) : ∀ c ∈ (writeField f).head?, c ≠ '\n' ∧ c ≠ '\r' := by
  unfold writeField
  intro c hc
  split at hc
  next =>
    obtain rfl := Option.some.inj hc
    decide
  next hplain =>
    have hc : special c = false := by
      have hall : ∀ c ∈ f, special c = false := by simpa using hplain
      exact hall c (List.mem_of_mem_head? hc)
    simp only [special, Bool.or_eq_false_iff, decide_eq_false_iff_not] at hc
    exact ⟨hc.1.2, hc.2⟩

theorem head?_record (row : List Text) :
    ∀ c ∈ ([','].intercalate (row.map writeField)).head?, c ≠ '\n' ∧ c ≠ '\r' := by
  cases row with
  | nil => simp
  | cons f row =>
    cases row with
    | nil => simpa using head?_writeField f
    | cons g row =>
      have hrecord : [','].intercalate ((f :: g :: row).map writeField) =
          writeField f ++ ',' :: [','].intercalate ((g :: row).map writeField) := by
        simp [List.intercalate]
      rw [hrecord, List.head?_append]
      intro c hc
      cases hhead : (writeField f).head? with
      | none =>
        rw [hhead] at hc
        obtain rfl := Option.some.inj hc
        decide
      | some d =>
        rw [hhead] at hc
        obtain rfl := Option.some.inj hc
        exact head?_writeField f d hhead

/-- A row whose line is not blank begins with its first field. -/
theorem readRows_start {text : Text} (hne : text ≠ []) (h : ∀ c ∈ text.head?, c ≠ '\n' ∧ c ≠ '\r')
    (rest : Text) (hrest : rest ≠ []) : readRows limit .start (symbols (text ++ rest)) =
      readRows limit ⟨.startField, [], []⟩ (symbols (text ++ rest)) := by
  cases text with
  | nil => exact absurd rfl hne
  | cons c text =>
    obtain ⟨hn, hr⟩ := h c rfl
    have hprocess : Reader.processChar limit .start c =
        Reader.processChar limit ⟨.startField, [], []⟩ c := if_neg (not_or.mpr ⟨hn, hr⟩)
    rw [List.cons_append, symbols_of_inline hn hr (List.append_ne_nil_of_right_ne_nil _ hrest),
      readRows, hprocess]
    rfl

/-- The fields of a row, and the end of its line. -/
theorem readRows_fields {row : List Text} (hrow : row ≠ []) (rest : Text) :
    readRows limit ⟨.startField, [], fields⟩
        (symbols ([','].intercalate (row.map writeField) ++ '\r' :: '\n' :: rest)) =
      if ∀ f ∈ row, f.length ≤ limit then
        (readRows limit .start (symbols rest)).map ((fields ++ row) :: ·)
      else .error .fieldLimit := by
  induction row generalizing fields with
  | nil => exact absurd rfl hrow
  | cons f row ih =>
    cases row with
    | nil =>
      have hne : '\r' :: '\n' :: rest ≠ [] := List.cons_ne_nil _ _
      obtain ⟨s, hs, hread⟩ := readRows_writeField f hne
      rw [readRows_crlf hs] at hread
      simpa using hread
    | cons g row =>
      have htext : [','].intercalate ((f :: g :: row).map writeField) ++ '\r' :: '\n' :: rest =
          writeField f ++ ',' :: ([','].intercalate ((g :: row).map writeField) ++ '\r' :: '\n' :: rest) := by
        simp [List.intercalate]
      have hne : [','].intercalate ((g :: row).map writeField) ++ '\r' :: '\n' :: rest ≠ [] :=
        List.append_ne_nil_of_right_ne_nil _ (List.cons_ne_nil _ _)
      have hcomma : ',' :: ([','].intercalate ((g :: row).map writeField) ++ '\r' :: '\n' :: rest) ≠ [] :=
        List.cons_ne_nil _ _
      obtain ⟨s, hs, hread⟩ := readRows_writeField f hcomma
      rw [htext, hread, readRows_comma hs hne, ih (List.cons_ne_nil _ _)]
      have hfields : fields ++ [f] ++ (g :: row) = fields ++ f :: g :: row := List.append_assoc _ _ _
      by_cases hf : f.length ≤ limit
      · rw [if_pos hf, hfields]
        have hall : (∀ x ∈ f :: g :: row, x.length ≤ limit) ↔ ∀ x ∈ g :: row, x.length ≤ limit := by
          simp [hf]
        exact if_congr hall.symm rfl rfl
      · rw [if_neg hf]
        exact (if_neg fun h => hf (h f List.mem_cons_self)).symm

/-- A row, from the start of its line. -/
theorem readRows_writeRow (row : List Text) (rest : Text) :
    readRows limit .start (symbols (writeRow row ++ rest)) =
      if ∀ f ∈ row, f.length ≤ limit then (readRows limit .start (symbols rest)).map (row :: ·)
      else .error .fieldLimit := by
  have hwrite : writeRow row ++ rest =
      (if row ≠ [] ∧ [','].intercalate (row.map writeField) = [] then ['"', '"']
        else [','].intercalate (row.map writeField)) ++ '\r' :: '\n' :: rest := List.append_assoc _ _ _
  rw [hwrite]
  have hcrlf : '\r' :: '\n' :: rest ≠ [] := List.cons_ne_nil _ _
  cases hrow : row with
  | nil =>
    rw [if_neg fun h => h.1 rfl, if_pos (List.forall_mem_nil _)]
    show readRows limit .start (symbols ('\r' :: '\n' :: rest)) = _
    rw [symbols_crlf, readRows_ok rfl, readRows_ok rfl, readRows]
    exact if_pos rfl
  | cons f fs =>
    rw [← hrow]
    have hne : row ≠ [] := by rw [hrow]; exact List.cons_ne_nil _ _
    by_cases hnil : [','].intercalate (row.map writeField) = []
    · rw [if_pos ⟨hne, hnil⟩]
      have hfields : readRows limit ⟨.startField, [], []⟩
          (symbols ([','].intercalate (row.map writeField) ++ '\r' :: '\n' :: rest)) = _ :=
        readRows_fields hne rest
      rw [hnil, List.nil_append, readRows_crlf (Or.inl rfl)] at hfields
      show readRows limit .start (symbols ('"' :: '"' :: '\r' :: '\n' :: rest)) = _
      rw [symbols_of_inline (by decide) (by decide) (List.cons_ne_nil _ _), readRows_ok rfl,
        readRows_quote hcrlf, readRows_crlf (Or.inr (Or.inr rfl))]
      exact hfields
    · rw [if_neg fun h => hnil h.2, readRows_start hnil (head?_record row) _ hcrlf,
        readRows_fields hne]
      rfl

end

/-- **What is written is read back**, if no field is too long to be read. -/
theorem readRows_writeRows (limit : ℕ) (rows : List (List Text)) :
    readRows limit .start (symbols (rows.flatMap writeRow)) =
      if ∀ row ∈ rows, ∀ f ∈ row, f.length ≤ limit then .ok rows else .error .fieldLimit := by
  induction rows with
  | nil => rfl
  | cons row rows ih =>
    rw [List.flatMap_cons, readRows_writeRow, ih]
    by_cases hrow : ∀ f ∈ row, f.length ≤ limit
    · rw [if_pos hrow]
      by_cases hrows : ∀ row ∈ rows, ∀ f ∈ row, f.length ≤ limit
      · rw [if_pos hrows, if_pos (List.forall_mem_cons.mpr ⟨hrow, hrows⟩)]
        rfl
      · rw [if_neg hrows, if_neg fun h => hrows (List.forall_mem_cons.mp h).2]
        rfl
    · rw [if_neg hrow, if_neg fun h => hrow (List.forall_mem_cons.mp h).1]

end PyCsv
