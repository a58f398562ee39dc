import NeoDCT.Lib.PyJson

/-!
# Tables in C headers

A two-dimensional table of numbers as the initializer of a C array, `{ {0x…, …,}, … };`, its constants
hexadecimal: the tokens of the text, and the rows that they spell.  What is written as rows of four-digit constants
is read back (`readTable_table`), also behind its declaration (`readArray_declaration`).
-/

namespace CArray

open PyText PyJson

/-! ## Reading -/

inductive Token where
  | opening
  | closing
  | comma
  | semicolon
  | num (n : ℕ)
deriving DecidableEq, Repr

/-- A character between constants: the tokens it stands for, if any. -/
def punctuation (c : Char) : Option (List Token) :=
  if isWs c then some []
  else if c = '{' then some [.opening]
  else if c = '}' then some [.closing]
  else if c = ',' then some [.comma]
  else if c = ';' then some [.semicolon]
  else none

/-- Where the lexer is: between constants, behind a `0`, behind `0x`, in the digits. -/
inductive Lexing where
  | between
  | zero
  | begun
  | digits (n : ℕ)
deriving DecidableEq, Repr

def lex : Lexing → Text → Option (List Token)
  | .between, [] => some []
  | .zero, [] => none
  | .begun, [] => none
  | .digits n, [] => some [.num n]
  | .between, c :: cs =>
    if c = '0' then lex .zero cs
    else do
      let ts ← punctuation c
      let rest ← lex .between cs
      some (ts ++ rest)
  | .zero, c :: cs => if c = 'x' then lex .begun cs else none
  | .begun, c :: cs => do
    let d ← hexVal c
    lex (.digits d) cs
  | .digits n, c :: cs =>
    match hexVal c with
    | some d => lex (.digits (16 * n + d)) cs
    | none => do
      let ts ← punctuation c
      let rest ← lex .between cs
      some (.num n :: (ts ++ rest))

/-- The rows of the tokens, behind the first brace; in a row, with what it has so far. -/
def parse : Option (List ℕ) → List Token → Option (List (List ℕ))
  | none, .opening :: ts => parse (some []) ts
  | none, [.closing, .semicolon] => some []
  | some row, .num n :: .comma :: ts => parse (some (row ++ [n])) ts
  | some row, .closing :: .comma :: ts => (parse none ts).map (row :: ·)
  | _, _ => none

/-- The table of an initializer. -/
def readTable (text : Text) : Option (List (List ℕ)) := do
  match ← lex .between text with
  | .opening :: ts => parse none ts
  | _ => none

/-- The table of a declaration, which is behind its `=`. -/
def readArray (text : Text) : Option (List (List ℕ)) := readTable ((text.dropWhile (· ≠ '=')).drop 1)

/-! ## Writing -/

/-- A digit, as `X` writes it. -/
def upperDigit (d : ℕ) : Char := (Nat.digitChar d).toUpper

/-- `f"{n:04X}"`, of a number of sixteen bits. -/
def hex4 (n : ℕ) : Text := [n / 4096 % 16, n / 256 % 16, n / 16 % 16, n % 16].map upperDigit

def constant (n : ℕ) : Text := '0' :: 'x' :: hex4 n

/-- A row, each constant with its comma. -/
def rowText (row : List ℕ) : Text := row.flatMap fun n => constant n ++ [',']

/-- The rows between their braces, each after `indent`. -/
def tableText (indent : Text) (rows : List (List ℕ)) : Text :=
  rows.flatMap fun row => indent ++ '{' :: (rowText row ++ "\x7d,\n".toList)

/-! ## Reading what was written -/

theorem hexVal_upperDigit_all : ∀ d, d < 16 → hexVal (upperDigit d) = some d := by decide

theorem hexVal_upperDigit (n : ℕ) : hexVal (upperDigit (n % 16)) = some (n % 16) :=
  hexVal_upperDigit_all (n % 16) (Nat.mod_lt n (by decide))

theorem lex_constant {n : ℕ} (h : n < 65536) (rest : Text) :
    lex .between (constant n ++ ',' :: rest) = (lex .between rest).map fun ts => .num n :: .comma :: ts := by
  have hvalue : 16 * (16 * (16 * (n / 4096 % 16) + n / 256 % 16) + n / 16 % 16) + n % 16 = n := by omega
  have hcomma : hexVal ',' = none := rfl
  have hpunctuation : punctuation ',' = some [.comma] := rfl
  simp only [constant, hex4, List.map_cons, List.map_nil, List.cons_append, List.nil_append, lex, if_true,
    hexVal_upperDigit, Option.bind_eq_bind, Option.bind_some, hvalue, hcomma, hpunctuation]
  cases lex .between rest with
  | none => rfl
  | some ts => rfl

theorem lex_row {row : List ℕ} (h : ∀ n ∈ row, n < 65536) (rest : Text) :
    lex .between (rowText row ++ rest) =
      (lex .between rest).map fun ts => (row.flatMap fun n => [.num n, .comma]) ++ ts := by
  induction row with
  | nil => exact Option.map_id'.symm
  | cons n row ih =>
    rw [List.forall_mem_cons] at h
    have hsplit : rowText (n :: row) ++ rest = constant n ++ ',' :: (rowText row ++ rest) := by
      simp [rowText]
    rw [hsplit, lex_constant h.1, ih h.2, Option.map_map]
    rfl

theorem lex_space {c : Char} (hc : isWs c = true) (rest : Text) : lex .between (c :: rest) = lex .between rest := by
  have hzero : c ≠ '0' := by
    rintro rfl
    cases hc
  have hpunctuation : punctuation c = some [] := if_pos hc
  rw [lex, if_neg hzero, hpunctuation]
  cases lex .between rest with
  | none => rfl
  | some ts => rfl

theorem lex_spaces {indent : Text} (h : ∀ c ∈ indent, isWs c = true) (rest : Text) :
    lex .between (indent ++ rest) = lex .between rest := by
  induction indent with
  | nil => rfl
  | cons c indent ih =>
    rw [List.forall_mem_cons] at h
    rw [List.cons_append, lex_space h.1, ih h.2]

/-- The tokens of a row between its braces. -/
def rowTokens (row : List ℕ) : List Token :=
  .opening :: ((row.flatMap fun n => [.num n, .comma]) ++ [.closing, .comma])

theorem lex_table {indent : Text} (hindent : ∀ c ∈ indent, isWs c = true) {rows : List (List ℕ)}
    (h : ∀ row ∈ rows, ∀ n ∈ row, n < 65536) (rest : Text) :
    lex .between (tableText indent rows ++ rest) = (lex .between rest).map fun ts => rows.flatMap rowTokens ++ ts := by
  induction rows with
  | nil => exact Option.map_id'.symm
  | cons row rows ih =>
    rw [List.forall_mem_cons] at h
    have hsplit : tableText indent (row :: rows) ++ rest =
        indent ++ '{' :: (rowText row ++ '}' :: ',' :: '\n' :: (tableText indent rows ++ rest)) := by
      simp [tableText]
    have hclose : ∀ text, lex .between ('}' :: ',' :: '\n' :: text) =
        (lex .between text).map fun ts => .closing :: .comma :: ts := by
      intro text
      have hnewline := lex_space (c := '\n') rfl text
      simp only [lex] at hnewline ⊢
      cases lex .between text with
      | none => rfl
      | some ts => rfl
    have hopen : ∀ text, lex .between ('{' :: text) = (lex .between text).map fun ts => .opening :: ts := by
      intro text
      rw [lex]
      cases lex .between text with
      | none => rfl
      | some ts => rfl
    rw [hsplit, lex_spaces hindent, hopen, lex_row h.1, hclose, ih h.2]
    simp only [Option.map_map]
    congr 1
    funext ts
    simp [rowTokens]

theorem parse_row (row acc : List ℕ) (ts : List Token) :
    parse (some acc) ((row.flatMap fun n => [.num n, .comma]) ++ .closing :: .comma :: ts) =
      (parse none ts).map ((acc ++ row) :: ·) := by
  induction row generalizing acc with
  | nil => simp [parse]
  | cons n row ih =>
    rw [List.flatMap_cons]
    simp only [List.cons_append, List.nil_append, parse]
    rw [ih, List.append_assoc]
    rfl

theorem parse_rows (rows : List (List ℕ)) :
    parse none (rows.flatMap rowTokens ++ [.closing, .semicolon]) = some rows := by
  induction rows with
  | nil => rfl
  | cons row rows ih =>
    have hsplit : (row :: rows).flatMap rowTokens ++ [.closing, .semicolon] =
        .opening :: ((row.flatMap fun n => [.num n, .comma]) ++
          .closing :: .comma :: (rows.flatMap rowTokens ++ [.closing, .semicolon])) := by
      simp [rowTokens]
    rw [hsplit, parse, parse_row, ih]
    rfl

/-- **A written table is read back**, whatever space it was indented by. -/
theorem readTable_table {indent : Text} (hindent : ∀ c ∈ indent, isWs c = true) {rows : List (List ℕ)}
    (h : ∀ row ∈ rows, ∀ n ∈ row, n < 65536) :
    readTable (" \x7b\n".toList ++ (tableText indent rows ++ "\x7d;\n".toList)) = some rows := by
  have hend : lex .between "\x7d;\n".toList = some [.closing, .semicolon] := rfl
  have hlex : lex .between (" \x7b\n".toList ++ (tableText indent rows ++ "\x7d;\n".toList)) =
      some (.opening :: (rows.flatMap rowTokens ++ [.closing, .semicolon])) := by
    have hsplit : " \x7b\n".toList ++ (tableText indent rows ++ "\x7d;\n".toList) =
        ' ' :: '{' :: '\n' :: (tableText indent rows ++ "\x7d;\n".toList) := rfl
    have hlines : lex .between ('\n' :: (tableText indent rows ++ "\x7d;\n".toList)) =
        some (rows.flatMap rowTokens ++ [.closing, .semicolon]) := by
      rw [lex_space rfl, lex_table hindent h, hend]
      rfl
    rw [hsplit, lex_space rfl, lex, hlines]
    rfl
  unfold readTable
  rw [hlex]
  exact parse_rows rows

theorem readArray_declaration {declaration : Text} (h : '=' ∉ declaration) (initializer : Text) :
    readArray (declaration ++ '=' :: initializer) = readTable initializer := by
  have hbefore : ∀ c ∈ declaration, decide (c ≠ '=') = true := by
    intro c hc
    rw [decide_eq_true_eq]
    rintro rfl
    exact h hc
  unfold readArray
  rw [List.dropWhile_append_of_pos hbefore, List.dropWhile_cons_of_neg (by decide)]
  rfl

end CArray
