import NeoDCT.Lib.PyText

/-!
# JSON, as Python's `json` writes and reads it

`dumps` is `json.dumps(value, indent=4)`, with its escapes for everything that is not printable ASCII;
`loads` is `json.loads`, with the whitespace, the escapes and the numbers that it takes, `NaN` and the infinities
among them.  The texts of floats are parameters.

Values without floats are read as they were written (`loads_dumps`).
-/

namespace PyJson

open PyText

/-- A float. -/
inductive PyFloat where
  | finite (q : ℚ)
  | nan
  | infinity
  | negInfinity
deriving DecidableEq

inductive Value where
  | null
  | bool (b : Bool)
  | int (i : ℤ)
  | float (x : PyFloat)
  | str (s : Text)
  /-- A string that is no `Text`: half of a surrogate pair is among its code points. -/
  | surrogates (points : List ℕ)
  | arr (xs : List Value)
  | obj (kvs : List (Text × Value))

/-! ## Writing -/

/-- `'\\u{0:04x}'.format(n)`. -/
def unicodeEscape (n : ℕ) : Text :=
  ['\\', 'u', Nat.digitChar (n / 4096 % 16), Nat.digitChar (n / 256 % 16), Nat.digitChar (n / 16 % 16),
    Nat.digitChar (n % 16)]

/-- What stands for a character: `ESCAPE_DCT`, itself, or its UTF-16 code units. -/
def escape (c : Char) : Text :=
  if c = '"' then ['\\', '"']
  else if c = '\\' then ['\\', '\\']
  else if c = '\n' then ['\\', 'n']
  else if c = '\r' then ['\\', 'r']
  else if c = '\t' then ['\\', 't']
  else if c = '\x0c' then ['\\', 'f']
  else if c = '\x08' then ['\\', 'b']
  else if 32 ≤ c.toNat ∧ c.toNat ≤ 126 then [c]
  else if c.toNat < 0x10000 then unicodeEscape c.toNat
  else unicodeEscape (0xd800 + (c.toNat - 0x10000) / 1024) ++ unicodeEscape (0xdc00 + (c.toNat - 0x10000) % 1024)

/-- `py_encode_basestring_ascii`. -/
def encodeString (s : Text) : Text := '"' :: (s.flatMap escape ++ ['"'])

/-- The same of code points, of which some are no characters. -/
def encodePoints (points : List ℕ) : Text :=
  '"' :: (points.flatMap (fun n => if n.isValidChar then escape (.ofNat n) else unicodeEscape n) ++ ['"'])

/-- `int.__repr__`. -/
def intText : ℤ → Text
  | .ofNat n => Nat.toDigits 10 n
  | .negSucc n => '-' :: Nat.toDigits 10 (n + 1)

/-- A new line, indented. -/
def newline (level : ℕ) : Text := '\n' :: List.replicate (4 * level) ' '

section
variable (floatRepr : PyFloat → Text)

/-- What a list or a dictionary is written as: `opening` and `closing` around the texts of its items. -/
def bracket (opening closing : Char) (level : ℕ) (items : List Text) : Text :=
  if items = [] then [opening, closing]
  else opening :: (newline (level + 1) ++ (',' :: newline (level + 1)).intercalate items ++
    (newline level ++ [closing]))

mutual

/-- A value at an indentation level. -/
def encode (level : ℕ) : Value → Text
  | .null => "null".toList
  | .bool true => "true".toList
  | .bool false => "false".toList
  | .int i => intText i
  | .float x => floatRepr x
  | .str s => encodeString s
  | .surrogates points => encodePoints points
  | .arr xs => bracket '[' ']' level (encodeItems (level + 1) xs)
  | .obj kvs => bracket '{' '}' level (encodePairs (level + 1) kvs)

def encodeItems (level : ℕ) : List Value → List Text
  | [] => []
  | x :: xs => encode level x :: encodeItems level xs

def encodePairs (level : ℕ) : List (Text × Value) → List Text
  | [] => []
  | kv :: kvs => encodePair level kv :: encodePairs level kvs

def encodePair (level : ℕ) : Text × Value → Text
  | (key, v) => encodeString key ++ ':' :: ' ' :: encode level v

end

/-- `json.dumps(value, indent=4)`. -/
def dumps (v : Value) : Text := encode floatRepr 0 v

end

/-! ## Reading -/

/-- One of `HEXDIGITS`. -/
def hexVal (c : Char) : Option ℕ :=
  if c.isDigit then some (c.toNat - 48)
  else if 'a' ≤ c ∧ c ≤ 'f' then some (c.toNat - 87)
  else if 'A' ≤ c ∧ c ≤ 'F' then some (c.toNat - 55)
  else none

/-- `_decode_uXXXX`. -/
def decodeHex : Text → Option (ℕ × Text)
  | a :: b :: c :: d :: rest => do
    let n := 4096 * (← hexVal a) + 256 * (← hexVal b) + 16 * (← hexVal c) + (← hexVal d)
    some (n, rest)
  | _ => none

/-- The code point of a code unit, or of two that are a pair. -/
def decodeUnits (n : ℕ) (rest : Text) : Option (ℕ × Text) :=
  if 0xd800 ≤ n ∧ n ≤ 0xdbff then
    match rest with
    | '\\' :: 'u' :: rest' => do
      let (m, rest') ← decodeHex rest'
      if 0xdc00 ≤ m ∧ m ≤ 0xdfff then some (0x10000 + (n - 0xd800) * 1024 + (m - 0xdc00), rest')
      else some (n, rest)
    | _ => some (n, rest)
  else some (n, rest)

/-- What follows a backslash. -/
def scanEscape : Text → Option (ℕ × Text)
  | 'u' :: rest => do
    let (n, rest) ← decodeHex rest
    decodeUnits n rest
  | c :: rest =>
    if c = '"' ∨ c = '\\' ∨ c = '/' then some (c.toNat, rest)
    else if c = 'b' then some (8, rest)
    else if c = 'f' then some (12, rest)
    else if c = 'n' then some (10, rest)
    else if c = 'r' then some (13, rest)
    else if c = 't' then some (9, rest)
    else none
  | [] => none

/-- `py_scanstring`, for at most so many code points. -/
def scanString : ℕ → Text → Option (List ℕ × Text)
  | 0, _ => none
  | n + 1, s =>
    match s with
    | [] => none
    | c :: rest =>
      if c = '"' then some ([], rest)
      else if c = '\\' then do
        let (point, rest) ← scanEscape rest
        let (points, rest) ← scanString n rest
        some (point :: points, rest)
      else if c.toNat < 32 then none
      else do
        let (points, rest) ← scanString n rest
        some (c.toNat :: points, rest)

/-- Code points as a text, if they are characters. -/
def textOf (points : List ℕ) : Option Text :=
  points.mapM fun n => if n.isValidChar then some (.ofNat n) else none

/-- A string, of its code points. -/
def stringValue (points : List ℕ) : Value :=
  match textOf points with
  | some s => .str s
  | none => .surrogates points

/-- A pair in front of others.  One whose key is no `Text` is left out: nothing is looked up under it. -/
def consPair (key : List ℕ) (v : Value) (kvs : List (Text × Value)) : List (Text × Value) :=
  match textOf key with
  | some key => (key, v) :: kvs
  | none => kvs

/-- A character of `WHITESPACE_STR`. -/
def isWs (c : Char) : Bool := c = ' ' || c = '\t' || c = '\n' || c = '\r'

def skipWs (s : Text) : Text := s.dropWhile isWs

/-- One digit or more. -/
def digits (s : Text) : Option (Text × Text) :=
  if s.takeWhile Char.isDigit = [] then none else some (s.takeWhile Char.isDigit, s.dropWhile Char.isDigit)

/-- `0|[1-9][0-9]*`. -/
def scanInt (s : Text) : Option (Text × Text) :=
  match s with
  | '0' :: rest => some (['0'], rest)
  | _ => digits s

/-- `(\.[0-9]+)?`. -/
def scanFrac (s : Text) : Text × Text :=
  match s with
  | '.' :: rest =>
    match digits rest with
    | some (ds, rest) => ('.' :: ds, rest)
    | none => ([], s)
  | _ => ([], s)

/-- `([eE][-+]?[0-9]+)?`. -/
def scanExp (s : Text) : Text × Text :=
  match s with
  | c :: rest =>
    if c = 'e' ∨ c = 'E' then
      let (sign, rest) : Text × Text := match rest with
        | '-' :: rest => (['-'], rest)
        | '+' :: rest => (['+'], rest)
        | _ => ([], rest)
      match digits rest with
      | some (ds, rest) => (c :: (sign ++ ds), rest)
      | none => ([], s)
    else ([], s)
  | [] => ([], s)

/-- `-?`. -/
def scanSign (s : Text) : Text × Text :=
  match s with
  | '-' :: rest => (['-'], rest)
  | _ => ([], s)

section
variable (floatOf : Text → PyFloat)

/-- A match of `NUMBER_RE`; an integer may have any number of digits. -/
def scanNumber (s : Text) : Option (Value × Text) := do
  let (sign, rest) := scanSign s
  let (whole, rest) ← scanInt rest
  let (frac, rest) := scanFrac rest
  let (exp, rest) := scanExp rest
  if frac = [] ∧ exp = [] then
    let n : ℤ := Nat.ofDigitChars 10 whole 0
    some (.int (if sign = [] then n else -n), rest)
  else some (.float (floatOf (sign ++ whole ++ frac ++ exp)), rest)

/-- `dict(pairs)`: of two values for a key the later one, in the place of the earlier. -/
def insertKey (kvs : List (Text × Value)) (key : Text) (v : Value) : List (Text × Value) :=
  if kvs.any (·.1 = key) then kvs.map fun kv => if kv.1 = key then (key, v) else kv
  else kvs ++ [(key, v)]

def dictOf (pairs : List (Text × Value)) : List (Text × Value) :=
  pairs.foldl (fun kvs kv => insertKey kvs kv.1 kv.2) []

mutual

/-- `scan_once`. -/
def scanOnce : ℕ → Text → Option (Value × Text)
  | 0, _ => none
  | n + 1, s =>
    match s with
    | '"' :: rest => do
      let (points, rest) ← scanString (rest.length + 1) rest
      some (stringValue points, rest)
    | '{' :: rest =>
      match skipWs rest with
      | '}' :: rest => some (.obj [], rest)
      | rest => do
        let (pairs, rest) ← scanPairs n rest
        some (.obj (dictOf pairs), rest)
    | '[' :: rest =>
      match skipWs rest with
      | ']' :: rest => some (.arr [], rest)
      | rest => do
        let (xs, rest) ← scanItems n rest
        some (.arr xs, rest)
    | 'n' :: 'u' :: 'l' :: 'l' :: rest => some (.null, rest)
    | 't' :: 'r' :: 'u' :: 'e' :: rest => some (.bool true, rest)
    | 'f' :: 'a' :: 'l' :: 's' :: 'e' :: rest => some (.bool false, rest)
    | 'N' :: 'a' :: 'N' :: rest => some (.float .nan, rest)
    | 'I' :: 'n' :: 'f' :: 'i' :: 'n' :: 'i' :: 't' :: 'y' :: rest => some (.float .infinity, rest)
    | '-' :: 'I' :: 'n' :: 'f' :: 'i' :: 'n' :: 'i' :: 't' :: 'y' :: rest => some (.float .negInfinity, rest)
    | _ => scanNumber floatOf s

/-- The loop of `JSONArray`. -/
def scanItems : ℕ → Text → Option (List Value × Text)
  | 0, _ => none
  | n + 1, s => do
    let (x, rest) ← scanOnce n s
    match skipWs rest with
    | ']' :: rest => some ([x], rest)
    | ',' :: rest => do
      let (xs, rest) ← scanItems n (skipWs rest)
      some (x :: xs, rest)
    | _ => none

/-- The loop of `JSONObject`. -/
def scanPairs : ℕ → Text → Option (List (Text × Value) × Text)
  | 0, _ => none
  | n + 1, s =>
    match s with
    | '"' :: rest => do
      let (key, rest) ← scanString (rest.length + 1) rest
      match skipWs rest with
      | ':' :: rest => do
        let (v, rest) ← scanOnce n (skipWs rest)
        match skipWs rest with
        | '}' :: rest => some (consPair key v [], rest)
        | ',' :: rest => do
          let (kvs, rest) ← scanPairs n (skipWs rest)
          some (consPair key v kvs, rest)
        | _ => none
      | _ => none
    | _ => none

end

/-- `json.loads`: one value, and nothing after it.  A bracket takes two steps. -/
def loads (s : Text) : Option Value :=
  match scanOnce floatOf (2 * s.length + 2) (skipWs s) with
  | some (v, rest) => if skipWs rest = [] then some v else none
  | none => none

end

/-! ## Strings are read as they were written -/

theorem hexVal_digitChar_all : ∀ d, d < 16 → hexVal (Nat.digitChar d) = some d := by decide

theorem hexVal_digitChar (n : ℕ) : hexVal (Nat.digitChar (n % 16)) = some (n % 16) :=
  hexVal_digitChar_all _ (Nat.mod_lt _ (by decide))

theorem decodeHex_unicodeEscape {n : ℕ} (h : n < 65536) (rest : Text) :
    decodeHex ((unicodeEscape n).drop 2 ++ rest) = some (n, rest) := by
  show decodeHex (Nat.digitChar (n / 4096 % 16) :: Nat.digitChar (n / 256 % 16) ::
    Nat.digitChar (n / 16 % 16) :: Nat.digitChar (n % 16) :: rest) = _
  unfold decodeHex
  simp only [hexVal_digitChar, Option.bind_eq_bind, Option.bind_some]
  have hsum : 4096 * (n / 4096 % 16) + 256 * (n / 256 % 16) + 16 * (n / 16 % 16) + n % 16 = n := by
    omega
  rw [hsum]

theorem unicodeEscape_eq (n : ℕ) : unicodeEscape n = '\\' :: 'u' :: (unicodeEscape n).drop 2 := rfl

theorem toNat_char (c : Char) : c.toNat < 0xd800 ∨ 0xdfff < c.toNat ∧ c.toNat < 0x110000 := c.valid

/-- Two code units. -/
theorem scanEscape_pair (high low : ℕ) (hhigh : 0xd800 ≤ high ∧ high ≤ 0xdbff)
    (hlow : 0xdc00 ≤ low ∧ low ≤ 0xdfff) (rest : Text) :
    scanEscape ((unicodeEscape high ++ unicodeEscape low).tail ++ rest) =
      some (0x10000 + (high - 0xd800) * 1024 + (low - 0xdc00), rest) := by
  have htext : (unicodeEscape high ++ unicodeEscape low).tail ++ rest =
      'u' :: ((unicodeEscape high).drop 2 ++ ('\\' :: 'u' :: ((unicodeEscape low).drop 2 ++ rest))) := rfl
  have hfirst := decodeHex_unicodeEscape (n := high) (by omega)
    ('\\' :: 'u' :: ((unicodeEscape low).drop 2 ++ rest))
  have hsecond := decodeHex_unicodeEscape (n := low) (by omega) rest
  rw [htext]
  simp [scanEscape, hfirst, decodeUnits, hhigh, hsecond, hlow]

/-- A character is itself, or a backslash and what is read as it. -/
theorem scanEscape_escape (c : Char) :
    (escape c = [c] ∧ c ≠ '"' ∧ c ≠ '\\' ∧ ¬ c.toNat < 32) ∨
    ∃ s, escape c = '\\' :: s ∧ ∀ rest, scanEscape (s ++ rest) = some (c.toNat, rest) := by
  unfold escape
  split_ifs with hquote hslash hn hr ht hf hb hplain hbmp
  · subst hquote
    exact Or.inr ⟨_, rfl, fun _ => rfl⟩
  · subst hslash
    exact Or.inr ⟨_, rfl, fun _ => rfl⟩
  · subst hn
    exact Or.inr ⟨_, rfl, fun _ => rfl⟩
  · subst hr
    exact Or.inr ⟨_, rfl, fun _ => rfl⟩
  · subst ht
    exact Or.inr ⟨_, rfl, fun _ => rfl⟩
  · subst hf
    exact Or.inr ⟨_, rfl, fun _ => rfl⟩
  · subst hb
    exact Or.inr ⟨_, rfl, fun _ => rfl⟩
  · exact Or.inl ⟨rfl, hquote, hslash, by omega⟩
  · refine Or.inr ⟨_, unicodeEscape_eq _, fun rest => ?_⟩
    show (do let (n, rest) ← decodeHex ((unicodeEscape c.toNat).drop 2 ++ rest); decodeUnits n rest) = _
    rw [decodeHex_unicodeEscape hbmp]
    show decodeUnits c.toNat rest = _
    unfold decodeUnits
    have hchar := toNat_char c
    rw [if_neg (by omega)]
  · have hchar := toNat_char c
    have hvalue : 0x10000 + (0xd800 + (c.toNat - 0x10000) / 1024 - 0xd800) * 1024 +
        (0xdc00 + (c.toNat - 0x10000) % 1024 - 0xdc00) = c.toNat := by omega
    refine Or.inr ⟨_, rfl, fun rest => ?_⟩
    have hpair := scanEscape_pair (0xd800 + (c.toNat - 0x10000) / 1024)
      (0xdc00 + (c.toNat - 0x10000) % 1024) (by omega) (by omega) rest
    rw [hvalue] at hpair
    exact hpair

theorem escape_ne_nil (c : Char) : escape c ≠ [] := by
  rcases scanEscape_escape c with ⟨h, -⟩ | ⟨s, h, -⟩ <;> rw [h] <;> exact List.cons_ne_nil _ _

theorem scanString_encodeString (s rest : Text) {n : ℕ} (h : s.length < n) :
    scanString n (s.flatMap escape ++ '"' :: rest) = some (s.map Char.toNat, rest) := by
  induction s generalizing n with
  | nil =>
    cases n with
    | zero => exact absurd h (Nat.not_lt_zero _)
    | succ n => rfl
  | cons c s ih =>
    cases n with
    | zero => exact absurd h (Nat.not_lt_zero _)
    | succ n =>
      have hrest := ih (Nat.lt_of_succ_lt_succ h)
      rw [List.flatMap_cons, List.append_assoc]
      rcases scanEscape_escape c with ⟨hplain, hquote, hslash, hprint⟩ | ⟨e, hescape, hscan⟩
      · rw [hplain]
        simp [scanString, hquote, hslash, hprint, hrest]
      · rw [hescape]
        simp [scanString, hscan, hrest]

theorem textOf_text (s : Text) : textOf (s.map Char.toNat) = some s := by
  unfold textOf
  induction s with
  | nil => rfl
  | cons c s ih =>
    have hc : c.toNat.isValidChar := c.valid
    rw [List.map_cons, List.mapM_cons, if_pos hc, ih, Char.ofNat_toNat]
    rfl

@[simp]
theorem stringValue_text (s : Text) : stringValue (s.map Char.toNat) = .str s := by
  rw [stringValue, textOf_text]

@[simp]
theorem consPair_text (key : Text) (v : Value) (kvs : List (Text × Value)) :
    consPair (key.map Char.toNat) v kvs = (key, v) :: kvs := by
  rw [consPair, textOf_text]

theorem length_le_flatMap_escape (s : Text) : s.length ≤ (s.flatMap escape).length := by
  induction s with
  | nil => exact le_rfl
  | cons c s ih =>
    rw [List.flatMap_cons, List.length_append, List.length_cons]
    have := List.length_pos_iff.mpr (escape_ne_nil c)
    omega

/-! ## Values are read as they were written -/

/-- No floats, all strings texts, and no two values for a key. -/
inductive Plain : Value → Prop where
  | null : Plain .null
  | bool (b : Bool) : Plain (.bool b)
  | int (i : ℤ) : Plain (.int i)
  | str (s : Text) : Plain (.str s)
  | arr {xs : List Value} (h : ∀ x ∈ xs, Plain x) : Plain (.arr xs)
  | obj {kvs : List (Text × Value)} (hkeys : (kvs.map Prod.fst).Nodup) (h : ∀ kv ∈ kvs, Plain kv.2) :
    Plain (.obj kvs)

/-- What may follow a number: nothing that goes on with it. -/
def Stops (rest : Text) : Prop := ∀ c ∈ rest.head?, c.isDigit = false ∧ c ≠ '.' ∧ c ≠ 'e' ∧ c ≠ 'E'

theorem stops_cons {c : Char} {rest : Text} (h : c.isDigit = false ∧ c ≠ '.' ∧ c ≠ 'e' ∧ c ≠ 'E') :
    Stops (c :: rest) := by
  intro c' hc'
  cases hc'
  exact h

theorem stops_newline (level : ℕ) (rest : Text) : Stops (newline level ++ rest) :=
  stops_cons (by decide)

theorem skipWs_newline (level : ℕ) (rest : Text) : skipWs (newline level ++ rest) = skipWs rest := by
  unfold skipWs newline
  rw [List.dropWhile_append_of_pos]
  simp only [List.forall_mem_cons]
  refine ⟨rfl, fun c hc => ?_⟩
  rw [List.eq_of_mem_replicate hc]
  rfl

theorem skipWs_cons {c : Char} (h : isWs c = false) (rest : Text) : skipWs (c :: rest) = c :: rest := by
  unfold skipWs
  rw [List.dropWhile_cons, h]
  rfl

/-! ### Numbers -/

/-- What the text of an integer begins with: a digit, or a sign and a digit. -/
def BeginsNumber (c : Char) (s : Text) : Prop :=
  c.isDigit = true ∨ c = '-' ∧ ∃ d t, s = d :: t ∧ d.isDigit = true

theorem BeginsNumber.append {c : Char} {s : Text} (h : BeginsNumber c s) (rest : Text) :
    BeginsNumber c (s ++ rest) := by
  rcases h with h | ⟨rfl, d, t, rfl, hd⟩
  · exact Or.inl h
  · exact Or.inr ⟨rfl, d, t ++ rest, rfl, hd⟩

theorem intText_head (i : ℤ) : ∃ c s, intText i = c :: s ∧ BeginsNumber c s := by
  have hdigits (n : ℕ) : ∃ c s, Nat.toDigits 10 n = c :: s ∧ c.isDigit = true := by
    cases h : Nat.toDigits 10 n with
    | nil => exact absurd h Nat.toDigits_ne_nil
    | cons c s => exact ⟨c, s, rfl, Nat.isDigit_of_mem_toDigits (by decide) le_rfl (h ▸ List.mem_cons_self)⟩
  cases i with
  | ofNat n =>
    obtain ⟨c, s, hn, hc⟩ := hdigits n
    exact ⟨c, s, hn, Or.inl hc⟩
  | negSucc n =>
    obtain ⟨c, s, hn, hc⟩ := hdigits (n + 1)
    exact ⟨'-', _, rfl, Or.inr ⟨rfl, c, s, hn, hc⟩⟩

/-- Digits do not begin with a zero, but for zero. -/
theorem toDigits_zero_head {n : ℕ} {s : Text} (h : Nat.toDigits 10 n = '0' :: s) : s = [] ∧ n = 0 := by
  induction n using Nat.strong_induction_on generalizing s with
  | _ n ih =>
    rw [Nat.toDigits_eq_if (by decide)] at h
    split at h
    · next hlt =>
      obtain ⟨hhead, hs⟩ := List.cons.inj h
      refine ⟨hs.symm, ?_⟩
      revert hhead
      interval_cases n <;> decide
    · next hge =>
      have hpos : n / 10 ≠ 0 := by omega
      cases hdigits : Nat.toDigits 10 (n / 10) with
      | nil => exact absurd hdigits Nat.toDigits_ne_nil
      | cons c t =>
        rw [hdigits] at h
        obtain ⟨rfl, -⟩ := List.cons.inj h
        exact absurd (ih (n / 10) (by omega) hdigits).2 hpos

theorem takeWhile_isDigit {n : ℕ} {rest : Text} (h : Stops rest) :
    (Nat.toDigits 10 n ++ rest).takeWhile Char.isDigit = Nat.toDigits 10 n ∧
    (Nat.toDigits 10 n ++ rest).dropWhile Char.isDigit = rest := by
  have hall : ∀ c ∈ Nat.toDigits 10 n, c.isDigit = true := fun c hc =>
    Nat.isDigit_of_mem_toDigits (by decide) le_rfl hc
  rw [List.takeWhile_append_of_pos hall, List.dropWhile_append_of_pos hall]
  cases rest with
  | nil => simp
  | cons c rest =>
    have hc := (h c rfl).1
    simp [hc]

theorem scanInt_toDigits (n : ℕ) {rest : Text} (h : Stops rest) :
    scanInt (Nat.toDigits 10 n ++ rest) = some (Nat.toDigits 10 n, rest) := by
  obtain ⟨htake, hdrop⟩ := takeWhile_isDigit (n := n) h
  unfold scanInt
  split
  · next rest' heq =>
    cases hdigits : Nat.toDigits 10 n with
    | nil => exact absurd hdigits Nat.toDigits_ne_nil
    | cons c s =>
      rw [hdigits] at heq
      obtain ⟨rfl, hrest⟩ := List.cons.inj heq
      obtain ⟨rfl, -⟩ := toDigits_zero_head hdigits
      rw [← hrest]
      rfl
  · unfold digits
    rw [htake, hdrop, if_neg Nat.toDigits_ne_nil]

theorem scanFrac_stops {rest : Text} (h : Stops rest) : scanFrac rest = ([], rest) := by
  unfold scanFrac
  split
  · exact absurd rfl (h _ rfl).2.1
  · rfl

theorem scanExp_stops {rest : Text} (h : Stops rest) : scanExp rest = ([], rest) := by
  cases rest with
  | nil => rfl
  | cons c rest =>
    obtain ⟨-, -, he, hE⟩ := h c rfl
    unfold scanExp
    exact if_neg fun hc => hc.elim he hE

theorem scanSign_toDigits (n : ℕ) (rest : Text) :
    scanSign (Nat.toDigits 10 n ++ rest) = ([], Nat.toDigits 10 n ++ rest) := by
  unfold scanSign
  split
  · next s heq =>
    cases hdigits : Nat.toDigits 10 n with
    | nil => exact absurd hdigits Nat.toDigits_ne_nil
    | cons c t =>
      have hdigit : c.isDigit = true :=
        Nat.isDigit_of_mem_toDigits (by decide) le_rfl (hdigits ▸ List.mem_cons_self)
      rw [hdigits] at heq
      obtain ⟨rfl, -⟩ := List.cons.inj heq
      cases hdigit
  · rfl

theorem scanNumber_intText (floatOf : Text → PyFloat) (i : ℤ) {rest : Text} (h : Stops rest) :
    scanNumber floatOf (intText i ++ rest) = some (.int i, rest) := by
  cases i with
  | ofNat n =>
    show scanNumber floatOf (Nat.toDigits 10 n ++ rest) = _
    simp [scanNumber, scanSign_toDigits, scanInt_toDigits n h, scanFrac_stops h, scanExp_stops h,
      Nat.ofDigitChars_ten_toDigits]
  | negSucc n =>
    show scanNumber floatOf ('-' :: (Nat.toDigits 10 (n + 1) ++ rest)) = _
    have hneg : -1 + -(n : ℤ) = Int.negSucc n := by omega
    simp [scanNumber, scanSign, scanInt_toDigits (n + 1) h, scanFrac_stops h, scanExp_stops h,
      Nat.ofDigitChars_ten_toDigits, hneg]

/-! ### Lists and dictionaries -/

section
variable (floatRepr : PyFloat → Text) (floatOf : Text → PyFloat)

/-- A value begins with a character that is neither whitespace nor a closing bracket. -/
theorem encode_head {v : Value} (h : Plain v) (level : ℕ) : ∃ c s, encode floatRepr level v = c :: s ∧
    isWs c = false ∧ c ≠ ']' ∧ c ≠ '}' := by
  cases h with
  | null => exact ⟨'n', _, rfl, by decide⟩
  | bool b => cases b <;> exact ⟨_, _, rfl, by decide⟩
  | int i =>
    obtain ⟨c, s, hc, hbegins⟩ := intText_head i
    refine ⟨c, s, hc, ?_⟩
    rcases hbegins with hdigit | ⟨rfl, -⟩
    · have hrange := toNat_of_isDigit hdigit
      unfold isWs
      refine ⟨?_, ?_, ?_⟩
      · rw [Bool.eq_false_iff]
        simp only [ne_eq, Bool.or_eq_true, decide_eq_true_eq]
        rintro (((rfl | rfl) | rfl) | rfl) <;> revert hrange <;> decide
      · rintro rfl
        revert hrange
        decide
      · rintro rfl
        revert hrange
        decide
    · decide
  | str s => exact ⟨'"', _, rfl, by decide⟩
  | @arr xs _ =>
    cases xs with
    | nil => exact ⟨'[', _, rfl, by decide⟩
    | cons x xs => exact ⟨'[', _, rfl, by decide⟩
  | @obj kvs _ _ =>
    cases kvs with
    | nil => exact ⟨'{', _, rfl, by decide⟩
    | cons kv kvs => exact ⟨'{', _, rfl, by decide⟩

/-- What begins as a number is read as one. -/
theorem scanOnce_number {c : Char} {s : Text} (h : BeginsNumber c s) (n : ℕ) :
    scanOnce floatOf (n + 1) (c :: s) = scanNumber floatOf (c :: s) := by
  have hother : c ≠ '"' ∧ c ≠ '{' ∧ c ≠ '[' ∧ c ≠ 'n' ∧ c ≠ 't' ∧ c ≠ 'f' ∧ c ≠ 'N' ∧ c ≠ 'I' := by
    rcases h with hdigit | ⟨rfl, -⟩
    · have hrange := toNat_of_isDigit hdigit
      refine ⟨?_, ?_, ?_, ?_, ?_, ?_, ?_, ?_⟩ <;>
      · rintro rfl
        revert hrange
        decide
    · decide
  have hminus : c = '-' → ∀ t, s ≠ 'I' :: t := by
    rintro rfl t rfl
    rcases h with hdigit | ⟨-, d, t', ht, hd⟩
    · cases hdigit
    · obtain ⟨rfl, -⟩ := List.cons.inj ht
      cases hd
  obtain ⟨hquote, hbrace, hbracket, hn, ht, hf, hN, hI⟩ := hother
  rw [scanOnce]
  all_goals
    intro _ heq
    obtain ⟨rfl, hs⟩ := List.cons.inj heq
    first
    | contradiction
    | exact hminus rfl _ hs

/-- The list written with separators, one item more. -/
theorem intercalate_cons_cons (sep x y : Text) (l : List Text) :
    sep.intercalate (x :: y :: l) = x ++ (sep ++ sep.intercalate (y :: l)) := by
  simp [List.intercalate]

theorem bracket_cons (opening closing : Char) (level : ℕ) (x : Text) (l : List Text) :
    bracket opening closing level (x :: l) = opening :: (newline (level + 1) ++
      (',' :: newline (level + 1)).intercalate (x :: l) ++ (newline level ++ [closing])) :=
  if_neg (List.cons_ne_nil _ _)

/-- What the texts of a list of items begin with. -/
theorem intercalate_head {sep x : Text} {c : Char} {s : Text} (l : List Text) (h : x = c :: s) :
    ∃ t, sep.intercalate (x :: l) = c :: t := by
  cases l with
  | nil =>
    rw [h]
    exact ⟨s, by simp⟩
  | cons y l =>
    rw [intercalate_cons_cons, h]
    exact ⟨_, rfl⟩

theorem insertKey_new {kvs : List (Text × Value)} {key : Text} (h : key ∉ kvs.map Prod.fst) (v : Value) :
    insertKey kvs key v = kvs ++ [(key, v)] := by
  unfold insertKey
  rw [if_neg]
  simp only [List.any_eq_true, decide_eq_true_eq, not_exists, not_and]
  rintro kv hkv rfl
  exact h (List.mem_map_of_mem hkv)

/-- Pairs with different keys are a dictionary. -/
theorem dictOf_of_nodup {pairs : List (Text × Value)} (h : (pairs.map Prod.fst).Nodup) :
    dictOf pairs = pairs := by
  have hfold : ∀ (pairs kvs : List (Text × Value)), ((kvs ++ pairs).map Prod.fst).Nodup →
      pairs.foldl (fun kvs kv => insertKey kvs kv.1 kv.2) kvs = kvs ++ pairs := by
    intro pairs
    induction pairs with
    | nil => exact fun kvs _ => (List.append_nil kvs).symm
    | cons kv pairs ih =>
      intro kvs hnodup
      have hnew : kv.1 ∉ kvs.map Prod.fst := by
        rw [List.map_append, List.map_cons] at hnodup
        exact fun hmem => (List.nodup_append.mp hnodup).2.2 _ hmem _ List.mem_cons_self rfl
      rw [List.foldl_cons, insertKey_new hnew, ih]
      · rw [List.append_assoc]
        rfl
      · rwa [List.append_assoc]
  exact hfold pairs [] h

theorem length_newline (level : ℕ) : (newline level).length = 4 * level + 1 := by
  simp [newline]

/-- What follows an opening bracket, without the whitespace. -/
theorem skipWs_encoded {c : Char} (hc : isWs c = false) (t : Text) (level : ℕ) (closing : Char) (rest : Text) :
    skipWs (newline (level + 1) ++ (c :: t) ++ (newline level ++ [closing]) ++ rest) =
      c :: (t ++ (newline level ++ closing :: rest)) := by
  have htext : newline (level + 1) ++ (c :: t) ++ (newline level ++ [closing]) ++ rest =
      newline (level + 1) ++ c :: (t ++ (newline level ++ closing :: rest)) := by simp
  rw [htext, skipWs_newline, skipWs_cons hc]

theorem encodePair_head (key : Text) (v : Value) (level : ℕ) :
    encodePair floatRepr level (key, v) =
      '"' :: (key.flatMap escape ++ '"' :: ':' :: ' ' :: encode floatRepr level v) := by
  rw [encodePair]
  unfold encodeString
  simp

/-- What the reader makes of what was written, for so many steps. -/
structure Reads (n : ℕ) : Prop where
  value : ∀ (v : Value) (level : ℕ) (rest : Text), Plain v → Stops rest →
    2 * (encode floatRepr level v).length ≤ n →
    scanOnce floatOf n (encode floatRepr level v ++ rest) = some (v, rest)
  items : ∀ (x : Value) (xs : List Value) (level outer : ℕ) (rest : Text), (∀ y ∈ x :: xs, Plain y) →
    2 * ((',' :: newline level).intercalate (encodeItems floatRepr level (x :: xs))).length + 1 ≤ n →
    scanItems floatOf n ((',' :: newline level).intercalate (encodeItems floatRepr level (x :: xs)) ++
      (newline outer ++ ']' :: rest)) = some (x :: xs, rest)
  pairs : ∀ (kv : Text × Value) (kvs : List (Text × Value)) (level outer : ℕ) (rest : Text),
    (∀ kv' ∈ kv :: kvs, Plain kv'.2) →
    2 * ((',' :: newline level).intercalate (encodePairs floatRepr level (kv :: kvs))).length + 1 ≤ n →
    scanPairs floatOf n ((',' :: newline level).intercalate (encodePairs floatRepr level (kv :: kvs)) ++
      (newline outer ++ '}' :: rest)) = some (kv :: kvs, rest)

theorem scanOnce_list {n : ℕ} {s t : Text} {c : Char} (h : skipWs s = c :: t) (hc : c ≠ ']') :
    scanOnce floatOf (n + 1) ('[' :: s) =
      (scanItems floatOf n (c :: t)).map fun r => (.arr r.1, r.2) := by
  rw [scanOnce, h]
  split
  · next heq => exact absurd (List.cons.inj heq).1 hc
  · cases scanItems floatOf n (c :: t) <;> rfl

theorem scanOnce_dict {n : ℕ} {s t : Text} {c : Char} (h : skipWs s = c :: t) (hc : c ≠ '}') :
    scanOnce floatOf (n + 1) ('{' :: s) =
      (scanPairs floatOf n (c :: t)).map fun r => (.obj (dictOf r.1), r.2) := by
  rw [scanOnce, h]
  split
  · next heq => exact absurd (List.cons.inj heq).1 hc
  · cases scanPairs floatOf n (c :: t) <;> rfl

variable {floatRepr floatOf}

theorem Reads.value_succ {n : ℕ} (h : Reads floatRepr floatOf n) (v : Value) (level : ℕ) (rest : Text)
    (hv : Plain v) (hrest : Stops rest) (hn : 2 * (encode floatRepr level v).length ≤ n + 1) :
    scanOnce floatOf (n + 1) (encode floatRepr level v ++ rest) = some (v, rest) := by
  cases hv with
  | null => rfl
  | bool b => cases b <;> rfl
  | int i =>
    obtain ⟨c, s, hc, hbegins⟩ := intText_head i
    have hnumber := scanNumber_intText floatOf i hrest
    show scanOnce floatOf (n + 1) (intText i ++ rest) = _
    rw [hc] at hnumber ⊢
    rw [← hnumber]
    exact scanOnce_number floatOf (hbegins.append rest) n
  | str s =>
    have hlong : s.length < (s.flatMap escape ++ '"' :: rest).length + 1 := by
      have := length_le_flatMap_escape s
      rw [List.length_append]
      omega
    have htext : encode floatRepr level (.str s) ++ rest = '"' :: (s.flatMap escape ++ '"' :: rest) := by
      show encodeString s ++ rest = _
      unfold encodeString
      simp
    rw [htext, scanOnce, scanString_encodeString s rest hlong]
    simp only [Option.bind_eq_bind, Option.bind_some, stringValue_text]
  | @arr xs hxs =>
    cases xs with
    | nil => rfl
    | cons x xs =>
      obtain ⟨c, t, hhead, hws, hbracket, -⟩ :=
        encode_head floatRepr (hxs x List.mem_cons_self) (level + 1)
      obtain ⟨t', ht'⟩ := intercalate_head (encodeItems floatRepr (level + 1) xs) hhead
      have hitems := h.items x xs (level + 1) level rest hxs
      rw [encodeItems, ht'] at hitems
      have hencode := bracket_cons '[' ']' level (encode floatRepr (level + 1) x)
        (encodeItems floatRepr (level + 1) xs)
      rw [ht'] at hencode
      rw [encode, encodeItems, hencode] at hn ⊢
      have hskip := skipWs_encoded hws t' level ']' rest
      rw [List.cons_append, scanOnce_list floatOf hskip hbracket, ← List.cons_append, hitems]
      · rfl
      · simp only [List.length_cons, List.length_append, length_newline] at hn ⊢
        omega
  | @obj kvs hkeys hkvs =>
    cases kvs with
    | nil => rfl
    | cons kv kvs =>
      obtain ⟨key, v⟩ := kv
      obtain ⟨t', ht'⟩ := intercalate_head (encodePairs floatRepr (level + 1) kvs)
        (encodePair_head floatRepr key v (level + 1))
      have hpairs := h.pairs (key, v) kvs (level + 1) level rest hkvs
      rw [encodePairs, ht'] at hpairs
      have hencode := bracket_cons '{' '}' level (encodePair floatRepr (level + 1) (key, v))
        (encodePairs floatRepr (level + 1) kvs)
      rw [ht'] at hencode
      rw [encode, encodePairs, hencode] at hn ⊢
      have hskip := skipWs_encoded (c := '"') rfl t' level '}' rest
      rw [List.cons_append, scanOnce_dict floatOf hskip (by decide), ← List.cons_append, hpairs]
      · rw [Option.map_some, dictOf_of_nodup hkeys]
      · simp only [List.length_cons, List.length_append, length_newline] at hn ⊢
        omega

theorem Reads.items_succ {n : ℕ} (h : Reads floatRepr floatOf n) (x : Value) (xs : List Value)
    (level outer : ℕ) (rest : Text) (hxs : ∀ y ∈ x :: xs, Plain y)
    (hn : 2 * ((',' :: newline level).intercalate (encodeItems floatRepr level (x :: xs))).length + 1 ≤ n + 1) :
    scanItems floatOf (n + 1) ((',' :: newline level).intercalate (encodeItems floatRepr level (x :: xs)) ++
      (newline outer ++ ']' :: rest)) = some (x :: xs, rest) := by
  have hx := hxs x List.mem_cons_self
  cases xs with
  | nil =>
    simp only [encodeItems, List.intercalate_singleton] at hn ⊢
    have hskip : skipWs (newline outer ++ ']' :: rest) = ']' :: rest := by
      rw [skipWs_newline, skipWs_cons (by decide)]
    rw [scanItems, h.value x level _ hx (stops_newline outer _) (by omega)]
    simp only [Option.bind_eq_bind, Option.bind_some, hskip]
  | cons y xs =>
    obtain ⟨c, t, hhead, hws, -, -⟩ := encode_head floatRepr (hxs y (by simp)) level
    obtain ⟨t', ht'⟩ := intercalate_head (encodeItems floatRepr level xs) hhead
    have hitems := h.items y xs level outer rest (fun z hz => hxs z (List.mem_cons_of_mem x hz))
    rw [encodeItems] at hitems
    simp only [encodeItems, intercalate_cons_cons, List.length_append, List.length_cons] at hn ⊢
    have hskip : skipWs (newline level ++ ((',' :: newline level).intercalate
        (encode floatRepr level y :: encodeItems floatRepr level xs) ++ (newline outer ++ ']' :: rest))) =
        (',' :: newline level).intercalate
          (encode floatRepr level y :: encodeItems floatRepr level xs) ++ (newline outer ++ ']' :: rest) := by
      rw [skipWs_newline, ht', List.cons_append, skipWs_cons hws]
    rw [List.append_assoc, List.append_assoc, List.cons_append, scanItems,
      h.value x level _ hx (stops_cons (by decide)) (by omega)]
    simp only [Option.bind_eq_bind, Option.bind_some, skipWs_cons (show isWs ',' = false from rfl), hskip,
      hitems (by omega)]

theorem Reads.pairs_succ {n : ℕ} (h : Reads floatRepr floatOf n) (kv : Text × Value)
    (kvs : List (Text × Value)) (level outer : ℕ) (rest : Text) (hkvs : ∀ kv' ∈ kv :: kvs, Plain kv'.2)
    (hn : 2 * ((',' :: newline level).intercalate (encodePairs floatRepr level (kv :: kvs))).length + 1 ≤ n + 1) :
    scanPairs floatOf (n + 1) ((',' :: newline level).intercalate (encodePairs floatRepr level (kv :: kvs)) ++
      (newline outer ++ '}' :: rest)) = some (kv :: kvs, rest) := by
  obtain ⟨key, v⟩ := kv
  have hv := hkvs (key, v) List.mem_cons_self
  have hpair : ∀ tail, encodePair floatRepr level (key, v) ++ tail =
      '"' :: (key.flatMap escape ++ '"' :: (':' :: ' ' :: (encode floatRepr level v ++ tail))) := by
    intro tail
    rw [encodePair_head]
    simp
  have hlength : (encode floatRepr level v).length + 4 ≤ (encodePair floatRepr level (key, v)).length := by
    rw [encodePair_head]
    simp only [List.length_cons, List.length_append]
    omega
  have hlong : ∀ tail : Text, key.length < (key.flatMap escape ++ '"' :: tail).length + 1 := by
    intro tail
    have := length_le_flatMap_escape key
    rw [List.length_append]
    omega
  obtain ⟨c, t, hhead, hws, -, -⟩ := encode_head floatRepr hv level
  have hvalue : ∀ tail, skipWs (' ' :: (encode floatRepr level v ++ tail)) = encode floatRepr level v ++ tail := by
    intro tail
    rw [hhead, List.cons_append]
    show skipWs (c :: (t ++ tail)) = _
    rw [skipWs_cons hws]
  cases kvs with
  | nil =>
    simp only [encodePairs, List.intercalate_singleton] at hn ⊢
    have hskip : skipWs (newline outer ++ '}' :: rest) = '}' :: rest := by
      rw [skipWs_newline, skipWs_cons (by decide)]
    rw [hpair, scanPairs, scanString_encodeString key _ (hlong _)]
    simp only [Option.bind_eq_bind, Option.bind_some, skipWs_cons (show isWs ':' = false from rfl), hvalue,
      h.value v level _ hv (stops_newline outer _) (by omega), hskip, consPair_text]
  | cons kv' kvs =>
    obtain ⟨key', v'⟩ := kv'
    obtain ⟨t', ht'⟩ := intercalate_head (encodePairs floatRepr level kvs)
      (encodePair_head floatRepr key' v' level)
    have hpairs := h.pairs (key', v') kvs level outer rest (fun z hz => hkvs z (List.mem_cons_of_mem _ hz))
    rw [encodePairs] at hpairs
    simp only [encodePairs, intercalate_cons_cons, List.length_append, List.length_cons] at hn ⊢
    have hskip : skipWs (newline level ++ ((',' :: newline level).intercalate
        (encodePair floatRepr level (key', v') :: encodePairs floatRepr level kvs) ++
          (newline outer ++ '}' :: rest))) =
        (',' :: newline level).intercalate
          (encodePair floatRepr level (key', v') :: encodePairs floatRepr level kvs) ++
          (newline outer ++ '}' :: rest) := by
      rw [skipWs_newline, ht', List.cons_append, skipWs_cons rfl]
    rw [List.append_assoc, hpair, scanPairs, scanString_encodeString key _ (hlong _)]
    simp only [Option.bind_eq_bind, Option.bind_some, skipWs_cons (show isWs ':' = false from rfl), hvalue,
      List.append_assoc, List.cons_append, h.value v level _ hv (stops_cons (c := ',') (by decide)) (by omega),
      skipWs_cons (show isWs ',' = false from rfl), hskip, hpairs (by omega), consPair_text]

variable (floatRepr floatOf) in
theorem reads (n : ℕ) : Reads floatRepr floatOf n := by
  induction n with
  | zero =>
    refine ⟨fun v level rest hv _ hn => ?_, fun x xs level outer rest _ hn => ?_,
      fun kv kvs level outer rest _ hn => ?_⟩
    · obtain ⟨c, s, hc, -⟩ := encode_head floatRepr hv level
      rw [hc] at hn
      exact absurd hn (by simp)
    · exact absurd hn (by simp)
    · exact absurd hn (by simp)
  | succ n ih =>
    exact ⟨fun v level rest => ih.value_succ v level rest, fun x xs level outer rest => ih.items_succ x xs level outer rest,
      fun kv kvs level outer rest => ih.pairs_succ kv kvs level outer rest⟩

/-- **Values without floats are read as they were written.** -/
theorem loads_dumps (floatRepr : PyFloat → Text) (floatOf : Text → PyFloat) {v : Value} (h : Plain v) :
    loads floatOf (dumps floatRepr v) = some v := by
  obtain ⟨c, s, hc, hws, -⟩ := encode_head floatRepr h 0
  have hskip : skipWs (dumps floatRepr v) = dumps floatRepr v := by
    unfold dumps
    rw [hc, skipWs_cons hws]
  have hread := (reads floatRepr floatOf (2 * (dumps floatRepr v).length + 2)).value v 0 [] h (by simp [Stops])
    (Nat.le_add_right _ 2)
  rw [List.append_nil] at hread
  have hscan : scanOnce floatOf (2 * (dumps floatRepr v).length + 2) (dumps floatRepr v) = some (v, []) := hread
  unfold loads
  rw [hskip, hscan]
  rfl

end

end PyJson
