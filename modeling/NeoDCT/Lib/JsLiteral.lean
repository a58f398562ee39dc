import Mathlib

/-!
# JavaScript string literals

A double-quoted string literal of ECMAScript 2019, as a script that is not in strict mode may write
it.  The source is a list of code points, the value a list of UTF-16 code units.  `stringLiteral`
reads from after the opening quote to the closing one:

    stringLiteral (body ++ '"' :: rest) = some (value, rest)

An escape sequence takes the character after the backslash, and beyond it only hex digits, octal
digits, braces or the LF of a CR LF (`escapeSequence_inert`): a quote or a backslash is never taken
except right after the backslash.
-/

namespace JsLiteral

/-- The code units of a code point. -/
def utf16 (cp : Nat) : List Nat :=
  if cp < 0x10000 then [cp]
  else [0xD800 + (cp - 0x10000) / 0x400, 0xDC00 + (cp - 0x10000) % 0x400]

/-- The code units of a text. -/
def units (text : List Char) : List Nat := text.flatMap fun c => utf16 c.toNat

theorem length_utf16_pos (cp : Nat) : 0 < (utf16 cp).length := by
  unfold utf16
  split <;> simp

@[simp] theorem units_cons (c : Char) (text : List Char) :
    units (c :: text) = utf16 c.toNat ++ units text := rfl

theorem units_append (a b : List Char) : units (a ++ b) = units a ++ units b := List.flatMap_append

theorem length_le_units (text : List Char) : text.length ≤ (units text).length := by
  induction text with
  | nil => exact le_refl 0
  | cons c text ih =>
    have hc := length_utf16_pos c.toNat
    rw [units_cons, List.length_append, List.length_cons]
    omega

/-! ## Escape sequences -/

def isLineTerminator (c : Char) : Bool := c.toNat ∈ [0x0A, 0x0D, 0x2028, 0x2029]

/-- What `'`, `"`, `\`, `b`, `f`, `n`, `r`, `t` and `v` stand for after a backslash. -/
def singleEscapes : List (Char × Nat) :=
  [('\'', 0x27), ('"', 0x22), ('\\', 0x5C), ('b', 0x08), ('f', 0x0C), ('n', 0x0A), ('r', 0x0D),
    ('t', 0x09), ('v', 0x0B)]

def hexDigit (c : Char) : Option Nat :=
  if '0' ≤ c ∧ c ≤ '9' then some (c.toNat - 48)
  else if 'a' ≤ c ∧ c ≤ 'f' then some (c.toNat - 87)
  else if 'A' ≤ c ∧ c ≤ 'F' then some (c.toNat - 55)
  else none

def octalDigit (c : Char) : Option Nat :=
  if '0' ≤ c ∧ c ≤ '7' then some (c.toNat - 48) else none

/-- Exactly `n` more hex digits, after digits of value `v`. -/
def hexDigits : Nat → Nat → List Char → Option (Nat × List Char)
  | 0, v, s => some (v, s)
  | _ + 1, _, [] => none
  | n + 1, v, c :: s => (hexDigit c).bind fun d => hexDigits n (16 * v + d) s

/-- The hex digits of `\u{…}` after the first ones, of value `v`, and the closing brace. -/
def codePoint (v : Nat) : List Char → Option (Nat × List Char)
  | [] => none
  | c :: s =>
    if c = '}' then some (v, s)
    else (hexDigit c).bind fun d =>
      if 16 * v + d ≤ 0x10FFFF then codePoint (16 * v + d) s else none

/-- At most `n` more octal digits, after digits of value `v`. -/
def octalDigits : Nat → Nat → List Char → Nat × List Char
  | 0, v, s => (v, s)
  | _ + 1, v, [] => (v, [])
  | n + 1, v, c :: s =>
    match octalDigit c with
    | some d => octalDigits n (8 * v + d) s
    | none => (v, c :: s)

/-- `\u`, in either form. -/
def unicodeEscape : List Char → Option (List Nat × List Char)
  | '{' :: c :: s => (hexDigit c).bind fun d => (codePoint d s).map fun (v, r) => (utf16 v, r)
  | s => (hexDigits 4 0 s).map fun (v, r) => ([v], r)

/-- A line continuation, after its first character. -/
def lineContinuation (c : Char) (s : List Char) : List Nat × List Char :=
  ([], if c = '\r' ∧ s.head? = some '\n' then s.tail else s)

/-- The escape sequence of a backslash, `c` and what follows: its code units, and the source after
it. -/
def escapeSequence (c : Char) (s : List Char) : Option (List Nat × List Char) :=
  if isLineTerminator c then some (lineContinuation c s)
  else if c = 'x' then (hexDigits 2 0 s).map fun (v, r) => ([v], r)
  else if c = 'u' then unicodeEscape s
  else
    match octalDigit c with
    | some d =>
      let (v, r) := octalDigits (if d < 4 then 2 else 1) d s
      some ([v], r)
    | none => some (((singleEscapes.lookup c).map fun unit => [unit]).getD (utf16 c.toNat), s)

/-- Neither a quote nor a backslash. -/
def Inert (c : Char) : Prop := c ≠ '\\' ∧ c ≠ '\'' ∧ c ≠ '"'

instance (c : Char) : Decidable (Inert c) := inferInstanceAs (Decidable (_ ∧ _))

/-- `s` is some inert characters and then `r`. -/
def Takes (s r : List Char) (p : List Char) : Prop := s = p ++ r ∧ ∀ c ∈ p, Inert c

theorem Takes.nil (s : List Char) : Takes s s [] := ⟨rfl, by simp⟩

theorem Takes.cons {s r p : List Char} {c : Char} (hc : Inert c) (h : Takes s r p) :
    Takes (c :: s) r (c :: p) := by
  obtain ⟨rfl, hp⟩ := h
  exact ⟨rfl, List.forall_mem_cons.mpr ⟨hc, hp⟩⟩

theorem hexDigit_inert {c : Char} {d : Nat} (h : hexDigit c = some d) : Inert c := by
  refine ⟨?_, ?_, ?_⟩ <;> rintro rfl <;> cases h

theorem octalDigit_inert {c : Char} {d : Nat} (h : octalDigit c = some d) : Inert c := by
  refine ⟨?_, ?_, ?_⟩ <;> rintro rfl <;> cases h

theorem hexDigits_takes {n v v' : Nat} {s r : List Char} (h : hexDigits n v s = some (v', r)) :
    ∃ p, Takes s r p := by
  induction n generalizing v s with
  | zero =>
    obtain ⟨rfl, rfl⟩ := Prod.mk.inj (Option.some.inj h)
    exact ⟨[], .nil _⟩
  | succ n ih =>
    cases s with
    | nil => cases h
    | cons c s =>
      obtain ⟨d, hd, h⟩ := Option.bind_eq_some_iff.mp h
      obtain ⟨p, hp⟩ := ih h
      exact ⟨c :: p, hp.cons (hexDigit_inert hd)⟩

theorem codePoint_takes {v v' : Nat} {s r : List Char} (h : codePoint v s = some (v', r)) :
    ∃ p, Takes s r p := by
  induction s generalizing v with
  | nil => cases h
  | cons c s ih =>
    unfold codePoint at h
    split at h
    next hc =>
      obtain ⟨rfl, rfl⟩ := Prod.mk.inj (Option.some.inj h)
      exact ⟨[c], (Takes.nil _).cons (by rw [hc]; decide)⟩
    next =>
      obtain ⟨d, hd, h⟩ := Option.bind_eq_some_iff.mp h
      split at h
      · obtain ⟨p, hp⟩ := ih h
        exact ⟨c :: p, hp.cons (hexDigit_inert hd)⟩
      · cases h

theorem octalDigits_takes (n v : Nat) (s : List Char) :
    ∃ p, Takes s (octalDigits n v s).2 p := by
  induction n generalizing v s with
  | zero => exact ⟨[], .nil _⟩
  | succ n ih =>
    cases s with
    | nil => exact ⟨[], .nil _⟩
    | cons c s =>
      unfold octalDigits
      split
      next d hd =>
        obtain ⟨p, hp⟩ := ih (8 * v + d) s
        exact ⟨c :: p, hp.cons (octalDigit_inert hd)⟩
      next => exact ⟨[], .nil _⟩

theorem length_utf16_le (cp : Nat) : (utf16 cp).length ≤ 2 := by
  unfold utf16
  split <;> simp

theorem unicodeEscape_takes {s r : List Char} {value : List Nat}
    (h : unicodeEscape s = some (value, r)) :
    ∃ p, Takes s r p ∧ value.length ≤ 1 + p.length := by
  unfold unicodeEscape at h
  split at h
  next c s =>
    obtain ⟨d, hd, h⟩ := Option.bind_eq_some_iff.mp h
    obtain ⟨⟨v, r'⟩, hv, heq⟩ := Option.map_eq_some_iff.mp h
    obtain ⟨rfl, rfl⟩ := Prod.mk.inj heq
    obtain ⟨p, hp⟩ := codePoint_takes hv
    refine ⟨_, (hp.cons (hexDigit_inert hd)).cons (by decide), ?_⟩
    have h2 := length_utf16_le v
    simp only [List.length_cons]
    omega
  next =>
    obtain ⟨⟨v, r'⟩, hv, heq⟩ := Option.map_eq_some_iff.mp h
    obtain ⟨rfl, rfl⟩ := Prod.mk.inj heq
    obtain ⟨p, hp⟩ := hexDigits_takes hv
    exact ⟨p, hp, by simp⟩

theorem lineContinuation_takes (c : Char) (s : List Char) :
    ∃ p, Takes s (lineContinuation c s).2 p := by
  unfold lineContinuation
  split
  next h =>
    obtain ⟨s, rfl⟩ := List.head?_eq_some_iff.mp h.2
    exact ⟨['\n'], (Takes.nil _).cons (by decide)⟩
  next => exact ⟨[], .nil _⟩

theorem length_singleEscape (c : Char) :
    (((singleEscapes.lookup c).map fun unit => [unit]).getD (utf16 c.toNat)).length ≤
      (utf16 c.toNat).length := by
  cases singleEscapes.lookup c with
  | some unit => exact length_utf16_pos c.toNat
  | none => exact le_refl _

/-- **An escape sequence takes one character, then inert ones**, and its value is no longer than
what it takes. -/
theorem escapeSequence_inert {c : Char} {s r : List Char} {value : List Nat}
    (h : escapeSequence c s = some (value, r)) :
    ∃ p, Takes s r p ∧ value.length ≤ (utf16 c.toNat).length + p.length := by
  have hpos := length_utf16_pos c.toNat
  unfold escapeSequence at h
  split at h
  · obtain ⟨rfl, rfl⟩ := Prod.mk.inj (Option.some.inj h)
    obtain ⟨p, hp⟩ := lineContinuation_takes c s
    exact ⟨p, hp, Nat.zero_le _⟩
  split at h
  · obtain ⟨⟨v, r'⟩, hv, heq⟩ := Option.map_eq_some_iff.mp h
    obtain ⟨rfl, rfl⟩ := Prod.mk.inj heq
    obtain ⟨p, hp⟩ := hexDigits_takes hv
    exact ⟨p, hp, by simp only [List.length_singleton]; omega⟩
  split at h
  · obtain ⟨p, hp, hle⟩ := unicodeEscape_takes h
    exact ⟨p, hp, by omega⟩
  split at h
  next d _ =>
    obtain ⟨rfl, rfl⟩ := Prod.mk.inj (Option.some.inj h)
    obtain ⟨p, hp⟩ := octalDigits_takes (if d < 4 then 2 else 1) d s
    exact ⟨p, hp, by simp only [List.length_singleton]; omega⟩
  next =>
    obtain ⟨rfl, rfl⟩ := Prod.mk.inj (Option.some.inj h)
    exact ⟨[], .nil _, length_singleEscape c⟩

theorem escapeSequence_length {c : Char} {s r : List Char} {value : List Nat}
    (h : escapeSequence c s = some (value, r)) : r.length ≤ s.length := by
  obtain ⟨p, ⟨rfl, -⟩, -⟩ := escapeSequence_inert h
  rw [List.length_append]
  omega

/-! ## The literal -/

/-- The code units `v`, before those of a literal. -/
def prepend (v : List Nat) (literal : Option (List Nat × List Char)) :
    Option (List Nat × List Char) :=
  literal.map fun (u, rest) => (v ++ u, rest)

theorem prepend_eq_some {v value : List Nat} {literal : Option (List Nat × List Char)}
    {rest : List Char} (h : prepend v literal = some (value, rest)) :
    ∃ u, literal = some (u, rest) ∧ value = v ++ u := by
  obtain ⟨⟨u, rest'⟩, hu, heq⟩ := Option.map_eq_some_iff.mp h
  obtain ⟨rfl, rfl⟩ := Prod.mk.inj heq
  exact ⟨u, hu, rfl⟩

/-- The rest of a string literal, after its opening quote: its value, and the source after its
closing quote. -/
def stringLiteral : List Char → Option (List Nat × List Char)
  | [] => none
  | '"' :: s => some ([], s)
  | ['\\'] => none
  | '\\' :: c :: s =>
    match _h : escapeSequence c s with
    | none => none
    | some (value, r) => prepend value (stringLiteral r)
  | c :: s =>
    if c = '\n' ∨ c = '\r' then none else prepend (utf16 c.toNat) (stringLiteral s)
termination_by source => source.length
decreasing_by
  · have hle := escapeSequence_length _h
    simp only [List.length_cons]
    omega
  · exact Nat.lt_succ_self _

theorem stringLiteral_quote (s : List Char) : stringLiteral ('"' :: s) = some ([], s) := by
  rw [stringLiteral]

theorem stringLiteral_escape {c : Char} {s r : List Char} {value : List Nat}
    (h : escapeSequence c s = some (value, r)) :
    stringLiteral ('\\' :: c :: s) = prepend value (stringLiteral r) := by
  rw [stringLiteral]
  split
  next h' => rw [h'] at h; cases h
  next h' =>
    obtain ⟨rfl, rfl⟩ := Prod.mk.inj (Option.some.inj (h'.symm.trans h))
    rfl

theorem stringLiteral_char {c : Char} (hquote : c ≠ '"') (hslash : c ≠ '\\') (s : List Char) :
    stringLiteral (c :: s) = if c = '\n' ∨ c = '\r' then none
      else prepend (utf16 c.toNat) (stringLiteral s) := by
  rw [stringLiteral] <;> simp [hquote, hslash]

/-- A literal that goes on with a backslash goes on with an escape sequence. -/
theorem stringLiteral_backslash {c : Char} {s rest : List Char} {value : List Nat}
    (h : stringLiteral ('\\' :: c :: s) = some (value, rest)) :
    ∃ v r, escapeSequence c s = some (v, r) ∧ prepend v (stringLiteral r) = some (value, rest) := by
  rw [stringLiteral] at h
  split at h
  next => cases h
  next v r hesc => exact ⟨v, r, hesc, h⟩

/-- The closing quote is behind. -/
theorem stringLiteral_length {source rest : List Char} {value : List Nat}
    (h : stringLiteral source = some (value, rest)) : rest.length < source.length := by
  fun_induction stringLiteral source generalizing value with
  | case1 => cases h
  | case2 s =>
    obtain ⟨rfl, rfl⟩ := Prod.mk.inj (Option.some.inj h)
    exact Nat.lt_succ_self _
  | case3 => cases h
  | case4 => cases h
  | case5 c s v r hesc ih =>
    obtain ⟨u, hu, -⟩ := prepend_eq_some h
    have hlt := ih hu
    have hle := escapeSequence_length hesc
    simp only [List.length_cons]
    omega
  | case6 => cases h
  | case7 c s _ _ _ _ ih =>
    obtain ⟨u, hu, -⟩ := prepend_eq_some h
    exact (ih hu).trans (Nat.lt_succ_self _)

end JsLiteral
