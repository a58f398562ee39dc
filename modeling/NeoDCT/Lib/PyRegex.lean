import NeoDCT.Lib.PyText
import NeoDCT.Lib.Regex

/-!
# Python's `re`, for a part of its patterns

The patterns are built from characters, `.`, `\s`, `\S`, `\d`, `\b`, escaped punctuation, sets such as
`[A-Z]` and `[-\s]`, groups, `|`, and the greedy `?`, `*`, `+`, `{m}`, `{m,}` and `{m,n}`.  `compile`
reads such a pattern, and `search` finds its first match as a backtracking matcher does.

What `re` looks up in Unicode's tables is a parameter (`CharTables`).
-/

namespace PyRegex

open PyText Regex

/-! ## Characters -/

structure CharTables where
  /-- `str.isalnum`. -/
  isAlnum : Char → Bool
  /-- `str.isdecimal`. -/
  isDecimal : Char → Bool
  /-- The characters that IGNORECASE does not tell from this one. -/
  variants : Char → List Char
  /-- No whitespace is alphanumeric. -/
  not_alnum_of_space : ∀ c, isSpace c = true → isAlnum c = false

/-- `\w`. -/
def CharTables.isWord (u : CharTables) (c : Char) : Bool := u.isAlnum c || c == '_'

theorem CharTables.not_word_of_space (u : CharTables) {c : Char} (h : isSpace c = true) :
    u.isWord c = false := by
  unfold isWord
  rw [u.not_alnum_of_space c h, Bool.false_or, beq_eq_false_iff_ne]
  rintro rfl
  revert h
  decide

/-- The tables, as they are for ASCII. -/
def CharTables.ascii : CharTables where
  isAlnum c := c.isAlphanum
  isDecimal c := c.isDigit
  variants c := [c, c.toLower, c.toUpper]
  not_alnum_of_space _ := not_isAlphanum_of_space

/-- A member of a set. -/
inductive Item where
  | char (c : Char)
  | range (lo hi : Char)
  | space
  | digit
deriving DecidableEq, Repr

inductive Atom where
  | any
  | oneOf (items : List Item)
  | noneOf (items : List Item)
deriving DecidableEq, Repr

abbrev Pattern := Expr Atom

/-- Whether an item stands for `c`, and so for all of its `variants`. -/
def Item.sat (u : CharTables) (variants : List Char) (c : Char) : Item → Bool
  | .char d => d ∈ variants
  | .range lo hi => variants.any fun d => lo ≤ d ∧ d ≤ hi
  | .space => isSpace c
  | .digit => u.isDecimal c

def Atom.sat (u : CharTables) (ignoreCase : Bool) (a : Atom) (c : Char) : Bool :=
  let variants := if ignoreCase then u.variants c else [c]
  match a with
  | .any => c ≠ '\n'
  | .oneOf items => items.any fun item => item.sat u variants c
  | .noneOf items => !items.any fun item => item.sat u variants c

/-! ## Reading a pattern -/

inductive Token where
  | group
  | endGroup
  | bar
  | char (a : Atom)
  | wordBoundary
  /-- A quantifier: at least `min` times, and at most `max`. -/
  | times (min : Nat) (max : Option Nat)
deriving DecidableEq, Repr

/-- `{min,max}`, without the braces. -/
def bounds (text : Text) : Option Token :=
  match text.splitOn ',' with
  | [n] => (number n).map fun n => .times n (some n)
  | [lo, []] => (number lo).map fun lo => .times lo none
  | [lo, hi] => do
    let lo ← number lo
    let hi ← number hi
    if lo ≤ hi then some (.times lo (some hi)) else none
  | _ => none
where
  number (text : Text) : Option Nat :=
    if text ≠ [] ∧ text.all Char.isDigit then
      some (text.foldl (fun n c => 10 * n + (c.toNat - '0'.toNat)) 0)
    else none

/-- An escape that stands for a character. -/
def escaped (c : Char) : Option Atom :=
  if c = 's' then some (.oneOf [.space])
  else if c = 'S' then some (.noneOf [.space])
  else if c = 'd' then some (.oneOf [.digit])
  else if c.isAlphanum then none
  else some (.oneOf [.char c])

/-- The inside of `[…]`. -/
def items : Text → Option (List Item)
  | [] => some []
  | '^' :: _ => none
  | '\\' :: 's' :: cs => (.space :: ·) <$> items cs
  | '\\' :: _ => none
  | lo :: '-' :: hi :: cs => if lo ≤ hi then (.range lo hi :: ·) <$> items cs else none
  | c :: cs => (.char c :: ·) <$> items cs

/-- `n` bounds the length of the pattern. -/
def tokens : Nat → Text → Option (List Token)
  | _, [] => some []
  | 0, _ :: _ => none
  | n + 1, c :: cs =>
    if c = '(' then
      match cs with
      | '?' :: ':' :: cs => (.group :: ·) <$> tokens n cs
      | '?' :: _ => none
      | cs => (.group :: ·) <$> tokens n cs
    else if c = ')' then (.endGroup :: ·) <$> tokens n cs
    else if c = '|' then (.bar :: ·) <$> tokens n cs
    else if c = '?' then (.times 0 (some 1) :: ·) <$> tokens n cs
    else if c = '*' then (.times 0 none :: ·) <$> tokens n cs
    else if c = '+' then (.times 1 none :: ·) <$> tokens n cs
    else if c = '.' then (.char .any :: ·) <$> tokens n cs
    else if c = '\x7b' then do
      let token ← bounds (cs.takeWhile (· ≠ '\x7d'))
      (token :: ·) <$> tokens n (cs.dropWhile (· ≠ '\x7d')).tail
    else if c = '[' then do
      let set ← items (cs.takeWhile (· ≠ ']'))
      (.char (.oneOf set) :: ·) <$> tokens n (cs.dropWhile (· ≠ ']')).tail
    else if c = '\\' then
      match cs with
      | [] => none
      | 'b' :: cs => (.wordBoundary :: ·) <$> tokens n cs
      | d :: cs => do
        let a ← escaped d
        (.char a :: ·) <$> tokens n cs
    else if c = '^' ∨ c = '$' ∨ c = ']' ∨ c = '\x7d' then none
    else (.char (.oneOf [.char c]) :: ·) <$> tokens n cs

/-- At most `n` times. -/
def upTo (r : Pattern) : Nat → Pattern
  | 0 => .empty
  | n + 1 => .alt (.seq r (upTo r n)) .empty

/-- A quantified expression. -/
def times (r : Pattern) : Nat → Option Nat → Pattern
  | 0, none => .star r
  | 0, some n => upTo r n
  | m + 1, max => .seq r (times r m (max.map (· - 1)))

/-- A group that is being read: the alternatives before the last `|`, and the parts since, the last one
first, with what a quantifier may repeat. -/
structure Group where
  alternatives : List Pattern
  parts : List (Bool × Pattern)

namespace Group

def new : Group := ⟨[], []⟩

def add (g : Group) (repeatable : Bool) (r : Pattern) : Group :=
  { g with parts := (repeatable, r) :: g.parts }

/-- The parts, one after the other. -/
def current (g : Group) : Pattern := g.parts.foldl (fun r part => .seq part.2 r) .empty

/-- The alternatives, the first one first. -/
def pattern (g : Group) : Pattern := g.alternatives.foldl (fun r s => .alt s r) g.current

def bar (g : Group) : Group := ⟨g.current :: g.alternatives, []⟩

end Group

/-- Reads tokens in a group that is nested in others. -/
def build : List Token → Group → List Group → Option Pattern
  | [], g, [] => some g.pattern
  | [], _, _ :: _ => none
  | .group :: ts, g, outer => build ts .new (g :: outer)
  | .endGroup :: _, _, [] => none
  | .endGroup :: ts, g, h :: outer => build ts (h.add true g.pattern) outer
  | .bar :: ts, g, outer => build ts g.bar outer
  | .char a :: ts, g, outer => build ts (g.add true (.atom a)) outer
  | .wordBoundary :: ts, g, outer => build ts (g.add false .boundary) outer
  | .times min max :: ts, g, outer =>
    match g.parts with
    | (true, r) :: parts => build ts ⟨g.alternatives, (false, times r min max) :: parts⟩ outer
    | _ => none

/-- The pattern that a text spells. -/
def parse (pattern : Text) : Option Pattern := do
  let ts ← tokens pattern.length pattern
  build ts .new []

/-! ## Searching -/

/-- `re.compile(pattern, flags).search(text)`, and `group(0)` of the match. -/
def find (u : CharTables) (ignoreCase : Bool) (r : Pattern) (text : Text) : Option Text :=
  (search (Atom.sat u ignoreCase) u.isWord r text).map fun (c, c') =>
    c.after.take (c.after.length - c'.after.length)

theorem find_isSome {u : CharTables} {ignoreCase : Bool} {r : Pattern} {text : Text} :
    (find u ignoreCase r text).isSome = (search (Atom.sat u ignoreCase) u.isWord r text).isSome :=
  Option.isSome_map

theorem startsWord_of_head {u : CharTables} {cs : Text} (h : ∀ c ∈ cs.head?, u.isWord c = false) :
    startsWord u.isWord cs = false := by
  cases cs with
  | nil => rfl
  | cons c cs => exact h c rfl

/-- What is found in a text is found in any text that has it between characters that are no word
characters. -/
theorem find_flanked {u : CharTables} {ignoreCase : Bool} {r : Pattern} {part text : Text}
    (hpart : Flanked (u.isWord · = false) part text) (h : (find u ignoreCase r part).isSome = true) :
    (find u ignoreCase r text).isSome = true := by
  obtain ⟨left, right, rfl, hl, hr⟩ := hpart
  rw [find_isSome] at h ⊢
  refine search_within _ _ (startsWord_of_head ?_) (startsWord_of_head hr) h
  rw [List.head?_reverse]
  exact hl

theorem flanked_of_setOff (u : CharTables) {part text : Text} (h : SetOff part text) :
    Flanked (u.isWord · = false) part text :=
  Flanked.mono (fun _ hspace => u.not_word_of_space hspace) h

/-- What is found in a text is found in any text that has it between whitespace. -/
theorem find_setOff {u : CharTables} {ignoreCase : Bool} {r : Pattern} {part text : Text}
    (hpart : SetOff part text) (h : (find u ignoreCase r part).isSome = true) :
    (find u ignoreCase r text).isSome = true :=
  find_flanked (flanked_of_setOff u hpart) h

/-- `re.fullmatch(pattern, text, flags)` is not `None`. -/
def fullmatch (u : CharTables) (ignoreCase : Bool) (r : Pattern) (text : Text) : Bool :=
  ⟨text.reverse, []⟩ ∈ ends (Atom.sat u ignoreCase) u.isWord r ⟨[], text⟩

example : ((parse r"\bgive\s+\$?\d+\b".toList).bind fun r =>
    find .ascii true r "Please Give  $50!".toList) = some "Give  $50".toList := by
  decide +kernel

end PyRegex
