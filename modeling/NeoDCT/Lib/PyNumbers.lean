import NeoDCT.Lib.PyText
import NeoDCT.Lib.Rounding

/-!
# Python numbers as text

`int(x)` rounds towards zero, and `format(n, "02d")` counts the sign of `n` to its width:

    zeroPad 2 5 = "05"      zeroPad 2 (-1) = "-1"

A `float` is a double, and so is what becomes of two of them: `2.9 - 0.9` is rounded.

A text that `isdigit()` need not be one that `int` converts (`Numerals.isSome_int`): there are digits that
are no decimals, and a limit to what is converted.
-/

namespace PyText

/-- `int(x)`. -/
def toInt (x : ℚ) : ℤ := if 0 ≤ x then ⌊x⌋ else ⌈x⌉

/-- `format(n, "0wd")`. -/
def zeroPad (w : ℕ) (n : ℤ) : Text :=
  let digits := Nat.toDigits 10 n.natAbs
  if n < 0 then '-' :: (List.replicate (w - 1 - digits.length) '0' ++ digits)
  else List.replicate (w - digits.length) '0' ++ digits

theorem toInt_of_nonneg {x : ℚ} (h : 0 ≤ x) : toInt x = ⌊x⌋ := if_pos h

/-- What is less than 1 below zero becomes zero. -/
theorem toInt_nonneg_iff {x : ℚ} : 0 ≤ toInt x ↔ -1 < x := by
  unfold toInt
  split
  · next h =>
    have hfloor : 0 ≤ ⌊x⌋ := Int.floor_nonneg.mpr h
    have hx : -1 < x := by linarith
    exact ⟨fun _ => hx, fun _ => hfloor⟩
  · have hlt : 0 ≤ ⌈x⌉ ↔ -1 < ⌈x⌉ := by omega
    rw [hlt, Int.lt_ceil]
    norm_num

theorem toInt_of_neg {x : ℚ} (h : -1 < x) (hx : x < 0) : toInt x = 0 := by
  unfold toInt
  rw [if_neg (not_le.mpr hx), Int.ceil_eq_iff]
  norm_num
  exact ⟨h, hx.le⟩

theorem zeroPad_natCast (w n : ℕ) : zeroPad w n =
    List.replicate (w - (Nat.toDigits 10 n).length) '0' ++ Nat.toDigits 10 n := by
  unfold zeroPad
  rw [if_neg (by omega), Int.natAbs_natCast]

theorem zeroPad_of_neg {n : ℤ} (h : n < 0) (w : ℕ) : ∃ rest, zeroPad w n = '-' :: rest :=
  ⟨_, if_pos h⟩

theorem zeroPad_digits (w n : ℕ) : ∀ c ∈ zeroPad w n, c.isDigit = true := by
  rw [zeroPad_natCast]
  intro c hc
  rcases List.mem_append.mp hc with hc | hc
  · rw [List.eq_of_mem_replicate hc]
    rfl
  · exact Nat.isDigit_of_mem_toDigits (by decide) (by decide) hc

theorem zeroPad_value (w n : ℕ) : Nat.ofDigitChars 10 (zeroPad w n) 0 = n := by
  rw [zeroPad_natCast, Nat.ofDigitChars_append, Nat.ofDigitChars_replicate_zero, Nat.mul_zero,
    Nat.ofDigitChars_ten_toDigits]

theorem le_length_zeroPad (w n : ℕ) : w ≤ (zeroPad w n).length := by
  rw [zeroPad_natCast, List.length_append, List.length_replicate]
  omega

theorem length_zeroPad {w n : ℕ} (hw : 0 < w) (hn : n < 10 ^ w) : (zeroPad w n).length = w := by
  have hle := (Nat.length_toDigits_le_iff (by decide) hw).mpr hn
  rw [zeroPad_natCast, List.length_append, List.length_replicate]
  omega

/-! ## Floats -/

/-- The numbers of a `float`, but for the infinities: nothing here is as great. -/
def binary64 : Rounding.Format := ⟨53, -1074⟩

/-- The `float` that an operation gives, for its exact result. -/
def toFloat (x : ℚ) : ℚ := binary64.round x

/-- A value of a `float`. -/
def IsFloat (x : ℚ) : Prop := toFloat x = x

instance (x : ℚ) : Decidable (IsFloat x) := inferInstanceAs (Decidable (_ = _))

theorem toFloat_zero : toFloat 0 = 0 := Rounding.Format.round_zero

theorem toFloat_intCast {n : ℤ} (h : |n| < 2 ^ 53) : toFloat n = n :=
  Rounding.Format.round_intCast (F := binary64) (by decide) h

theorem toFloat_natCast {n : ℕ} (h : n < 2 ^ 53) : toFloat n = n := by
  have hcast := toFloat_intCast (n := n) (by rw [Nat.abs_cast]; exact_mod_cast h)
  exact_mod_cast hcast

theorem toFloat_mono {x y : ℚ} (h : x ≤ y) : toFloat x ≤ toFloat y :=
  Rounding.Format.round_mono (F := binary64) (by decide) h

/-- A `float` is a multiple of the least one. -/
theorem onGrid_toFloat (x : ℚ) : Rounding.OnGrid binary64.minExponent (toFloat x) :=
  Rounding.Format.onGrid_min_round x

theorem IsFloat.onGrid {x : ℚ} (h : IsFloat x) : Rounding.OnGrid binary64.minExponent x := by
  rw [← h]
  exact onGrid_toFloat x

theorem abs_toFloat_sub_le {x : ℚ} (h : Rounding.OnGrid binary64.minExponent x) : |toFloat x - x| ≤ |x| / 2 ^ 53 :=
  Rounding.Format.abs_round_sub_le h

theorem toFloat_nonneg {x : ℚ} (h : 0 ≤ x) : 0 ≤ toFloat x := Rounding.Format.round_nonneg h

/-! ## Numerals -/

/-- What Python knows of digits; every decimal is a digit. -/
structure Numerals where
  /-- `str.isdigit`, of one character. -/
  isDigit : Char → Bool
  /-- The value of a decimal digit. -/
  decimal : Char → Option ℕ
  /-- `sys.get_int_max_str_digits()`; 0 is no limit. -/
  maxStrDigits : ℕ
  isDigit_of_decimal : ∀ c, (decimal c).isSome → isDigit c = true
  ascii : ∀ c, c.isDigit = true → decimal c = some (c.toNat - '0'.toNat)

namespace Numerals

variable (u : Numerals)

/-- `text.isdigit()`. -/
def isdigit (text : Text) : Bool := !text.isEmpty && text.all u.isDigit

/-- `int(text)`, of a text of digits; `none` is a `ValueError`. -/
def int (text : Text) : Option ℕ :=
  if u.maxStrDigits ≠ 0 ∧ u.maxStrDigits < text.length then none
  else (text.mapM u.decimal).map fun digits => digits.foldl (fun n d => 10 * n + d) 0

/-- Every character is a decimal, and there are not too many of them. -/
def Converts (text : Text) : Prop :=
  (∀ c ∈ text, (u.decimal c).isSome) ∧ (u.maxStrDigits = 0 ∨ text.length ≤ u.maxStrDigits)

variable {u}

theorem isSome_mapM {α β : Type} {f : α → Option β} {xs : List α} :
    (xs.mapM f).isSome ↔ ∀ x ∈ xs, (f x).isSome := by
  induction xs with
  | nil => simp
  | cons x xs ih =>
    rw [List.mapM_cons, List.forall_mem_cons, ← ih]
    cases f x with
    | none => simp
    | some b => cases xs.mapM f <;> simp

theorem isSome_int {text : Text} : (u.int text).isSome ↔ u.Converts text := by
  unfold int Converts
  split
  next h =>
    refine iff_of_false (by simp) fun hconv => ?_
    have := hconv.2
    omega
  next h =>
    rw [Option.isSome_map, isSome_mapM]
    exact (and_iff_left (by omega)).symm

/-- ASCII digits are converted, if there are not too many of them. -/
theorem int_ascii {text : Text} (h : ∀ c ∈ text, c.isDigit = true)
    (hlen : u.maxStrDigits = 0 ∨ text.length ≤ u.maxStrDigits) :
    u.int text = some (Nat.ofDigitChars 10 text 0) := by
  have hmap : text.mapM u.decimal = some (text.map fun c => c.toNat - '0'.toNat) := by
    clear hlen
    induction text with
    | nil => rfl
    | cons c text ih =>
      rw [List.forall_mem_cons] at h
      rw [List.mapM_cons, u.ascii c h.1, ih h.2]
      rfl
  unfold int
  rw [if_neg (by omega), hmap, Option.map_some, List.foldl_map]
  rfl

/-- What is written as a numeral is read as one. -/
theorem isdigit_toDigits (n : ℕ) : u.isdigit (Nat.toDigits 10 n) = true := by
  unfold isdigit
  rw [Bool.and_eq_true, List.all_eq_true]
  refine ⟨by simp [Nat.toDigits_ne_nil], fun c hc => u.isDigit_of_decimal c ?_⟩
  rw [u.ascii c (Nat.isDigit_of_mem_toDigits (by decide) (by decide) hc)]
  rfl

theorem int_toDigits {n : ℕ} (h : u.maxStrDigits = 0 ∨ (Nat.toDigits 10 n).length ≤ u.maxStrDigits) :
    u.int (Nat.toDigits 10 n) = some n := by
  rw [int_ascii (fun c hc => Nat.isDigit_of_mem_toDigits (by decide) (by decide) hc) h,
    Nat.ofDigitChars_ten_toDigits]

/-- The digits of Latin-1: three of them are no decimals. -/
def latin1 : Numerals where
  isDigit c := c.isDigit || c = '²' || c = '³' || c = '¹'
  decimal c := if c.isDigit then some (c.toNat - '0'.toNat) else none
  maxStrDigits := 4300
  isDigit_of_decimal c h := by
    split at h
    next hc => simp [hc]
    next => cases h
  ascii _ hc := if_pos hc

end Numerals

end PyText
