import Mathlib

/-!
# Binary records

Little-endian records of fixed-width integers, packed and unpacked as Python's `struct` does.  A
format is the list of its fields; `pack` refuses a value that its field cannot hold, `unpack` a
string that is not as long as the format, and they are inverse to each other:

    unpack fmt bytes = some values  ↔  pack fmt values = some bytes       (unpack_eq_some)
-/

namespace Struct

/-! ## Unsigned integers -/

/-- The unsigned integer in some bytes. -/
def ofBytes (bytes : List UInt8) : Nat := Nat.ofDigits 256 (bytes.map UInt8.toNat)

/-- `n` in `width` bytes. -/
def toBytes : Nat → Nat → List UInt8
  | 0, _ => []
  | width + 1, n => .ofNat n :: toBytes width (n / 256)

theorem ofBytes_cons (b : UInt8) (bytes : List UInt8) :
    ofBytes (b :: bytes) = b.toNat + 256 * ofBytes bytes := Nat.ofDigits_cons

@[simp] theorem length_toBytes (width n : Nat) : (toBytes width n).length = width := by
  induction width generalizing n with
  | zero => rfl
  | succ width ih => simp [toBytes, ih]

theorem ofBytes_lt (bytes : List UInt8) : ofBytes bytes < 256 ^ bytes.length := by
  have h : ∀ d ∈ bytes.map UInt8.toNat, d < 256 := by
    intro d hd
    obtain ⟨b, _, rfl⟩ := List.mem_map.mp hd
    exact b.toNat_lt
  have hlt := Nat.ofDigits_lt_base_pow_length (by omega) h
  rwa [List.length_map] at hlt

theorem ofBytes_toBytes {width n : Nat} (h : n < 256 ^ width) : ofBytes (toBytes width n) = n := by
  induction width generalizing n with
  | zero =>
    have : n = 0 := by simpa using h
    rw [this]
    rfl
  | succ width ih =>
    have hdiv : n / 256 < 256 ^ width := by
      apply Nat.div_lt_of_lt_mul
      rwa [Nat.pow_succ, Nat.mul_comm] at h
    rw [toBytes, ofBytes_cons, ih hdiv, UInt8.toNat_ofNat']
    omega

theorem toBytes_ofBytes (bytes : List UInt8) : toBytes bytes.length (ofBytes bytes) = bytes := by
  induction bytes with
  | nil => rfl
  | cons b bytes ih =>
    have hb := b.toNat_lt
    have hdiv : (b.toNat + 256 * ofBytes bytes) / 256 = ofBytes bytes := by omega
    have hmod : UInt8.ofNat (b.toNat + 256 * ofBytes bytes) = b := by
      apply UInt8.toNat_inj.mp
      rw [UInt8.toNat_ofNat']
      omega
    rw [List.length_cons, ofBytes_cons, toBytes, hdiv, hmod, ih]

/-! ## Fields -/

/-- One integer of a record; a signed one is in two's complement. -/
structure Field where
  width : Nat
  signed : Bool
deriving DecidableEq, Repr

namespace Field

/-- The values of a field. -/
def InRange (f : Field) (v : ℤ) : Prop :=
  if f.signed then -256 ^ f.width ≤ 2 * v ∧ 2 * v < 256 ^ f.width else 0 ≤ v ∧ v < 256 ^ f.width

instance (f : Field) (v : ℤ) : Decidable (f.InRange v) := by
  unfold InRange
  infer_instance

/-- The value in the bytes of a field. -/
def decode (f : Field) (bytes : List UInt8) : ℤ :=
  if f.signed ∧ 256 ^ f.width ≤ 2 * ofBytes bytes then ofBytes bytes - 256 ^ f.width
  else ofBytes bytes

/-- The bytes of a value. -/
def encode (f : Field) (v : ℤ) : List UInt8 := toBytes f.width (v % 256 ^ f.width).toNat

@[simp] theorem length_encode (f : Field) (v : ℤ) : (f.encode v).length = f.width :=
  length_toBytes _ _

/-- What a field holds modulo its size. -/
theorem ofBytes_encode (f : Field) (v : ℤ) : (ofBytes (f.encode v) : ℤ) = v % 256 ^ f.width := by
  have hpos : (0 : ℤ) < 256 ^ f.width := by positivity
  have hnonneg := Int.emod_nonneg v hpos.ne'
  have hlt : (v % 256 ^ f.width).toNat < 256 ^ f.width := by
    have := Int.emod_lt_of_pos v hpos
    zify
    omega
  rw [encode, ofBytes_toBytes hlt, Int.toNat_of_nonneg hnonneg]

theorem decode_encode {f : Field} {v : ℤ} (h : f.InRange v) : f.decode (f.encode v) = v := by
  have hmod := f.ofBytes_encode v
  unfold decode
  unfold InRange at h
  rw [hmod]
  zify
  rw [hmod]
  generalize (256 : ℤ) ^ f.width = m at *
  by_cases hs : f.signed
  · rw [if_pos hs] at h
    by_cases hv : 0 ≤ v
    · rw [Int.emod_eq_of_lt hv (by omega), if_neg (by omega)]
    · have : v % m = v + m := by
        rw [← Int.add_emod_right, Int.emod_eq_of_lt (by omega) (by omega)]
      rw [this, if_pos ⟨hs, by omega⟩]
      omega
  · rw [if_neg hs] at h
    rw [if_neg (fun hc => hs hc.1), Int.emod_eq_of_lt h.1 h.2]

theorem inRange_decode (f : Field) {bytes : List UInt8} (h : bytes.length = f.width) :
    f.InRange (f.decode bytes) := by
  have hlt := ofBytes_lt bytes
  rw [h] at hlt
  unfold InRange decode
  zify at hlt ⊢
  generalize (256 : ℤ) ^ f.width = m at *
  by_cases hs : f.signed
  · rw [if_pos hs]
    split
    · omega
    · next hsmall =>
      have : ¬ m ≤ 2 * (ofBytes bytes : ℤ) := fun hle => hsmall ⟨hs, hle⟩
      omega
  · rw [if_neg hs, if_neg fun hc => hs hc.1]
    omega

theorem encode_decode (f : Field) {bytes : List UInt8} (h : bytes.length = f.width) :
    f.encode (f.decode bytes) = bytes := by
  have hlt := ofBytes_lt bytes
  have hback := toBytes_ofBytes bytes
  rw [h] at hlt hback
  have hmod : f.decode bytes % 256 ^ f.width = ofBytes bytes := by
    have hsmall : (ofBytes bytes : ℤ) % 256 ^ f.width = ofBytes bytes :=
      Int.emod_eq_of_lt (by omega) (by exact_mod_cast hlt)
    unfold decode
    split
    · rw [Int.sub_emod_right, hsmall]
    · exact hsmall
  rw [encode, hmod, Int.toNat_natCast, hback]

end Field

/-! ## Formats -/

abbrev Format := List Field

/-- `struct.pack`: `none` is `struct.error`. -/
def pack : Format → List ℤ → Option (List UInt8)
  | [], [] => some []
  | f :: fmt, v :: values =>
    if f.InRange v then (pack fmt values).map fun bytes => f.encode v ++ bytes else none
  | _, _ => none

/-- `struct.unpack`: `none` is `struct.error`. -/
def unpack : Format → List UInt8 → Option (List ℤ)
  | [], bytes => if bytes = [] then some [] else none
  | f :: fmt, bytes =>
    if f.width ≤ bytes.length then
      (unpack fmt (bytes.drop f.width)).map fun values => f.decode (bytes.take f.width) :: values
    else none

/-- `struct.calcsize`. -/
def calcsize (fmt : Format) : Nat := (fmt.map Field.width).sum

/-- **Unpacking inverts packing.** -/
theorem unpack_eq_some {fmt : Format} {bytes : List UInt8} {values : List ℤ} :
    unpack fmt bytes = some values ↔ pack fmt values = some bytes := by
  induction fmt generalizing bytes values with
  | nil => cases values <;> simp [unpack, pack, eq_comm]
  | cons f fmt ih =>
    constructor
    · intro h
      unfold unpack at h
      split at h
      · next hlen =>
        obtain ⟨rest, hrest, rfl⟩ := Option.map_eq_some_iff.mp h
        have htake : (bytes.take f.width).length = f.width := List.length_take_of_le hlen
        rw [pack, if_pos (f.inRange_decode htake), ih.mp hrest, f.encode_decode htake]
        exact congrArg some (List.take_append_drop _ _)
      · cases h
    · intro h
      cases values with
      | nil => cases h
      | cons v values =>
        unfold pack at h
        split at h
        · next hv =>
          obtain ⟨rest, hrest, rfl⟩ := Option.map_eq_some_iff.mp h
          have hlen := f.length_encode v
          rw [unpack, if_pos (by simp), List.drop_left' hlen, List.take_left' hlen, ih.mpr hrest,
            Field.decode_encode hv]
          rfl
        · cases h

/-- A string unpacks when its length is right. -/
theorem unpack_isSome (fmt : Format) (bytes : List UInt8) :
    (unpack fmt bytes).isSome ↔ bytes.length = calcsize fmt := by
  induction fmt generalizing bytes with
  | nil => by_cases h : bytes = [] <;> simp [unpack, calcsize, h]
  | cons f fmt ih =>
    have hsize : calcsize (f :: fmt) = f.width + calcsize fmt := rfl
    unfold unpack
    split
    · next hlen =>
      rw [Option.isSome_map, ih, List.length_drop, hsize]
      omega
    · next hlen =>
      constructor
      · intro h
        cases h
      · intro h
        omega

end Struct
