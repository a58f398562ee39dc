import NeoDCT.Lib.PyText
import NeoDCT.Lib.Struct

/-!
# Python byte strings

Slices, searches, integers and the decodings of `bytes.decode`, which are strict: `none` is a
`UnicodeDecodeError`.  Each inverts its encoding:

    latin1 (encodeLatin1 text) = text    if it has a byte for every character   (latin1_encodeLatin1)
    utf8 (encodeUtf8 text) = some text                                              (utf8_encodeUtf8)
    utf16 (encodeUtf16 big text) = some text                                      (utf16_encodeUtf16)
-/

namespace PyBytes

open PyText

abbrev Bytes := List UInt8

/-- `data[i:j]`. -/
def slice (data : Bytes) (i j : ℕ) : Bytes := (data.drop i).take (j - i)

/-- `data.find(bytes([b]), start)`. -/
def find (data : Bytes) (b : UInt8) (start : ℕ) : ℤ :=
  match (data.drop start).findIdx? (· = b) with
  | some i => start + i
  | none => -1

/-- `int.from_bytes(data, "big")`. -/
def intFromBytesBig (data : Bytes) : ℕ := Struct.ofBytes data.reverse

/-- `data.decode("latin-1")`. -/
def latin1 (data : Bytes) : Text := data.map fun b => Char.ofNat b.toNat

/-- `data.decode("utf-8")`. -/
def utf8 (data : Bytes) : Option Text := (ByteArray.utf8Decode? ⟨data.toArray⟩).map Array.toList

/-- The code units of UTF-16; `none` is half of one at the end. -/
def codeUnits (big : Bool) : Bytes → Option (List ℕ)
  | [] => some []
  | [_] => none
  | a :: b :: rest =>
    (codeUnits big rest).map fun units =>
      (if big then 256 * a.toNat + b.toNat else 256 * b.toNat + a.toNat) :: units

/-- The characters of some code units; `none` is a surrogate on its own. -/
def fromCodeUnits : List ℕ → Option Text
  | [] => some []
  | [u] => if 0xD800 ≤ u ∧ u ≤ 0xDFFF then none else some [Char.ofNat u]
  | u :: v :: units =>
    if 0xD800 ≤ u ∧ u ≤ 0xDFFF then
      if u ≤ 0xDBFF ∧ 0xDC00 ≤ v ∧ v ≤ 0xDFFF then
        (fromCodeUnits units).map fun text =>
          Char.ofNat (0x10000 + (u - 0xD800) * 0x400 + (v - 0xDC00)) :: text
      else none
    else (fromCodeUnits (v :: units)).map fun text => Char.ofNat u :: text

/-- `data.decode("utf-16")`: a byte order mark says which byte comes first; without one it is the low one, on
the machines this is for. -/
def utf16 : Bytes → Option Text
  | 0xFF :: 0xFE :: data => (codeUnits false data).bind fromCodeUnits
  | 0xFE :: 0xFF :: data => (codeUnits true data).bind fromCodeUnits
  | data => (codeUnits false data).bind fromCodeUnits

/-- A search from the end of `pre` goes past what does not hold the byte. -/
theorem find_append {data rest : Bytes} {b : UInt8} (pre : Bytes) (h : b ∉ data) :
    find (pre ++ (data ++ b :: rest)) b pre.length = pre.length + data.length := by
  have hnone : data.findIdx? (· = b) = none :=
    List.findIdx?_eq_none_iff.mpr fun c hc => decide_eq_false (ne_of_mem_of_not_mem hc h)
  have hidx : (data ++ b :: rest).findIdx? (· = b) = some data.length := by
    rw [List.findIdx?_append, hnone, List.findIdx?_cons]
    simp
  unfold find
  rw [List.drop_left, hidx]

/-- What is behind the byte that is found. -/
theorem drop_find {data rest : Bytes} {b : UInt8} (pre : Bytes) (h : b ∉ data) :
    (pre ++ (data ++ b :: rest)).drop (find (pre ++ (data ++ b :: rest)) b pre.length + 1).toNat = rest := by
  have happend : pre ++ (data ++ b :: rest) = pre ++ data ++ [b] ++ rest := by
    simp only [List.append_assoc, List.singleton_append]
  have hlen : (pre ++ data ++ [b]).length = ((pre.length : ℤ) + data.length + 1).toNat := by
    rw [List.length_append, List.length_append, List.length_singleton]
    omega
  rw [find_append pre h, happend, List.drop_left' hlen]

/-- Latin-1 has a character for every byte, and another for each. -/
theorem latin1_injective : Function.Injective latin1 := by
  have hval : ∀ b : UInt8, (Char.ofNat b.toNat).toNat = b.toNat := by
    intro b
    have hb := b.toNat_lt
    have hvalid : b.toNat.isValidChar := Or.inl (by omega)
    unfold Char.ofNat
    rw [dif_pos hvalid]
    rfl
  refine List.map_injective_iff.mpr fun a b h => ?_
  apply UInt8.toNat_inj.mp
  rw [← hval a, ← hval b, h]

/-! ## Encodings -/

def encodeLatin1 (text : Text) : Bytes := text.map fun c => .ofNat c.toNat

def encodeUtf8 (text : Text) : Bytes := text.flatMap String.utf8EncodeChar

/-- The code units of a character: one, or two surrogates. -/
def charUnits (c : Char) : List ℕ :=
  if c.toNat < 0x10000 then [c.toNat]
  else [0xD800 + (c.toNat - 0x10000) / 0x400, 0xDC00 + (c.toNat - 0x10000) % 0x400]

def unitBytes (big : Bool) (u : ℕ) : Bytes :=
  if big then [.ofNat (u / 256), .ofNat (u % 256)] else [.ofNat (u % 256), .ofNat (u / 256)]

/-- UTF-16 with its byte order mark. -/
def encodeUtf16 (big : Bool) (text : Text) : Bytes :=
  (if big then [0xFE, 0xFF] else [0xFF, 0xFE]) ++ (text.flatMap charUnits).flatMap (unitBytes big)

theorem latin1_encodeLatin1 {text : Text} (h : ∀ c ∈ text, c.toNat < 256) :
    latin1 (encodeLatin1 text) = text := by
  unfold latin1 encodeLatin1
  rw [List.map_map, List.map_congr_left (g := id) fun c hc => ?_, List.map_id]
  have hbyte : (UInt8.ofNat c.toNat).toNat = c.toNat := by
    have hlt := h c hc
    rw [UInt8.toNat_ofNat']
    omega
  show Char.ofNat (UInt8.ofNat c.toNat).toNat = c
  rw [hbyte, Char.ofNat_toNat]

theorem utf8_encodeUtf8 (text : Text) : utf8 (encodeUtf8 text) = some text := by
  have hbytes : (⟨(encodeUtf8 text).toArray⟩ : ByteArray) = text.utf8Encode := by
    apply ByteArray.ext
    apply Array.toList_inj.mp
    exact List.toList_data_toByteArray.symm
  unfold utf8
  rw [hbytes]
  clear hbytes
  induction text with
  | nil => simp
  | cons c text ih =>
    rw [← List.singleton_append, List.utf8Encode_append, ByteArray.utf8Decode?_utf8Encode_singleton_append]
    obtain ⟨chars, hchars, htext⟩ := Option.map_eq_some_iff.mp ih
    rw [hchars, ← htext]
    simp

theorem codeUnits_flatMap (big : Bool) {units : List ℕ} (h : ∀ u ∈ units, u < 0x10000) :
    codeUnits big (units.flatMap (unitBytes big)) = some units := by
  induction units with
  | nil => rfl
  | cons u units ih =>
    rw [List.forall_mem_cons] at h
    have hhigh : (UInt8.ofNat (u / 256)).toNat = u / 256 := by
      rw [UInt8.toNat_ofNat']
      omega
    have hlow : (UInt8.ofNat (u % 256)).toNat = u % 256 := by
      rw [UInt8.toNat_ofNat']
      omega
    have hdiv := Nat.div_add_mod u 256
    cases big with
    | true =>
      show (codeUnits true (units.flatMap (unitBytes true))).map
        (List.cons (256 * (UInt8.ofNat (u / 256)).toNat + (UInt8.ofNat (u % 256)).toNat)) = _
      rw [ih h.2, hhigh, hlow, hdiv]
      rfl
    | false =>
      show (codeUnits false (units.flatMap (unitBytes false))).map
        (List.cons (256 * (UInt8.ofNat (u / 256)).toNat + (UInt8.ofNat (u % 256)).toNat)) = _
      rw [ih h.2, hhigh, hlow, hdiv]
      rfl

theorem valid_toNat (c : Char) : c.toNat < 0xD800 ∨ 0xDFFF < c.toNat ∧ c.toNat < 0x110000 := c.valid

theorem charUnits_lt (c : Char) : ∀ u ∈ charUnits c, u < 0x10000 := by
  have hc := valid_toNat c
  unfold charUnits
  split
  next h => simpa using h
  next =>
    rw [List.forall_mem_cons, List.forall_mem_singleton]
    omega

theorem fromCodeUnits_cons {u : ℕ} (h : u < 0xD800 ∨ 0xDFFF < u) (units : List ℕ) :
    fromCodeUnits (u :: units) = (fromCodeUnits units).map (Char.ofNat u :: ·) := by
  cases units with
  | nil => exact if_neg (by omega)
  | cons v units => exact if_neg (by omega)

theorem fromCodeUnits_flatMap (text : Text) : fromCodeUnits (text.flatMap charUnits) = some text := by
  induction text with
  | nil => rfl
  | cons c text ih =>
    have hc := valid_toNat c
    rw [List.flatMap_cons]
    unfold charUnits
    split
    next =>
      rw [List.singleton_append, fromCodeUnits_cons (by omega)]
      show (fromCodeUnits (text.flatMap charUnits)).map _ = _
      rw [ih, Option.map_some, Char.ofNat_toNat]
    next =>
      show fromCodeUnits (_ :: _ :: text.flatMap charUnits) = _
      unfold fromCodeUnits
      rw [if_pos (by omega), if_pos (by omega), ih, Option.map_some]
      have hvalue : 0x10000 + (0xD800 + (c.toNat - 0x10000) / 0x400 - 0xD800) * 0x400 +
          (0xDC00 + (c.toNat - 0x10000) % 0x400 - 0xDC00) = c.toNat := by omega
      rw [hvalue, Char.ofNat_toNat]

theorem utf16_encodeUtf16 (big : Bool) (text : Text) : utf16 (encodeUtf16 big text) = some text := by
  have hunits : (codeUnits big ((text.flatMap charUnits).flatMap (unitBytes big))).bind fromCodeUnits =
      some text := by
    rw [codeUnits_flatMap big, Option.bind_some, fromCodeUnits_flatMap]
    intro u hu
    obtain ⟨c, -, hu⟩ := List.mem_flatMap.mp hu
    exact charUnits_lt c u hu
  cases big with
  | true => exact hunits
  | false => exact hunits

end PyBytes
