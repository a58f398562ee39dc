import NeoDCT.Input
import NeoDCT.Lib.Struct

/-!
# The three key decoders

`NeoDCT_UI.read_keypress`, `call_screen._read_keypress` and `SnakeGame.poll_key` (apps/Games/main.py)
decode what `os.read` gave, each with code of its own.  They agree on every byte string, and invert
the encoding of a key press in either record of linux/input.h:

    some code  ↔  bytes = 24 or 16 bytes of type 1, this code, value 1, at some time
    none       ↔  bytes are of no key press                                  (decoders_agree)
-/

namespace NeoDCT

open Struct

/-! ## The records -/

/-- `l`: a signed long of a 64-bit platform. -/
def cLong : Field := ⟨8, true⟩

/-- `I`. -/
def cUInt : Field := ⟨4, false⟩

/-- `H`. -/
def cUShort : Field := ⟨2, false⟩

/-- `'llHHI'`; every field is aligned where it stands, so there is no padding. -/
def llHHI : Format := [cLong, cLong, cUShort, cUShort, cUInt]

/-- `'IIHHI'`. -/
def iiHHI : Format := [cUInt, cUInt, cUShort, cUShort, cUInt]

example : calcsize llHHI = 24 ∧ calcsize iiHHI = 16 := by decide

/-- The bytes are the record, 24 or 16 bytes long, of an event at some time. -/
def Encodes (etype code val : ℤ) (data : List UInt8) : Prop :=
  ∃ sec usec, pack llHHI [sec, usec, etype, code, val] = some data ∨
    pack iiHHI [sec, usec, etype, code, val] = some data

/-- The bytes of a press of the key `code`. -/
def IsPress (code : Nat) (data : List UInt8) : Prop := Encodes 1 code 1 data

/-! ## SnakeGame -/

/-- The `try` block of `poll_key`: `etype`, `code` and `val`, unless it returns `None`. -/
def SnakeGame.unpackEvent (data : List UInt8) : Option (ℤ × ℤ × ℤ) :=
  let fields :=
    if data.length = 24 then unpack llHHI data
    else if data.length = 16 then unpack iiHHI data
    else none
  match fields with
  | some [_, _, etype, code, val] => some (etype, code, val)
  | _ => none

/-- `SnakeGame.poll_key`, on what `os.read` gave; an `H` is never negative. -/
def SnakeGame.pollKey (data : List UInt8) : Option Nat :=
  match SnakeGame.unpackEvent data with
  | some (etype, code, val) => if etype = 1 ∧ val = 1 then some code.toNat else none
  | none => none

/-! ## The fields at their offsets -/

theorem fromBytes_eq (bytes : List UInt8) : fromBytes bytes = ofBytes bytes := by
  induction bytes with
  | nil => rfl
  | cons b bytes ih => rw [fromBytes, ih, ofBytes_cons]

theorem decode_unsigned (width : Nat) (bytes : List UInt8) :
    Field.decode ⟨width, false⟩ bytes = fromBytes bytes := by
  rw [fromBytes_eq]
  rfl

/-- Two fields of a time, and then the event. -/
theorem unpack_event {f : Field} {data : List UInt8} (hlen : data.length = 2 * f.width + 8) :
    ∃ sec usec, unpack [f, f, cUShort, cUShort, cUInt] data =
      some [sec, usec, ((unpackHHI (2 * f.width) data).etype : ℤ),
        ((unpackHHI (2 * f.width) data).code : ℤ), ((unpackHHI (2 * f.width) data).val : ℤ)] := by
  refine ⟨f.decode (data.take f.width), f.decode ((data.drop f.width).take f.width), ?_⟩
  have htake : (data.drop (2 * f.width + 4)).take 4 = data.drop (2 * f.width + 4) := by
    apply List.take_of_length_le
    rw [List.length_drop]
    omega
  have hrest : data.drop (2 * f.width + 8) = [] := List.drop_eq_nil_of_le (by omega)
  have h₁ : f.width ≤ data.length := by omega
  have h₂ : f.width ≤ data.length - f.width := by omega
  have h₃ : 2 ≤ data.length - 2 * f.width := by omega
  have h₄ : 2 ≤ data.length - (2 * f.width + 2) := by omega
  have h₅ : 4 ≤ data.length - (2 * f.width + 4) := by omega
  have htwo : f.width + f.width = 2 * f.width := by omega
  simp only [unpack, cUShort, cUInt, decode_unsigned, unpackHHI, List.length_drop, List.drop_drop,
    htwo, Nat.add_assoc, Nat.reduceAdd, h₁, h₂, h₃, h₄, h₅, hrest, if_true, Option.map_some]

theorem unpack_of_length (fmt : Format) {data : List UInt8} (h : data.length ≠ calcsize fmt) :
    unpack fmt data = none := by
  rw [← Option.not_isSome_iff_eq_none, unpack_isSome]
  exact h

/-- What the two formats make of a byte string: the event that `unpackEvent` finds, at some time. -/
theorem unpack_formats (data : List UInt8) (etype code val : ℤ) :
    (∃ sec usec, unpack llHHI data = some [sec, usec, etype, code, val] ∨
      unpack iiHHI data = some [sec, usec, etype, code, val]) ↔
    ∃ ev, unpackEvent data = some ev ∧ (ev.etype : ℤ) = etype ∧ (ev.code : ℤ) = code ∧
      (ev.val : ℤ) = val := by
  unfold unpackEvent
  by_cases h24 : data.length = 24
  · have h16 : unpack iiHHI data = none := unpack_of_length iiHHI (by rw [h24]; decide)
    obtain ⟨sec, usec, hunpack⟩ := unpack_event (f := cLong) h24
    rw [if_pos h24, h16, show unpack llHHI data = _ from hunpack]
    simp [cLong]
  rw [if_neg h24, unpack_of_length llHHI h24]
  by_cases h16 : data.length = 16
  · obtain ⟨sec, usec, hunpack⟩ := unpack_event (f := cUInt) h16
    rw [if_pos h16, show unpack iiHHI data = _ from hunpack]
    simp [cUInt]
  · rw [if_neg h16, unpack_of_length iiHHI h16]
    simp

/-- The event of a record is the one it was packed from. -/
theorem encodes_iff (etype code val : Nat) (data : List UInt8) :
    Encodes etype code val data ↔ unpackEvent data = some ⟨etype, code, val⟩ := by
  unfold Encodes
  simp only [← unpack_eq_some, unpack_formats]
  constructor
  · rintro ⟨⟨t, c, v⟩, hev, ht, hc, hv⟩
    rw [hev]
    simp only [Nat.cast_inj] at ht hc hv
    rw [ht, hc, hv]
  · intro hev
    exact ⟨_, hev, rfl, rfl, rfl⟩

theorem snake_unpackEvent (data : List UInt8) : SnakeGame.unpackEvent data =
    (unpackEvent data).map fun ev => ((ev.etype : ℤ), (ev.code : ℤ), (ev.val : ℤ)) := by
  unfold SnakeGame.unpackEvent unpackEvent
  by_cases h24 : data.length = 24
  · obtain ⟨sec, usec, hunpack⟩ := unpack_event (f := cLong) h24
    rw [if_pos h24, if_pos h24, show unpack llHHI data = _ from hunpack]
    rfl
  · rw [if_neg h24, if_neg h24]
    by_cases h16 : data.length = 16
    · obtain ⟨sec, usec, hunpack⟩ := unpack_event (f := cUInt) h16
      rw [if_pos h16, if_pos h16, show unpack iiHHI data = _ from hunpack]
      rfl
    · rw [if_neg h16, if_neg h16]
      rfl

/-! ## What they return -/

theorem readKeypress_eq_some (data : List UInt8) (code : Nat) :
    readKeypress data = some code ↔ IsPress code data := by
  have hpress : IsPress code data ↔ unpackEvent data = some ⟨1, code, 1⟩ :=
    encodes_iff 1 code 1 data
  rw [hpress]
  unfold readKeypress
  cases hev : unpackEvent data with
  | none => simp
  | some ev =>
    obtain ⟨etype, c, val⟩ := ev
    simp only [Option.some.injEq, InputEvent.mk.injEq]
    by_cases h : etype = 1 ∧ val = 1
    · rw [if_pos h, Option.some.injEq]
      constructor
      · intro hc
        exact ⟨h.1, hc, h.2⟩
      · exact fun hc => hc.2.1
    · rw [if_neg h]
      constructor
      · intro hc
        cases hc
      · intro hc
        exact absurd ⟨hc.1, hc.2.2⟩ h

/-- The game decodes what the main loop decodes. -/
theorem snake_pollKey (data : List UInt8) : SnakeGame.pollKey data = readKeypress data := by
  unfold SnakeGame.pollKey readKeypress
  rw [snake_unpackEvent]
  cases unpackEvent data with
  | none => rfl
  | some ev =>
    simp only [Option.map_some, Nat.cast_eq_one, Int.toNat_natCast]

/-- **The decoders agree**, and invert the encoding of key presses. -/
theorem decoders_agree (data : List UInt8) :
    CallScreen.readKeypress data = readKeypress data ∧
    SnakeGame.pollKey data = readKeypress data ∧
    (∀ code, readKeypress data = some code ↔ IsPress code data) ∧
    (readKeypress data = none ↔ ∀ code, ¬ IsPress code data) := by
  refine ⟨callScreen_readKeypress data, snake_pollKey data, readKeypress_eq_some data, ?_⟩
  rw [Option.eq_none_iff_forall_ne_some]
  exact forall_congr' fun code => not_congr (readKeypress_eq_some data code)

/-- A press of `5` at a time before 1970, and its release. -/
example :
    (pack llHHI [-1, 999999, 1, 6, 1]).bind readKeypress = some 6 ∧
    (pack iiHHI [0, 0, 1, 6, 0]).bind readKeypress = none := by
  decide +kernel

end NeoDCT
