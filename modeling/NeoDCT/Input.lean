import NeoDCT.Lib.PyText

/-!
# The keypad

What `select` and `os.read` give, one `Poll` at a time, and the two decoders that turn it into a
key code: `NeoDCT_UI.read_keypress` (core/main.py) and `call_screen._read_keypress`
(ui/Dialer/call_screen.py).  Bytes are little-endian and `struct` sizes are those of a 64-bit
platform, so `llHHI` has 24 bytes and `IIHHI` has 16.
-/

namespace NeoDCT

/-- One `select` on the keypad, and the `os.read(fd, 24)` after it when the keypad is ready. -/
structure Poll where
  /-- The clock when the poll is over. -/
  time : ℚ
  data : Option (List UInt8)
deriving DecidableEq

/-- An input event; the timestamp is unpacked too, but nothing reads it. -/
structure InputEvent where
  etype : Nat
  code : Nat
  val : Nat
deriving DecidableEq, Repr

/-- A little-endian unsigned integer. -/
def fromBytes : List UInt8 → Nat
  | [] => 0
  | b :: bs => b.toNat + 256 * fromBytes bs

/-- The fields `H H I` at offset `o`. -/
def unpackHHI (o : Nat) (data : List UInt8) : InputEvent where
  etype := fromBytes ((data.drop o).take 2)
  code := fromBytes ((data.drop (o + 2)).take 2)
  val := fromBytes ((data.drop (o + 4)).take 4)

/-- The event in `data`, by its length: `struct.unpack('llHHI', data)`, `struct.unpack('IIHHI', data)`. -/
def unpackEvent (data : List UInt8) : Option InputEvent :=
  if data.length = 24 then some (unpackHHI 16 data)
  else if data.length = 16 then some (unpackHHI 8 data)
  else none

/-- `NeoDCT_UI.read_keypress`, on what `os.read` gave. -/
def readKeypress (data : List UInt8) : Option Nat :=
  match unpackEvent data with
  | some ev => if ev.etype = 1 ∧ ev.val = 1 then some ev.code else none
  | none => none

/-- `call_screen._read_keypress`: the two lengths are tested one after the other. -/
def CallScreen.readKeypress (data : List UInt8) : Option Nat :=
  let short : Option Nat :=
    if data.length = 16 then
      let ev := unpackHHI 8 data
      if ev.etype = 1 ∧ ev.val = 1 then some ev.code else none
    else none
  if data.length = 24 then
    let ev := unpackHHI 16 data
    if ev.etype = 1 ∧ ev.val = 1 then some ev.code else short
  else short

/-- The call screen decodes what the main loop decodes. -/
theorem callScreen_readKeypress (data : List UInt8) :
    CallScreen.readKeypress data = readKeypress data := by
  unfold CallScreen.readKeypress readKeypress unpackEvent
  by_cases h24 : data.length = 24
  · have h16 : ¬ data.length = 16 := by omega
    simp [h24]
  · by_cases h16 : data.length = 16 <;> simp [h24, h16]

/-- An event as the kernel writes it, in 24 bytes, at time 0. -/
def packEvent (ev : InputEvent) : List UInt8 :=
  List.replicate 16 0 ++
    [.ofNat ev.etype, .ofNat (ev.etype / 256), .ofNat ev.code, .ofNat (ev.code / 256),
      .ofNat ev.val, .ofNat (ev.val / 256), .ofNat (ev.val / 65536), .ofNat (ev.val / 16777216)]

theorem unpackEvent_packEvent (ev : InputEvent) (ht : ev.etype < 2 ^ 16) (hc : ev.code < 2 ^ 16)
    (hv : ev.val < 2 ^ 32) : unpackEvent (packEvent ev) = some ev := by
  obtain ⟨etype, code, val⟩ := ev
  simp only [unpackEvent, packEvent, unpackHHI, fromBytes, List.replicate, List.cons_append,
    List.nil_append, List.length_cons, List.length_nil, List.drop, List.take, UInt8.toNat_ofNat',
    Nat.zero_add, Nat.reduceAdd, if_true, Option.some.injEq, InputEvent.mk.injEq]
  simp only [] at ht hc hv
  refine ⟨by omega, by omega, by omega⟩

/-- The event of a poll, if it gave one. -/
def Poll.event (p : Poll) : Option InputEvent := p.data.bind unpackEvent

/-- The key code `read_keypress` returns for a poll. -/
def Poll.key (p : Poll) : Option Nat := p.data.bind readKeypress

theorem Poll.key_eq (p : Poll) : p.key =
    p.event.bind fun ev => if ev.etype = 1 ∧ ev.val = 1 then some ev.code else none := by
  unfold Poll.key Poll.event
  cases p.data with
  | none => rfl
  | some data => unfold readKeypress; cases h : unpackEvent data <;> simp [h]

/-- A poll that finds a key pressed. -/
def Poll.press (time : ℚ) (code : Nat) : Poll := ⟨time, some (packEvent ⟨1, code, 1⟩)⟩

/-- The key presses in a stream of polls, in order. -/
def presses (input : List Poll) : List Nat := input.filterMap Poll.key

/-- The key presses, with the clock when each is read. -/
def timedPresses (input : List Poll) : List (ℚ × Nat) :=
  input.filterMap fun p => p.key.map fun key => (p.time, key)

theorem presses_eq (input : List Poll) : presses input = (timedPresses input).map Prod.snd := by
  unfold presses timedPresses
  rw [List.map_filterMap]
  congr 1
  funext p
  cases p.key <;> rfl

end NeoDCT
